/- ID: Substrate/Protocol/Ported
   source: framework/sdk/go/cut.go, framework/sdk/python/src/srcport_framework/cut.py, policy.py, host.py
   digest: The Rust, Go and Python frameworks cut, seed and resume alike. -/

import Substrate.Framework.Go
import Substrate.Framework.Python
import Substrate.Library.Gathering
import Substrate.Protocol.Reports
import Substrate.Protocol.Reseeds

set_option autoImplicit false
set_option relaxedAutoImplicit false

namespace Substrate.Protocol.Ported

open Substrate.Kernel.Wire
open Substrate.Kernel.Hashing
open Substrate.Kernel.Memory
open Substrate.Kernel.Runs (getRun listDerivations)
open Substrate.Kernel.Api (Reachable exec step)
open Substrate.Framework
open Substrate.Framework.Steps
open Substrate.Framework.Policy
open Substrate.Framework.Cut (Checked SeedSpec AssemblyCut invalid rebind)
open Substrate.Protocol.Atoms
open Substrate.Protocol.Slots (apply_terms slots_apply)
open Substrate.Protocol.Cuts (Closed ids)
open Substrate.Library.Checks
open Substrate.Library.FiniteMap
open Substrate.Library.Gathering
open Substrate.Library.Worklist (Search)

inductive ErrorKind
  | kernel (e : KernelError)
  | noPlugin (module : String)
  | invalid
  | stepFailed
  deriving DecidableEq

def kindOf : FrameworkError → ErrorKind
  | .kernel e => .kernel e
  | .noPlugin module => .noPlugin module
  | .invalid _ => .invalid
  | .stepFailed _ => .stepFailed

/-- A result whose error is known by its kind. -/
def kinded {α : Type} (result : Checked α) : Except ErrorKind α := result.mapError kindOf

@[simp] theorem kinded_ok {α : Type} (a : α) : kinded (.ok a : Checked α) = .ok a := rfl

@[simp] theorem kinded_invalid {α : Type} (reason : String) :
    kinded (invalid reason : Checked α) = .error .invalid := rfl

theorem kinded_guard {α : Type} {p q : Prop} [Decidable p] [Decidable q] {r r' : String}
    {x y : Checked α} (same : p ↔ q) (next : ¬p → kinded x = kinded y) :
    kinded (if p then invalid r else x) = kinded (if q then invalid r' else y) := by
  by_cases here : p
  · rw [if_pos here, if_pos (same.mp here)]
    rfl
  · rw [if_neg here, if_neg (mt same.mpr here)]
    exact next here

theorem kinded_bind {α β : Type} {x y : Checked α} {f g : α → Checked β}
    (first : kinded x = kinded y) (next : ∀ a, y = .ok a → kinded (f a) = kinded (g a)) :
    kinded (x >>= f) = kinded (y >>= g) := by
  cases x with
  | error e =>
      cases y with
      | error e' => exact congrArg Except.error (Except.error.inj first)
      | ok b => cases first
  | ok a =>
      cases y with
      | error e' => cases first
      | ok b =>
          obtain rfl : a = b := Except.ok.inj first
          exact next a rfl

theorem kinded_stop {α β : Type} {x : Checked α} {kind : ErrorKind} (first : kinded x = .error kind)
    (f : α → Checked β) : kinded (x >>= f) = .error kind := by
  cases x with
  | error e => exact congrArg Except.error (Except.error.inj first)
  | ok a => cases first

theorem kinded_next {α β : Type} {x : Checked α} {a : α} (first : kinded x = .ok a)
    (f : α → Checked β) : kinded (x >>= f) = kinded (f a) := by
  cases x with
  | error e => cases first
  | ok b =>
      obtain rfl : b = a := Except.ok.inj first
      rfl

section Kept

variable (assembly : Assembly)

theorem go_predecessors (nodeId : String) :
    Go.transitivePredecessors assembly nodeId = Cut.transitivePredecessors assembly nodeId :=
  congrArg Search.found (Search.walk_eq_run _ _ (List.nil_subset _))

theorem python_predecessors (nodeId : String) :
    Python.transitivePredecessors assembly nodeId = Cut.transitivePredecessors assembly nodeId :=
  congrArg Search.found (Search.walk_eq_run _ _ (List.nil_subset _))

private theorem go_checkOnly (known seen ids : List String) :
    kinded (Go.checkOnly known seen ids) = kinded (Cut.checkOnly known seen ids) := by
  induction ids generalizing seen with
  | nil => rfl
  | cons id rest ih =>
      exact kinded_guard Iff.rfl fun _ => kinded_guard Iff.rfl fun _ => ih (id :: seen)

private theorem checkOnly_kinded (known ids seen : List String) :
    kinded (Cut.checkOnly known seen ids) =
      if ids.Nodup ∧ (∀ id ∈ ids, id ∈ known) ∧ ∀ id ∈ ids, id ∉ seen then .ok ()
      else .error .invalid := by
  induction ids generalizing seen with
  | nil => simp [Cut.checkOnly]
  | cons id rest ih =>
      rw [Cut.checkOnly]
      by_cases met : id ∈ seen
      · simp [met]
      · by_cases known_ : id ∈ known
        · rw [if_neg met, if_neg (not_not.mpr known_), ih]
          refine if_congr ?_ rfl rfl
          rw [List.nodup_cons, List.forall_mem_cons, List.forall_mem_cons]
          simp only [List.mem_cons, not_or]
          constructor
          · rintro ⟨nodup, all, apart⟩
            exact ⟨⟨fun again => (apart id again).1 rfl, nodup⟩, ⟨known_, all⟩, met,
              fun j member => (apart j member).2⟩
          · rintro ⟨⟨once, nodup⟩, ⟨-, all⟩, -, apart⟩
            exact ⟨nodup, all, fun j member =>
              ⟨fun same => once (same ▸ member), apart j member⟩⟩
        · simp [met, known_]

theorem go_resolves (plan : NodePlan) :
    kinded (Go.resolveKeptNodes assembly plan) = kinded (Cut.resolveKeptNodes assembly plan) := by
  unfold Go.resolveKeptNodes Cut.resolveKeptNodes
  refine kinded_guard List.map_eq_nil_iff.symm fun _ => ?_
  cases assembly.terminal with
  | none => rfl
  | some terminal =>
      refine kinded_guard Iff.rfl fun _ => ?_
      cases plan with
      | all => rfl
      | only ids =>
          exact kinded_guard Iff.rfl fun _ => kinded_bind (go_checkOnly _ [] ids) fun _ _ => rfl
      | after nodeId =>
          dsimp only
          rw [go_predecessors]
          exact kinded_guard Iff.rfl fun _ => kinded_guard Iff.rfl fun _ =>
            kinded_guard Iff.rfl fun _ => rfl
      | «from» nodeId =>
          exact kinded_guard Iff.rfl fun _ => kinded_guard Iff.rfl fun _ => rfl

private theorem python_only (known ids : List String) {α : Type} (next : Checked α) :
    kinded (if ids.length ≠ ids.dedup.length then
        invalid "NodePlan only contains duplicate node id"
      else
        match ids.find? (· ∉ known) with
        | some id => invalid ("NodePlan only references unknown node " ++ id)
        | none => next) =
      kinded (Cut.checkOnly known [] ids >>= fun _ => next) := by
  have checked := checkOnly_kinded known ids []
  have repeats : ids.length = ids.dedup.length ↔ ids.Nodup := by
    rw [← List.dedup_eq_self]
    refine ⟨fun same => (List.dedup_sublist ids).eq_of_length same.symm, fun same => ?_⟩
    rw [same]
  by_cases nodup : ids.Nodup
  · rw [if_neg (not_not.mpr (repeats.mpr nodup))]
    cases found : ids.find? (· ∉ known) with
    | some id =>
        have strange : id ∉ known := by simpa using List.find?_some found
        have unknown : ¬∀ id ∈ ids, id ∈ known := fun all =>
          strange (all id (List.mem_of_find?_eq_some found))
        rw [if_neg fun both => unknown both.2.1] at checked
        exact (kinded_stop checked _).symm
    | none =>
        have all : ∀ id ∈ ids, id ∈ known := fun id member => by
          simpa using List.find?_eq_none.mp found id member
        rw [if_pos ⟨nodup, all, fun _ _ => List.not_mem_nil⟩] at checked
        exact (kinded_next checked fun _ => next).symm
  · rw [if_pos (mt repeats.mp nodup)]
    rw [if_neg fun both => nodup both.1] at checked
    exact (kinded_stop checked _).symm

variable {assembly}

theorem python_resolves (ends : assembly.terminal.isSome) (plan : NodePlan) :
    kinded (Python.resolveKeptNodes assembly plan) = kinded (Cut.resolveKeptNodes assembly plan) := by
  obtain ⟨terminal, declared⟩ := Option.isSome_iff_exists.mp ends
  unfold Python.resolveKeptNodes Cut.resolveKeptNodes
  rw [declared]
  refine kinded_guard List.map_eq_nil_iff.symm fun _ => kinded_guard Iff.rfl fun _ => ?_
  cases plan with
  | all => rfl
  | only ids => exact kinded_guard Iff.rfl fun _ => python_only _ ids _
  | after nodeId =>
      dsimp only
      rw [python_predecessors]
      exact kinded_guard Iff.rfl fun _ => kinded_guard Iff.rfl fun _ =>
        kinded_guard Iff.rfl fun _ => rfl
  | «from» nodeId =>
      exact kinded_guard Iff.rfl fun _ => kinded_guard Iff.rfl fun _ => rfl

end Kept

section Seeds

/-- Producer and port. -/
def portKey (s : SeedSpec) : Lex (String × String) := toLex (s.fromNode, s.fromPort)

theorem portKey_eq_iff (s t : SeedSpec) :
    portKey s = portKey t ↔ s.fromNode = t.fromNode ∧ s.fromPort = t.fromPort := by
  rw [portKey, portKey, toLex_inj, Prod.mk.injEq]

theorem keep_portKey : keep portKey = fun (kept : List SeedSpec) s =>
    if kept.any fun k => k.fromNode == s.fromNode && k.fromPort == s.fromPort then kept
    else kept ++ [s] := by
  funext kept s
  have same : (fun k => decide (portKey k = portKey s)) = fun k : SeedSpec =>
      k.fromNode == s.fromNode && k.fromPort == s.fromPort := by
    funext k
    rw [Bool.eq_iff_iff, decide_eq_true_iff, portKey_eq_iff, Bool.and_eq_true, beq_iff_eq, beq_iff_eq]
  rw [keep, same]

theorem seedBefore_iff (s t : SeedSpec) : Cut.seedBefore s t = true ↔ portKey s < portKey t := by
  rw [Cut.seedBefore, portKey, portKey, Prod.Lex.toLex_lt_toLex]
  simp

theorem gathers_rust (seeds : List SeedSpec) : Gathers portKey seeds (Cut.uniqueSeeds seeds) := by
  rw [Cut.uniqueSeeds, ← keep_portKey]
  refine gathers_sorted _ (fun s t => ?_) seeds
  rw [← not_lt, ← seedBefore_iff]
  simp

theorem gathers_python (seeds : List SeedSpec) :
    Gathers portKey seeds (Python.uniqueSeeds seeds) := by
  have defaults : Python.setDefault = keep portKey := by
    rw [keep_portKey]
    rfl
  rw [Python.uniqueSeeds, defaults]
  exact gathers_sorted _ (fun s t => Iff.rfl) seeds

private theorem nul_lt {c : Char} (other : c ≠ '\x00') : '\x00' < c := by
  have least : '\x00' ≤ c := by
    show (0 : Nat) ≤ c.toNat
    exact Nat.zero_le _
  exact lt_of_le_of_ne least other.symm

private theorem joined_lt {a b : List Char} (p q : List Char) (left : '\x00' ∉ a)
    (right : '\x00' ∉ b) (below : a < b ∨ a = b ∧ p < q) :
    a ++ '\x00' :: p < b ++ '\x00' :: q := by
  induction a generalizing b with
  | nil =>
      cases b with
      | nil =>
          rcases below with none_ | ⟨-, ports⟩
          · exact absurd none_ (lt_irrefl _)
          · exact List.cons_lt_cons_iff.mpr (.inr ⟨rfl, ports⟩)
      | cons y b =>
          exact List.cons_lt_cons_iff.mpr (.inl (nul_lt fun same => right (same ▸ List.mem_cons_self)))
  | cons x a ih =>
      cases b with
      | nil =>
          rcases below with short | ⟨same, -⟩
          · exact absurd short (List.not_lt_nil _)
          · cases same
      | cons y b =>
          refine List.cons_lt_cons_iff.mpr ?_
          have rest (below : a < b ∨ a = b ∧ p < q) : a ++ '\x00' :: p < b ++ '\x00' :: q :=
            ih (fun member => left (List.mem_cons_of_mem _ member))
              (fun member => right (List.mem_cons_of_mem _ member)) below
          rcases below with less | ⟨same, ports⟩
          · rcases List.cons_lt_cons_iff.mp less with head | ⟨head, tail⟩
            · exact .inl head
            · exact .inr ⟨head, rest (.inl tail)⟩
          · obtain ⟨head, tail⟩ := List.cons.inj same
            exact .inr ⟨head, rest (.inr ⟨tail, ports⟩)⟩

theorem seedKey_lt {s t : SeedSpec} (left : '\x00' ∉ s.fromNode.toList)
    (right : '\x00' ∉ t.fromNode.toList) (below : portKey s < portKey t) :
    Go.seedKey s < Go.seedKey t := by
  rw [portKey, portKey, Prod.Lex.toLex_lt_toLex] at below
  simp only [String.lt_iff_toList_lt, ← String.toList_inj] at below
  rw [Go.seedKey, Go.seedKey, String.lt_iff_toList_lt]
  simp only [String.toList_append]
  rw [List.append_assoc, List.append_assoc]
  exact joined_lt _ _ left right below

theorem seedKey_eq_iff {s t : SeedSpec} (left : '\x00' ∉ s.fromNode.toList)
    (right : '\x00' ∉ t.fromNode.toList) : portKey s = portKey t ↔ Go.seedKey s = Go.seedKey t := by
  constructor
  · intro same
    obtain ⟨node, port⟩ := (portKey_eq_iff s t).mp same
    rw [Go.seedKey, Go.seedKey, node, port]
  · intro same
    rcases lt_trichotomy (portKey s) (portKey t) with below | equal | above
    · exact absurd same (ne_of_lt (seedKey_lt left right below))
    · exact equal
    · exact absurd same.symm (ne_of_lt (seedKey_lt right left above))

theorem go_uniqueSeeds {seeds : List SeedSpec} (plain : ∀ s ∈ seeds, '\x00' ∉ s.fromNode.toList) :
    Go.uniqueSeeds seeds = Cut.uniqueSeeds seeds :=
  (gathers_orInsert Go.seedKey seeds).unique ((gathers_rust seeds).rekey
    (fun s one t other => seedKey_eq_iff (plain s one) (plain t other))
    fun s one t other => seedKey_lt (plain s one) (plain t other))

theorem python_uniqueSeeds (seeds : List SeedSpec) : Python.uniqueSeeds seeds = Cut.uniqueSeeds seeds :=
  (gathers_python seeds).unique (gathers_rust seeds)

end Seeds

section Cutting

variable {assembly : Assembly}

theorem seed_producer {kept : List String} {bindings : List Binding}
    {rebound : List (Binding × Option SeedSpec)} (rebinds : bindings.mapM (rebind kept) = .ok rebound)
    {s : SeedSpec} (member : s ∈ rebound.filterMap (·.2)) :
    ∃ b ∈ bindings, b.input = "" ∧ s.fromNode = b.fromNode := by
  obtain ⟨p, listed, seed⟩ := List.mem_filterMap.mp member
  obtain ⟨b, given, made⟩ := (forall₂_mem (mapM_eq_ok.mp rebinds)).2 p listed
  refine ⟨b, given, ?_⟩
  unfold rebind at made
  split_ifs at made with named
  · obtain rfl := Except.ok.inj made
    cases seed
  · cases made
  · obtain rfl := Except.ok.inj made
    cases seed
  · obtain rfl := Except.ok.inj made
    cases seed
    exact ⟨not_not.mp named, rfl⟩

theorem go_cuts (plain : ∀ b ∈ assembly.bindings, b.input = "" → '\x00' ∉ b.fromNode.toList)
    (plan : NodePlan) :
    kinded (Go.materializeCut assembly plan) = kinded (Cut.materializeCut assembly plan) := by
  unfold Go.materializeCut Cut.materializeCut
  refine kinded_bind (go_resolves assembly plan) fun kept _ => ?_
  split
  · rfl
  · refine kinded_bind rfl fun rebound rebinds => ?_
    rw [go_uniqueSeeds fun s member => ?_]
    obtain ⟨b, given, reads, same⟩ := seed_producer rebinds member
    rw [same]
    exact plain b (List.mem_filter.mp given).1 reads

theorem python_cuts (ends : assembly.terminal.isSome) (plan : NodePlan) :
    kinded (Python.materializeCut assembly plan) = kinded (Cut.materializeCut assembly plan) := by
  obtain ⟨terminal, declared⟩ := Option.isSome_iff_exists.mp ends
  unfold Python.materializeCut Cut.materializeCut
  refine kinded_bind (python_resolves ends plan) fun kept _ => ?_
  split
  · rfl
  · refine kinded_bind rfl fun rebound _ => ?_
    rw [python_uniqueSeeds, declared]
    rfl

end Cutting

section Inputs

theorem gathers_merge (base seeds : List NamedArtifact) :
    Gathers (·.name) (base ++ seeds).reverse (Cut.mergeInputs base seeds) :=
  gathers_insert _ _

theorem lookup_filled (l : List NamedArtifact) (m : KeyMap String NamedArtifact) (name : String) :
    (l.foldl (fun m na => m.insert na.name na) m).lookup name =
      (firstOf (·.name) name l.reverse).or (m.lookup name) := by
  induction l generalizing m with
  | nil => rfl
  | cons na l ih =>
      rw [List.foldl_cons, ih, lookup_insert_of, List.reverse_cons]
      have last : firstOf (·.name) name (l.reverse ++ [na]) =
          (firstOf (·.name) name l.reverse).or (if na.name = name then some na else none) := by
        unfold firstOf
        rw [List.find?_append, List.find?_singleton]
        simp
      rw [last, Option.or_assoc]
      congr 1
      by_cases same : na.name = name
      · rw [if_pos same, if_pos same.symm]
        rfl
      · rw [if_neg same, if_neg (Ne.symm same)]
        rfl

private theorem gathers_named {l : List NamedArtifact} {m : KeyMap String NamedArtifact}
    (holds : ∀ name, m.lookup name = firstOf (·.name) name l) {names : List String}
    (distinct : names.Nodup) (listed : ∀ name, name ∈ names ↔ name ∈ m) :
    Gathers (·.name) l ((names.insertionSort (· ≤ ·)).filterMap m.lookup) := by
  have lookups : m.lookup = (firstOf (·.name) · l) := funext holds
  rw [lookups]
  refine gathers_keys ?_ fun name => ?_
  · have sorted := List.pairwise_insertionSort (· ≤ ·) names
    have apart : (names.insertionSort (· ≤ ·)).Nodup :=
      (List.perm_insertionSort _ _).nodup_iff.mpr distinct
    exact (sorted.and apart).imp fun both => lt_of_le_of_ne both.1 both.2
  · rw [List.mem_insertionSort, listed, ← firstOf_isSome, ← holds, ← Option.isSome_iff_exists,
      AList.lookup_isSome]

private theorem filled (l : List NamedArtifact) (name : String) :
    (l.foldl (fun m na => m.insert na.name na) (∅ : KeyMap String NamedArtifact)).lookup name =
      firstOf (·.name) name l.reverse := by
  rw [lookup_filled, AList.lookup_empty, Option.or_none]

theorem python_merges (base seeds : List NamedArtifact) :
    Python.mergeInputs base seeds = Cut.mergeInputs base seeds := by
  have gathers : Gathers (·.name) (base ++ seeds).reverse (Python.mergeInputs base seeds) :=
    gathers_named (filled _) (AList.keys_nodup _) fun name => AList.mem_keys.symm
  exact gathers.unique (gathers_merge base seeds)

private theorem merged_go (l : List NamedArtifact) {m : KeyMap String NamedArtifact}
    {order : List String} (distinct : order.Nodup) (listed : ∀ name, name ∈ order ↔ name ∈ m) :
    (l.foldl Go.mergeInput (m, order)).1 = l.foldl (fun m na => m.insert na.name na) m ∧
      (l.foldl Go.mergeInput (m, order)).2.Nodup ∧
      ∀ name, name ∈ (l.foldl Go.mergeInput (m, order)).2 ↔
        name ∈ (l.foldl Go.mergeInput (m, order)).1 := by
  induction l generalizing m order with
  | nil => exact ⟨rfl, distinct, listed⟩
  | cons na l ih =>
      have known : ∀ name, name ∈ m.insert na.name na ↔ name = na.name ∨ name ∈ m := fun name => by
        rw [← AList.lookup_isSome, lookup_insert_of, ← AList.lookup_isSome]
        split <;> simp [*]
      rw [List.foldl_cons, Go.mergeInput]
      by_cases there : na.name ∈ m
      · rw [if_pos there]
        refine ih distinct fun name => ?_
        rw [known, listed]
        exact ⟨.inr, fun either => either.elim (fun same => same ▸ there) id⟩
      · rw [if_neg there]
        refine ih ?_ fun name => ?_
        · exact List.nodup_append.mpr ⟨distinct, List.nodup_singleton _, fun a member b last same =>
            there ((listed _).mp (List.mem_singleton.mp last ▸ same ▸ member))⟩
        · rw [known, List.mem_append, List.mem_singleton, listed, or_comm]

theorem go_merges (base seeds : List NamedArtifact) :
    Go.mergeInputs base seeds = Cut.mergeInputs base seeds := by
  obtain ⟨same, distinct, listed⟩ := @merged_go (base ++ seeds) ∅ [] List.nodup_nil
    fun name => by simp
  have gathers : Gathers (·.name) (base ++ seeds).reverse (Go.mergeInputs base seeds) := by
    refine gathers_named (fun name => ?_) distinct listed
    rw [same]
    exact filled _ name
  exact gathers.unique (gathers_merge base seeds)

end Inputs

section Present

variable {inputs : List NamedArtifact} {derivations : List Derivation}

theorem python_validates (cut : AssemblyCut) (carried : ∀ i ∈ inputs, i.artifact.isSome) :
    Python.validateSeedsPresent cut inputs = Cut.validateSeedsPresent cut inputs := by
  have missing : Python.missingSeed inputs = Cut.missingSeed inputs := by
    funext s
    unfold Python.missingSeed Cut.missingSeed
    cases found : inputs.reverse.find? (·.name == s.inputName) with
    | none => rfl
    | some na =>
        obtain ⟨r, artifact⟩ := Option.isSome_iff_exists.mp
          (carried na (List.mem_reverse.mp (List.mem_of_find?_eq_some found)))
        simp [artifact]
  cases listed : cut.requiredSeeds.filterMap (Cut.missingSeed inputs) with
  | nil => simp only [Python.validateSeedsPresent, Cut.validateSeedsPresent, missing, listed]
  | cons first rest =>
      simp only [Python.validateSeedsPresent, Cut.validateSeedsPresent, missing, listed]

private theorem python_outputs (nodeId : String) {outputs : List NamedArtifact}
    (carried : ∀ o ∈ outputs, o.artifact.isSome) (seen : List String) :
    Cut.seedsOfOutputs nodeId outputs seen = .ok (Python.seedsOfOutputs nodeId outputs seen) := by
  induction outputs generalizing seen with
  | nil => rfl
  | cons o rest ih =>
      obtain ⟨first, rest_⟩ := List.forall_mem_cons.mp carried
      obtain ⟨r, artifact⟩ := Option.isSome_iff_exists.mp first
      unfold Cut.seedsOfOutputs Python.seedsOfOutputs
      dsimp only
      by_cases skipped : o.name = "" ∨ Cut.seedInputName nodeId o.name ∈ seen
      · rw [if_pos skipped, if_pos skipped]
        exact ih rest_ seen
      · rw [if_neg skipped, if_neg skipped, artifact]
        exact bind_eq_ok.mpr ⟨_, ih rest_ _, rfl⟩

theorem python_seeds (runId : String) (carried : ∀ d ∈ derivations, ∀ o ∈ d.outputs, o.artifact.isSome)
    (cutNodes : List String) :
    Python.seedsOfRun runId derivations cutNodes = Cut.seedsOfRun runId derivations cutNodes := by
  have each : ∀ nodes seen, Python.seedsOfNodes runId derivations nodes seen =
      Cut.seedsOfNodes runId derivations nodes seen := by
    intro nodes
    induction nodes with
    | nil => exact fun _ => rfl
    | cons nodeId rest ih =>
        intro seen
        unfold Python.seedsOfNodes Cut.seedsOfNodes
        cases found : (derivations.filter (·.nodeId == nodeId)).getLast? with
        | none => rfl
        | some d =>
            have listed := List.mem_filter.mp (List.mem_of_getLast? found)
            dsimp only
            rw [python_outputs nodeId (carried d listed.1), ih]
            rfl
  exact each _ _

end Present

section Requests

variable {assembly : Assembly}

/-- Ten thousand steps for each node are fewer than `2 ^ 64`. -/
def Short (assembly : Assembly) : Prop := assembly.nodes.length * 10000 < 2 ^ 64

instance : Decidable (Short assembly) := inferInstanceAs (Decidable (_ < _))

private theorem toNat_max (a b : UInt64) : (max a b).toNat = max a.toNat b.toNat := by
  show (if a ≤ b then b else a).toNat = _
  split
  · rename_i below
    exact (max_eq_right (UInt64.le_iff_toNat_le.mp below)).symm
  · rename_i above
    exact (max_eq_left (le_of_lt (not_le.mp (mt UInt64.le_iff_toNat_le.mpr above)))).symm

private theorem count_toNat (short : Short assembly) :
    (UInt64.ofNat assembly.nodes.length).toNat = assembly.nodes.length :=
  Nat.mod_eq_of_lt (lt_of_le_of_lt (Nat.le_mul_of_pos_right _ (by decide)) short)

theorem go_maxSteps (short : Short assembly) (policy : FrameworkPolicy) :
    Go.resolveMaxSteps policy (UInt64.ofNat assembly.nodes.length) = policy.maxSteps.getD
      (policy.defaultMaxSteps (UInt64.ofNat assembly.nodes.length)) := by
  have count := count_toNat short
  unfold Short at short
  rw [Go.resolveMaxSteps, FrameworkPolicy.defaultMaxSteps]
  generalize UInt64.ofNat assembly.nodes.length = n at count ⊢
  congr 1
  split
  · have product : n * 10000 =
        UInt64.ofNat (min (n.toNat * 10000) 18446744073709551615) := by
      rw [Nat.min_eq_left (by omega), ← UInt64.toNat_inj, UInt64.toNat_mul,
        UInt64.toNat_ofNat_of_lt' (by rw [count]; exact short)]
      exact Nat.mod_eq_of_lt (by rw [count]; exact short)
    rw [← product]
    generalize n * 10000 = m
    rw [← UInt64.toNat_inj, toNat_max]
    split
    · rename_i below
      exact (max_eq_right (le_of_lt (UInt64.lt_iff_toNat_lt.mp below))).symm
    · rename_i above
      exact (max_eq_left (not_lt.mp (mt UInt64.lt_iff_toNat_lt.mpr above))).symm
  · rfl

theorem python_maxSteps (short : Short assembly) (policy : FrameworkPolicy) :
    Python.resolveMaxSteps policy assembly.nodes.length < 2 ^ 64 ∧
      UInt64.ofNat (Python.resolveMaxSteps policy assembly.nodes.length) = policy.maxSteps.getD
        (policy.defaultMaxSteps (UInt64.ofNat assembly.nodes.length)) := by
  have count := count_toNat short
  unfold Short at short
  unfold Python.resolveMaxSteps FrameworkPolicy.defaultMaxSteps
  rw [count]
  cases policy.maxSteps with
  | some n => exact ⟨n.toNat_lt, UInt64.ofNat_toNat⟩
  | none =>
      dsimp only [Option.elim_none, Option.getD_none]
      split
      · generalize assembly.nodes.length * 10000 = m at short ⊢
        refine ⟨by omega, ?_⟩
        rw [Nat.min_eq_left (by omega), ← UInt64.toNat_inj]
        have bound : max m 10000 < 2 ^ 64 := by omega
        rw [UInt64.toNat_ofNat_of_lt' bound, toNat_max, UInt64.toNat_ofNat_of_lt' short]
        rfl
      · exact ⟨by decide, rfl⟩

theorem go_requests (short : Short assembly) (runId : String) (inputs : List NamedArtifact)
    (policy : FrameworkPolicy) :
    Go.pipelineRequest runId assembly inputs policy =
      Pipeline.pipelineRequest runId assembly inputs policy := by
  have steps := go_maxSteps short { policy with nodes := .all }
  unfold Go.pipelineRequest Pipeline.pipelineRequest Go.applyToRunRequest
    FrameworkPolicy.applyToRunRequest
  dsimp only [Option.elim_some]
  rw [steps]

theorem python_requests (short : Short assembly) (runId : String) (inputs : List NamedArtifact)
    (policy : FrameworkPolicy) :
    Python.pipelineRequest runId assembly inputs policy =
      some (Pipeline.pipelineRequest runId assembly inputs policy) := by
  obtain ⟨fits, steps⟩ := python_maxSteps short { policy with nodes := .all }
  unfold Python.pipelineRequest Pipeline.pipelineRequest Python.applyToRunRequest
    FrameworkPolicy.applyToRunRequest
  dsimp only [Option.elim_some]
  rw [if_pos fits, steps]

end Requests

section Sdks

/-- What a framework computes between its callers and the kernel. -/
structure Sdk where
  materializeCut : Assembly → NodePlan → Checked AssemblyCut
  validateSeedsPresent : AssemblyCut → List NamedArtifact → Checked Unit
  seedsOfRun : String → List Derivation → List String → Checked (List NamedArtifact)
  mergeInputs : List NamedArtifact → List NamedArtifact → List NamedArtifact
  pipelineRequest : String → Assembly → List NamedArtifact → FrameworkPolicy → Option RunRequest

def rust : Sdk :=
  { materializeCut := Cut.materializeCut
    validateSeedsPresent := Cut.validateSeedsPresent
    seedsOfRun := Cut.seedsOfRun
    mergeInputs := Cut.mergeInputs
    pipelineRequest := fun runId assembly inputs policy =>
      some (Pipeline.pipelineRequest runId assembly inputs policy) }

def go : Sdk :=
  { materializeCut := Go.materializeCut
    validateSeedsPresent := Cut.validateSeedsPresent
    seedsOfRun := Cut.seedsOfRun
    mergeInputs := Go.mergeInputs
    pipelineRequest := fun runId assembly inputs policy =>
      some (Go.pipelineRequest runId assembly inputs policy) }

def python : Sdk :=
  { materializeCut := Python.materializeCut
    validateSeedsPresent := Python.validateSeedsPresent
    seedsOfRun := Python.seedsOfRun
    mergeInputs := Python.mergeInputs
    pipelineRequest := Python.pipelineRequest }

namespace Sdk

variable (sdk : Sdk)

/-- The kernel request that a pipeline is started with. -/
def started (runId : String) (assembly : Assembly) (inputs : List NamedArtifact)
    (policy : FrameworkPolicy) : Checked (Option RunRequest) := do
  let cut ← sdk.materializeCut assembly policy.nodes
  sdk.validateSeedsPresent cut inputs
  .ok (sdk.pipelineRequest runId cut.assembly inputs policy)

/-- The kernel request that a prior run is resumed with. -/
def resumed (newRunId priorRunId afterNode : String) (policy : FrameworkPolicy) (prior : Run)
    (derivations : List Derivation) : Checked (Option RunRequest) := do
  let policy := { policy with nodes := .after afterNode }
  let cut ← sdk.materializeCut prior.assembly policy.nodes
  let skipped := cut.skipped.map (·.nodeId)
  let cutNodes := if afterNode ∈ skipped then skipped else skipped ++ [afterNode]
  let seeds ← sdk.seedsOfRun priorRunId derivations cutNodes
  let base := prior.inputs.filter (!Cut.isSeedInputName ·.name)
  sdk.started newRunId prior.assembly (sdk.mergeInputs base seeds) policy

end Sdk

variable {assembly : Assembly}

theorem short_cut (short : Short assembly) {plan : NodePlan} {cut : AssemblyCut}
    (made : Cut.materializeCut assembly plan = .ok cut) : Short cut.assembly := by
  obtain ⟨kept, -, made⟩ := bind_eq_ok.mp made
  split_ifs at made
  · obtain rfl := Except.ok.inj made
    exact short
  · obtain ⟨rebound, -, made⟩ := bind_eq_ok.mp made
    obtain rfl := Except.ok.inj made
    exact lt_of_le_of_lt (Nat.mul_le_mul_right _ (List.length_filter_le _ _)) short

theorem go_starts (plain : ∀ b ∈ assembly.bindings, b.input = "" → '\x00' ∉ b.fromNode.toList)
    (short : Short assembly) (runId : String) (inputs : List NamedArtifact) (policy : FrameworkPolicy) :
    kinded (go.started runId assembly inputs policy) =
      kinded (rust.started runId assembly inputs policy) := by
  refine kinded_bind (go_cuts plain policy.nodes) fun cut made => kinded_bind rfl fun _ _ => ?_
  show kinded (.ok _) = kinded (.ok _)
  rw [show go.pipelineRequest runId cut.assembly inputs policy = _ from
    congrArg some (go_requests (short_cut short made) runId inputs policy)]
  rfl

theorem python_starts (ends : assembly.terminal.isSome) (short : Short assembly)
    {inputs : List NamedArtifact} (carried : ∀ i ∈ inputs, i.artifact.isSome) (runId : String)
    (policy : FrameworkPolicy) :
    kinded (python.started runId assembly inputs policy) =
      kinded (rust.started runId assembly inputs policy) := by
  refine kinded_bind (python_cuts ends policy.nodes) fun cut made => ?_
  refine kinded_bind (congrArg kinded (python_validates cut carried)) fun _ _ => ?_
  show kinded (.ok _) = kinded (.ok _)
  rw [show python.pipelineRequest runId cut.assembly inputs policy = _ from
    python_requests (short_cut short made) runId inputs policy]
  rfl

theorem merged_among {base seeds : List NamedArtifact} {i : NamedArtifact}
    (member : i ∈ Cut.mergeInputs base seeds) : i ∈ base ++ seeds :=
  List.mem_reverse.mp (firstOf_some (((gathers_merge base seeds).members i).mp member)).1

private theorem outputs_carried (nodeId : String) {outputs seeds : List NamedArtifact}
    {seen : List String} (made : Cut.seedsOfOutputs nodeId outputs seen = .ok seeds) :
    ∀ i ∈ seeds, i.artifact.isSome := by
  induction outputs generalizing seen seeds with
  | nil =>
      obtain rfl := Except.ok.inj made
      simp
  | cons o rest ih =>
      unfold Cut.seedsOfOutputs at made
      dsimp only at made
      split_ifs at made with skipped
      · exact ih made
      · cases artifact : o.artifact with
        | none => simp [artifact, Cut.invalid] at made
        | some r =>
            rw [artifact] at made
            obtain ⟨others, made_, same⟩ := bind_eq_ok.mp made
            obtain rfl := Except.ok.inj same
            exact List.forall_mem_cons.mpr ⟨rfl, ih made_⟩

theorem seeds_carried {runId : String} {derivations : List Derivation} {cutNodes : List String}
    {seeds : List NamedArtifact} (made : Cut.seedsOfRun runId derivations cutNodes = .ok seeds) :
    ∀ i ∈ seeds, i.artifact.isSome := by
  have each : ∀ nodes seen seeds, Cut.seedsOfNodes runId derivations nodes seen = .ok seeds →
      ∀ i ∈ seeds, i.artifact.isSome := by
    intro nodes
    induction nodes with
    | nil =>
        intro seen seeds made
        obtain rfl := Except.ok.inj made
        simp
    | cons nodeId rest ih =>
        intro seen seeds made
        unfold Cut.seedsOfNodes at made
        cases found : (derivations.filter (·.nodeId == nodeId)).getLast? with
        | none => simp [found, Cut.invalid] at made
        | some d =>
            rw [found] at made
            obtain ⟨own, made_, made⟩ := bind_eq_ok.mp made
            obtain ⟨others, rest_, same⟩ := bind_eq_ok.mp made
            obtain rfl := Except.ok.inj same
            exact List.forall_mem_append.mpr ⟨outputs_carried nodeId made_, ih _ _ rest_⟩
  exact each _ _ _ made

variable {prior : Run} {derivations : List Derivation}

theorem go_resumes (plain : ∀ b ∈ prior.assembly.bindings, b.input = "" → '\x00' ∉ b.fromNode.toList)
    (short : Short prior.assembly) (newRunId priorRunId afterNode : String) (policy : FrameworkPolicy) :
    kinded (go.resumed newRunId priorRunId afterNode policy prior derivations) =
      kinded (rust.resumed newRunId priorRunId afterNode policy prior derivations) := by
  refine kinded_bind (go_cuts plain _) fun cut _ => kinded_bind rfl fun seeds _ => ?_
  show kinded (go.started _ _ (Go.mergeInputs _ seeds) _) = _
  rw [go_merges]
  exact go_starts plain short _ _ _

theorem python_resumes (ends : prior.assembly.terminal.isSome) (short : Short prior.assembly)
    (inputs : ∀ i ∈ prior.inputs, i.artifact.isSome)
    (outputs : ∀ d ∈ derivations, ∀ o ∈ d.outputs, o.artifact.isSome)
    (newRunId priorRunId afterNode : String) (policy : FrameworkPolicy) :
    kinded (python.resumed newRunId priorRunId afterNode policy prior derivations) =
      kinded (rust.resumed newRunId priorRunId afterNode policy prior derivations) := by
  refine kinded_bind (python_cuts ends _) fun cut _ => ?_
  refine kinded_bind (congrArg kinded (python_seeds _ outputs _)) fun seeds made => ?_
  show kinded (python.started _ _ (Python.mergeInputs _ seeds) _) = _
  rw [python_merges]
  refine python_starts ends short (fun i member => ?_) _ _
  rcases List.mem_append.mp (merged_among member) with own | seed
  · exact inputs i (List.mem_filter.mp own).1
  · exact seeds_carried made i seed

end Sdks

section Runs

variable [Sha256] [Prost] {store : ArtifactStorePolicy} {s : State}

theorem reachable_closed (reached : Reachable store s) {runId : String} {slot : RunSlot}
    (found : s.runs.lookup runId = some slot) : ∃ terminal, Closed slot.run.assembly terminal := by
  have all : ∀ runId slot, s.runs.lookup runId = some slot →
      ∃ terminal, Closed slot.run.assembly terminal := by
    refine Refine.reachable_invariant (P := fun s => ∀ runId slot, s.runs.lookup runId = some slot →
      ∃ terminal, Closed slot.run.assembly terminal) ?_ ?_ reached
    · intro runId slot found
      simp at found
    · intro s a guard _ before
      refine slots_apply (I := fun _ _ slot => ∃ terminal, Closed slot.run.assembly terminal) guard
        (fun _ _ kept => kept) ?_ ?_ before
      · rintro slot - ⟨env, req, assembly, maxSteps, rfl, -, ok⟩
        exact Seeds.closed_of_wellFormed ((Acceptance.validateAssembly_accepts env).mp ok)
      · intro runId slot act _ _ _ _ closed
        rw [(apply_terms s.modules slot act).assembly]
        exact closed
  exact all runId slot found

/-- Whatever run of a kernel is resumed, and after whatever node, the three frameworks come to the same
kernel request, or refuse alike; node ids without a NUL. -/
theorem sdks_resume_alike (reached : Reachable store s) {priorId : String} {prior : Run}
    {derivations : List Derivation} (read : getRun ⟨priorId⟩ s = .ok prior)
    (listed : listDerivations ⟨priorId⟩ s = .ok derivations)
    (plain : ∀ n ∈ prior.assembly.nodes, '\x00' ∉ n.id.toList) (short : Short prior.assembly)
    (newRunId afterNode : String) (policy : FrameworkPolicy) :
    let asked := kinded (rust.resumed newRunId priorId afterNode policy prior derivations)
    kinded (go.resumed newRunId priorId afterNode policy prior derivations) = asked ∧
      kinded (python.resumed newRunId priorId afterNode policy prior derivations) = asked := by
  obtain ⟨slot, found, rfl⟩ : ∃ slot, s.runs.lookup priorId = some slot ∧ slot.run = prior := by
    unfold getRun at read
    cases found : s.runs.lookup priorId with
    | none => simp [found] at read
    | some slot =>
        rw [found] at read
        exact ⟨slot, rfl, Except.ok.inj read⟩
  obtain ⟨terminal, closed⟩ := reachable_closed reached found
  obtain ⟨carried, ends⟩ := Reports.reachable_carried reached found
  refine ⟨go_resumes (fun b member input => ?_) short _ _ _ _,
    python_resumes ends short carried.inputs (fun d member o output => ?_) _ _ _ _⟩
  · obtain ⟨n, node, same⟩ := List.mem_map.mp (closed.sources b member input)
    rw [← same]
    exact plain n node
  · unfold listDerivations at listed
    split_ifs at listed
    obtain rfl := Except.ok.inj listed
    obtain ⟨⟨cap, -, fit⟩, -⟩ := Reseeds.reachable_fitting reached d (List.mem_filter.mp member).1
    obtain ⟨p, r, artifact, -, given, -⟩ := fit.stored o output
    rw [given]
    rfl

end Runs

section Relay

open Substrate.Kernel.Concrete
open Substrate.Protocol.Reseeds (relay relayCut startRelay relayed)

private theorem ok_of_toOption {ε α : Type} {x : Except ε α} {a : α} (held : x.toOption = some a) :
    x = .ok a := by
  cases x with
  | error e => cases held
  | ok b => exact congrArg _ (Option.some.inj held)

/-- After its first node the relay is resumed with the second one and with the first one's line. -/
theorem relay_resumed :
    let s := exec policy {} (stocked .once ++ startRelay :: relayed)
    ∃ prior derivations req, getRun ⟨"r"⟩ s = .ok prior ∧ listDerivations ⟨"r"⟩ s = .ok derivations ∧
      kinded (go.resumed "r'" "r" "n" .converge prior derivations) = .ok (some req) ∧
      kinded (python.resumed "r'" "r" "n" .converge prior derivations) = .ok (some req) ∧
      req.assembly = some relayCut.assembly ∧
      req.inputs = [given "__seed/n/said" (text "one"), given "line" (text "one")] := by
  intro s
  have run : (getRun ⟨"r"⟩ s).toOption.map (·.assembly) = some relay := by decide +kernel
  have asked : (getRun ⟨"r"⟩ s).toOption.bind (fun prior =>
      (listDerivations ⟨"r"⟩ s).toOption.bind fun derivations =>
        (rust.resumed "r'" "r" "n" .converge prior derivations).toOption.join.map fun req =>
          (req.assembly, req.inputs)) = some (some relayCut.assembly,
            [given "__seed/n/said" (text "one"), given "line" (text "one")]) := by decide +kernel
  obtain ⟨prior, read, asked⟩ := Option.bind_eq_some_iff.mp asked
  obtain ⟨derivations, listed, asked⟩ := Option.bind_eq_some_iff.mp asked
  obtain ⟨req, made, same⟩ := Option.map_eq_some_iff.mp asked
  obtain ⟨assembly, inputs⟩ := Prod.mk.inj same
  rw [read] at run
  have whole : prior.assembly = relay := Option.some.inj run
  have read : getRun ⟨"r"⟩ s = .ok prior := ok_of_toOption read
  have listed : listDerivations ⟨"r"⟩ s = .ok derivations := ok_of_toOption listed
  have made : kinded (rust.resumed "r'" "r" "n" .converge prior derivations) = .ok (some req) :=
    congrArg kinded (ok_of_toOption (Option.join_eq_some_iff.mp made))
  obtain ⟨one, other⟩ := sdks_resume_alike (s := s) ⟨_, rfl⟩ read listed
    (by rw [whole]; decide) (by rw [whole]; decide) "r'" "n" .converge
  exact ⟨prior, derivations, req, read, listed, one.trans made, other.trans made, assembly, inputs⟩

end Relay

end Substrate.Protocol.Ported
