/- ID: Substrate/Protocol/Seeds
   source: framework/sdk/rust/src/cut.rs
   digest: Names of seeds: when each stands for one output port of one dropped node. -/

import Substrate.Library.Joining
import Substrate.Protocol.Acceptance
import Substrate.Protocol.Cuts

set_option autoImplicit false
set_option relaxedAutoImplicit false

namespace Substrate.Protocol.Seeds

open Substrate.Kernel.Wire
open Substrate.Kernel.Memory
open Substrate.Kernel.Assembly (inputByName validateAssembly)
open Substrate.Framework.Policy (NodePlan)
open Substrate.Framework.Cut
open Substrate.Protocol.Cuts
open Substrate.Library.Checks
open Substrate.Library.FiniteMap
open Substrate.Library.Joining (join_eq_iff)

/-- A node id and the name of one of its output ports. -/
abbrev OutputPort := String × String

def seedName (p : OutputPort) : String := seedInputName p.1 p.2

/-- One node's id is the other's followed by a slash and the text before a slash of the other's port,
whose rest is the one's port. -/
def Confused (p q : OutputPort) : Prop :=
  ∃ m, q.1 = p.1 ++ "/" ++ m ∧ p.2 = m ++ "/" ++ q.2 ∨ p.1 = q.1 ++ "/" ++ m ∧ q.2 = m ++ "/" ++ p.2

private theorem seedName_toList (p : OutputPort) :
    (seedName p).toList = seedInputPrefix.toList ++ (p.1.toList ++ '/' :: p.2.toList) := by
  simp [seedName, seedInputName]

private theorem slashed_iff {a b m : String} :
    a = b ++ "/" ++ m ↔ a.toList = b.toList ++ '/' :: m.toList := by
  rw [← String.toList_inj]
  simp

theorem seedName_eq_iff (p q : OutputPort) : seedName p = seedName q ↔ p = q ∨ Confused p q := by
  rw [← String.toList_inj, seedName_toList, seedName_toList, List.append_cancel_left_eq,
    join_eq_iff, Prod.ext_iff, String.toList_inj, String.toList_inj]
  refine or_congr_right ?_
  constructor
  · rintro (⟨m, node, port⟩ | ⟨m, node, port⟩)
    · exact ⟨String.ofList m, .inl ⟨slashed_iff.mpr (by simpa using node),
        slashed_iff.mpr (by simpa using port)⟩⟩
    · exact ⟨String.ofList m, .inr ⟨slashed_iff.mpr (by simpa using node),
        slashed_iff.mpr (by simpa using port)⟩⟩
  · rintro ⟨m, ⟨node, port⟩ | ⟨node, port⟩⟩
    · exact .inl ⟨m.toList, slashed_iff.mp node, slashed_iff.mp port⟩
    · exact .inr ⟨m.toList, slashed_iff.mp node, slashed_iff.mp port⟩

theorem Confused.ne {p q : OutputPort} (confused : Confused p q) : p ≠ q := by
  rintro rfl
  obtain ⟨m, ⟨longer, -⟩ | ⟨longer, -⟩⟩ := confused <;>
  · have size := congrArg List.length (slashed_iff.mp longer)
    simp at size

theorem names_apart_iff {ports : List OutputPort} :
    (∀ p ∈ ports, ∀ q ∈ ports, seedName p = seedName q → p = q) ↔
      ∀ p ∈ ports, ∀ q ∈ ports, ¬Confused p q := by
  refine forall₂_congr fun p _ => forall₂_congr fun q _ => ?_
  rw [seedName_eq_iff]
  exact ⟨fun apart confused => confused.ne (apart (.inr confused)),
    fun apart same => same.resolve_right apart⟩

section Cuts

variable (assembly : Assembly) (cut : AssemblyCut)

/-- The bindings of kept nodes to dropped producers. -/
def crossingBindings : List Binding :=
  assembly.bindings.filter fun b =>
    b.toNode ∈ cut.keptNodeIds ∧ b.input = "" ∧ b.fromNode ∉ cut.keptNodeIds

/-- The bindings of kept nodes to run inputs. -/
def authoredBindings : List Binding :=
  assembly.bindings.filter fun b => b.toNode ∈ cut.keptNodeIds ∧ b.input ≠ ""

def crossing : List OutputPort :=
  (crossingBindings assembly cut).map fun b => (b.fromNode, b.fromPort)

variable {assembly cut}

/-- What becomes of a binding into a kept node. -/
def rewrite (kept : List String) (b : Binding) : Binding :=
  if b.input = "" ∧ b.fromNode ∉ kept then
    { toNode := b.toNode, toPort := b.toPort, input := seedInputName b.fromNode b.fromPort }
  else b

theorem mem_crossingBindings {b : Binding} :
    b ∈ crossingBindings assembly cut ↔ b ∈ assembly.bindings ∧ b.toNode ∈ cut.keptNodeIds ∧
      b.input = "" ∧ b.fromNode ∉ cut.keptNodeIds := by
  simp [crossingBindings]

theorem rewrite_crossing {b : Binding} (crosses : b ∈ crossingBindings assembly cut) :
    (rewrite cut.keptNodeIds b).input = seedName (b.fromNode, b.fromPort) := by
  obtain ⟨-, -, input, gone⟩ := mem_crossingBindings.mp crosses
  rw [rewrite, if_pos ⟨input, gone⟩]
  rfl

theorem materialize_rewrites {terminal : String} (closed : Closed assembly terminal)
    {plan : NodePlan} (made : materializeCut assembly plan = .ok cut) :
    cut.assembly.bindings =
      (assembly.bindings.filter (·.toNode ∈ cut.keptNodeIds)).map (rewrite cut.keptNodeIds) := by
  have rebinds := (materialize_rebinds closed made).2
  have same : List.Forall₂ (fun b after => rewrite cut.keptNodeIds b = after)
      (assembly.bindings.filter (·.toNode ∈ cut.keptNodeIds)) cut.assembly.bindings := by
    refine rebinds.imp fun b after rebound => ?_
    unfold rewrite
    rcases rebound with ⟨rfl, stays⟩ | ⟨input, -, gone, s, required, node, port, rfl⟩
    · exact if_neg fun both => stays.elim (fun named => named both.1) both.2
    · rw [if_pos ⟨input, gone⟩, required_named made s required, node, port]
  rw [← List.forall₂_map_left_iff, List.forall₂_eq_eq_eq] at same
  exact same.symm

end Cuts

section Runs

variable (derivations : List Derivation)

/-- The latest derivation of a node. -/
def latest (nodeId : String) : Option Derivation :=
  (derivations.filter (·.nodeId == nodeId)).getLast?

/-- The first output of a port in the node's latest derivation. -/
def firstOutput (p : OutputPort) : Option NamedArtifact :=
  (latest derivations p.1).bind fun d => d.outputs.find? (·.name == p.2)

/-- The named output ports of the dropped nodes. -/
def produced (cut : AssemblyCut) : List OutputPort :=
  (cut.skipped.map (·.nodeId)).flatMap fun nodeId =>
    (((latest derivations nodeId).elim [] (·.outputs)).filter (·.name ≠ "")).map fun o =>
      (nodeId, o.name)

variable {derivations}

theorem mem_produced {cut : AssemblyCut} {p : OutputPort} :
    p ∈ produced derivations cut ↔ p.1 ∈ cut.skipped.map (·.nodeId) ∧ p.2 ≠ "" ∧
      (firstOutput derivations p).isSome = true := by
  unfold produced firstOutput
  rw [List.mem_flatMap]
  constructor
  · rintro ⟨nodeId, skipped, listed⟩
    obtain ⟨o, kept, rfl⟩ := List.mem_map.mp listed
    obtain ⟨among, named⟩ := List.mem_filter.mp kept
    refine ⟨skipped, of_decide_eq_true named, ?_⟩
    cases found : latest derivations nodeId with
    | none =>
        rw [found] at among
        cases among
    | some d =>
        rw [found] at among
        exact List.find?_isSome.mpr ⟨o, among, beq_self_eq_true o.name⟩
  · rintro ⟨skipped, some, first⟩
    refine ⟨p.1, skipped, ?_⟩
    cases found : latest derivations p.1 with
    | none =>
        rw [found] at first
        cases first
    | some d =>
        rw [found] at first
        obtain ⟨o, among, same⟩ := List.find?_isSome.mp first
        have named : o.name = p.2 := beq_iff_eq.mp same
        exact List.mem_map.mpr ⟨o, List.mem_filter.mpr ⟨among, decide_eq_true (named ▸ some)⟩,
          Prod.ext rfl named⟩

private theorem find?_other {a : NamedArtifact} {rest : List NamedArtifact} {p : String}
    (other : a.name ≠ p) : (a :: rest).find? (·.name == p) = rest.find? (·.name == p) :=
  List.find?_cons_of_neg (by simpa using other)

private theorem seedsOfOutputs_ok {nodeId : String} {outputs seeds : List NamedArtifact}
    {seen : List String} (made : seedsOfOutputs nodeId outputs seen = .ok seeds) :
    (seeds.map (·.name)).Nodup ∧
      (∀ s ∈ seeds, s.name ∉ seen ∧ ∃ p o, s.name = seedInputName nodeId p ∧ p ≠ "" ∧
        outputs.find? (·.name == p) = some o ∧ s.artifact = o.artifact) ∧
      ∀ o ∈ outputs, o.name ≠ "" → seedInputName nodeId o.name ∈ seen ∨
        seedInputName nodeId o.name ∈ seeds.map (·.name) := by
  induction outputs generalizing seen seeds with
  | nil =>
      obtain rfl := Except.ok.inj made
      exact ⟨List.nodup_nil, fun _ member => absurd member List.not_mem_nil,
        fun _ member => absurd member List.not_mem_nil⟩
  | cons first rest ih =>
      unfold seedsOfOutputs at made
      dsimp only at made
      split_ifs at made with skips
      · obtain ⟨distinct, own, all⟩ := ih made
        refine ⟨distinct, fun s member => ?_, List.forall_mem_cons.mpr ⟨fun named => ?_, all⟩⟩
        · obtain ⟨new, p, o, name, some, found, artifact⟩ := own s member
          have other : first.name ≠ p := by
            rintro rfl
            exact skips.elim some fun known => new (name ▸ known)
          exact ⟨new, p, o, name, some, (find?_other other).trans found, artifact⟩
        · exact .inl (skips.resolve_left named)
      · rw [not_or] at skips
        cases stored : first.artifact with
        | none =>
            rw [stored] at made
            cases made
        | some r =>
            rw [stored] at made
            obtain ⟨others, later, made⟩ := bind_eq_ok.mp made
            obtain rfl := Except.ok.inj made
            obtain ⟨distinct, own, all⟩ := ih later
            refine ⟨?_, List.forall_mem_cons.mpr ⟨?_, fun s member => ?_⟩,
              List.forall_mem_cons.mpr ⟨fun _ => .inr List.mem_cons_self, fun o member named => ?_⟩⟩
            · refine List.nodup_cons.mpr ⟨fun again => ?_, distinct⟩
              obtain ⟨s, member, same⟩ := List.mem_map.mp again
              exact (own s member).1 (same ▸ List.mem_cons_self)
            · exact ⟨skips.2, first.name, first, rfl, skips.1, List.find?_cons_of_pos (by simp),
                stored.symm⟩
            · obtain ⟨new, p, o, name, some, found, artifact⟩ := own s member
              have other : first.name ≠ p := by
                rintro rfl
                exact new (name ▸ List.mem_cons_self)
              exact ⟨fun known => new (List.mem_cons_of_mem _ known), p, o, name, some,
                (find?_other other).trans found, artifact⟩
            · rcases all o member named with known | new
              · rcases List.mem_cons.mp known with same | known
                · exact .inr (same ▸ List.mem_cons_self)
                · exact .inl known
              · exact .inr (List.mem_cons_of_mem _ new)

private theorem seedsOfNodes_ok {runId : String} {nodes seen : List String}
    {seeds : List NamedArtifact} (made : seedsOfNodes runId derivations nodes seen = .ok seeds) :
    (seeds.map (·.name)).Nodup ∧
      (∀ s ∈ seeds, s.name ∉ seen ∧ ∃ p o, p.1 ∈ nodes ∧ p.2 ≠ "" ∧ s.name = seedName p ∧
        firstOutput derivations p = some o ∧ s.artifact = o.artifact) ∧
      ∀ p : OutputPort, p.1 ∈ nodes → p.2 ≠ "" → (firstOutput derivations p).isSome = true →
        seedName p ∈ seen ∨ seedName p ∈ seeds.map (·.name) := by
  induction nodes generalizing seen seeds with
  | nil =>
      obtain rfl := Except.ok.inj made
      exact ⟨List.nodup_nil, fun _ member => absurd member List.not_mem_nil,
        fun _ member => absurd member List.not_mem_nil⟩
  | cons nodeId rest ih =>
      unfold seedsOfNodes at made
      cases found : (derivations.filter (·.nodeId == nodeId)).getLast? with
      | none =>
          rw [found] at made
          cases made
      | some d =>
          rw [found] at made
          obtain ⟨first, firstMade, made⟩ := bind_eq_ok.mp made
          obtain ⟨others, othersMade, made⟩ := bind_eq_ok.mp made
          obtain rfl := Except.ok.inj made
          obtain ⟨distinct, own, all⟩ := seedsOfOutputs_ok firstMade
          obtain ⟨distinct', own', all'⟩ := ih othersMade
          have output (portName : String) :
              firstOutput derivations (nodeId, portName) = d.outputs.find? (·.name == portName) := by
            unfold firstOutput latest
            rw [found]
            rfl
          refine ⟨?_, fun s member => ?_, fun p listed some has => ?_⟩
          · rw [List.map_append]
            refine distinct.append distinct' fun name there again => ?_
            obtain ⟨s, member, rfl⟩ := List.mem_map.mp again
            exact (own' s member).1 (List.mem_append_left _ there)
          · rcases List.mem_append.mp member with mine | later
            · obtain ⟨new, p, o, name, some, found, artifact⟩ := own s mine
              exact ⟨new, (nodeId, p), o, List.mem_cons_self, some, name, (output p).trans found,
                artifact⟩
            · obtain ⟨new, p, o, listed, rest⟩ := own' s later
              exact ⟨fun known => new (List.mem_append_right _ known), p, o,
                List.mem_cons_of_mem _ listed, rest⟩
          · rw [List.map_append]
            have known (there : seedName p ∈ seen ∨ seedName p ∈ first.map (·.name)) :
                seedName p ∈ seen ∨ seedName p ∈ first.map (·.name) ++ others.map (·.name) :=
              there.imp_right (List.mem_append_left _)
            obtain ⟨node, portName⟩ := p
            rcases List.mem_cons.mp listed with same | later
            · obtain rfl : node = nodeId := same
              rw [output] at has
              obtain ⟨o, among, same⟩ := List.find?_isSome.mp has
              obtain rfl : o.name = portName := beq_iff_eq.mp same
              exact known (all o among some)
            · rcases all' (node, portName) later some has with there | new
              · rcases List.mem_append.mp there with mine | before
                · exact known (.inr mine)
                · exact .inl before
              · exact .inr (List.mem_append_right _ new)

theorem seedsOfRun_ok {runId : String} {cut : AssemblyCut} {seeds : List NamedArtifact}
    (made : seedsOfRun runId derivations (cut.skipped.map (·.nodeId)) = .ok seeds) :
    (seeds.map (·.name)).Nodup ∧
      (∀ s ∈ seeds, ∃ p ∈ produced derivations cut, ∃ o, s.name = seedName p ∧
        firstOutput derivations p = some o ∧ s.artifact = o.artifact) ∧
      ∀ p ∈ produced derivations cut, seedName p ∈ seeds.map (·.name) := by
  obtain ⟨distinct, own, all⟩ := seedsOfNodes_ok made
  have sorted (nodeId : String) : nodeId ∈ (cut.skipped.map (·.nodeId)).dedup.insertionSort (· ≤ ·) ↔
      nodeId ∈ cut.skipped.map (·.nodeId) :=
    (List.mem_insertionSort _).trans List.mem_dedup
  refine ⟨distinct, fun s member => ?_, fun p member => ?_⟩
  · obtain ⟨-, p, o, listed, some, name, first, artifact⟩ := own s member
    exact ⟨p, mem_produced.mpr ⟨(sorted p.1).mp listed, some, by rw [first]; rfl⟩, o, name, first,
      artifact⟩
  · obtain ⟨listed, some, first⟩ := mem_produced.mp member
    exact (all p ((sorted p.1).mpr listed) some first).resolve_left List.not_mem_nil

private theorem seedsOfOutputs_total {nodeId : String} {outputs : List NamedArtifact}
    (carried : ∀ o ∈ outputs, o.artifact.isSome = true) (seen : List String) :
    ∃ seeds, seedsOfOutputs nodeId outputs seen = .ok seeds := by
  induction outputs generalizing seen with
  | nil => exact ⟨[], rfl⟩
  | cons first rest ih =>
      obtain ⟨here, later⟩ := List.forall_mem_cons.mp carried
      obtain ⟨r, stored⟩ := Option.isSome_iff_exists.mp here
      unfold seedsOfOutputs
      dsimp only
      rw [stored]
      split_ifs with skips
      · exact ih later seen
      · obtain ⟨others, made⟩ := ih later (seedInputName nodeId first.name :: seen)
        exact ⟨_, bind_eq_ok.mpr ⟨others, made, rfl⟩⟩

private theorem seedsOfNodes_total {runId : String} {nodes : List String}
    (derived : ∀ x ∈ nodes, ∃ d ∈ derivations, d.nodeId = x)
    (carried : ∀ d ∈ derivations, ∀ o ∈ d.outputs, o.artifact.isSome = true) (seen : List String) :
    ∃ seeds, seedsOfNodes runId derivations nodes seen = .ok seeds := by
  induction nodes generalizing seen with
  | nil => exact ⟨[], rfl⟩
  | cons nodeId rest ih =>
      obtain ⟨⟨d, member, here⟩, later⟩ := List.forall_mem_cons.mp derived
      have some_ : derivations.filter (·.nodeId == nodeId) ≠ [] :=
        List.ne_nil_of_mem (List.mem_filter.mpr ⟨member, beq_iff_eq.mpr here⟩)
      unfold seedsOfNodes
      cases found : (derivations.filter (·.nodeId == nodeId)).getLast? with
      | none => exact absurd (List.getLast?_eq_none_iff.mp found) some_
      | some last =>
          have among := (List.mem_filter.mp (List.mem_of_getLast? found)).1
          obtain ⟨seeds, made⟩ := @seedsOfOutputs_total nodeId _ (carried last among) seen
          obtain ⟨others, made'⟩ := ih later (seeds.map (·.name) ++ seen)
          exact ⟨seeds ++ others, bind_eq_ok.mpr ⟨seeds, made, bind_eq_ok.mpr ⟨others, made', rfl⟩⟩⟩

theorem seedsOfRun_total {runId : String} {cut : AssemblyCut}
    (derived : ∀ x ∈ cut.skipped.map (·.nodeId), ∃ d ∈ derivations, d.nodeId = x)
    (carried : ∀ d ∈ derivations, ∀ o ∈ d.outputs, o.artifact.isSome = true) :
    ∃ seeds, seedsOfRun runId derivations (cut.skipped.map (·.nodeId)) = .ok seeds := by
  refine seedsOfNodes_total (fun x member => derived x ?_) carried []
  exact List.mem_dedup.mp ((List.mem_insertionSort _).mp member)

end Runs

section Merged

variable {base seeds : List NamedArtifact}

private theorem lookup_named {l : List (String × NamedArtifact)} (named : ∀ e ∈ l, e.2.name = e.1)
    (name : String) : (l.map (·.2)).find? (·.name == name) = l.lookup name := by
  induction l with
  | nil => rfl
  | cons e l ih =>
      obtain ⟨key, na⟩ := e
      obtain ⟨first, rest⟩ := List.forall_mem_cons.mp named
      obtain rfl : na.name = key := first
      rw [List.map_cons, List.find?_cons, List.lookup_cons, ih rest]
      by_cases same : name = na.name
      · rw [same, beq_self_eq_true]
      · rw [beq_false_of_ne same, beq_false_of_ne (Ne.symm same)]

private theorem collected_named (l : List NamedArtifact) {m : BTreeMap NamedArtifact}
    (named : ∀ e ∈ m.entries, e.2.name = e.1) :
    ∀ e ∈ (l.foldl (fun byName na => byName.insert na.name na) m).entries, e.2.name = e.1 := by
  induction l generalizing m with
  | nil => exact named
  | cons na l ih =>
      refine ih fun e member => ?_
      rcases OrderedMap.mem_insert member with rfl | before
      · rfl
      · exact named e before

private theorem inputByName_merge (base seeds : List NamedArtifact) (name : String) :
    inputByName (mergeInputs base seeds) name =
      ((base ++ seeds).foldl (fun byName na => byName.insert na.name na)
        (.empty : BTreeMap NamedArtifact)).get? name :=
  lookup_named (collected_named _ fun _ member => absurd member List.not_mem_nil) name

theorem merged_seed (distinct : (seeds.map (·.name)).Nodup) {s : NamedArtifact} (member : s ∈ seeds)
    (base : List NamedArtifact) : inputByName (mergeInputs base seeds) s.name = some s := by
  rw [inputByName_merge, List.foldl_append]
  exact OrderedMap.get?_foldl_insert
    (fun a there same => List.inj_on_of_nodup_map distinct there member same) ⟨s, member, rfl⟩ _

theorem merged_other {name : String} (other : ∀ s ∈ seeds, s.name ≠ name)
    (base : List NamedArtifact) :
    inputByName (mergeInputs base seeds) name = inputByName (mergeInputs base []) name := by
  rw [inputByName_merge, inputByName_merge, List.foldl_append, List.append_nil]
  exact OrderedMap.get?_foldl_insert_of_ne other _

theorem merged_base (distinct : (base.map (·.name)).Nodup) {i : NamedArtifact} (member : i ∈ base)
    (other : ∀ s ∈ seeds, s.name ≠ i.name) : inputByName (mergeInputs base seeds) i.name = some i := by
  rw [merged_other other, mergeInputs, List.append_nil]
  exact merged_seed distinct member []

theorem mem_merged {i : NamedArtifact} (member : i ∈ mergeInputs base seeds) :
    i ∈ base ∨ i ∈ seeds := by
  obtain ⟨e, listed, rfl⟩ := List.mem_map.mp member
  have from_ : ∀ (l : List NamedArtifact) (m : BTreeMap NamedArtifact),
      e ∈ (l.foldl (fun byName na => byName.insert na.name na) m).entries →
        e.2 ∈ l ∨ e ∈ m.entries := by
    intro l
    induction l with
    | nil => exact fun m there => .inr there
    | cons na l ih =>
        intro m there
        rcases ih _ there with later | entered
        · exact .inl (List.mem_cons_of_mem _ later)
        · rcases OrderedMap.mem_insert entered with rfl | before
          · exact .inl List.mem_cons_self
          · exact .inr before
  exact List.mem_append.mp ((from_ _ _ listed).resolve_right List.not_mem_nil)

theorem merged_names (base seeds : List NamedArtifact) :
    ((mergeInputs base seeds).map (·.name)).Nodup := by
  have named := collected_named (base ++ seeds) (m := .empty)
    fun _ member => absurd member List.not_mem_nil
  unfold mergeInputs
  dsimp only
  generalize (base ++ seeds).foldl (fun byName na => byName.insert na.name na)
    (.empty : BTreeMap NamedArtifact) = m at named ⊢
  have keys : (m.entries.map (·.2)).map (·.name) = m.entries.map Prod.fst := by
    rw [List.map_map]
    exact List.map_congr_left named
  rw [keys, List.Nodup, List.pairwise_map]
  exact m.ascending.imp fun before => ne_of_lt before

end Merged

section Property

variable (assembly : Assembly) (cut : AssemblyCut) (derivations : List Derivation)

/-- Each output port of the dropped nodes has a seed of its own, and every input of a kept node is the
output of its own producer or the caller's. -/
structure OwnSeeds (seeds : List NamedArtifact) : Prop where
  own : ∀ p ∈ produced derivations cut, ∀ q ∈ produced derivations cut, seedName p = seedName q → p = q
  once : (seeds.map (·.name)).Nodup
  emitted : ∀ p ∈ produced derivations cut, ∃ o, firstOutput derivations p = some o ∧
    { name := seedName p, artifact := o.artifact } ∈ seeds
  fed : ∀ base, ∀ p ∈ crossing assembly cut, p ∈ produced derivations cut →
    ∃ o, firstOutput derivations p = some o ∧ inputByName (mergeInputs base seeds) (seedName p) =
      some { name := seedName p, artifact := o.artifact }
  spared : ∀ base, ∀ b ∈ authoredBindings assembly cut,
    inputByName (mergeInputs base seeds) b.input = inputByName (mergeInputs base []) b.input

/-- Seed names never clash: rewritten bindings share a name exactly when they share a producer and its
port, no such name is that of a run input that a kept node reads, and the seeds of a run, when it has
them, are the outputs' own. -/
structure NeverClash (runId : String) : Prop where
  placed : cut.assembly.bindings =
    (assembly.bindings.filter (·.toNode ∈ cut.keptNodeIds)).map (rewrite cut.keptNodeIds)
  shared : ∀ b ∈ crossingBindings assembly cut, ∀ b' ∈ crossingBindings assembly cut,
    (rewrite cut.keptNodeIds b).input = (rewrite cut.keptNodeIds b').input ↔
      (b.fromNode, b.fromPort) = (b'.fromNode, b'.fromPort)
  authored : ∀ b ∈ crossingBindings assembly cut, ∀ b' ∈ authoredBindings assembly cut,
    (rewrite cut.keptNodeIds b).input ≠ b'.input
  seeds : ∀ seeds, seedsOfRun runId derivations (cut.skipped.map (·.nodeId)) = .ok seeds →
    OwnSeeds assembly cut derivations seeds

/-- No two ports are confused, and no run input that a kept node reads is spelled as the seed of one. -/
structure Unconfused (ports : List OutputPort) : Prop where
  apart : ∀ p ∈ ports, ∀ q ∈ ports, ¬Confused p q
  inputs : ∀ b ∈ authoredBindings assembly cut, ∀ p ∈ ports, b.input ≠ seedName p

variable {assembly cut derivations}

private theorem crossing_names :
    (∀ p ∈ crossing assembly cut, ∀ q ∈ crossing assembly cut, seedName p = seedName q → p = q) ↔
      ∀ b ∈ crossingBindings assembly cut, ∀ b' ∈ crossingBindings assembly cut,
        ((rewrite cut.keptNodeIds b).input = (rewrite cut.keptNodeIds b').input ↔
          (b.fromNode, b.fromPort) = (b'.fromNode, b'.fromPort)) := by
  simp only [crossing, List.forall_mem_map]
  refine forall₂_congr fun b crosses => forall₂_congr fun b' crosses' => ?_
  rw [rewrite_crossing crosses, rewrite_crossing crosses']
  exact ⟨fun apart => ⟨apart, fun same => by rw [same]⟩, Iff.mp⟩

private theorem crossing_inputs :
    (∀ b ∈ authoredBindings assembly cut, ∀ p ∈ crossing assembly cut, b.input ≠ seedName p) ↔
      ∀ b ∈ crossingBindings assembly cut, ∀ b' ∈ authoredBindings assembly cut,
        (rewrite cut.keptNodeIds b).input ≠ b'.input := by
  simp only [crossing, List.forall_mem_map]
  constructor
  · intro apart b crosses b' reads
    rw [rewrite_crossing crosses]
    exact (apart b' reads b crosses).symm
  · intro apart b' reads b crosses
    rw [← rewrite_crossing crosses]
    exact (apart b crosses b' reads).symm

theorem ownSeeds_iff {runId : String} {seeds : List NamedArtifact}
    (made : seedsOfRun runId derivations (cut.skipped.map (·.nodeId)) = .ok seeds) :
    OwnSeeds assembly cut derivations seeds ↔
      Unconfused assembly cut (produced derivations cut) := by
  obtain ⟨distinct, own, all⟩ := seedsOfRun_ok made
  constructor
  · intro owned
    refine ⟨names_apart_iff.mp owned.own, fun b reads p member same => ?_⟩
    obtain ⟨o, -, there⟩ := owned.emitted p member
    have fed := merged_seed distinct there []
    have spared := owned.spared [] b reads
    rw [same, fed] at spared
    cases spared
  · intro unconfused
    have names := names_apart_iff.mpr unconfused.apart
    have emitted : ∀ p ∈ produced derivations cut, ∃ o, firstOutput derivations p = some o ∧
        { name := seedName p, artifact := o.artifact } ∈ seeds := by
      intro p member
      obtain ⟨s, there, name⟩ := List.mem_map.mp (all p member)
      obtain ⟨q, member', o, name', first, artifact⟩ := own s there
      obtain rfl := names q member' p member (name'.symm.trans name)
      refine ⟨o, first, ?_⟩
      rw [← name', ← artifact]
      exact there
    refine ⟨names, distinct, emitted, fun base p _ member => ?_, fun base b reads =>
      merged_other (fun s there => ?_) base⟩
    · obtain ⟨o, first, there⟩ := emitted p member
      exact ⟨o, first, merged_seed distinct there base⟩
    · obtain ⟨p, member, -, name, -⟩ := own s there
      rw [name]
      exact (unconfused.inputs b reads p member).symm

theorem closed_of_wellFormed {modules : List ModuleSlot}
    {artifacts : KeyMap String Artifact} {inputs : List NamedArtifact}
    (formed : Acceptance.WellFormed modules artifacts assembly inputs) :
    ∃ terminal, Closed assembly terminal := by
  obtain ⟨t, p, declared, ⟨n, member, -, -, same, -⟩, -⟩ := formed.terminal
  refine ⟨t.node, formed.distinct, by rw [declared]; rfl, List.mem_map.mpr ⟨n, member, same⟩,
    fun b listed => ?_, fun b listed input => ?_⟩
  · obtain ⟨target, ⟨n, member, -, -, same, -⟩, -⟩ := formed.bindings b listed
    exact List.mem_map.mpr ⟨n, member, same⟩
  · obtain ⟨target, -, ⟨named, -⟩ | ⟨-, -, source, ⟨n, member, -, -, same, -⟩, -⟩⟩ :=
      formed.bindings b listed
    · exact absurd input named
    · exact List.mem_map.mpr ⟨n, member, same⟩

theorem seedName_isSeed (p : OutputPort) : isSeedInputName (seedName p) = true := by
  simp [isSeedInputName, seedName, seedInputName, List.append_assoc]

theorem seedName_ne (p : OutputPort) : seedName p ≠ "" := by
  intro nameless
  have seed := seedName_isSeed p
  rw [nameless] at seed
  cases seed

/-- Every id of an assembly is free of slashes. -/
def Slashless (assembly : Assembly) : Prop := ∀ n ∈ assembly.nodes, '/' ∉ n.id.toList

theorem not_confused {p q : OutputPort} (first : '/' ∉ p.1.toList)
    (second : '/' ∉ q.1.toList) : ¬Confused p q := by
  rintro ⟨m, ⟨longer, -⟩ | ⟨longer, -⟩⟩
  · exact second (by rw [longer]; simp)
  · exact first (by rw [longer]; simp)

theorem unconfused_of {ports : List OutputPort} (slashless : ∀ p ∈ ports, '/' ∉ p.1.toList)
    (plain : ∀ b ∈ authoredBindings assembly cut, isSeedInputName b.input = false) :
    Unconfused assembly cut ports := by
  refine ⟨fun p member q member' => not_confused (slashless p member) (slashless q member'), ?_⟩
  intro b reads p _ same
  have plain := plain b reads
  rw [same, seedName_isSeed] at plain
  cases plain

theorem authored_given {modules : List ModuleSlot} {artifacts : KeyMap String Artifact}
    {given : List NamedArtifact} (formed : Acceptance.WellFormed modules artifacts assembly given)
    {b : Binding} (reads : b ∈ authoredBindings assembly cut) : ∃ i ∈ given, i.name = b.input := by
  obtain ⟨listed, both⟩ := List.mem_filter.mp reads
  obtain ⟨-, external⟩ := of_decide_eq_true both
  obtain ⟨-, -, ⟨-, -, -, i, there, r, artifact, name, -⟩ | ⟨upstream, -⟩⟩ :=
    formed.bindings b listed
  · exact ⟨i, there, name⟩
  · exact absurd upstream external

/-- Ids without slashes and inputs that are not called like seeds leave nothing to confuse. -/
theorem unconfused_of_plain {env : Env} {modules : List ModuleSlot}
    {artifacts : KeyMap String Artifact} {inputs : List NamedArtifact}
    (accepted : validateAssembly env modules artifacts assembly inputs = .ok ()) {plan : NodePlan}
    (made : materializeCut assembly plan = .ok cut) (slashless : Slashless assembly)
    (plain : ∀ i ∈ inputs, isSeedInputName i.name = false) :
    Unconfused assembly cut (crossing assembly cut) ∧
      Unconfused assembly cut (produced derivations cut) := by
  have formed := (Acceptance.validateAssembly_accepts env).mp accepted
  obtain ⟨terminal, closed⟩ := closed_of_wellFormed formed
  have known {x : String} (listed : x ∈ ids assembly) : '/' ∉ x.toList := by
    obtain ⟨n, member, rfl⟩ := List.mem_map.mp listed
    exact slashless n member
  have read : ∀ b ∈ authoredBindings assembly cut, isSeedInputName b.input = false := by
    intro b reads
    obtain ⟨i, there, name⟩ := authored_given formed reads
    rw [← name]
    exact plain i there
  refine ⟨unconfused_of (fun p member => ?_) read, unconfused_of (fun p member => ?_) read⟩
  · obtain ⟨b, crosses, rfl⟩ := List.mem_map.mp member
    obtain ⟨listed, -, input, -⟩ := mem_crossingBindings.mp crosses
    exact known (closed.sources b listed input)
  · exact known (((materialize_slice closed made).skipped p.1).mp (mem_produced.mp member).1).1

/-- In the cut of an accepted assembly seed names never clash exactly when no two ports that a kept
node reads across the cut are confused, nor two outputs of the dropped nodes, and no run input that a
kept node reads is spelled as a seed of one of these. -/
theorem seeds_never_clash_iff {env : Env} {modules : List ModuleSlot}
    {artifacts : KeyMap String Artifact} {inputs : List NamedArtifact}
    (accepted : validateAssembly env modules artifacts assembly inputs = .ok ()) {plan : NodePlan}
    (made : materializeCut assembly plan = .ok cut) (runId : String)
    (derivations : List Derivation) :
    NeverClash assembly cut derivations runId ↔
      Unconfused assembly cut (crossing assembly cut) ∧
        ((∃ seeds, seedsOfRun runId derivations (cut.skipped.map (·.nodeId)) = .ok seeds) →
          Unconfused assembly cut (produced derivations cut)) := by
  obtain ⟨terminal, closed⟩ :=
    closed_of_wellFormed ((Acceptance.validateAssembly_accepts env).mp accepted)
  constructor
  · intro clean
    refine ⟨⟨names_apart_iff.mp (crossing_names.mpr clean.shared),
      crossing_inputs.mpr clean.authored⟩, fun ⟨seeds, seeded⟩ => ?_⟩
    exact (ownSeeds_iff seeded).mp (clean.seeds seeds seeded)
  · rintro ⟨unconfused, outputs⟩
    refine ⟨materialize_rewrites closed made,
      crossing_names.mp (names_apart_iff.mpr unconfused.apart),
      crossing_inputs.mp unconfused.inputs, fun seeds seeded => ?_⟩
    exact (ownSeeds_iff seeded).mpr (outputs ⟨seeds, seeded⟩)

end Property

section Slashes

/-- A module with one output port. -/
def producer (module portName : String) : ModuleSlot :=
  { manifest :=
      { name := module, version := "1"
        provides := [{ name := "make", outputs := [{ name := portName, traits := ["text"] }] }] }
    lifecycle := .registered }

/-- A module that joins what it reads on `x` and `y`. -/
def joiner : ModuleSlot :=
  { manifest :=
      { name := "join", version := "1"
        provides := [{ name := "join"
                       inputs := [{ name := "x", traits := ["text"] }, { name := "y", traits := ["text"] }]
                       outputs := [{ name := "both", traits := ["text"] }] }] }
    lifecycle := .registered }

/-- Two producers and a node that joins their outputs. -/
def pair (first second : OutputPort) : Assembly :=
  { id := "pair"
    nodes := [⟨first.1, "one", "1", "make"⟩, ⟨second.1, "two", "1", "make"⟩, ⟨"w", "join", "1", "join"⟩]
    bindings := [{ toNode := "w", toPort := "x", fromNode := first.1, fromPort := first.2 },
      { toNode := "w", toPort := "y", fromNode := second.1, fromPort := second.2 }]
    terminal := some ⟨"w", "both"⟩ }

def pairModules (first second : OutputPort) : List ModuleSlot :=
  [producer "one" first.2, producer "two" second.2, joiner]

/-- The pair without its producers. -/
def joined (first second : OutputPort) : AssemblyCut :=
  { assembly :=
      { pair first second with
        nodes := [⟨"w", "join", "1", "join"⟩]
        bindings := [{ toNode := "w", toPort := "x", input := seedName first },
          { toNode := "w", toPort := "y", input := seedName second }] }
    skipped := [⟨first.1, "one", "make", "1"⟩, ⟨second.1, "two", "make", "1"⟩]
    requiredSeeds := [⟨seedName first, first.1, first.2, "w", "x"⟩,
      ⟨seedName second, second.1, second.2, "w", "y"⟩]
    keptNodeIds := ["w"] }

/-- A run in which both producers have committed. -/
def produce (first second : OutputPort) : List Derivation :=
  [{ runId := "r", workId := "1", nodeId := first.1, outputs := [⟨first.2, some ⟨"left"⟩⟩] },
    { runId := "r", workId := "2", nodeId := second.1, outputs := [⟨second.2, some ⟨"right"⟩⟩] }]

def clockless : Env := { entryClock := 0, now := 0, iter := id, iter_perm := List.Perm.refl }

/-- Where no node id has a slash in it, every seed is its producer's own. -/
theorem plain_pair_clean :
    NeverClash (pair ("a", "o") ("b", "o")) (joined ("a", "o") ("b", "o"))
      (produce ("a", "o") ("b", "o")) "r" := by
  have accepted : validateAssembly clockless (pairModules ("a", "o") ("b", "o")) ∅
      (pair ("a", "o") ("b", "o")) [] = .ok () := by decide +kernel
  have made : materializeCut (pair ("a", "o") ("b", "o")) (.only ["w"]) =
      .ok (joined ("a", "o") ("b", "o")) := rfl
  refine (seeds_never_clash_iff accepted made "r" _).mpr ⟨⟨?_, ?_⟩, fun _ => ⟨?_, ?_⟩⟩
  · exact names_apart_iff.mp (by decide)
  · exact fun b reads => absurd reads (by decide +revert)
  · exact names_apart_iff.mp (by decide)
  · exact fun b reads => absurd reads (by decide +revert)

/-- The outputs `b/c` of `a` and `c` of `a/b` have one seed name: the node that is kept reads it twice,
and there is one seed for both. -/
theorem slashes_clash :
    validateAssembly clockless (pairModules ("a", "b/c") ("a/b", "c")) ∅
        (pair ("a", "b/c") ("a/b", "c")) [] = .ok () ∧
      materializeCut (pair ("a", "b/c") ("a/b", "c")) (.only ["w"]) =
        .ok (joined ("a", "b/c") ("a/b", "c")) ∧
      (joined ("a", "b/c") ("a/b", "c")).assembly.bindings.map (·.input) =
        ["__seed/a/b/c", "__seed/a/b/c"] ∧
      seedsOfRun "r" (produce ("a", "b/c") ("a/b", "c")) ["a", "a/b"] =
        .ok [⟨"__seed/a/b/c", some ⟨"left"⟩⟩] ∧
      ¬NeverClash (pair ("a", "b/c") ("a/b", "c")) (joined ("a", "b/c") ("a/b", "c"))
        (produce ("a", "b/c") ("a/b", "c")) "r" := by
  refine ⟨by decide +kernel, rfl, by decide, rfl, fun clean => ?_⟩
  have same := clean.shared
    { toNode := "w", toPort := "x", fromNode := "a", fromPort := "b/c" } (by decide)
    { toNode := "w", toPort := "y", fromNode := "a/b", fromPort := "c" } (by decide)
  exact absurd (same.mp (by decide)) (by decide)

end Slashes

end Substrate.Protocol.Seeds
