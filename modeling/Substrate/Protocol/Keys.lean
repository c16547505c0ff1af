/- ID: Substrate/Protocol/Keys
   source: kernel/sdk/rust/src/lib.rs
   digest: What tells the units of a ONCE_PER_KEY node apart. -/

import Substrate.Protocol.Integrity
import Substrate.Protocol.Units

set_option autoImplicit false
set_option relaxedAutoImplicit false

namespace Substrate.Protocol.Keys

open Substrate.Kernel.Wire
open Substrate.Kernel.Hashing
open Substrate.Kernel.Memory
open Substrate.Kernel.Registry
open Substrate.Kernel.Schedule
open Substrate.Kernel.Api
open Substrate.Protocol.Atoms
open Substrate.Protocol.Slots
open Substrate.Protocol.Identity
open Substrate.Protocol.Refine
open Substrate.Protocol.Validation
open Substrate.Protocol.Accounting (derivationsOf)
open Substrate.Protocol.Integrity (reachable_referenced stored_of_resolved)
open Substrate.Protocol.Steady
open Substrate.Protocol.Typing
open Substrate.Protocol.Units
open Substrate.Protocol.WorkIds
open Substrate.Library.Checks
open Substrate.Library.FiniteMap
open Substrate.Library.Framing

/-- The ports whose artifacts make up a key: the marked ones, or all where none is marked. -/
def keyPorts (cap : Capability) : List String :=
  if cap.inputs.filter (·.key) = [] then cap.inputs.map (·.name)
  else (cap.inputs.filter (·.key)).map (·.name)

/-- The artifact ids on one port, in binding order. -/
def idsOn (port : String) (inputs : List NamedArtifact) : List String :=
  (inputs.filter (·.name == port)).filterMap fun i => i.artifact.map (·.id)

/-- The same artifact ids, in the same order, on every port that makes up the key. -/
def SameKey (cap : Capability) (inputs inputs' : List NamedArtifact) : Prop :=
  ∀ port ∈ keyPorts cap, idsOn port inputs = idsOn port inputs'

/-- Whether a port's artifacts go into the key. -/
def Keying (cap : Capability) (port : String) : Prop :=
  (cap.inputs.filter (·.key)).map (·.name) = [] ∨
    port ∈ (cap.inputs.filter (·.key)).map (·.name)

instance (cap : Capability) (port : String) : Decidable (Keying cap port) :=
  inferInstanceAs (Decidable (_ ∨ _))

/-- Inputs on declared ports that carry content addresses. -/
structure Carried (cap : Capability) (inputs : List NamedArtifact) : Prop where
  declared : ∀ i ∈ inputs, i.name ∈ cap.inputs.map (·.name)
  addressed : ∀ i ∈ inputs, ∃ r, i.artifact = some r ∧ (asBytes r.id).length = 71

theorem mem_keyPorts {cap : Capability} {port : String}
    (declared : port ∈ cap.inputs.map (·.name)) : port ∈ keyPorts cap ↔ Keying cap port := by
  unfold keyPorts Keying
  split_ifs with none
  · simp [none, declared]
  · simp [none]

theorem keying_of_mem {cap : Capability} {port : String} (member : port ∈ keyPorts cap) :
    Keying cap port := by
  unfold keyPorts at member
  unfold Keying
  split_ifs at member with none
  · exact .inl (by rw [none]; rfl)
  · exact .inr member

theorem keyPairs_eq (cap : Capability) (inputs : List NamedArtifact) :
    keyPairs cap inputs = inputs.filterMap fun i =>
      i.artifact.bind fun r => if Keying cap i.name then some (i.name, r.id) else none := rfl

theorem idsOn_eq {cap : Capability} {port : String} (keying : Keying cap port)
    (inputs : List NamedArtifact) :
    idsOn port inputs = ((keyPairs cap inputs).filter (·.1 == port)).map Prod.snd := by
  rw [idsOn, keyPairs_eq, List.filterMap_filter, List.filter_filterMap, List.map_filterMap]
  refine List.filterMap_congr fun i _ => ?_
  cases i.artifact with
  | none => simp
  | some r =>
      by_cases here : i.name = port
      · subst here
        simp [keying]
      · by_cases goes : Keying cap i.name <;> simp [here, goes]

theorem keyPairs_ports {cap : Capability} {inputs : List NamedArtifact} (carried : Carried cap inputs) :
    (keyPairs cap inputs).map Prod.fst = (inputs.map (·.name)).filter (decide <| Keying cap ·) := by
  rw [keyPairs_eq]
  have each := carried.addressed
  clear carried
  induction inputs with
  | nil => rfl
  | cons i inputs ih =>
      obtain ⟨r, present, -⟩ := each i List.mem_cons_self
      have rest := ih fun i member => each i (List.mem_cons_of_mem _ member)
      rw [List.map_cons]
      by_cases goes : Keying cap i.name
      · simp [present, goes, rest]
      · simp [present, goes, rest]

private theorem keyPairs_sized {cap : Capability} {inputs : List NamedArtifact}
    (carried : Carried cap inputs) {pair : String × String} (member : pair ∈ keyPairs cap inputs) :
    pair.1 ∈ cap.inputs.map (·.name) ∧ (asBytes pair.2).length = 71 := by
  obtain ⟨i, listed, made⟩ := List.mem_filterMap.mp member
  obtain ⟨r, present, sized⟩ := carried.addressed i listed
  rw [present, Option.bind_some] at made
  split_ifs at made
  obtain rfl := Option.some.inj made
  exact ⟨carried.declared i listed, sized⟩

theorem keyPairs_eq_iff {cap : Capability} {inputs inputs' : List NamedArtifact}
    (carried : Carried cap inputs) (carried' : Carried cap inputs')
    (names : inputs.map (·.name) = inputs'.map (·.name)) :
    keyPairs cap inputs = keyPairs cap inputs' ↔ SameKey cap inputs inputs' := by
  constructor
  · intro same port member
    rw [idsOn_eq (keying_of_mem member), idsOn_eq (keying_of_mem member), same]
  · intro same
    refine rows_ext (by rw [keyPairs_ports carried, keyPairs_ports carried', names]) ?_
    intro port member
    obtain ⟨pair, listed, rfl⟩ := List.mem_map.mp member
    rw [keyPairs_ports carried] at member
    have keying : Keying cap pair.1 := of_decide_eq_true (List.mem_filter.mp member).2
    rw [← idsOn_eq keying, ← idsOn_eq keying]
    exact same pair.1 ((mem_keyPorts (keyPairs_sized carried listed).1).mpr keying)

theorem inputKeyBytes_inj {cap : Capability} {inputs inputs' : List NamedArtifact}
    (carried : Carried cap inputs) (carried' : Carried cap inputs')
    (names : inputs.map (·.name) = inputs'.map (·.name))
    (same : inputKeyBytes cap inputs = inputKeyBytes cap inputs') :
    keyPairs cap inputs = keyPairs cap inputs' := by
  have ports : (keyPairs cap inputs).map Prod.fst = (keyPairs cap inputs').map Prod.fst := by
    rw [keyPairs_ports carried, keyPairs_ports carried', names]
  obtain ⟨sorted, inj⟩ := insertionSort_key_inj (fun p q : String => p ≤ q) ports
  have sized : ∀ x ∈ sortByPort (keyPairs cap inputs), ∀ y ∈ sortByPort (keyPairs cap inputs'),
      (asBytes x.2).length = (asBytes y.2).length := by
    intro x hx y hy
    rw [(keyPairs_sized carried ((List.mem_insertionSort _).mp hx)).2,
      (keyPairs_sized carried' ((List.mem_insertionSort _).mp hy)).2]
  refine inj (flatMap_key_inj sorted ?_ ?_ same)
  · intro x hx y hy port
    simp [port, sized x hx y hy]
  · intro x hx y hy port bytes
    simp only [port, List.append_assoc, List.append_cancel_left_eq] at bytes
    obtain ⟨ids, -⟩ := List.append_inj bytes (sized x hx y hy)
    exact Prod.ext port (asBytes_inj ids)

section Calls

variable [Sha256]

/-- Every binding ends in a declared input port of a node as it was pinned. -/
def Ported (modules : List ModuleSlot) (slot : RunSlot) : Prop :=
  ∀ b ∈ slot.run.assembly.bindings, ∃ target,
    PinnedPort modules slot.run.assembly.nodes (·.inputs) b.toNode b.toPort target

variable [Prost]

theorem reachable_ported {policy : ArtifactStorePolicy} {s : State} (reached : Reachable policy s)
    {runId : String} {slot : RunSlot} (found : s.runs.lookup runId = some slot) :
    Ported s.modules slot := by
  have all : ∀ runId slot, s.runs.lookup runId = some slot → Ported s.modules slot := by
    refine reachable_invariant (P := fun s => ∀ runId slot, s.runs.lookup runId = some slot →
      Ported s.modules slot) ?_ ?_ reached
    · intro runId slot found
      simp at found
    · intro s a guard _ before
      refine slots_apply (I := fun s _ slot => Ported s.modules slot) guard ?_ ?_ ?_ before
      · intro runId slot ported b member
        obtain ⟨target, node, listed, id, cap, pin, declared⟩ := ported b member
        exact ⟨target, node, listed, id, cap, (pinned_apply s a pin).1, declared⟩
      · rintro slot - ⟨env, req, assembly, maxSteps, rfl, -, ok⟩ b member
        obtain ⟨target, port, -⟩ := (typed_fresh (validateAssembly_ok ok)).bound b member
        exact ⟨target, port⟩
      · intro runId slot act _ _ _ _ ported b member
        rw [(apply_terms s.modules slot act).assembly] at member ⊢
        exact ported b member
  exact all runId slot found

private theorem carried_of_resolved {policy : ArtifactStorePolicy} {s : State}
    (reached : Reachable policy s) {runId : String} {slot : RunSlot}
    (found : s.runs.lookup runId = some slot) {node : AssemblyNode}
    (member : node ∈ slot.run.assembly.nodes) {cap : Capability}
    (known : pinned s.modules node = some cap) {inputs : List NamedArtifact}
    (resolves : resolveInputs slot node = some inputs) : Carried cap inputs := by
  constructor
  · intro i listed
    obtain ⟨b, bound, made⟩ := (mapM_mem resolves).2 i listed
    obtain ⟨r, -, rfl⟩ := Option.map_eq_some_iff.mp made
    obtain ⟨there, here⟩ := List.mem_filter.mp bound
    obtain ⟨target, other, listed', id, cap', pin, declared⟩ := reachable_ported reached found b there
    have ids := (reachable_wellFormed reached runId slot found).ids
    obtain rfl := List.inj_on_of_nodup_map ids listed' member (id.trans (beq_iff_eq.mp here))
    rw [known] at pin
    obtain rfl := Option.some.inj pin
    obtain ⟨port, name⟩ := port_spec declared
    exact List.mem_map.mpr ⟨target, port, name⟩
  · intro i listed
    have stored := stored_of_resolved ((reachable_referenced reached).slots runId slot found) resolves
    obtain ⟨b, -, made⟩ := (mapM_mem resolves).2 i listed
    obtain ⟨r, -, rfl⟩ := Option.map_eq_some_iff.mp made
    exact ⟨r, rfl, (reachable_coherent reached).addressed r.id (stored _ listed r rfl)⟩

/-- The bytes that the keys of a node hash, in any state its run went through. -/
def hashed (policy : ArtifactStorePolicy) (calls : List Call) (runId : String) (node : AssemblyNode)
    (cap : Capability) : Set Bytes :=
  {bytes | ∃ unit, UnitOf policy calls runId node unit ∧ bytes = inputKeyBytes cap unit.1}

variable {policy : ArtifactStorePolicy} {calls : List Call} {runId : String} {slot : RunSlot}
  {node : AssemblyNode} {cap : Capability}

private theorem unit_spec (run : Fires policy calls runId slot node cap .oncePerKey)
    {unit : List NamedArtifact × String} (met : UnitOf policy calls runId node unit) :
    unit.2 = (UnitIdent.key node.id (inputKeyBytes cap unit.1)).spell ∧ Carried cap unit.1 ∧
      unit.1.map (·.name) = (bindingsOf slot.run.assembly node.id).map (·.toPort) := by
  obtain ⟨before, after, old, rfl, found, current⟩ := met
  have reached : Reachable policy (exec policy {} before) := ⟨before, rfl⟩
  obtain ⟨-, member, known, fires⟩ := run.earlier found
  obtain ⟨resolves, keyed⟩ := currentUnit_key known current
  rw [fires] at keyed
  refine ⟨(Option.some.inj keyed).symm, carried_of_resolved reached found member known resolves, ?_⟩
  rw [(terms_at found run.found).assembly]
  refine mapM_map (fun b i made => ?_) resolves
  obtain ⟨r, -, rfl⟩ := Option.map_eq_some_iff.mp made
  rfl

private theorem key_eq_iff (run : Fires policy calls runId slot node cap .oncePerKey)
    (free : Set.InjOn Sha256.digest (hashed policy calls runId node cap))
    {unit unit' : List NamedArtifact × String} (met : UnitOf policy calls runId node unit)
    (met' : UnitOf policy calls runId node unit') :
    unit.2 = unit'.2 ↔ SameKey cap unit.1 unit'.1 := by
  obtain ⟨key, carried, names⟩ := unit_spec run met
  obtain ⟨key', carried', names'⟩ := unit_spec run met'
  rw [← keyPairs_eq_iff carried carried' (names.trans names'.symm), key, key']
  constructor
  · intro same
    exact inputKeyBytes_inj carried carried' (names.trans names'.symm)
      (free ⟨unit, met, rfl⟩ ⟨unit', met', rfl⟩ (UnitIdent.spell_inj same).2)
  · intro same
    rw [inputKeyBytes, same, ← inputKeyBytes]

private theorem commits_apart (run : Fires policy calls runId slot node cap .oncePerKey)
    (free : Set.InjOn Sha256.digest (hashed policy calls runId node cap)) :
    ((derivationsOf (exec policy {} calls) runId).filter (·.nodeId == node.id)).Pairwise
      fun d d' => ¬ SameKey cap d.inputs d'.inputs := by
  obtain ⟨keys, answers, nodup, -⟩ := (keyed_exec policy calls runId).commits
  rw [List.pairwise_filter]
  generalize derivationsOf (exec policy {} calls) runId = ds at answers ⊢
  induction answers with
  | nil => exact .nil
  | @cons d key ds keys first rest ih =>
      obtain ⟨fresh, nodup⟩ := List.nodup_cons.mp nodup
      refine .cons (fun d' member own own' same => fresh ?_) (ih nodup)
      obtain ⟨work, handed, id, inputs, rfl⟩ := first
      obtain ⟨key', listed, work', handed', id', inputs', rfl⟩ := (forall₂_mem rest).1 d' member
      have met := unitOf_handed run.found run.member handed (id.trans (beq_iff_eq.mp own))
      have met' := unitOf_handed run.found run.member handed' (id'.trans (beq_iff_eq.mp own'))
      rw [← inputs, ← inputs'] at same
      have key : work.unitKey = work'.unitKey := (key_eq_iff run free met met').mpr same
      rwa [key]

/-- Of a node that fires once a key: its units, in all states of the run, are the same exactly when
the ports that make up the key hold the same artifacts in binding order; no two commits are of one
key; and the node is READY at a key that was never handed out, and not at one that was committed. -/
theorem once_per_key (run : Fires policy calls runId slot node cap .oncePerKey)
    (free : Set.InjOn Sha256.digest (hashed policy calls runId node cap)) :
    (∀ unit unit', UnitOf policy calls runId node unit → UnitOf policy calls runId node unit' →
      (unit.2 = unit'.2 ↔ SameKey cap unit.1 unit'.1)) ∧
    ((derivationsOf (exec policy {} calls) runId).filter (·.nodeId == node.id)).Pairwise
      (fun d d' => ¬ SameKey cap d.inputs d'.inputs) ∧
    ∀ unit, currentUnit (exec policy {} calls).modules slot node = some unit →
      ((∃ d ∈ derivationsOf (exec policy {} calls) runId, d.nodeId = node.id ∧
        SameKey cap d.inputs unit.1) → readyUnit (exec policy {} calls).modules slot node = none) ∧
      ((∀ work ∈ handedTo policy runId calls, work.nodeId = node.id →
        ¬ SameKey cap work.inputs unit.1) →
        readyUnit (exec policy {} calls).modules slot node = some unit) := by
  refine ⟨fun unit unit' met met' => key_eq_iff run free met met', commits_apart run free, ?_⟩
  intro unit current
  have met : UnitOf policy calls runId node unit :=
    ⟨calls, [], slot, (List.append_nil calls).symm, run.found, current⟩
  constructor
  · rintro ⟨d, member, own, same⟩
    obtain ⟨keys, answers, -, done⟩ := (keyed_exec policy calls runId).commits
    obtain ⟨key, listed, work, handed, id, inputs, rfl⟩ := (forall₂_mem answers).1 d member
    have key : work.unitKey = unit.2 := (key_eq_iff run free
      (unitOf_handed run.found run.member handed (id.trans own)) met).mpr (inputs ▸ same)
    obtain ⟨slot', found, spent⟩ := done _ listed
    obtain rfl := Option.some.inj (run.found.symm.trans found)
    exact unready_of_done current (key ▸ spent)
  · intro others
    refine ready_of_untaken (untaken_exec policy calls run.found fun work handed same => ?_) current
    obtain ⟨before, call, after, rfl, given, rfl⟩ := mem_handedTo.mp handed
    obtain ⟨old, found, listed, taken⟩ := handed_current given
    rw [same] at taken
    have own : work.nodeId = node.id := currentUnit_node taken current
    exact others work handed own
      ((key_eq_iff run free (unitOf_handed run.found run.member handed own) met).mp same)

end Calls

section Echo

open Substrate.Kernel.Concrete

/-- Have the run hear a line that is stored already. -/
def hearAt (ms : Int64) (line : Artifact) : Call :=
  callAt ms (.injectInput { runId := "r", input := some (given "line" line) })

/-- The last work id that a history hands out. -/
def lastId (calls : List Call) : String := ((handedTo policy "r" calls).map (·.id)).getLastD ""

/-- Claim what is READY and answer it with a line. -/
def answer (calls : List Call) (line : Artifact) : List Call :=
  calls ++ [claimAt 1, commitAt 2 (lastId (calls ++ [claimAt 1])) line]

/-- One line, another one, and the first again. -/
def alternating : List Call :=
  answer (answer (opening .oncePerKey .open) (text "one") ++
    [callAt 3 (.putArtifact (text "two")), hearAt 3 (text "two")]) (text "two") ++
      [hearAt 4 (text "one")]

/-- The units that a node has after each of the calls. -/
def unitsMet (calls : List Call) : List (List NamedArtifact × String) :=
  calls.inits.filterMap fun before => ((exec policy {} before).runs.lookup "r").bind fun slot =>
    currentUnit (exec policy {} before).modules slot speaker

private theorem mem_unitsMet {calls : List Call} {unit : List NamedArtifact × String}
    (met : UnitOf policy calls "r" speaker unit) : unit ∈ unitsMet calls := by
  obtain ⟨before, after, slot, rfl, found, current⟩ := met
  refine List.mem_filterMap.mpr ⟨before, (List.mem_inits before _).mpr (List.prefix_append _ _), ?_⟩
  rw [found, Option.bind_some, current]

private theorem alternating_free :
    Set.InjOn Sha256.digest (hashed policy alternating "r" speaker (speaking .oncePerKey)) := by
  have apart : ∀ x ∈ (unitsMet alternating).map (inputKeyBytes (speaking .oncePerKey) ·.1),
      ∀ y ∈ (unitsMet alternating).map (inputKeyBytes (speaking .oncePerKey) ·.1),
        Sha256.digest x = Sha256.digest y → x = y := by
    decide +kernel
  rintro x ⟨unit, met, rfl⟩ y ⟨unit', met', rfl⟩ same
  exact apart _ (List.mem_map_of_mem (mem_unitsMet met)) _ (List.mem_map_of_mem (mem_unitsMet met')) same

theorem once_per_key_alternating : ∃ slot,
    (exec policy {} alternating).runs.lookup "r" = some slot ∧
      (∀ unit unit', UnitOf policy alternating "r" speaker unit →
        UnitOf policy alternating "r" speaker unit' →
          (unit.2 = unit'.2 ↔ SameKey (speaking .oncePerKey) unit.1 unit'.1)) ∧
      readyUnit (exec policy {} alternating).modules slot speaker = none := by
  have present : ((exec policy {} alternating).runs.lookup "r").isSome = true := by decide +kernel
  obtain ⟨slot, found⟩ := Option.isSome_iff_exists.mp present
  have facts : ((exec policy {} alternating).runs.lookup "r").map (fun slot =>
      (slot.run.assembly.nodes, effectiveFiring slot speaker (speaking .oncePerKey),
        (currentUnit (exec policy {} alternating).modules slot speaker).map (·.1))) =
      some ([speaker], .oncePerKey, some [given "heard" (text "one")]) := by decide +kernel
  have known : pinned (exec policy {} alternating).modules speaker = some (speaking .oncePerKey) := by
    decide +kernel
  have answered : ((derivationsOf (exec policy {} alternating) "r").map fun d => (d.nodeId, d.inputs)) =
      [("n", [given "heard" (text "one")]), ("n", [given "heard" (text "two")])] := by decide +kernel
  rw [found, Option.map_some, Option.some.injEq, Prod.mk.injEq, Prod.mk.injEq,
    Option.map_eq_some_iff] at facts
  obtain ⟨nodes, fires, unit, current, inputs⟩ := facts
  have run : Fires policy alternating "r" slot speaker (speaking .oncePerKey) .oncePerKey :=
    ⟨found, nodes ▸ List.mem_singleton_self _, known, fires⟩
  obtain ⟨same, -, later⟩ := once_per_key run alternating_free
  refine ⟨slot, found, same, (later unit current).1 ?_⟩
  obtain ⟨d, member, made⟩ := List.mem_map.mp
    (answered ▸ List.mem_cons_self : ("n", [given "heard" (text "one")]) ∈ _)
  rw [Prod.mk.injEq] at made
  exact ⟨d, member, made.1, by rw [made.2, inputs]; exact fun _ _ => rfl⟩

end Echo

end Substrate.Protocol.Keys
