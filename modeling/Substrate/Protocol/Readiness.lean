/- ID: Substrate/Protocol/Readiness
   digest: The three kernels find the same work ready in a run with one binding to a port and an artifact in every delivery. -/

import Substrate.Protocol.Fingerprints
import Substrate.Protocol.Mirrors
import Substrate.Protocol.Integrity

set_option autoImplicit false
set_option relaxedAutoImplicit false

namespace Substrate.Protocol.Readiness

open Substrate.Kernel
open Substrate.Kernel.Wire
open Substrate.Kernel.Hashing
open Substrate.Kernel.Memory
open Substrate.Kernel.Registry
open Substrate.Kernel.Schedule
open Substrate.Kernel.Runs
open Substrate.Kernel.Work
open Substrate.Kernel.Api
open Substrate.Protocol.Atoms
open Substrate.Protocol.Slots
open Substrate.Protocol.Delivery (inputs_apply)
open Substrate.Protocol.Refine (reachable_invariant)
open Substrate.Protocol.Typing (validateOutput_ok)
open Substrate.Protocol.Fingerprints
open Substrate.Protocol.Mirrors
open Substrate.Library.Checks
open Substrate.Library.FiniteMap
open Substrate.Library.ExchangeSort

/-- The firings of a registry and of a run's policy are declared values. -/
structure Declared (modules : List ModuleSlot) (slot : RunSlot) : Prop where
  registry : ∀ m ∈ modules, ∀ cap ∈ m.manifest.provides, (Firing.tryFrom cap.firing).isSome
  default : ∀ p, slot.run.policy = some p → (Firing.tryFrom p.default).isSome
  byNode : ∀ p, slot.run.policy = some p → ∀ id f, p.byNode.get? id = some f →
    (Firing.tryFrom f).isSome

theorem resolved_provided {modules : List ModuleSlot} {node : AssemblyNode} {cap : Capability}
    (resolved : capabilityForNode modules node = .ok cap) :
    ∃ m ∈ modules, cap ∈ m.manifest.provides := by
  have only : cap ∈ providers modules node := by
    unfold capabilityForNode at resolved
    split at resolved
    · cases resolved
    · rename_i found single
      rw [single, Except.ok.inj resolved]
      exact List.mem_singleton_self cap
    · cases resolved
  obtain ⟨m, listed, provided⟩ := List.mem_flatMap.mp only
  exact ⟨m, (List.mem_filter.mp listed).1, (List.mem_filter.mp provided).1⟩

theorem effectiveFiring_eq {modules : List ModuleSlot} {slot : RunSlot} {node : AssemblyNode}
    {cap : Capability} (declared : Declared modules slot)
    (resolved : capabilityForNode modules node = .ok cap) :
    Go.effectiveFiring slot node cap = (effectiveFiring slot node cap).asI32 := by
  rw [Go.effectiveFiring, effectiveFiring]
  cases named : slot.run.policy.bind fun p => (p.byNode.get? node.id).filter (· ≠ 0) with
  | some f =>
      obtain ⟨p, given, found⟩ := Option.bind_eq_some_iff.mp named
      obtain ⟨g, known⟩ := Option.isSome_iff_exists.mp
        (declared.byNode p given node.id f (Option.filter_eq_some_iff.mp found).1)
      simp only [known, Option.getD_some]
      exact asI32_of_tryFrom known
  | none =>
      obtain ⟨m, listed, provided⟩ := resolved_provided resolved
      obtain ⟨own, known⟩ := Option.isSome_iff_exists.mp (declared.registry m listed cap provided)
      have value := asI32_of_tryFrom known
      have reads : cap.firingOf = own := by rw [Capability.firingOf, known, Option.getD_some]
      simp only [reads, value, asI32_ne_zero]
      split_ifs with chosen
      · rfl
      · cases given : slot.run.policy with
        | none => rfl
        | some p =>
            obtain ⟨fallback, known'⟩ := Option.isSome_iff_exists.mp (declared.default p given)
            have value' := asI32_of_tryFrom known'
            have reads' : p.defaultOf = fallback := by
              rw [ExecutionPolicy.defaultOf, known', Option.getD_some]
            simp only [Option.map_some, reads', value', Option.filter_some, decide_not]
            cases fallback <;> rfl

theorem isOpenClosure_eq (slot : RunSlot) : Go.isOpenClosure slot = isOpenClosure slot := by
  rw [Go.isOpenClosure, isOpenClosure]
  cases slot.run.policy with
  | none => rfl
  | some p =>
      have reads : p.closure = Closure.open.asI32 ↔ p.closureOf = .open := by
        rw [ExecutionPolicy.closureOf]
        constructor
        · intro same
          rw [same]
          rfl
        · intro opened
          cases known : Closure.tryFrom p.closure with
          | none =>
              rw [known] at opened
              cases opened
          | some c =>
              rw [known, Option.getD_some] at opened
              have value := List.find?_some known
              rw [opened, beq_iff_eq] at value
              exact value.symm
      rw [Bool.eq_iff_iff, beq_iff_eq, beq_iff_eq]
      exact reads

/-- Every input and every output delivered so far refers to an artifact. -/
structure Carried (slot : RunSlot) : Prop where
  inputs : ∀ i ∈ slot.run.inputs, i.artifact.isSome
  outputs : ∀ node d, slot.latest.lookup node = some d → ∀ o ∈ d.outputs, o.artifact.isSome

/-- No two bindings feed one port. -/
def OneBinding (assembly : Assembly) : Prop :=
  (assembly.bindings.map fun b => (b.toNode, b.toPort)).Nodup

private theorem map_getD {item : Option NamedArtifact} (carried : ∀ i ∈ item, i.artifact.isSome) :
    (item.map fun i => i.artifact.getD ⟨""⟩) = item.bind (·.artifact) := by
  cases item with
  | none => rfl
  | some i =>
      obtain ⟨r, found⟩ := Option.isSome_iff_exists.mp (carried i rfl)
      rw [Option.map_some, Option.bind_some, found, Option.getD_some]

theorem resolveBinding_widen {slot : RunSlot} (carried : Carried slot) (b : Binding) :
    Python.resolveBinding (widenSlot slot) b = resolveBinding slot b := by
  rw [Python.resolveBinding, resolveBinding]
  split_ifs with external
  · exact map_getD fun i found => carried.inputs i (List.mem_of_find?_eq_some found)
  · refine map_getD fun o found => ?_
    obtain ⟨d, latest, listed⟩ := Option.bind_eq_some_iff.mp found
    exact carried.outputs b.fromNode d latest o (List.mem_of_find?_eq_some listed)

theorem resolveInputs_widen {slot : RunSlot} (carried : Carried slot) (node : AssemblyNode) :
    Python.resolveInputs (widenSlot slot) node = resolveInputs slot node :=
  mapM_congr fun b _ => by rw [resolveBinding_widen carried b]

theorem ports_distinct {slot : RunSlot} (one : OneBinding slot.run.assembly) (nodeId : String) :
    ((bindingsOf slot.run.assembly nodeId).map (·.toPort)).Nodup := by
  have kept : ((bindingsOf slot.run.assembly nodeId).map fun b => (b.toNode, b.toPort)).Nodup :=
    List.Nodup.sublist (List.filter_sublist.map _) one
  have same : (bindingsOf slot.run.assembly nodeId).map (fun b => (b.toNode, b.toPort)) =
      ((bindingsOf slot.run.assembly nodeId).map (·.toPort)).map fun p => (nodeId, p) := by
    rw [List.map_map]
    refine List.map_congr_left fun b member => ?_
    have here := (List.mem_filter.mp member).2
    rw [beq_iff_eq] at here
    rw [Function.comp_apply, here]
  exact List.Nodup.of_map _ (same ▸ kept)

private theorem map_port {α : Type} {f : Binding → Option α} {port : α → String} {bs : List Binding}
    {rows : List α} (made : bs.mapM f = some rows)
    (named : ∀ b a, f b = some a → port a = b.toPort) : rows.map port = bs.map (·.toPort) := by
  have related := mapM_eq_some.mp made
  clear made
  induction related with
  | nil => rfl
  | cons first _ ih => rw [List.map_cons, List.map_cons, ih, named _ _ first]

theorem rows_distinct {slot : RunSlot} {node : AssemblyNode} {inputs : List NamedArtifact}
    {rows : List (String × String × UInt64)} (one : OneBinding slot.run.assembly)
    (made : deliveryRows slot node inputs = some rows) : (rows.map (·.1)).Nodup := by
  rw [map_port made fun b row found => ?_]
  · exact ports_distinct one node.id
  · obtain ⟨art, -, rest⟩ := Option.bind_eq_some_iff.mp found
    obtain ⟨r, -, rfl⟩ := Option.map_eq_some_iff.mp rest
    rfl

theorem pairs_distinct {slot : RunSlot} {node : AssemblyNode} {inputs : List NamedArtifact}
    (one : OneBinding slot.run.assembly) (resolved : resolveInputs slot node = some inputs)
    (cap : Capability) : ((keyPairs cap inputs).map (·.1)).Nodup := by
  have names : (inputs.map (·.name)).Nodup := by
    rw [map_port resolved fun b i found => ?_]
    · exact ports_distinct one node.id
    · obtain ⟨r, -, rfl⟩ := Option.map_eq_some_iff.mp found
      rfl
  refine names.sublist ?_
  rw [keyPairs]
  generalize (cap.inputs.filter (·.key)).map (·.name) = marked
  clear resolved names
  induction inputs with
  | nil => exact List.Sublist.refl _
  | cons i inputs ih =>
      rw [List.filterMap_cons]
      split
      · exact ih.cons _
      · rename_i pair found
        obtain ⟨r, -, rest⟩ := Option.bind_eq_some_iff.mp found
        split_ifs at rest with kept
        obtain rfl := Option.some.inj rest
        exact ih.cons_cons i.name

section Units

variable [Sha256]

theorem currentUnit_eq {modules : List ModuleSlot} {slot : RunSlot}
    (declared : Declared modules slot) (one : OneBinding slot.run.assembly) (node : AssemblyNode) :
    Go.currentUnit modules slot node = currentUnit modules slot node := by
  rw [Go.currentUnit, currentUnit]
  refine Option.bind_congr fun inputs resolved => Option.bind_congr fun cap found => ?_
  have known : capabilityForNode modules node = .ok cap := by
    cases known : capabilityForNode modules node with
    | error e =>
        rw [known] at found
        cases found
    | ok other =>
        rw [known] at found
        rw [Option.some.inj found]
  rw [effectiveFiring_eq declared known, workUnitKey_eq]
  · refine inputKey_eq ?_
    rw [Go.inputKeyBytes, sortByPort_eq (pairs_distinct one resolved cap), inputKeyBytes]
  · refine deliveryFingerprint_eq fun rows made => ?_
    rw [Go.deliveryBytes, sortByPort_eq (rows_distinct one made), deliveryBytes]

theorem go_anyReady {modules : List ModuleSlot} {slot : RunSlot} (declared : Declared modules slot)
    (one : OneBinding slot.run.assembly) :
    Go.assemblyAnyReady modules slot = assemblyAnyReady modules slot := by
  have units : ∀ node, Go.readyUnit modules slot node = readyUnit modules slot node := fun node => by
    rw [Go.readyUnit, readyUnit, currentUnit_eq declared one node]
  simp only [Go.assemblyAnyReady, assemblyAnyReady, units]

theorem go_isIdle {modules : List ModuleSlot} {slot : RunSlot} (declared : Declared modules slot)
    (one : OneBinding slot.run.assembly) : Go.isIdle modules slot = isIdle modules slot := by
  rw [Go.isIdle, isIdle, isOpenClosure_eq, go_anyReady declared one]

omit [Sha256] in
def widenRow (row : String × String × UInt64) : String × String × Nat :=
  (row.1, row.2.1, row.2.2.toNat)

omit [Sha256] in
theorem bindingEpoch_widen (slot : RunSlot) (b : Binding) :
    Python.bindingEpoch (widenSlot slot) b = (bindingEpoch slot b).toNat := by
  rw [Python.bindingEpoch, bindingEpoch]
  split_ifs
  · rw [widenSlot, lookup_mapValues]
    cases slot.inputEpochs.lookup b.input <;> rfl
  · rw [widenSlot, lookup_mapValues]
    cases slot.nodeCommits.lookup b.fromNode <;> rfl

omit [Sha256] in
theorem deliveryRows_widen (slot : RunSlot) (node : AssemblyNode) (inputs : List NamedArtifact) :
    Python.deliveryRows (widenSlot slot) node inputs =
      (deliveryRows slot node inputs).map (List.map widenRow) := by
  rw [Python.deliveryRows, deliveryRows, ← mapM_map_option]
  refine mapM_congr fun b _ => ?_
  rw [bindingEpoch_widen]
  cases inputs.find? (·.name == b.toPort) with
  | none => rfl
  | some art => cases art with
    | mk name artifact => cases artifact <;> rfl

omit [Sha256] in
theorem deliveryRowBytes_widen (row : String × String × UInt64) :
    Python.deliveryRowBytes (widenRow row) = .ok (deliveryRowBytes row) := by
  have fits : (widenRow row).2.2 < 2 ^ 64 := row.2.2.toNat_lt
  rw [Python.deliveryRowBytes, if_pos fits]
  rfl

omit [Sha256] in
private theorem sort_widen (rows : List (String × String × UInt64)) :
    sortByPort (rows.map widenRow) = (sortByPort rows).map widenRow :=
  (List.map_insertionSort _ _ widenRow rows fun _ _ _ _ => Iff.rfl).symm

theorem deliveryFingerprint_widen (slot : RunSlot) (node : AssemblyNode)
    (inputs : List NamedArtifact) :
    Python.deliveryFingerprint (widenSlot slot) node inputs =
      .ok (deliveryFingerprint slot node inputs) := by
  rw [Python.deliveryFingerprint, deliveryFingerprint, deliveryRows_widen]
  cases deliveryRows slot node inputs with
  | none => rfl
  | some rows =>
      have parts : (sortByPort (rows.map widenRow)).mapM Python.deliveryRowBytes =
          .ok ((sortByPort rows).map deliveryRowBytes) := by
        rw [sort_widen]
        exact mapM_ok deliveryRowBytes_widen _
      simp only [Option.map_some, parts]
      rfl

theorem workUnitKey_widen (slot : RunSlot) (node : AssemblyNode) (cap : Capability)
    (firing : Firing) (inputs : List NamedArtifact) :
    Python.workUnitKey (widenSlot slot) node cap firing.asI32 inputs =
      .ok (workUnitKey slot node cap firing inputs) := by
  rw [Python.workUnitKey, deliveryFingerprint_widen]
  cases firing <;> rfl

omit [Sha256] in
theorem unitIsClaimed_widen (slot : RunSlot) (unitKey : String) :
    Python.unitIsClaimed (widenSlot slot) unitKey = unitIsClaimed slot unitKey := by
  rw [Python.unitIsClaimed, unitIsClaimed, widenSlot, values_mapValues, List.any_map]
  rfl

theorem nodeIsReady_widen {modules : List ModuleSlot} {slot : RunSlot}
    (declared : Declared modules slot) (carried : Carried slot) (node : AssemblyNode) :
    Python.nodeIsReady modules (widenSlot slot) node =
      .ok (readyUnit modules slot node).isSome := by
  rw [Python.nodeIsReady, readyUnit, currentUnit, resolveInputs_widen carried]
  cases resolveInputs slot node with
  | none => rfl
  | some inputs =>
      cases known : capabilityForNode modules node with
      | error e => rfl
      | ok cap =>
          have firing : Python.effectiveFiring (widenSlot slot) node cap =
              (effectiveFiring slot node cap).asI32 := effectiveFiring_eq declared known
          simp only [firing, workUnitKey_widen, unitIsClaimed_widen, Except.toOption,
            Option.bind_some]
          cases workUnitKey slot node cap (effectiveFiring slot node cap) inputs with
          | none => rfl
          | some unitKey =>
              have done : (widenSlot slot).doneUnits = slot.doneUnits := rfl
              simp only [Option.map_some, Option.filter_some, done]
              cases free : unitKey ∉ slot.doneUnits && !unitIsClaimed slot unitKey <;>
                simp only [pure, Except.pure, bind, Except.bind, Option.any_some, free] <;> rfl

theorem python_anyReady {modules : List ModuleSlot} {slot : RunSlot}
    (declared : Declared modules slot) (carried : Carried slot) :
    Python.assemblyAnyReady modules (widenSlot slot) = .ok (assemblyAnyReady modules slot) := by
  have every : ∀ nodes : List AssemblyNode, Python.anyReady modules (widenSlot slot) nodes =
      .ok (nodes.any fun node => (readyUnit modules slot node).isSome) := by
    intro nodes
    induction nodes with
    | nil => rfl
    | cons node nodes ih =>
        rw [Python.anyReady, nodeIsReady_widen declared carried, ih, List.any_cons]
        cases (readyUnit modules slot node).isSome <;> rfl
  exact every slot.run.assembly.nodes

end Units

end Substrate.Protocol.Readiness
