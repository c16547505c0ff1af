/- ID: Substrate/Protocol/Delivery
   digest: What a node's current unit depends on, and which acts leave it alone. -/

import Substrate.Protocol.Slots
import Substrate.Protocol.Identity

set_option autoImplicit false
set_option relaxedAutoImplicit false

namespace Substrate.Protocol.Delivery

open Substrate.Kernel.Wire
open Substrate.Kernel.Hashing
open Substrate.Kernel.Memory
open Substrate.Kernel.Registry
open Substrate.Kernel.Schedule
open Substrate.Kernel.Runs
open Substrate.Kernel.Work
open Substrate.Protocol.Atoms
open Substrate.Protocol.Slots
open Substrate.Library.Checks
open Substrate.Library.FiniteMap

/-- Two slots that deliver the same artifacts at the same generations under the same terms. -/
structure SameDeliveries (a b : RunSlot) : Prop where
  assembly : a.run.assembly = b.run.assembly
  policy : a.run.policy = b.run.policy
  inputs : a.run.inputs = b.run.inputs
  latest : a.latest = b.latest
  inputEpochs : a.inputEpochs = b.inputEpochs
  nodeCommits : a.nodeCommits = b.nodeCommits

theorem SameDeliveries.refl (slot : RunSlot) : SameDeliveries slot slot :=
  ⟨rfl, rfl, rfl, rfl, rfl, rfl⟩

theorem resolveBinding_congr {a b : RunSlot} (same : SameDeliveries a b) (binding : Binding) :
    resolveBinding a binding = resolveBinding b binding := by
  unfold resolveBinding
  rw [same.inputs, same.latest]

theorem resolveInputs_congr {a b : RunSlot} (same : SameDeliveries a b) (node : AssemblyNode) :
    resolveInputs a node = resolveInputs b node := by
  unfold resolveInputs
  simp only [same.assembly, resolveBinding_congr same]

theorem effectiveFiring_congr {a b : RunSlot} (policy : a.run.policy = b.run.policy)
    (node : AssemblyNode) (cap : Capability) :
    effectiveFiring a node cap = effectiveFiring b node cap := by
  unfold effectiveFiring
  rw [policy]

theorem isOpenClosure_congr {a b : RunSlot} (policy : a.run.policy = b.run.policy) :
    isOpenClosure a = isOpenClosure b := by
  unfold isOpenClosure
  rw [policy]

theorem deliveryRows_congr {a b : RunSlot} (same : SameDeliveries a b) (node : AssemblyNode)
    (inputs : List NamedArtifact) : deliveryRows a node inputs = deliveryRows b node inputs := by
  unfold deliveryRows bindingEpoch
  rw [same.assembly, same.inputEpochs, same.nodeCommits]

theorem deliveryRows_some {slot : RunSlot} {node : AssemblyNode} {inputs : List NamedArtifact}
    (resolves : resolveInputs slot node = some inputs) :
    ∃ rows, deliveryRows slot node inputs = some rows := by
  obtain ⟨present, carried⟩ := mapM_mem resolves
  refine mapM_isSome.mpr fun b here => ?_
  obtain ⟨entry, listed, made⟩ := present b here
  obtain ⟨r, -, rfl⟩ := Option.map_eq_some_iff.mp made
  cases search : inputs.find? (·.name == b.toPort) with
  | none => exact absurd (List.find?_eq_none.mp search _ listed) (by simp)
  | some first =>
      obtain ⟨b', -, made'⟩ := carried first (List.mem_of_find?_eq_some search)
      obtain ⟨r', -, rfl⟩ := Option.map_eq_some_iff.mp made'
      exact ⟨_, rfl⟩

variable [Sha256]

/-- Resolved inputs make up a unit, whatever the mode. -/
theorem workUnitKey_some {slot : RunSlot} {node : AssemblyNode} {inputs : List NamedArtifact}
    (resolves : resolveInputs slot node = some inputs) (cap : Capability) (firing : Firing) :
    ∃ unitKey, workUnitKey slot node cap firing inputs = some unitKey := by
  obtain ⟨rows, delivered⟩ := deliveryRows_some resolves
  unfold workUnitKey deliveryFingerprint
  split
  · rw [delivered]
    exact ⟨_, rfl⟩
  · exact ⟨_, rfl⟩
  · exact ⟨_, rfl⟩

theorem currentUnit_congr {a b : RunSlot} (same : SameDeliveries a b) (modules : List ModuleSlot)
    (node : AssemblyNode) : currentUnit modules a node = currentUnit modules b node := by
  unfold currentUnit workUnitKey deliveryFingerprint
  simp only [resolveInputs_congr same, effectiveFiring_congr same.policy, deliveryRows_congr same]

omit [Sha256] in
theorem unitIsClaimed_iff {slot : RunSlot} {unitKey : String} :
    unitIsClaimed slot unitKey = true ↔
      ∃ id c, slot.claimed.lookup id = some c ∧ c.unitKey = unitKey := by
  simp only [unitIsClaimed, List.any_eq_true, mem_values, beq_iff_eq]
  constructor
  · rintro ⟨c, ⟨id, found⟩, same⟩
    exact ⟨id, c, found, same⟩
  · rintro ⟨id, c, found, same⟩
    exact ⟨c, ⟨id, found⟩, same⟩

omit [Sha256] in
theorem unitIsClaimed_eq_false {slot : RunSlot} {unitKey : String} :
    unitIsClaimed slot unitKey = false ↔
      ∀ id c, slot.claimed.lookup id = some c → c.unitKey ≠ unitKey := by
  rw [← Bool.not_eq_true, unitIsClaimed_iff]
  push Not
  rfl

/-- A unit is READY when it is the node's current one and neither done nor claimed. -/
theorem readyUnit_eq_some {modules : List ModuleSlot} {slot : RunSlot} {node : AssemblyNode}
    {inputs : List NamedArtifact} {unitKey : String} :
    readyUnit modules slot node = some (inputs, unitKey) ↔
      currentUnit modules slot node = some (inputs, unitKey) ∧ unitKey ∉ slot.doneUnits ∧
        unitIsClaimed slot unitKey = false := by
  simp only [readyUnit, Option.filter_eq_some_iff, Bool.and_eq_true, decide_eq_true_eq,
    Bool.not_eq_true']

theorem anyReady_iff {modules : List ModuleSlot} {slot : RunSlot} :
    assemblyAnyReady modules slot = true ↔
      ∃ node ∈ slot.run.assembly.nodes, ∃ inputs unitKey,
        readyUnit modules slot node = some (inputs, unitKey) := by
  simp only [assemblyAnyReady, List.any_eq_true, Option.isSome_iff_exists, Prod.exists]

omit [Sha256] in
/-- An input after one was admitted is that one or was there before. -/
theorem mem_admitInput {given input : NamedArtifact} {inputs : List NamedArtifact}
    (member : input ∈ admitInput given inputs) : input = given ∨ input ∈ inputs := by
  induction inputs with
  | nil => exact .inl (List.mem_singleton.mp member)
  | cons i inputs ih =>
      unfold admitInput at member
      split_ifs at member
      · rcases List.mem_cons.mp member with rfl | old
        · exact .inl rfl
        · exact .inr (List.mem_cons_of_mem _ old)
      · rcases List.mem_cons.mp member with rfl | later
        · exact .inr List.mem_cons_self
        · exact (ih later).imp_right (List.mem_cons_of_mem _)

/-- Only injections change a run's inputs. -/
theorem inputs_apply {modules : List ModuleSlot} {slot : RunSlot} {a : SlotAct}
    (noInject : ∀ input, a ≠ .inject input) :
    (a.apply modules slot).run.inputs = slot.run.inputs := by
  cases a with
  | inject input => exact absurd rfl (noInject input)
  | commit c outputs =>
      have advanced := (advanceRun_terms slot (derivationOf c.work outputs)).2.2.2.2.1
      simp only [SlotAct.apply, settleSlot]
      split_ifs <;> exact advanced
  | renew id leaseUntil =>
      simp only [SlotAct.apply, renewClaim]
      split <;> rfl
  | _ => rfl

/-- Only injections and commits change what is delivered. -/
theorem apply_deliveries {modules : List ModuleSlot} {slot : RunSlot} {a : SlotAct}
    (noInject : ∀ input, a ≠ .inject input) (noCommit : ∀ c outputs, a ≠ .commit c outputs) :
    SameDeliveries (a.apply modules slot) slot := by
  cases a with
  | inject input => exact absurd rfl (noInject input)
  | commit c outputs => exact absurd rfl (noCommit c outputs)
  | renew id leaseUntil =>
      simp only [SlotAct.apply, renewClaim]
      split <;> exact ⟨rfl, rfl, rfl, rfl, rfl, rfl⟩
  | claim work => exact ⟨rfl, rfl, rfl, rfl, rfl, rfl⟩
  | expire id c => exact ⟨rfl, rfl, rfl, rfl, rfl, rfl⟩
  | fail id c reason terminal => exact ⟨rfl, rfl, rfl, rfl, rfl, rfl⟩
  | stall => exact ⟨rfl, rfl, rfl, rfl, rfl, rfl⟩
  | cancel => exact ⟨rfl, rfl, rfl, rfl, rfl, rfl⟩

end Substrate.Protocol.Delivery
