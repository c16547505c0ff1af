/- ID: Substrate/Protocol/Single
   digest: Without injections a node has one unit: what it resolves to once never changes again. -/

import Substrate.Library.Checks
import Substrate.Protocol.Steady

set_option autoImplicit false
set_option relaxedAutoImplicit false

namespace Substrate.Protocol.Single

open Substrate.Kernel.Wire
open Substrate.Kernel.Hashing
open Substrate.Kernel.Memory
open Substrate.Kernel.Registry
open Substrate.Kernel.Schedule
open Substrate.Kernel.Runs
open Substrate.Kernel.Work
open Substrate.Protocol.Atoms
open Substrate.Protocol.Slots
open Substrate.Protocol.Delivery
open Substrate.Protocol.Exclusive
open Substrate.Protocol.Steady
open Substrate.Library.Checks (mapM_congr mapM_isSome)
open Substrate.Library.FiniteMap
open Substrate.Library.Transition

variable [Sha256]

omit [Sha256] in
theorem inputs_of_bindings {before after : RunSlot} {node : AssemblyNode}
    (assembly : after.run.assembly = before.run.assembly)
    (same : ∀ b ∈ bindingsOf before.run.assembly node.id,
      resolveBinding after b = resolveBinding before b) :
    resolveInputs after node = resolveInputs before node := by
  unfold resolveInputs
  rw [assembly]
  refine mapM_congr fun b member => ?_
  rw [same b member]

theorem key_of_bindings {before after : RunSlot} {node : AssemblyNode}
    (assembly : after.run.assembly = before.run.assembly)
    (same : ∀ b ∈ bindingsOf before.run.assembly node.id,
      bindingEpoch after b = bindingEpoch before b) (cap : Capability) (firing : Firing)
    (inputs : List NamedArtifact) :
    workUnitKey after node cap firing inputs = workUnitKey before node cap firing inputs := by
  have rows : deliveryRows after node inputs = deliveryRows before node inputs := by
    unfold deliveryRows
    rw [assembly]
    refine mapM_congr fun b member => ?_
    rw [same b member]
  unfold workUnitKey deliveryFingerprint
  rw [rows]

theorem currentUnit_of_bindings {modules : List ModuleSlot} {before after : RunSlot}
    {node : AssemblyNode} (assembly : after.run.assembly = before.run.assembly)
    (policy : after.run.policy = before.run.policy)
    (same : ∀ b ∈ bindingsOf before.run.assembly node.id,
      resolveBinding after b = resolveBinding before b ∧ bindingEpoch after b = bindingEpoch before b) :
    currentUnit modules after node = currentUnit modules before node := by
  have inputs := inputs_of_bindings assembly fun b member => (same b member).1
  have keys := key_of_bindings assembly fun b member => (same b member).2
  unfold currentUnit
  simp only [inputs, keys, effectiveFiring_congr policy]

omit [Sha256] in
/-- Every binding of a node that resolves delivers something. -/
theorem resolveBinding_isSome {slot : RunSlot} {node : AssemblyNode} {inputs : List NamedArtifact}
    (resolves : resolveInputs slot node = some inputs) {b : Binding}
    (member : b ∈ bindingsOf slot.run.assembly node.id) : ∃ r, resolveBinding slot b = some r := by
  obtain ⟨entry, made⟩ := mapM_isSome.mp ⟨inputs, resolves⟩ b member
  obtain ⟨r, delivered, -⟩ := Option.map_eq_some_iff.mp made
  exact ⟨r, delivered⟩

theorem currentUnit_resolves {modules : List ModuleSlot} {slot : RunSlot} {node : AssemblyNode}
    {inputs : List NamedArtifact} {key : String}
    (unit : currentUnit modules slot node = some (inputs, key)) :
    resolveInputs slot node = some inputs := by
  simp only [currentUnit, Option.bind_eq_some_iff, Option.map_eq_some_iff, Prod.mk.injEq] at unit
  obtain ⟨given, resolves, cap, -, _, -, rfl, -⟩ := unit
  exact resolves

theorem currentUnit_commit {modules : List ModuleSlot} {slot : RunSlot} {c : ClaimedSlot}
    {outputs : List NamedArtifact} {node : AssemblyNode} {unit : List NamedArtifact × String}
    (first : slot.latest.lookup c.work.nodeId = none)
    (there : currentUnit modules slot node = some unit) :
    currentUnit modules ((SlotAct.commit c outputs).apply modules slot) node = some unit := by
  obtain ⟨inputs, key⟩ := unit
  have terms := apply_terms modules slot (.commit c outputs)
  have resolves := currentUnit_resolves there
  rw [← there]
  refine currentUnit_of_bindings terms.assembly terms.policy fun b member => ?_
  obtain ⟨r, delivered⟩ := resolveBinding_isSome resolves member
  have runInputs : ((SlotAct.commit c outputs).apply modules slot).run.inputs = slot.run.inputs :=
    inputs_apply (by simp)
  by_cases external : b.input ≠ ""
  · refine ⟨?_, ?_⟩
    · rw [resolveBinding, resolveBinding, if_pos external, if_pos external, runInputs]
    · rw [bindingEpoch, bindingEpoch, if_pos external, if_pos external, SlotAct.apply,
        settleSlot_inputEpochs]
      rfl
  · have other : b.fromNode ≠ c.work.nodeId := by
      intro same
      rw [resolveBinding, if_neg external, same, first] at delivered
      cases delivered
    refine ⟨?_, ?_⟩
    · rw [resolveBinding, resolveBinding, if_neg external, if_neg external, SlotAct.apply,
        settleSlot_latest, commitSlot, lookup_insert_of, if_neg other]
    · rw [bindingEpoch, bindingEpoch, if_neg external, if_neg external, SlotAct.apply,
        settleSlot_nodeCommits, commitSlot, lookup_insert_of, if_neg other]

/-- Every claim, every work item and every derivation is of its node's one unit, and every node has
at most one derivation. -/
structure Settling (modules : List ModuleSlot) (runId : String) (f : Flow) : Prop where
  shape : SlotShape runId f.slot
  apart : Apart f.slot
  claimed : ∀ id c, f.slot.claimed.lookup id = some c →
    c.work.id = workId runId c.work.nodeId c.unitKey ∧
      currentUnit modules f.slot (nodeOfWork c.work) = some (c.work.inputs, c.unitKey)
  issued : ∀ w ∈ f.issued, nodeOfWork w ∈ f.slot.run.assembly.nodes ∧
    w.id = workId runId w.nodeId w.unitKey ∧
      currentUnit modules f.slot (nodeOfWork w) = some (w.inputs, w.unitKey)
  latest : ∀ node d, f.slot.latest.lookup node = some d ↔ d ∈ f.derived ∧ d.nodeId = node
  once : (f.derived.map (·.nodeId)).Nodup
  committed : ∀ d ∈ f.derived, ∃ node ∈ f.slot.run.assembly.nodes, node.id = d.nodeId ∧
    ∃ key, currentUnit modules f.slot node = some (d.inputs, key) ∧ key ∈ f.slot.doneUnits

theorem settling_fresh {modules : List ModuleSlot} {req : RunRequest} {assembly : Assembly}
    {maxSteps : UInt64} (ids : (assembly.nodes.map (·.id)).Nodup) :
    Settling modules req.id { slot := freshSlot req assembly maxSteps } := by
  refine ⟨freshSlot_shape ids, ⟨?_, ?_⟩, ?_, ?_, ?_, List.nodup_nil, ?_⟩
  · intro i j a b hi
    simp [freshSlot] at hi
  · intro id c held
    simp [freshSlot] at held
  · intro id c held
    simp [freshSlot] at held
  · intro w member
    cases member
  · intro node d
    simp [freshSlot]
  · intro d member
    cases member

theorem Settling.first {modules : List ModuleSlot} {runId : String} {f : Flow}
    (settling : Settling modules runId f) {c : ClaimedSlot}
    (held : f.slot.claimed.lookup c.work.id = some c) :
    f.slot.latest.lookup c.work.nodeId = none := by
  rw [Option.eq_none_iff_forall_not_mem]
  intro d found
  obtain ⟨member, id⟩ := (settling.latest _ d).mp found
  obtain ⟨node, there, same, key, unit, done⟩ := settling.committed d member
  have claim := settling.shape.claims _ c held
  obtain rfl : node = nodeOfWork c.work :=
    List.inj_on_of_nodup_map settling.shape.ids there claim.node (same.trans id)
  rw [(settling.claimed _ c held).2] at unit
  obtain ⟨-, rfl⟩ := Prod.mk.inj (Option.some.inj unit)
  exact settling.apart.pending _ c held done

variable {modules : List ModuleSlot} {runId : String} {f : Flow} {a : SlotAct}

theorem Settling.unit_stays (settling : Settling modules runId f)
    (guard : (flowMachine modules runId).enabled f a) (noInject : ∀ input, a ≠ .inject input)
    {node : AssemblyNode} {unit : List NamedArtifact × String}
    (there : currentUnit modules f.slot node = some unit) :
    currentUnit modules (a.apply modules f.slot) node = some unit := by
  by_cases commits : ∃ c outputs, a = .commit c outputs
  · obtain ⟨c, outputs, rfl⟩ := commits
    obtain ⟨-, artifacts, -, held, -⟩ := guard
    exact currentUnit_commit (settling.first held) there
  · push Not at commits
    rw [currentUnit_congr (apply_deliveries noInject commits)]
    exact there

private theorem settling_claimed (settling : Settling modules runId f)
    (guard : (flowMachine modules runId).enabled f a) (noInject : ∀ input, a ≠ .inject input)
    {id : String} {c : ClaimedSlot} (held : (a.apply modules f.slot).claimed.lookup id = some c) :
    c.work.id = workId runId c.work.nodeId c.unitKey ∧
      currentUnit modules (a.apply modules f.slot) (nodeOfWork c.work) =
        some (c.work.inputs, c.unitKey) := by
  rcases claimed_apply held with old | ⟨work, rfl, rfl, rfl⟩ | ⟨leaseUntil, old, rfl, there, rfl⟩
  · obtain ⟨named, unit⟩ := settling.claimed id c old
    exact ⟨named, settling.unit_stays guard noInject unit⟩
  · have possible := guard
    obtain ⟨-, artifacts, -, -, env, node, -, inputs, unitKey, ready, rfl⟩ := guard
    exact ⟨rfl, settling.unit_stays possible noInject (readyUnit_eq_some.mp ready).1⟩
  · exact ⟨(settling.claimed id old there).1,
      settling.unit_stays guard noInject (settling.claimed id old there).2⟩

private theorem latest_commit (settling : Settling modules runId f) {c : ClaimedSlot}
    {outputs : List NamedArtifact} (held : f.slot.claimed.lookup c.work.id = some c)
    (node : String) (d : Derivation) :
    ((SlotAct.commit c outputs).apply modules f.slot).latest.lookup node = some d ↔
      d ∈ f.derived ++ [derivationOf c.work outputs] ∧ d.nodeId = node := by
  have first := settling.first held
  rw [SlotAct.apply, settleSlot_latest, commitSlot, lookup_insert_of, List.mem_append,
    List.mem_singleton]
  split_ifs with same
  · subst same
    constructor
    · intro made
      obtain rfl := Option.some.inj made
      exact ⟨.inr rfl, rfl⟩
    · rintro ⟨old | rfl, id⟩
      · rw [(settling.latest _ d).mpr ⟨old, id⟩] at first
        cases first
      · rfl
  · rw [settling.latest]
    constructor
    · rintro ⟨old, id⟩
      exact ⟨.inl old, id⟩
    · rintro ⟨old | rfl, id⟩
      · exact ⟨old, id⟩
      · exact absurd id.symm same

theorem settling_apply (settling : Settling modules runId f)
    (guard : (flowMachine modules runId).enabled f a) (noInject : ∀ input, a ≠ .inject input) :
    Settling modules runId ((flowMachine modules runId).apply f a) := by
  have possible := guard
  obtain ⟨-, artifacts, -, enabled⟩ := guard
  have terms := apply_terms modules f.slot a
  have done := doneUnits_apply modules f.slot a
  have stays : ∀ {node unit}, currentUnit modules f.slot node = some unit →
      currentUnit modules (a.apply modules f.slot) node = some unit :=
    fun there => settling.unit_stays possible noInject there
  have committed : ∀ d ∈ f.derived, ∃ node ∈ (a.apply modules f.slot).run.assembly.nodes,
      node.id = d.nodeId ∧ ∃ key, currentUnit modules (a.apply modules f.slot) node =
        some (d.inputs, key) ∧ key ∈ (a.apply modules f.slot).doneUnits := by
    intro d member
    obtain ⟨node, there, same, key, unit, spent⟩ := settling.committed d member
    exact ⟨node, by rw [terms.assembly]; exact there, same, key, stays unit, done spent⟩
  have issued : ∀ w ∈ f.issued ++ a.handsOut.toList,
      nodeOfWork w ∈ (a.apply modules f.slot).run.assembly.nodes ∧
        w.id = workId runId w.nodeId w.unitKey ∧
        currentUnit modules (a.apply modules f.slot) (nodeOfWork w) = some (w.inputs, w.unitKey) := by
    intro w member
    rw [terms.assembly]
    rcases List.mem_append.mp member with old | new
    · obtain ⟨there, id, unit⟩ := settling.issued w old
      exact ⟨there, id, stays unit⟩
    · cases a with
      | claim work =>
          obtain rfl : w = work := by simpa [SlotAct.handsOut] using new
          obtain ⟨-, env, node, there, inputs, unitKey, ready, rfl⟩ := enabled
          exact ⟨there, rfl, stays (readyUnit_eq_some.mp ready).1⟩
      | _ => simp [SlotAct.handsOut] at new
  have shape := shape_apply enabled settling.shape
  have apart := apart_apply enabled settling.apart
  have claimed : ∀ id c, (a.apply modules f.slot).claimed.lookup id = some c → _ :=
    fun id c held => settling_claimed settling possible noInject held
  by_cases commits : ∃ c outputs, a = .commit c outputs
  · obtain ⟨c, outputs, rfl⟩ := commits
    have held := enabled.1
    refine ⟨shape, apart, claimed, issued, latest_commit settling held, ?_, ?_⟩
    · show ((f.derived ++ [derivationOf c.work outputs]).map (·.nodeId)).Nodup
      rw [List.map_append, List.nodup_append]
      refine ⟨settling.once, List.nodup_singleton _, ?_⟩
      intro x old y new same
      obtain ⟨d, member, rfl⟩ := List.mem_map.mp old
      have node : d.nodeId = c.work.nodeId := same.trans (List.mem_singleton.mp new)
      have first := settling.first held
      rw [(settling.latest _ d).mpr ⟨member, node⟩] at first
      cases first
    · intro d member
      rcases List.mem_append.mp member with old | new
      · exact committed d old
      · obtain rfl := List.mem_singleton.mp new
        refine ⟨nodeOfWork c.work, ?_, rfl, c.unitKey, stays (settling.claimed _ c held).2,
          commit_done modules f.slot c outputs⟩
        show _ ∈ ((SlotAct.commit c outputs).apply modules f.slot).run.assembly.nodes
        rw [terms.assembly]
        exact (settling.shape.claims _ c held).node
  · push Not at commits
    have silent : f.derived ++ a.derivation = f.derived := by
      rw [derivation_eq_nil commits, List.append_nil]
    have latest := (apply_books modules f.slot commits).latest
    refine ⟨shape, apart, claimed, issued, ?_, ?_, ?_⟩
    · show ∀ node d, (a.apply modules f.slot).latest.lookup node = some d ↔
        d ∈ f.derived ++ a.derivation ∧ d.nodeId = node
      rw [latest, silent]
      exact settling.latest
    · show ((f.derived ++ a.derivation).map (·.nodeId)).Nodup
      rw [silent]
      exact settling.once
    · show ∀ d ∈ f.derived ++ a.derivation, _
      rw [silent]
      exact committed

end Substrate.Protocol.Single
