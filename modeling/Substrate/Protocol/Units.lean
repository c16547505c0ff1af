/- ID: Substrate/Protocol/Units
   source: kernel/sdk/rust/src/lib.rs
   digest: What a run's history did to the units its nodes come to: handed out, committed, READY. -/

import Substrate.Protocol.Accounting
import Substrate.Protocol.Claiming
import Substrate.Protocol.Exclusive
import Substrate.Protocol.Provenance
import Substrate.Protocol.WorkIds

set_option autoImplicit false
set_option relaxedAutoImplicit false

namespace Substrate.Protocol.Units

open Substrate.Kernel.Wire
open Substrate.Kernel.Hashing
open Substrate.Kernel.Memory
open Substrate.Kernel.Registry
open Substrate.Kernel.Runs
open Substrate.Kernel.Schedule
open Substrate.Kernel.Work
open Substrate.Kernel.Api
open Substrate.Protocol.Atoms
open Substrate.Protocol.Slots
open Substrate.Protocol.Delivery
open Substrate.Protocol.Serial
open Substrate.Protocol.Refine
open Substrate.Protocol.Exclusive
open Substrate.Protocol.Identity
open Substrate.Protocol.Accounting (derivationsOf derivationsOf_acted derivationsOf_other)
open Substrate.Protocol.Provenance
open Substrate.Protocol.Claiming (reachable_known)
open Substrate.Protocol.Single (currentUnit_resolves)
open Substrate.Protocol.Typing
open Substrate.Protocol.WorkIds
open Substrate.Library.FiniteMap
open Substrate.Library.Transition

/-- A unit that is neither done nor claimed. -/
def Untaken (slot : RunSlot) (key : String) : Prop :=
  key ∉ slot.doneUnits ∧ ∀ id c, slot.claimed.lookup id = some c → c.unitKey ≠ key

section Slots

variable [Sha256]

/-- A unit is READY as long as nobody takes it and its node still comes to it. -/
theorem ready_of_untaken {modules : List ModuleSlot} {slot : RunSlot} {node : AssemblyNode}
    {unit : List NamedArtifact × String} (untaken : Untaken slot unit.2)
    (current : currentUnit modules slot node = some unit) :
    readyUnit modules slot node = some unit :=
  readyUnit_eq_some.mpr ⟨current, untaken.1, unitIsClaimed_eq_false.mpr untaken.2⟩

theorem unready_of_done {modules : List ModuleSlot} {slot : RunSlot} {node : AssemblyNode}
    {unit : List NamedArtifact × String} (current : currentUnit modules slot node = some unit)
    (done : unit.2 ∈ slot.doneUnits) : readyUnit modules slot node = none := by
  cases ready : readyUnit modules slot node with
  | none => rfl
  | some other =>
      obtain ⟨current', pending, -⟩ := readyUnit_eq_some.mp ready
      obtain rfl := Option.some.inj (current.symm.trans current')
      exact absurd done pending

private theorem done_origin {modules : List ModuleSlot} {artifacts : KeyMap String Artifact}
    {runId : String} {slot : RunSlot} {a : SlotAct} (guard : a.enabled modules artifacts runId slot)
    {key : String} (done : key ∈ (a.apply modules slot).doneUnits) :
    key ∈ slot.doneUnits ∨ ∃ id c, slot.claimed.lookup id = some c ∧ c.unitKey = key := by
  have retired {id : String} {c : ClaimedSlot} (held : slot.claimed.lookup id = some c)
      (among : key ∈ insert c.unitKey slot.doneUnits) :
      key ∈ slot.doneUnits ∨ ∃ id c, slot.claimed.lookup id = some c ∧ c.unitKey = key := by
    rcases Finset.mem_insert.mp among with same | before
    · exact .inr ⟨id, c, held, same.symm⟩
    · exact .inl before
  cases a with
  | inject input => exact .inl done
  | claim work => exact .inl done
  | stall => exact .inl done
  | cancel => exact .inl done
  | renew id leaseUntil =>
      simp only [SlotAct.apply, renewClaim] at done
      split at done <;> exact .inl done
  | expire id c => exact retired guard (insert_if_subset done)
  | fail id c reason terminal => exact retired guard.1 (insert_if_subset done)
  | commit c outputs =>
      rw [SlotAct.apply, settleSlot_doneUnits] at done
      exact retired guard.1 done

private theorem untaken_act {modules : List ModuleSlot} {artifacts : KeyMap String Artifact}
    {runId : String} {slot : RunSlot} {a : SlotAct} (guard : a.enabled modules artifacts runId slot)
    {key : String} (others : ∀ work, a = .claim work → work.unitKey ≠ key)
    (untaken : Untaken slot key) : Untaken (a.apply modules slot) key := by
  constructor
  · intro done
    rcases done_origin guard done with before | ⟨id, c, held, same⟩
    · exact untaken.1 before
    · exact untaken.2 id c held same
  · intro id c held
    rcases claimed_apply held with before | ⟨work, rfl, rfl, rfl⟩ | ⟨leaseUntil, old, rfl, before, rfl⟩
    · exact untaken.2 id c before
    · exact others work rfl
    · exact untaken.2 id old before

end Slots

section Calls

variable [Sha256] [Prost]

theorem untaken_step (store : ArtifactStorePolicy) {s : State} (wf : WellFormed s) (call : Call)
    {runId : String} {slot : RunSlot} (found : s.runs.lookup runId = some slot) {key : String}
    (others : ∀ work ∈ handedOut (step store s call).2, work.runId = runId → work.unitKey ≠ key)
    (untaken : Untaken slot key) :
    ∀ after, (step store s call).1.runs.lookup runId = some after → Untaken after key := by
  obtain ⟨atoms, path, -, items⟩ := step_explained store wf call
  have labels : ∀ a ∈ atoms, ∀ work, a = .acted runId (.claim work) → work.runId = runId →
      work.unitKey ≠ key := by
    rintro a member work rfl
    exact others work (items ▸ List.mem_filterMap.mpr ⟨_, member, rfl⟩)
  have held := path.invariant
    (fun a => ∀ work, a = .acted runId (.claim work) → work.runId = runId → work.unitKey ≠ key)
    (P := fun s => ∃ slot, s.runs.lookup runId = some slot ∧ Untaken slot key) ?_ labels
    ⟨slot, found, untaken⟩
  · obtain ⟨after, found', still⟩ := held
    intro other there
    obtain rfl := Option.some.inj (found'.symm.trans there)
    exact still
  · rintro s a label guard ⟨slot, found, before⟩
    rcases runs_persist guard found with ⟨still, -⟩ | ⟨act, rfl, -, possible, after⟩
    · exact ⟨slot, still, before⟩
    · refine ⟨_, after, untaken_act possible ?_ before⟩
      rintro work rfl
      obtain ⟨-, env, node, -, inputs, unitKey, -, made⟩ := possible
      exact label work rfl (by rw [made]; rfl)

theorem mem_handedTo {policy : ArtifactStorePolicy} {runId : String} {calls : List Call}
    {work : WorkItem} : work ∈ handedTo policy runId calls ↔
      ∃ before call after, calls = before ++ call :: after ∧
        work ∈ handedOut (step policy (exec policy {} before) call).2 ∧ work.runId = runId := by
  rw [handedTo, List.mem_filter, mem_emitted, beq_iff_eq]
  constructor
  · rintro ⟨⟨before, call, after, split, handed⟩, mine⟩
    exact ⟨before, call, after, split, handed, mine⟩
  · rintro ⟨before, call, after, split, handed, mine⟩
    exact ⟨⟨before, call, after, split, handed⟩, mine⟩

theorem handedTo_snoc (policy : ArtifactStorePolicy) (runId : String) (calls : List Call)
    (call : Call) : handedTo policy runId (calls ++ [call]) = handedTo policy runId calls ++
      (handedOut (step policy (exec policy {} calls) call).2).filter (·.runId == runId) := by
  rw [handedTo, emitted_snoc, List.filter_append]
  rfl

theorem untaken_exec (policy : ArtifactStorePolicy) (calls : List Call) {runId key : String}
    {slot : RunSlot} (found : (exec policy {} calls).runs.lookup runId = some slot)
    (others : ∀ work ∈ handedTo policy runId calls, work.unitKey ≠ key) : Untaken slot key := by
  induction calls using List.reverseRecOn generalizing slot with
  | nil => simp at found
  | append_singleton calls call ih =>
      have reached : Reachable policy (exec policy {} calls) := ⟨calls, rfl⟩
      rw [handedTo_snoc] at others
      rw [exec_snoc] at found
      rcases run_origin policy (reachable_wellFormed reached) call found with
        ⟨old, there, -⟩ | ⟨req, rfl, started⟩
      · refine untaken_step policy (reachable_wellFormed reached) call there ?_
          (ih there fun work handed => others work (List.mem_append_left _ handed)) slot found
        intro work handed mine
        exact others work (List.mem_append_right _
          (List.mem_filter.mpr ⟨handed, beq_iff_eq.mpr mine⟩))
      · obtain ⟨given, assembly, -, -, -, rfl⟩ := started.fresh
        exact ⟨by simp [freshSlot], fun id c held => by simp [freshSlot] at held⟩

/-- A unit of a node in some state that the run went through: READY, claimed or done. -/
def UnitOf (policy : ArtifactStorePolicy) (calls : List Call) (runId : String) (node : AssemblyNode)
    (unit : List NamedArtifact × String) : Prop :=
  ∃ before after slot, calls = before ++ after ∧
    (exec policy {} before).runs.lookup runId = some slot ∧
    currentUnit (exec policy {} before).modules slot node = some unit

theorem handed_current {policy : ArtifactStorePolicy} {s : State} {call : Call} {work : WorkItem}
    (handed : work ∈ handedOut (step policy s call).2) :
    ∃ slot, s.runs.lookup work.runId = some slot ∧ nodeOfWork work ∈ slot.run.assembly.nodes ∧
      currentUnit s.modules slot (nodeOfWork work) = some (work.inputs, work.unitKey) := by
  obtain ⟨req, slot, cs, -, found, listed, handing, -⟩ := handedOut_claims handed
  rw [handing] at handed
  obtain ⟨cand, taken, slot', rfl⟩ := claimUnits_item handed
  obtain ⟨there, -, ready⟩ := mem_readyCandidates.mp (listed taken)
  have current := (readyUnit_eq_some.mp ready).1
  rw [currentUnit_congr (reapSlot_deliveries call.env slot)] at current
  rw [reapSlot_run] at there
  exact ⟨slot, found, there, current⟩

theorem terms_at {policy : ArtifactStorePolicy} {before after : List Call} {runId : String}
    {slot now : RunSlot} (found : (exec policy {} before).runs.lookup runId = some slot)
    (there : (exec policy {} (before ++ after)).runs.lookup runId = some now) :
    SameTerms slot now := by
  obtain ⟨mid, found', terms⟩ := terms_exec policy (⟨before, rfl⟩ : Reachable policy _) after found
  rw [← exec_append] at found'
  obtain rfl := Option.some.inj (there.symm.trans found')
  exact terms

theorem handed_unit {policy : ArtifactStorePolicy} {before after : List Call} {call : Call}
    {slot : RunSlot} {work : WorkItem}
    (found : (exec policy {} (before ++ call :: after)).runs.lookup work.runId = some slot)
    {node : AssemblyNode} (member : node ∈ slot.run.assembly.nodes)
    (handed : work ∈ handedOut (step policy (exec policy {} before) call).2)
    (own : work.nodeId = node.id) :
    ∃ old, (exec policy {} before).runs.lookup work.runId = some old ∧
      currentUnit (exec policy {} before).modules old node = some (work.inputs, work.unitKey) := by
  obtain ⟨old, there, listed, current⟩ := handed_current handed
  have ids := (reachable_wellFormed (⟨before, rfl⟩ : Reachable policy _) _ old there).ids
  rw [(terms_at there found).assembly] at member
  obtain rfl := List.inj_on_of_nodup_map ids listed member own
  exact ⟨old, there, current⟩

theorem unitOf_handed {policy : ArtifactStorePolicy} {calls : List Call} {runId : String}
    {slot : RunSlot} (found : (exec policy {} calls).runs.lookup runId = some slot)
    {node : AssemblyNode} (member : node ∈ slot.run.assembly.nodes) {work : WorkItem}
    (handed : work ∈ handedTo policy runId calls) (own : work.nodeId = node.id) :
    UnitOf policy calls runId node (work.inputs, work.unitKey) := by
  obtain ⟨before, call, after, rfl, given, rfl⟩ := mem_handedTo.mp handed
  obtain ⟨old, there, current⟩ := handed_unit found member given own
  exact ⟨before, call :: after, old, rfl, there, current⟩

/-- A node of a run that fires in one mode, under the capability it was pinned to. -/
structure Fires (policy : ArtifactStorePolicy) (calls : List Call) (runId : String) (slot : RunSlot)
    (node : AssemblyNode) (cap : Capability) (firing : Firing) : Prop where
  found : (exec policy {} calls).runs.lookup runId = some slot
  member : node ∈ slot.run.assembly.nodes
  known : pinned (exec policy {} calls).modules node = some cap
  fires : effectiveFiring slot node cap = firing

theorem Fires.earlier {policy : ArtifactStorePolicy} {before after : List Call} {runId : String}
    {slot old : RunSlot} {node : AssemblyNode} {cap : Capability} {firing : Firing}
    (run : Fires policy (before ++ after) runId slot node cap firing)
    (found : (exec policy {} before).runs.lookup runId = some old) :
    Fires policy before runId old node cap firing := by
  have reached : Reachable policy (exec policy {} before) := ⟨before, rfl⟩
  have terms := terms_at found run.found
  have member : node ∈ old.run.assembly.nodes := terms.assembly ▸ run.member
  obtain ⟨cap', known⟩ := reachable_known reached found node member
  have later := (persists_exec policy (reachable_wellFormed reached) after).pinned node cap' known
  rw [← exec_append, run.known] at later
  obtain rfl := Option.some.inj later
  exact ⟨found, member, known, (effectiveFiring_congr terms.policy.symm node cap).trans run.fires⟩

omit [Prost] in
theorem currentUnit_key {modules : List ModuleSlot} {slot : RunSlot} {node : AssemblyNode}
    {cap : Capability} {inputs : List NamedArtifact} {key : String}
    (known : pinned modules node = some cap)
    (unit : currentUnit modules slot node = some (inputs, key)) :
    resolveInputs slot node = some inputs ∧
      workUnitKey slot node cap (effectiveFiring slot node cap) inputs = some key := by
  have resolves := currentUnit_resolves unit
  refine ⟨resolves, ?_⟩
  simp only [currentUnit, resolves, Option.bind_some, Option.bind_eq_some_iff,
    Option.map_eq_some_iff, Prod.mk.injEq, true_and] at unit
  obtain ⟨found, there, made, keyed, rfl⟩ := unit
  have resolved : capabilityForNode modules node = .ok found := by
    cases result : capabilityForNode modules node with
    | error e => simp [result, Except.toOption] at there
    | ok other => simpa [result, Except.toOption] using there
  have same := pinned_of_resolved resolved
  rw [known] at same
  obtain rfl := Option.some.inj same
  exact keyed

omit [Sha256] [Prost] in
/-- A derivation answers one of the works, of a unit key. -/
def Answered (works : List WorkItem) (d : Derivation) (key : String) : Prop :=
  ∃ work ∈ works, work.nodeId = d.nodeId ∧ work.inputs = d.inputs ∧ work.unitKey = key

omit [Sha256] [Prost] in
/-- The claims of a run are of works that were handed out, and so are its derivations, each of a
unit of its own that is done. -/
structure Keyed (works : List WorkItem) (runId : String) (s : State) : Prop where
  claims : ∀ slot id c, s.runs.lookup runId = some slot → slot.claimed.lookup id = some c →
    ∃ work ∈ works, Renewed work c.work
  commits : ∃ keys, List.Forall₂ (Answered works) (derivationsOf s runId) keys ∧ keys.Nodup ∧
    ∀ key ∈ keys, Done s runId key

omit [Sha256] [Prost] in
theorem Keyed.grow {works more : List WorkItem} {runId : String} {s : State}
    (keyed : Keyed works runId s) (grown : works ⊆ more) : Keyed more runId s := by
  obtain ⟨claims, keys, answers, nodup, done⟩ := keyed
  refine ⟨fun slot id c found held => ?_, keys, answers.imp ?_, nodup, done⟩
  · obtain ⟨work, member, same⟩ := claims slot id c found held
    exact ⟨work, grown member, same⟩
  · rintro d key ⟨work, member, same⟩
    exact ⟨work, grown member, same⟩

private theorem keyed_claims {works : List WorkItem} {runId : String} {s : State} {a : Atom}
    (guard : a.enabled s) (handed : ∀ work, a = .acted runId (.claim work) → work ∈ works)
    (keyed : Keyed works runId s) {after : RunSlot} {id : String} {c : ClaimedSlot}
    (found : (a.apply s).runs.lookup runId = some after) (held : after.claimed.lookup id = some c) :
    ∃ work ∈ works, Renewed work c.work := by
  rcases runs_apply guard found with ⟨old, -⟩ | ⟨slot, act, rfl, there, -, -, rfl⟩ |
    ⟨-, -, -, env, req, assembly, maxSteps, rfl, -⟩
  · exact keyed.claims after id c old held
  · rcases claimed_apply held with old | ⟨work, rfl, -, rfl⟩ | ⟨leaseUntil, old, rfl, was, rfl⟩
    · exact keyed.claims slot id c there old
    · exact ⟨work, handed work rfl, .refl work⟩
    · obtain ⟨work, member, same⟩ := keyed.claims slot id old there was
      exact ⟨work, member, same.trans rfl⟩
  · simp [freshSlot] at held

private theorem derivationsOf_apply {s : State} {a : Atom} (guard : a.enabled s)
    (wf : WellFormed s) (runId : String) :
    derivationsOf (a.apply s) runId = derivationsOf s runId ∨
      ∃ c outputs, a = .acted runId (.commit c outputs) ∧
        derivationsOf (a.apply s) runId =
          derivationsOf s runId ++ [derivationOf c.work outputs] := by
  by_cases acts : ∃ act, a = .acted runId act
  · obtain ⟨act, rfl⟩ := acts
    have taken := guard
    obtain ⟨slot, found, -, possible⟩ := taken
    have grown := derivationsOf_acted guard (wf runId slot found) possible
    by_cases commit : ∃ c outputs, act = .commit c outputs
    · obtain ⟨c, outputs, rfl⟩ := commit
      exact .inr ⟨c, outputs, rfl, grown⟩
    · push Not at commit
      rw [derivation_eq_nil commit, List.append_nil] at grown
      exact .inl grown
  · push Not at acts
    exact .inl (derivationsOf_other guard wf acts)

private theorem keyed_apply {works : List WorkItem} {runId : String} {s : State} {a : Atom}
    (guard : a.enabled s) (before : KeptApart s)
    (handed : ∀ work, a = .acted runId (.claim work) → work ∈ works)
    (keyed : Keyed works runId s) : Keyed works runId (a.apply s) := by
  refine ⟨fun after id c found held => keyed_claims guard handed keyed found held, ?_⟩
  obtain ⟨keys, answers, nodup, done⟩ := keyed.commits
  rcases derivationsOf_apply guard before.1 runId with same | ⟨c, outputs, rfl, grown⟩
  · rw [same]
    exact ⟨keys, answers, nodup, fun key member => done_apply guard (done key member)⟩
  · have taken := guard
    obtain ⟨slot, found, -, held, -⟩ := taken
    have claim := (before.1 runId slot found).claims _ c held
    obtain ⟨work, member, renewed⟩ := keyed.claims slot _ c found held
    have copied : work.nodeId = c.work.nodeId ∧ work.inputs = c.work.inputs ∧
        work.unitKey = c.work.unitKey := by
      rw [renewed]
      exact ⟨rfl, rfl, rfl⟩
    have fresh : c.unitKey ∉ keys := by
      intro listed
      obtain ⟨slot', found', spent⟩ := done _ listed
      obtain rfl := Option.some.inj (found.symm.trans found')
      exact (before.2 runId slot found).pending _ c held spent
    rw [grown]
    refine ⟨keys ++ [c.unitKey], List.rel_append answers (.cons ⟨work, member, copied.1, copied.2.1,
      copied.2.2.trans claim.unitKey⟩ .nil), ?_, ?_⟩
    · rw [List.nodup_append_comm, List.singleton_append]
      exact List.nodup_cons.mpr ⟨fresh, nodup⟩
    · intro key listed
      rcases List.mem_append.mp listed with old | new
      · exact done_apply guard (done key old)
      · obtain rfl := List.mem_singleton.mp new
        refine ⟨(SlotAct.commit c outputs).apply s.modules slot, ?_, commit_done s.modules slot c outputs⟩
        simp only [Atom.apply, found]
        rw [lookup_recordAll _ _ _ found, if_pos rfl]

theorem keyed_exec (policy : ArtifactStorePolicy) (calls : List Call) (runId : String) :
    Keyed (handedTo policy runId calls) runId (exec policy {} calls) := by
  induction calls using List.reverseRecOn with
  | nil => exact ⟨fun slot id c found => by simp at found, [], .nil, .nil, fun key member => by cases member⟩
  | append_singleton calls call ih =>
      have apart := keptApart_exec policy calls
      obtain ⟨atoms, path, -, items⟩ := step_explained policy apart.1 call
      rw [exec_snoc]
      have both := path.invariant (P := fun s => KeptApart s ∧
          Keyed (handedTo policy runId (calls ++ [call])) runId s)
        (fun a => ∀ work, a = .acted runId (.claim work) → work.runId = runId →
          work ∈ handedTo policy runId (calls ++ [call])) ?_ ?_
        ⟨apart, ih.grow (by rw [handedTo_snoc]; exact List.subset_append_left _ _)⟩
      · exact both.2
      · rintro s a label guard ⟨apart, keyed⟩
        refine ⟨keptApart_apply guard apart, keyed_apply guard apart ?_ keyed⟩
        rintro work rfl
        have possible := guard
        obtain ⟨slot, -, -, -, env, node, -, inputs, unitKey, -, made⟩ := possible
        exact label work rfl (by rw [made]; rfl)
      · rintro a member work rfl mine
        rw [handedTo_snoc]
        refine List.mem_append_right _ (List.mem_filter.mpr ⟨?_, beq_iff_eq.mpr mine⟩)
        exact items ▸ List.mem_filterMap.mpr ⟨_, member, rfl⟩

end Calls

section Echo

/-- The node of the assembly `echoes`. -/
def speaker : AssemblyNode := ⟨"n", "echo", "1", "say"⟩

/-- The capability that `echo` provides. -/
def speaking (firing : Firing) : Capability :=
  { name := "say", inputs := [{ name := "heard", traits := ["text"] }]
    outputs := [{ name := "said", traits := ["text"] }], firing := firing.asI32 }

end Echo

end Substrate.Protocol.Units
