/- ID: Substrate/Protocol/Exclusive
   digest: Claimed units are distinct, pending and bounded, and a unit commits at most once. -/

import Substrate.Protocol.Refine

set_option autoImplicit false
set_option relaxedAutoImplicit false

namespace Substrate.Protocol.Exclusive

open Substrate.Kernel.Wire
open Substrate.Kernel.Hashing
open Substrate.Kernel.Memory
open Substrate.Kernel.Runs (cancelSlot freshSlot)
open Substrate.Kernel.Work
open Substrate.Kernel.Api
open Substrate.Protocol.Atoms
open Substrate.Protocol.Slots
open Substrate.Protocol.Delivery
open Substrate.Protocol.Refine
open Substrate.Library.FiniteMap
open Substrate.Library.Transition

/-- Claimed units are pairwise distinct and none of them is done. -/
structure Apart (slot : RunSlot) : Prop where
  distinct : InjectiveOn (·.unitKey) slot.claimed
  pending : ∀ id c, slot.claimed.lookup id = some c → c.unitKey ∉ slot.doneUnits

private theorem apart_retire {slot after : RunSlot} {id : String} {c : ClaimedSlot}
    (apart : Apart slot) (held : slot.claimed.lookup id = some c)
    (claimed : after.claimed = slot.claimed.erase id)
    (done : after.doneUnits ⊆ insert c.unitKey slot.doneUnits) : Apart after := by
  refine ⟨by rw [claimed]; exact apart.distinct.erase id, ?_⟩
  intro other d found spent
  rw [claimed, lookup_erase_of] at found
  split_ifs at found with same
  rcases Finset.mem_insert.mp (done spent) with key | before
  · exact same (apart.distinct found held key)
  · exact apart.pending other d found before

theorem insert_if_subset {b : Prop} [Decidable b] {key : String} {done : Finset String} :
    (if b then insert key done else done) ⊆ insert key done := by
  split_ifs
  · exact Finset.Subset.refl _
  · exact Finset.subset_insert _ _

variable [Sha256]

theorem apart_apply {modules : List ModuleSlot} {artifacts : KeyMap String Artifact}
    {runId : String} {slot : RunSlot} {a : SlotAct}
    (guard : a.enabled modules artifacts runId slot) (apart : Apart slot) :
    Apart (a.apply modules slot) := by
  cases a with
  | inject input => exact ⟨apart.distinct, apart.pending⟩
  | stall => exact ⟨apart.distinct, apart.pending⟩
  | cancel =>
      refine ⟨?_, ?_⟩
      · intro i j a b hi
        simp [SlotAct.apply, cancelSlot] at hi
      · intro id c found
        simp [SlotAct.apply, cancelSlot] at found
  | expire id c => exact apart_retire apart guard rfl insert_if_subset
  | fail id c reason terminal => exact apart_retire apart guard.1 rfl insert_if_subset
  | commit c outputs =>
      refine apart_retire apart guard.1 ?_ ?_
      · rw [SlotAct.apply, settleSlot_claimed]
        rfl
      · rw [SlotAct.apply, settleSlot_doneUnits]
        exact Finset.Subset.refl _
  | claim work =>
      obtain ⟨-, env, node, -, inputs, unitKey, ready, rfl⟩ := guard
      obtain ⟨-, pending, free⟩ := readyUnit_eq_some.mp ready
      rw [unitIsClaimed_eq_false] at free
      refine ⟨apart.distinct.insert free, ?_⟩
      intro id c found
      rw [SlotAct.apply, claimSlot_claimed, lookup_insert_of] at found
      split_ifs at found
      · obtain rfl := Option.some.inj found
        exact pending
      · exact apart.pending id c found
  | renew id leaseUntil =>
      simp only [SlotAct.apply, renewClaim]
      cases held : slot.claimed.lookup id with
      | none => exact apart
      | some c =>
          refine ⟨apart.distinct.replace held rfl, ?_⟩
          intro other d found
          rw [lookup_replace held] at found
          split_ifs at found
          · obtain rfl := Option.some.inj found
            exact apart.pending id c held
          · exact apart.pending other d found

/-- A commit leaves its unit done. -/
theorem commit_done (modules : List ModuleSlot) (slot : RunSlot) (c : ClaimedSlot)
    (outputs : List NamedArtifact) :
    c.unitKey ∈ ((SlotAct.commit c outputs).apply modules slot).doneUnits := by
  rw [SlotAct.apply, settleSlot_doneUnits]
  exact Finset.mem_insert_self _ _

variable [Prost]

/-- Every slot is in shape and keeps its claims apart. -/
def KeptApart (s : State) : Prop :=
  WellFormed s ∧ ∀ runId slot, s.runs.lookup runId = some slot → Apart slot

theorem keptApart_apply {s : State} {a : Atom} (guard : a.enabled s) (before : KeptApart s) :
    KeptApart (a.apply s) := by
  refine ⟨wellFormed_apply guard before.1, ?_⟩
  refine slots_apply (I := fun _ _ slot => Apart slot) guard (fun _ _ h => h) ?_ ?_ before.2
  · rintro slot - ⟨env, req, assembly, maxSteps, rfl, -, -⟩
    refine ⟨?_, ?_⟩
    · intro i j a b hi
      simp [freshSlot] at hi
    · intro id c found
      simp [freshSlot] at found
  · intro runId slot act _ _ _ possible apart
    exact apart_apply possible apart

theorem keptApart_step (policy : ArtifactStorePolicy) {s : State} (call : Call)
    (before : KeptApart s) : KeptApart (step policy s call).1 := by
  obtain ⟨atoms, path, -⟩ := step_explained policy before.1 call
  exact path.keeps (P := KeptApart) (fun _ _ guard h => keptApart_apply guard h) before

omit [Sha256] [Prost] in
private theorem keptApart_empty : KeptApart {} := by
  refine ⟨?_, ?_⟩
  · intro runId slot found
    simp at found
  · intro runId slot found
    simp at found

theorem keptApart_exec (policy : ArtifactStorePolicy) (calls : List Call) :
    KeptApart (exec policy {} calls) :=
  reachable_induction keptApart_empty (fun _ call before => keptApart_step policy call before)
    ⟨calls, rfl⟩

/-- A unit of a run is done. -/
def Done (s : State) (runId key : String) : Prop :=
  ∃ slot, s.runs.lookup runId = some slot ∧ key ∈ slot.doneUnits

theorem done_apply {s : State} {a : Atom} (guard : a.enabled s) {runId key : String}
    (done : Done s runId key) : Done (a.apply s) runId key := by
  obtain ⟨slot, found, spent⟩ := done
  rcases runs_persist guard found with ⟨still, -⟩ | ⟨act, -, -, -, after⟩
  · exact ⟨slot, still, spent⟩
  · exact ⟨_, after, doneUnits_apply s.modules slot act spent⟩

theorem done_path {s t : State} {atoms : List Atom} (path : Path kernel s atoms t)
    {runId key : String} (done : Done s runId key) : Done t runId key :=
  path.keeps (P := fun s => Done s runId key) (fun _ _ guard h => done_apply guard h) done

theorem done_exec {policy : ArtifactStorePolicy} {s : State} (before : KeptApart s)
    (calls : List Call) {runId key : String} (done : Done s runId key) :
    Done (exec policy s calls) runId key := by
  induction calls generalizing s with
  | nil => exact done
  | cons call calls ih =>
      obtain ⟨atoms, path, -⟩ := step_explained policy before.1 call
      exact ih (keptApart_step policy call before) (done_path path done)

theorem handedOut_pending {policy : ArtifactStorePolicy} {s : State} (before : KeptApart s)
    (call : Call) {work : WorkItem} (handed : work ∈ handedOut (step policy s call).2) :
    ¬ Done s work.runId work.unitKey := by
  intro done
  obtain ⟨atoms, path, -, items⟩ := step_explained policy before.1 call
  rw [← items, List.mem_filterMap] at handed
  obtain ⟨a, member, claims⟩ := handed
  obtain ⟨pre, post, mid, -, first, guard, -⟩ := path.split member
  obtain ⟨runId, rfl⟩ := Atom.handsOut_eq_some claims
  obtain ⟨slot, found, -, -, env, node, -, inputs, unitKey, ready, rfl⟩ := guard
  obtain ⟨slot', found', spent⟩ := done_path first done
  obtain rfl : slot = slot' := Option.some.inj (found.symm.trans found')
  exact (readyUnit_eq_some.mp ready).2.1 spent

/-- The unit a commit takes: its run and the key of the claim it names. A commit call is applied
when it adds a derivation. -/
def appliedCommit (policy : ArtifactStorePolicy) (s : State) (call : Call) :
    List (String × Option String) :=
  match call.op with
  | .commit submitted =>
      if s.derivations.length < (step policy s call).1.derivations.length then
        [(submitted.runId, ((s.runs.lookup submitted.runId).bind fun slot =>
          slot.claimed.lookup submitted.workId).map (·.unitKey))]
      else []
  | _ => []

private theorem exists_commit {s t : State} {atoms : List Atom} (path : Path kernel s atoms t)
    (grown : s.derivations.length < t.derivations.length) :
    ∃ runId c outputs, .acted runId (.commit c outputs) ∈ atoms := by
  rw [path_derivations path, List.length_append] at grown
  have some_derivation : atoms.flatMap Atom.derivation ≠ [] := by
    intro none
    simp [none] at grown
  obtain ⟨d, member⟩ := List.exists_mem_of_ne_nil _ some_derivation
  obtain ⟨a, here, made⟩ := List.mem_flatMap.mp member
  cases a with
  | acted runId act =>
      cases act with
      | commit c outputs => exact ⟨runId, c, outputs, here⟩
      | _ => simp [Atom.derivation, SlotAct.derivation] at made
  | _ => simp [Atom.derivation] at made

theorem appliedCommit_spec {policy : ArtifactStorePolicy} {s : State} (before : KeptApart s)
    {call : Call} {unit : String × Option String} (applied : unit ∈ appliedCommit policy s call) :
    ∃ key, unit.2 = some key ∧ ¬ Done s unit.1 key ∧ Done (step policy s call).1 unit.1 key := by
  obtain ⟨op, ctx, env⟩ := call
  cases op with
  | commit submitted =>
      simp only [appliedCommit] at applied
      split_ifs at applied with grown
      · obtain rfl := List.mem_singleton.mp applied
        obtain ⟨atoms, path, allowed, -⟩ :=
          step_explained policy before.1 ⟨.commit submitted, ctx, env⟩
        obtain ⟨runId, c, outputs, member⟩ := exists_commit path grown
        rcases allowed _ member with ⟨act, same, ok⟩ | ⟨key, r, other⟩
        · cases same
          rcases ok with ⟨e, -, other⟩ | ⟨slot, c', found, held, same⟩
          · cases other
          · cases same
            refine ⟨c.unitKey, by simp [found, held], ?_, ?_⟩
            · rintro ⟨slot', found', spent⟩
              obtain rfl : slot = slot' := Option.some.inj (found.symm.trans found')
              exact (before.2 _ slot found).pending _ c held spent
            · obtain ⟨pre, post, mid, -, -, guard, rest⟩ := path.split member
              obtain ⟨slot', found', -, -⟩ := guard
              have now : Done (kernel.apply mid (.acted submitted.runId (.commit c submitted.outputs)))
                  submitted.runId c.unitKey := by
                refine ⟨_, ?_, commit_done mid.modules slot' c submitted.outputs⟩
                simp only [kernel, Atom.apply, found']
                rw [lookup_recordAll _ _ _ found', if_pos rfl]
              exact done_path rest now
        · cases other
      · cases applied
  | _ => cases applied

theorem emitted_commits_nodup (policy : ArtifactStorePolicy) (calls : List Call) :
    (emitted (appliedCommit policy) (fun s call => (step policy s call).1) {} calls).Nodup := by
  have rule := emitted_nodup (P := KeptApart) (fun s call => (step policy s call).1)
    (appliedCommit policy) (fun s unit => ∃ key, unit.2 = some key ∧ Done s unit.1 key)
    (fun call before => keptApart_step policy call before) ?_ ?_ ?_ ?_ keptApart_empty calls
  · exact rule.1
  · intro s call _
    obtain ⟨op, ctx, env⟩ := call
    cases op with
    | commit submitted =>
        simp only [appliedCommit]
        split_ifs
        · exact List.nodup_singleton _
        · exact List.nodup_nil
    | _ => exact List.nodup_nil
  · rintro s call unit before applied ⟨key, named, done⟩
    obtain ⟨key', named', fresh, -⟩ := appliedCommit_spec before applied
    obtain rfl : key = key' := Option.some.inj (named.symm.trans named')
    exact fresh done
  · intro s call unit before applied
    obtain ⟨key, named, -, done⟩ := appliedCommit_spec before applied
    exact ⟨key, named, done⟩
  · rintro s call unit before ⟨key, named, done⟩
    exact ⟨key, named, done_exec before [call] done⟩

/-- Over any history: claimed units are distinct, pending and within the cap; no unit is committed
twice; and a unit that is done is never handed out again. -/
theorem units_exclusive (policy : ArtifactStorePolicy) (history later : List Call) :
    (∀ runId slot, (exec policy {} history).runs.lookup runId = some slot →
      ((values slot.claimed).map (·.unitKey)).Nodup ∧
      (∀ c ∈ values slot.claimed, c.unitKey ∉ slot.doneUnits) ∧
      (slot.maxInFlight ≠ 0 → size slot.claimed ≤ slot.maxInFlight.toNat)) ∧
    (emitted (appliedCommit policy) (fun s call => (step policy s call).1) {} history).Nodup ∧
    ∀ runId slot key call, (exec policy {} history).runs.lookup runId = some slot →
      key ∈ slot.doneUnits →
      ∀ work ∈ handedOut (step policy (exec policy {} (history ++ later)) call).2,
        ¬ (work.runId = runId ∧ work.unitKey = key) := by
  have apart := keptApart_exec policy history
  refine ⟨?_, emitted_commits_nodup policy history, ?_⟩
  · intro runId slot found
    refine ⟨nodup_map_values (apart.2 runId slot found).distinct, ?_,
      (apart.1 runId slot found).room⟩
    intro c member
    obtain ⟨id, held⟩ := mem_values.mp member
    exact (apart.2 runId slot found).pending id c held
  · rintro runId slot key call found spent work handed ⟨rfl, rfl⟩
    refine handedOut_pending (keptApart_exec policy (history ++ later)) call handed ?_
    rw [exec_append]
    exact done_exec apart later ⟨slot, found, spent⟩

end Substrate.Protocol.Exclusive
