/- ID: Substrate/Protocol/Slots
   digest: What acts leave unchanged in a slot, and the rule that lifts slot invariants to the kernel. -/

import Substrate.Protocol.Atoms
import Substrate.Protocol.Validation

set_option autoImplicit false
set_option relaxedAutoImplicit false

namespace Substrate.Protocol.Slots

open Substrate.Kernel.Wire
open Substrate.Kernel.Hashing
open Substrate.Kernel.Memory
open Substrate.Kernel.Registry
open Substrate.Kernel.Schedule
open Substrate.Kernel.Runs
open Substrate.Kernel.Work
open Substrate.Protocol.Atoms
open Substrate.Protocol.Validation (Validated validateAssembly_ok)
open Substrate.Library.FiniteMap
open Substrate.Library.Transition (Path)

section Records

variable [Sha256]

/-- A ledger extended by a list of records. -/
def extend (ledger : List LedgerEntry) (records : List Record) : List LedgerEntry :=
  records.foldl (fun l r => l ++ [nextEntry l r.1 r.2.1 r.2.2]) ledger

theorem extend_append (ledger : List LedgerEntry) (rs rs' : List Record) :
    extend ledger (rs ++ rs') = extend (extend ledger rs) rs' :=
  List.foldl_append

omit [Sha256] in
/-- What a ledger entry says, apart from its place in the chain. -/
def recordOf (entry : LedgerEntry) : Record := (entry.kind, entry.subject, entry.detail)

/-- An extended ledger says what it said before, and the new records. -/
theorem map_extend (ledger : List LedgerEntry) (records : List Record) :
    (extend ledger records).map recordOf = ledger.map recordOf ++ records := by
  induction records generalizing ledger with
  | nil => exact (List.append_nil _).symm
  | cons r records ih =>
      rw [extend, List.foldl_cons, ← extend, ih, List.map_append, List.append_assoc]
      rfl

private theorem foldl_appendLocked (records : List Record) (state : State) :
    records.foldl (fun s r => appendLocked s r.1 r.2.1 r.2.2) state =
      { state with ledger := extend state.ledger records } := by
  induction records generalizing state with
  | nil => rfl
  | cons r records ih =>
      rw [List.foldl_cons, ih]
      rfl

theorem record_eq (state : State) (runId : String) (slot : RunSlot) (records : List Record) :
    record state runId slot records =
      { state with runs := state.runs.replace runId slot, ledger := extend state.ledger records } :=
  foldl_appendLocked records _

theorem recordAll_eq (s : State) (runId : String) (slot : RunSlot) (ds : List Derivation)
    (rs : List Record) : recordAll s runId slot ds rs =
      { s with runs := s.runs.replace runId slot, derivations := s.derivations ++ ds
               ledger := extend s.ledger rs } :=
  record_eq _ runId slot rs

theorem record_eq_recordAll (s : State) (runId : String) (slot : RunSlot) (rs : List Record) :
    record s runId slot rs = recordAll s runId slot [] rs := by
  rw [record_eq, recordAll_eq, List.append_nil]

theorem recordAll_recordAll (s : State) (runId : String) (a b : RunSlot) (ds ds' : List Derivation)
    (rs rs' : List Record) : recordAll (recordAll s runId a ds rs) runId b ds' rs' =
      recordAll s runId b (ds ++ ds') (rs ++ rs') := by
  simp only [recordAll_eq, replace_replace, extend_append, List.append_assoc]

theorem recordAll_self {s : State} {runId : String} {slot : RunSlot}
    (found : s.runs.lookup runId = some slot) : recordAll s runId slot [] [] = s := by
  rw [recordAll_eq, replace_self found, List.append_nil]
  rfl

theorem lookup_recordAll {s : State} {runId : String} {slot : RunSlot} (after : RunSlot)
    (ds : List Derivation) (rs : List Record) (found : s.runs.lookup runId = some slot)
    (other : String) : (recordAll s runId after ds rs).runs.lookup other =
      if other = runId then some after else s.runs.lookup other := by
  rw [recordAll_eq]
  exact lookup_replace found after other

@[simp] theorem recordAll_modules (s : State) (runId : String) (slot : RunSlot)
    (ds : List Derivation) (rs : List Record) :
    (recordAll s runId slot ds rs).modules = s.modules := by
  rw [recordAll_eq]

@[simp] theorem recordAll_artifacts (s : State) (runId : String) (slot : RunSlot)
    (ds : List Derivation) (rs : List Record) :
    (recordAll s runId slot ds rs).artifacts = s.artifacts := by
  rw [recordAll_eq]

end Records

/-- What `start_run` freezes in a slot. -/
structure SameTerms (before after : RunSlot) : Prop where
  id : after.run.id = before.run.id
  assembly : after.run.assembly = before.run.assembly
  policy : after.run.policy = before.run.policy
  maxSteps : after.run.maxSteps = before.run.maxSteps
  maxInFlight : after.maxInFlight = before.maxInFlight
  defaultLeaseMs : after.defaultLeaseMs = before.defaultLeaseMs
  maxAttempts : after.maxAttempts = before.maxAttempts

theorem SameTerms.refl (slot : RunSlot) : SameTerms slot slot :=
  ⟨rfl, rfl, rfl, rfl, rfl, rfl, rfl⟩

theorem SameTerms.trans {a b c : RunSlot} (ab : SameTerms a b) (bc : SameTerms b c) :
    SameTerms a c :=
  ⟨bc.id.trans ab.id, bc.assembly.trans ab.assembly, bc.policy.trans ab.policy,
    bc.maxSteps.trans ab.maxSteps, bc.maxInFlight.trans ab.maxInFlight,
    bc.defaultLeaseMs.trans ab.defaultLeaseMs, bc.maxAttempts.trans ab.maxAttempts⟩

theorem SameTerms.symm {a b : RunSlot} (ab : SameTerms a b) : SameTerms b a :=
  ⟨ab.id.symm, ab.assembly.symm, ab.policy.symm, ab.maxSteps.symm, ab.maxInFlight.symm,
    ab.defaultLeaseMs.symm, ab.maxAttempts.symm⟩

theorem advanceRun_terms (slot : RunSlot) (d : Derivation) :
    (advanceRun slot d).id = slot.run.id ∧ (advanceRun slot d).assembly = slot.run.assembly ∧
      (advanceRun slot d).policy = slot.run.policy ∧
      (advanceRun slot d).maxSteps = slot.run.maxSteps ∧
      (advanceRun slot d).inputs = slot.run.inputs ∧
      (advanceRun slot d).steps = slot.run.steps + 1 := by
  simp only [advanceRun]
  split_ifs <;> exact ⟨rfl, rfl, rfl, rfl, rfl, rfl⟩

theorem apply_terms [Sha256] (modules : List ModuleSlot) (slot : RunSlot) (a : SlotAct) :
    SameTerms slot (a.apply modules slot) := by
  cases a with
  | renew id leaseUntil =>
      simp only [SlotAct.apply, renewClaim]
      split <;> exact ⟨rfl, rfl, rfl, rfl, rfl, rfl, rfl⟩
  | commit c outputs =>
      obtain ⟨id, assembly, policy, maxSteps, -, -⟩ :=
        advanceRun_terms slot (derivationOf c.work outputs)
      simp only [SlotAct.apply, settleSlot]
      split_ifs <;> exact ⟨id, assembly, policy, maxSteps, rfl, rfl, rfl⟩
  | inject input => exact ⟨rfl, rfl, rfl, rfl, rfl, rfl, rfl⟩
  | claim work => exact ⟨rfl, rfl, rfl, rfl, rfl, rfl, rfl⟩
  | expire id c => exact ⟨rfl, rfl, rfl, rfl, rfl, rfl, rfl⟩
  | fail id c reason terminal => exact ⟨rfl, rfl, rfl, rfl, rfl, rfl, rfl⟩
  | stall => exact ⟨rfl, rfl, rfl, rfl, rfl, rfl, rfl⟩
  | cancel => exact ⟨rfl, rfl, rfl, rfl, rfl, rfl, rfl⟩

/-- A claim is stored under its work item's id and repeats that item's identity. -/
structure ClaimMatches (runId : String) (slot : RunSlot) (id : String) (c : ClaimedSlot) : Prop where
  id : c.work.id = id
  runId : c.work.runId = runId
  unitKey : c.work.unitKey = c.unitKey
  attempt : c.work.attempt = c.attempt
  lease : c.work.leaseUntilUnixMs = c.leaseUntilMs
  node : nodeOfWork c.work ∈ slot.run.assembly.nodes

/-- The shape of a slot stored under `runId`. -/
structure SlotShape (runId : String) (slot : RunSlot) : Prop where
  id : slot.run.id = runId
  ids : (slot.run.assembly.nodes.map (·.id)).Nodup
  claims : ∀ id c, slot.claimed.lookup id = some c → ClaimMatches runId slot id c
  room : slot.maxInFlight ≠ 0 → size slot.claimed ≤ slot.maxInFlight.toNat

/-- Every slot is stored in shape. -/
def WellFormed (s : State) : Prop :=
  ∀ runId slot, s.runs.lookup runId = some slot → SlotShape runId slot

private theorem claimMatches_of_terms {runId id : String} {before after : RunSlot} {c : ClaimedSlot}
    (terms : SameTerms before after) (m : ClaimMatches runId before id c) :
    ClaimMatches runId after id c :=
  ⟨m.id, m.runId, m.unitKey, m.attempt, m.lease, by rw [terms.assembly]; exact m.node⟩

section Acts

variable [Sha256]

@[simp] theorem settleSlot_claimed (modules : List ModuleSlot) (slot : RunSlot) :
    (settleSlot modules slot).claimed = slot.claimed := by
  unfold settleSlot
  split_ifs <;> rfl

@[simp] theorem settleSlot_doneUnits (modules : List ModuleSlot) (slot : RunSlot) :
    (settleSlot modules slot).doneUnits = slot.doneUnits := by
  unfold settleSlot
  split_ifs <;> rfl

@[simp] theorem settleSlot_latest (modules : List ModuleSlot) (slot : RunSlot) :
    (settleSlot modules slot).latest = slot.latest := by
  unfold settleSlot
  split_ifs <;> rfl

@[simp] theorem settleSlot_nodeCommits (modules : List ModuleSlot) (slot : RunSlot) :
    (settleSlot modules slot).nodeCommits = slot.nodeCommits := by
  unfold settleSlot
  split_ifs <;> rfl

@[simp] theorem settleSlot_inputEpochs (modules : List ModuleSlot) (slot : RunSlot) :
    (settleSlot modules slot).inputEpochs = slot.inputEpochs := by
  unfold settleSlot
  split_ifs <;> rfl

@[simp] theorem settleSlot_claimAttempts (modules : List ModuleSlot) (slot : RunSlot) :
    (settleSlot modules slot).claimAttempts = slot.claimAttempts := by
  unfold settleSlot
  split_ifs <;> rfl

@[simp] theorem settleSlot_answer (modules : List ModuleSlot) (slot : RunSlot) :
    (settleSlot modules slot).run.answer = slot.run.answer := by
  unfold settleSlot
  split_ifs <;> rfl

@[simp] theorem settleSlot_steps (modules : List ModuleSlot) (slot : RunSlot) :
    (settleSlot modules slot).run.steps = slot.run.steps := by
  unfold settleSlot
  split_ifs <;> rfl

/-- The claim that claiming a work item stores. -/
def claimOf (work : WorkItem) : ClaimedSlot :=
  { work, unitKey := work.unitKey, leaseUntilMs := work.leaseUntilUnixMs, attempt := work.attempt }

omit [Sha256] in
theorem claimSlot_claimed (slot : RunSlot) (work : WorkItem) :
    (claimSlot slot work).claimed = slot.claimed.insert work.id (claimOf work) := rfl

omit [Sha256] in
/-- A renewal replaces a stored claim by the same claim with a new lease. -/
theorem lookup_renewClaim (leaseUntil : Int64) (slot : RunSlot) (id other : String) :
    (renewClaim leaseUntil slot id).claimed.lookup other =
      if other = id then (slot.claimed.lookup id).map (renewLease leaseUntil)
      else slot.claimed.lookup other := by
  unfold renewClaim
  cases found : slot.claimed.lookup id with
  | none =>
      show slot.claimed.lookup other = _
      split_ifs with same
      · rw [same, found]
        rfl
      · rfl
  | some c => exact lookup_replace found (renewLease leaseUntil c) other

/-- Where a claim of the slot after an act comes from. -/
theorem claimed_apply {modules : List ModuleSlot} {slot : RunSlot} {a : SlotAct} {id : String}
    {c : ClaimedSlot} (found : (a.apply modules slot).claimed.lookup id = some c) :
    slot.claimed.lookup id = some c ∨
      (∃ work, a = .claim work ∧ id = work.id ∧ c = claimOf work) ∨
      ∃ leaseUntil old, a = .renew id leaseUntil ∧ slot.claimed.lookup id = some old ∧
        c = renewLease leaseUntil old := by
  have erased : ∀ key : String, (slot.claimed.erase key).lookup id = some c →
      slot.claimed.lookup id = some c := by
    intro key h
    rw [lookup_erase_of] at h
    split_ifs at h
    exact h
  cases a with
  | inject input => exact .inl found
  | stall => exact .inl found
  | cancel => simp [SlotAct.apply, cancelSlot] at found
  | expire key old => exact .inl (erased key found)
  | fail key old reason terminal => exact .inl (erased key found)
  | commit old outputs =>
      refine .inl (erased old.work.id ?_)
      simpa [SlotAct.apply, commitSlot] using found
  | claim work =>
      rw [SlotAct.apply, claimSlot_claimed, lookup_insert_of] at found
      split_ifs at found with same
      · exact .inr (.inl ⟨work, rfl, same, (Option.some.inj found).symm⟩)
      · exact .inl found
  | renew key leaseUntil =>
      rw [SlotAct.apply, lookup_renewClaim] at found
      split_ifs at found with same
      · obtain ⟨old, there, rfl⟩ := Option.map_eq_some_iff.mp found
        subst same
        exact .inr (.inr ⟨leaseUntil, old, rfl, there, rfl⟩)
      · exact .inl found

theorem doneUnits_apply (modules : List ModuleSlot) (slot : RunSlot) (a : SlotAct) :
    slot.doneUnits ⊆ (a.apply modules slot).doneUnits := by
  intro key done
  cases a with
  | renew id leaseUntil =>
      simp only [SlotAct.apply, renewClaim]
      split <;> exact done
  | expire id c =>
      simp only [SlotAct.apply, expireClaim]
      split_ifs
      · exact Finset.mem_insert_of_mem done
      · exact done
  | fail id c reason terminal =>
      simp only [SlotAct.apply, failSlot]
      split_ifs
      · exact Finset.mem_insert_of_mem done
      · exact done
  | commit c outputs =>
      simp only [SlotAct.apply, settleSlot_doneUnits]
      exact Finset.mem_insert_of_mem done
  | inject input => exact done
  | claim work => exact done
  | stall => exact done
  | cancel => exact done

/-- What only a commit changes in a slot. -/
structure SameBooks (before after : RunSlot) : Prop where
  steps : after.run.steps = before.run.steps
  answer : after.run.answer = before.run.answer
  latest : after.latest = before.latest
  nodeCommits : after.nodeCommits = before.nodeCommits

theorem apply_books (modules : List ModuleSlot) (slot : RunSlot) {a : SlotAct}
    (noCommit : ∀ c outputs, a ≠ .commit c outputs) : SameBooks slot (a.apply modules slot) := by
  cases a with
  | commit c outputs => exact absurd rfl (noCommit c outputs)
  | renew id leaseUntil =>
      simp only [SlotAct.apply, renewClaim]
      split <;> exact ⟨rfl, rfl, rfl, rfl⟩
  | _ => exact ⟨rfl, rfl, rfl, rfl⟩

theorem derivation_eq_nil {a : SlotAct} (noCommit : ∀ c outputs, a ≠ .commit c outputs) :
    a.derivation = [] := by
  cases a with
  | commit c outputs => exact absurd rfl (noCommit c outputs)
  | _ => rfl

/-- The run after a commit, whatever the stall check adds to it. -/
theorem commit_run (modules : List ModuleSlot) (slot : RunSlot) (c : ClaimedSlot)
    (outputs : List NamedArtifact) :
    let after := (SlotAct.commit c outputs).apply modules slot
    after.run.answer =
        (terminalAnswer slot.run.assembly (derivationOf c.work outputs)).or slot.run.answer ∧
      after.run.steps = slot.run.steps + 1 ∧
      after.nodeCommits = slot.nodeCommits.insert c.work.nodeId
        ((slot.nodeCommits.lookup c.work.nodeId).getD 0 + 1) := by
  refine ⟨(settleSlot_answer _ _).trans ?_, (settleSlot_steps _ _).trans ?_,
    settleSlot_nodeCommits _ _⟩
  · simp only [commitSlot, advanceRun]
    split_ifs <;> rfl
  · exact (advanceRun_terms slot _).2.2.2.2.2

/-- A commit within `max_steps` is one more step. -/
theorem steps_commit {modules : List ModuleSlot} {slot : RunSlot} (c : ClaimedSlot)
    (outputs : List NamedArtifact) (within : slot.run.steps < slot.run.maxSteps) :
    ((SlotAct.commit c outputs).apply modules slot).run.steps.toNat =
      slot.run.steps.toNat + 1 := by
  have advanced := (commit_run modules slot c outputs).2.1
  have below := UInt64.lt_iff_toNat_lt.mp within
  have top := slot.run.maxSteps.toNat_lt
  rw [advanced, UInt64.toNat_add]
  exact Nat.mod_eq_of_lt (by simpa using by omega)

/-- Where a delivery of the slot after an act comes from. -/
theorem latest_origin {modules : List ModuleSlot} {slot : RunSlot} {a : SlotAct} {node : String}
    {d : Derivation} (found : (a.apply modules slot).latest.lookup node = some d) :
    slot.latest.lookup node = some d ∨ ∃ c outputs, a = .commit c outputs ∧
      node = c.work.nodeId ∧ d = derivationOf c.work outputs := by
  by_cases commits : ∃ c outputs, a = .commit c outputs
  · obtain ⟨c, outputs, rfl⟩ := commits
    rw [SlotAct.apply, settleSlot_latest, commitSlot, lookup_insert_of] at found
    split_ifs at found with here
    · exact .inr ⟨c, outputs, rfl, here, (Option.some.inj found).symm⟩
    · exact .inl found
  · push Not at commits
    rw [(apply_books modules slot commits).latest] at found
    exact .inl found

theorem size_apply {modules : List ModuleSlot} {slot : RunSlot} {a : SlotAct}
    (noClaim : ∀ work, a ≠ .claim work) :
    size (a.apply modules slot).claimed ≤ size slot.claimed := by
  cases a with
  | claim work => exact absurd rfl (noClaim work)
  | inject input => exact le_rfl
  | stall => exact le_rfl
  | cancel => exact Nat.zero_le _
  | expire id c => exact size_erase_le slot.claimed id
  | fail id c reason terminal => exact size_erase_le slot.claimed id
  | commit c outputs =>
      simp only [SlotAct.apply, settleSlot_claimed]
      exact size_erase_le slot.claimed c.work.id
  | renew id leaseUntil =>
      simp only [SlotAct.apply, renewClaim]
      split
      · exact (size_replace slot.claimed id _).le
      · exact le_rfl

private theorem room_apply {modules : List ModuleSlot} {artifacts : KeyMap String Artifact}
    {runId : String} {slot : RunSlot} {a : SlotAct}
    (guard : a.enabled modules artifacts runId slot) (shape : SlotShape runId slot)
    (bounded : slot.maxInFlight ≠ 0) :
    size (a.apply modules slot).claimed ≤ slot.maxInFlight.toNat := by
  cases a with
  | claim work =>
      have free := guard.1 bounded
      have grown := size_insert_le slot.claimed work.id (claimOf work)
      rw [SlotAct.apply, claimSlot_claimed]
      omega
  | _ => exact le_trans (size_apply (by simp)) (shape.room bounded)

theorem shape_apply {modules : List ModuleSlot} {artifacts : KeyMap String Artifact}
    {runId : String} {slot : RunSlot} {a : SlotAct}
    (guard : a.enabled modules artifacts runId slot) (shape : SlotShape runId slot) :
    SlotShape runId (a.apply modules slot) := by
  have terms := apply_terms modules slot a
  refine ⟨terms.id.trans shape.id, by rw [terms.assembly]; exact shape.ids, ?_, ?_⟩
  swap
  · intro bounded
    rw [terms.maxInFlight] at bounded ⊢
    exact room_apply guard shape bounded
  intro id c found
  refine claimMatches_of_terms terms ?_
  rcases claimed_apply found with old | ⟨work, rfl, rfl, rfl⟩ | ⟨leaseUntil, old, rfl, there, rfl⟩
  · exact shape.claims id c old
  · obtain ⟨-, env, node, member, inputs, unitKey, -, rfl⟩ := guard
    exact ⟨rfl, rfl, rfl, rfl, rfl, member⟩
  · obtain ⟨m1, m2, m3, m4, -, m6⟩ := shape.claims id old there
    exact ⟨m1, m2, m3, m4, rfl, m6⟩

end Acts

section Kernel

variable [Sha256] [Prost]

omit [Sha256] [Prost] in
theorem freshSlot_shape {req : RunRequest} {assembly : Assembly} {maxSteps : UInt64}
    (ids : (assembly.nodes.map (·.id)).Nodup) : SlotShape req.id (freshSlot req assembly maxSteps) :=
  ⟨rfl, ids, fun id c found => by simp [freshSlot] at found, fun _ => Nat.zero_le _⟩

/-- Where a slot of the kernel after an atom comes from. -/
theorem runs_apply {s : State} {a : Atom} (guard : a.enabled s) {runId : String} {after : RunSlot}
    (found : (a.apply s).runs.lookup runId = some after) :
    (s.runs.lookup runId = some after ∧ ∀ act, a ≠ .acted runId act) ∨
      (∃ slot act, a = .acted runId act ∧ s.runs.lookup runId = some slot ∧
        slot.run.state = .running ∧ act.enabled s.modules s.artifacts runId slot ∧
        after = act.apply s.modules slot) ∨
      (a = .started after ∧ after.run.id = runId ∧ after.run.id ∉ s.runs ∧ Fresh s after) := by
  cases a with
  | started slot =>
      change (s.runs.insert slot.run.id slot).lookup runId = some after at found
      rw [lookup_insert_of] at found
      split_ifs at found with same
      · obtain rfl := Option.some.inj found
        exact .inr (.inr ⟨rfl, same.symm, guard.1, guard.2⟩)
      · exact .inl ⟨found, fun act h => by cases h⟩
  | acted rid act =>
      obtain ⟨slot, there, running, possible⟩ := guard
      simp only [Atom.apply, there] at found
      rw [lookup_recordAll _ _ _ there] at found
      split_ifs at found with same
      · subst same
        exact .inr (.inl ⟨slot, act, rfl, there, running, possible, (Option.some.inj found).symm⟩)
      · refine .inl ⟨found, ?_⟩
        rintro other h
        cases h
        exact same rfl
  | registered manifest => exact .inl ⟨found, fun act h => by cases h⟩
  | advanced name target => exact .inl ⟨found, fun act h => by cases h⟩
  | artifactStored artifact => exact .inl ⟨found, fun act h => by cases h⟩
  | blobStored slot => exact .inl ⟨found, fun act h => by cases h⟩
  | contractStored contract => exact .inl ⟨found, fun act h => by cases h⟩
  | published event => exact .inl ⟨found, fun act h => by cases h⟩
  | appended req => exact .inl ⟨found, fun act h => by cases h⟩
  | remembered key result => exact .inl ⟨found, fun act h => by cases h⟩

/-- What happens to one slot in one atom: nothing, or the act that names its run. -/
theorem runs_persist {s : State} {a : Atom} (guard : a.enabled s) {runId : String} {slot : RunSlot}
    (found : s.runs.lookup runId = some slot) :
    ((a.apply s).runs.lookup runId = some slot ∧ ∀ act, a ≠ .acted runId act) ∨
      ∃ act, a = .acted runId act ∧ slot.run.state = .running ∧
        act.enabled s.modules s.artifacts runId slot ∧
        (a.apply s).runs.lookup runId = some (act.apply s.modules slot) := by
  cases a with
  | started fresh =>
      refine .inl ⟨?_, fun act h => by cases h⟩
      change (s.runs.insert fresh.run.id fresh).lookup runId = some slot
      rw [lookup_insert_of, if_neg, found]
      rintro rfl
      exact guard.1 (mem_of_lookup found)
  | acted rid act =>
      obtain ⟨there, found', running, possible⟩ := guard
      simp only [Atom.apply, found']
      rw [lookup_recordAll _ _ _ found']
      by_cases same : runId = rid
      · subst same
        obtain rfl : slot = there := Option.some.inj (found.symm.trans found')
        exact .inr ⟨act, rfl, running, possible, if_pos rfl⟩
      · refine .inl ⟨by rw [if_neg same, found], ?_⟩
        rintro other h
        cases h
        exact same rfl
  | registered manifest => exact .inl ⟨found, fun act h => by cases h⟩
  | advanced name target => exact .inl ⟨found, fun act h => by cases h⟩
  | artifactStored artifact => exact .inl ⟨found, fun act h => by cases h⟩
  | blobStored slot => exact .inl ⟨found, fun act h => by cases h⟩
  | contractStored contract => exact .inl ⟨found, fun act h => by cases h⟩
  | published event => exact .inl ⟨found, fun act h => by cases h⟩
  | appended req => exact .inl ⟨found, fun act h => by cases h⟩
  | remembered key result => exact .inl ⟨found, fun act h => by cases h⟩

theorem derivations_apply {s : State} {a : Atom} (guard : a.enabled s) :
    (a.apply s).derivations = s.derivations ++ a.derivation := by
  cases a with
  | acted runId act =>
      obtain ⟨slot, found, -⟩ := guard
      simp only [Atom.apply, found, recordAll_eq]
      rfl
  | registered manifest => exact (List.append_nil _).symm
  | advanced name target => exact (List.append_nil _).symm
  | artifactStored artifact => exact (List.append_nil _).symm
  | blobStored slot => exact (List.append_nil _).symm
  | contractStored contract => exact (List.append_nil _).symm
  | published event => exact (List.append_nil _).symm
  | appended req => exact (List.append_nil _).symm
  | started slot => exact (List.append_nil _).symm
  | remembered key result => exact (List.append_nil _).symm

theorem path_derivations {s t : State} {atoms : List Atom} (path : Path kernel s atoms t) :
    t.derivations = s.derivations ++ atoms.flatMap Atom.derivation := by
  induction path with
  | nil s => exact (List.append_nil _).symm
  | cons guard _ ih =>
      rw [ih, List.flatMap_cons, ← List.append_assoc]
      exact congrArg (· ++ _) (derivations_apply guard)

/-- A slot invariant holds of every slot after an atom when it survives what the rest of the kernel
does, holds of fresh slots and is kept by acts. -/
theorem slots_apply {I : State → String → RunSlot → Prop} {s : State} {a : Atom}
    (guard : a.enabled s) (frame : ∀ runId slot, I s runId slot → I (a.apply s) runId slot)
    (fresh : ∀ slot, slot.run.id ∉ s.runs → Fresh s slot → I s slot.run.id slot)
    (kept : ∀ runId slot act, a = .acted runId act → s.runs.lookup runId = some slot →
      slot.run.state = .running → act.enabled s.modules s.artifacts runId slot →
      I s runId slot → I s runId (act.apply s.modules slot))
    (before : ∀ runId slot, s.runs.lookup runId = some slot → I s runId slot) :
    ∀ runId slot, (a.apply s).runs.lookup runId = some slot → I (a.apply s) runId slot := by
  intro runId after found
  rcases runs_apply guard found with ⟨old, -⟩ | ⟨slot, act, rfl, there, running, possible, rfl⟩ |
    ⟨rfl, rfl, absent, new⟩
  · exact frame runId after (before runId after old)
  · exact frame runId _ (kept runId slot act rfl there running possible (before runId slot there))
  · exact frame _ _ (fresh after absent new)

theorem wellFormed_apply {s : State} {a : Atom} (guard : a.enabled s) (wf : WellFormed s) :
    WellFormed (a.apply s) := by
  refine slots_apply (I := fun _ runId slot => SlotShape runId slot) guard (fun _ _ h => h) ?_ ?_ wf
  · rintro slot - ⟨env, req, assembly, maxSteps, rfl, -, ok⟩
    exact freshSlot_shape (validateAssembly_ok ok).ids
  · intro runId slot act _ _ _ possible shape
    exact shape_apply possible shape

end Kernel

end Substrate.Protocol.Slots
