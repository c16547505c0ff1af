/- ID: Substrate/Protocol/Draining
   digest: The drain loop of a host ends within the step budget of its run and leaves nothing READY. -/

import Substrate.Protocol.Accounting
import Substrate.Protocol.Claiming
import Substrate.Protocol.Failures
import Substrate.Protocol.Orphans
import Substrate.Protocol.Starting

set_option autoImplicit false
set_option relaxedAutoImplicit false

namespace Substrate.Protocol.Draining

open Substrate.Kernel.Wire
open Substrate.Kernel.Hashing
open Substrate.Kernel.Memory
open Substrate.Kernel.Schedule
open Substrate.Kernel.Runs (runningSlot)
open Substrate.Kernel.Work
open Substrate.Kernel.Api (Op Reachable reachable_step readOnly)
open Substrate.Framework.Steps
open Substrate.Framework.Policy
open Substrate.Framework.Calls
open Substrate.Framework.Drive
open Substrate.Framework.InProcess
open Substrate.Protocol.Atoms
open Substrate.Protocol.Slots
open Substrate.Protocol.Serial
open Substrate.Protocol.Refine
open Substrate.Protocol.Asking
open Substrate.Protocol.Failures (FailsAt)
open Substrate.Protocol.Orphans
open Substrate.Library.FiniteMap
open Substrate.Library.Resumption
open Substrate.Library.Resumption.Act
open Substrate.Library.Resumption.Prog (Environment exec transcript)

section General

variable [Sha256] [Prost] {host : Host} {S : Type}

/-- A RUNNING run has steps left. -/
def Spare (slot : RunSlot) : Prop :=
  slot.run.state = .running → slot.run.steps < slot.run.maxSteps

omit [Prost] in
private theorem spare_act {modules : List ModuleSlot} {slot : RunSlot} (a : SlotAct)
    (running : slot.run.state = .running) (spare : Spare slot) : Spare (a.apply modules slot) := by
  by_cases commits : ∃ c outputs, a = .commit c outputs
  · obtain ⟨c, outputs, rfl⟩ := commits
    intro still
    rw [(apply_terms modules slot _).maxSteps, (commit_run modules slot c outputs).2.1]
    rcases Accounting.commit_state modules c outputs running with ⟨completed, -⟩ | ⟨failed, -⟩ |
      ⟨-, left⟩
    · rw [completed] at still
      cases still
    · rw [failed] at still
      cases still
    · exact left
  · push Not at commits
    intro _
    rw [(apply_terms modules slot a).maxSteps, (apply_books modules slot commits).steps]
    exact spare running

theorem reachable_spare {policy : ArtifactStorePolicy} {s : State} (reached : Reachable policy s)
    {runId : String} {slot : RunSlot} (found : s.runs.lookup runId = some slot) : Spare slot := by
  refine reachable_invariant (P := fun s => ∀ runId slot, s.runs.lookup runId = some slot →
    Spare slot) (fun runId slot found => by simp at found) ?_ reached runId slot found
  intro s a guard wf before
  refine slots_apply (I := fun _ _ slot => Spare slot) guard (fun _ _ h => h) ?_ ?_ before
  · rintro slot - ⟨env, req, assembly, maxSteps, rfl, positive, -⟩ _
    exact UInt64.pos_iff_ne_zero.mpr positive
  · exact fun runId slot act _ _ running _ => spare_act act running

def isCommit : Exchange Query Answer → Bool
  | ⟨.commit _ _, answer⟩ => Except.isOk answer
  | _ => false

/-- How many commits have been accepted. -/
def commits (told : Told) : Nat := told.countP isCommit

/-- Whether a slot has a claim of that id, as a number. -/
def holds (slot : RunSlot) (id : String) : Nat := if id ∈ slot.claimed then 1 else 0

/-- What the exchanges since a slot was as at the start say of it: its steps are the commits more, and
every claim of its is a unit handed out and not yet released, or one from the start. -/
structure Tallies (start : RunSlot) (told : Told) (slot : RunSlot) : Prop where
  limit : slot.run.maxSteps = start.run.maxSteps
  steps : slot.run.steps.toNat = start.run.steps.toNat + commits told
  held : ∀ id, holds slot id + (released told).count id ≤
    ((handed told).map (·.id)).count id + holds start id

omit [Sha256] [Prost] in
theorem Tallies.refl (slot : RunSlot) : Tallies slot [] slot :=
  ⟨rfl, rfl, fun id => by simp [released, handed]⟩

omit [Sha256] [Prost] in
theorem Tallies.next {start slot after : RunSlot} {told : Told} {e : Exchange Query Answer}
    (tallies : Tallies start told slot) (limit : after.run.maxSteps = slot.run.maxSteps)
    (steps : after.run.steps.toNat = slot.run.steps.toNat + commits [e])
    (held : ∀ id, holds after id + (releasedBy e).count id ≤
      ((handedBy e).map (·.id)).count id + holds slot id) : Tallies start (told ++ [e]) after := by
  refine ⟨limit.trans tallies.limit, ?_, fun id => ?_⟩
  · rw [steps, tallies.steps, commits, commits, commits, List.countP_append]
    omega
  · have before := tallies.held id
    have now := held id
    rw [released_append, handed_append, released_single, handed_single, Multiset.map_add,
      Multiset.count_add, Multiset.count_add]
    omega

omit [Sha256] [Prost] in
theorem Tallies.idle {start slot after : RunSlot} {told : Told} {e : Exchange Query Answer}
    (tallies : Tallies start told slot) (claims : handedBy e = 0) (releases : releasedBy e = 0)
    (silent : isCommit e = false) (run : after.run = slot.run)
    (fewer : ∀ id ∈ after.claimed, id ∈ slot.claimed) : Tallies start (told ++ [e]) after := by
  refine tallies.next (by rw [run]) ?_ fun id => ?_
  · rw [run, commits, List.countP_cons, silent]
    rfl
  · rw [claims, releases, holds, holds]
    by_cases held : id ∈ after.claimed
    · rw [if_pos held, if_pos (fewer id held)]
      simp
    · rw [if_neg held]
      simp

variable {store : ArtifactStorePolicy} {clock : Nat → Env} {outside : Environment S Query Answer}
  {runId : String} {start : RunSlot}

/-- A kernel that can be reached, in which the run tallies. -/
structure Tracked (store : ArtifactStorePolicy) (runId : String) (start : RunSlot) (told : Told)
    (state : State) : Prop where
  reached : Reachable store state
  slot : ∃ slot, state.runs.lookup runId = some slot ∧ Tallies start told slot

omit [Sha256] [Prost] in
private theorem reapSlot_fewer {env : Env} {slot : RunSlot} {id : String}
    (member : id ∈ (reapSlot env slot).claimed) : id ∈ slot.claimed := by
  obtain ⟨c, held⟩ := lookup_of_mem member
  exact mem_of_lookup (reapSlot_lookup held)

omit [Sha256] [Prost] in
private theorem claimUnits_claimed {env : Env} {slot : RunSlot} {cs : List Candidate} {id : String}
    (member : id ∈ (claimUnits env runId slot cs).1.claimed) :
    id ∈ slot.claimed ∨ id ∈ (claimUnits env runId slot cs).2.map (·.id) := by
  induction cs generalizing slot with
  | nil => exact .inl member
  | cons c cs ih =>
      rcases ih member with before | later
      · rcases (AList.mem_insert _).mp before with rfl | old
        · exact .inr List.mem_cons_self
        · exact .inl old
      · exact .inr (List.mem_cons_of_mem _ later)

theorem claimAnswer_cases (env : Env) (req : ClaimRequest) (ctx : RequestContext) (s : State) :
    ((∃ e, (claimAnswer env req ctx s).2 = .error e) ∧ (claimAnswer env req ctx s).1 = s) ∨
      ∃ resp, (claimAnswer env req ctx s).2 = .ok resp ∧
        claimReady env req s = ((claimAnswer env req ctx s).1, .ok resp.1) := by
  unfold claimAnswer
  cases checkDeadline env ctx with
  | error e => exact .inl ⟨⟨e, rfl⟩, rfl⟩
  | ok _ =>
      dsimp only [orReturn]
      split
      · rename_i resp accepted
        exact .inr ⟨_, rfl, Prod.ext rfl accepted⟩
      · rename_i e refused
        exact .inl ⟨⟨e, rfl⟩, Failures.claimReady_failsAt env req s e refused⟩

private theorem claim_tallies {told : Told} {s : State} {req : ClaimRequest} {slot : RunSlot}
    (env : Env) (ctx : RequestContext) (found : s.runs.lookup req.runId = some slot)
    (tallies : Tallies start told slot) :
    ∃ after, (claimAnswer env req ctx s).1.runs.lookup req.runId = some after ∧
      Tallies start (told ++ [⟨.claimReady req ctx, (claimAnswer env req ctx s).2⟩]) after := by
  rcases claimAnswer_cases env req ctx s with ⟨⟨e, refused⟩, same⟩ | ⟨resp, accepted, claimed⟩
  · rw [same, refused]
    exact ⟨slot, found, tallies.idle rfl rfl rfl rfl fun _ member => member⟩
  · obtain ⟨other, running, -⟩ := orReturn_ok (show claimReady env req s = (_, .ok resp.1) from claimed)
    obtain ⟨found', running⟩ := runningSlot_ok.mp running
    obtain rfl := Option.some.inj (found.symm.trans found')
    obtain ⟨-, cs, -, items, lookup⟩ := Stalling.claimReady_slot env found running
    rw [claimed] at items lookup
    have items : resp.1.items = (claimUnits env req.runId (reapSlot env slot) cs).2 :=
      congrArg ClaimResponse.items (Except.ok.inj items)
    generalize left : (if isIdle s.modules (reapSlot env slot) then stallSlot (reapSlot env slot)
      else (claimUnits env req.runId (reapSlot env slot) cs).1) = after at lookup
    have same : after.run.maxSteps = slot.run.maxSteps ∧ after.run.steps = slot.run.steps := by
      rw [← left]
      split_ifs
      · rw [stallSlot, reapSlot_run]
        exact ⟨rfl, rfl⟩
      · rw [claimUnits_run, reapSlot_run]
        exact ⟨rfl, rfl⟩
    have given (id : String) (member : id ∈ after.claimed) :
        id ∈ slot.claimed ∨ id ∈ resp.1.items.map (·.id) := by
      rw [← left] at member
      split_ifs at member
      · exact .inl (reapSlot_fewer member)
      · rw [items]
        exact (claimUnits_claimed member).imp_left reapSlot_fewer
    refine ⟨after, lookup, tallies.next same.1 (congrArg UInt64.toNat same.2) fun id => ?_⟩
    rw [accepted]
    show holds after id + 0 ≤ ((resp.1.items : Multiset WorkItem).map (·.id)).count id + holds slot id
    rw [Nat.add_zero, holds]
    split_ifs with member
    · rcases given id member with old | new
      · rw [holds, if_pos old]
        exact Nat.le_add_left 1 _
      · exact (Multiset.one_le_count_iff_mem.mpr (by simpa using new)).trans (Nat.le_add_right _ _)
    · exact Nat.zero_le _

private theorem refused_tallies {told : Told} {s after : State} {slot : RunSlot} (env : Env)
    {e : Exchange Query Answer} (found : s.runs.lookup runId = some slot)
    (tallies : Tallies start told slot) (claims : handedBy e = 0) (releases : releasedBy e = 0)
    (silent : isCommit e = false) (left : after = s ∨ after = Failures.reapedRun env runId s) :
    ∃ slot', after.runs.lookup runId = some slot' ∧ Tallies start (told ++ [e]) slot' := by
  have same := tallies.idle claims releases silent rfl fun _ member => member
  rcases left with rfl | rfl
  · exact ⟨slot, found, same⟩
  · by_cases running : slot.run.state = .running
    · rw [Failures.reapedRun_ok (runningSlot_ok.mpr ⟨found, running⟩), reapExpiredLocked,
        record_eq_recordAll, lookup_recordAll _ _ _ found, if_pos rfl]
      exact ⟨_, rfl, tallies.idle claims releases silent (reapSlot_run env slot)
        fun _ => reapSlot_fewer⟩
    · have closed : runningSlot s runId = .error (.runClosed slot.run.state) := by
        simp only [runningSlot, found, if_neg running]
      rw [Failures.reapedRun_error closed]
      exact ⟨slot, found, same⟩

omit [Sha256] [Prost] in
private theorem holds_erase {slot after : RunSlot} {env : Env} {workId : String}
    (held : workId ∈ (reapSlot env slot).claimed)
    (erased : after.claimed = (reapSlot env slot).claimed.erase workId) (id : String) :
    holds after id + Multiset.count id {workId} ≤ holds slot id := by
  rw [holds, holds, erased]
  by_cases same : id = workId
  · subst same
    rw [if_neg (by simp), if_pos (reapSlot_fewer held), Multiset.count_singleton_self]
  · rw [Multiset.count_singleton, if_neg same]
    split_ifs with member before
    · exact le_rfl
    · exact absurd (reapSlot_fewer (AList.mem_erase.mp member).2) before
    · exact Nat.zero_le _
    · exact le_rfl

private theorem commit_tallies {told : Told} {s : State} {submitted : Derivation} {slot : RunSlot}
    (wf : WellFormed s) (env : Env) {ctx : RequestContext} (bare : ctx.requestKey = "")
    (found : s.runs.lookup submitted.runId = some slot) (tallies : Tallies start told slot) :
    ∃ after, (commitCtx env submitted ctx s).1.runs.lookup submitted.runId = some after ∧
      Tallies start (told ++ [⟨.commit submitted ctx, (commitCtx env submitted ctx s).2⟩]) after := by
  have applied : ∀ r, idempotentGet s "commit" ctx ≠ some (.run r) := by
    rw [idempotentGet, idempotencyKey, if_pos bare]
    rintro _ ⟨⟩
  generalize result : commitCtx env submitted ctx s = committed
  obtain ⟨t, refused | run⟩ := committed
  · refine refused_tallies env found tallies rfl rfl rfl ?_
    cases inTime : checkDeadline env ctx with
    | ok _ =>
        have fails := @Failures.commitCtx_failsAt _ _ env submitted ctx s inTime
        rw [FailsAt, result] at fails
        exact .inr (fails refused rfl)
    | error late =>
        rw [commitCtx, inTime] at result
        exact .inl (congrArg Prod.fst result).symm
  · obtain ⟨slot', c, after, found', running, held, -, possible, made, -, rfl⟩ :=
      commitCtx_ok wf applied result
    obtain rfl := Option.some.inj (found.symm.trans found')
    have reaping : Trace s.modules s.artifacts submitted.runId slot _ _ _ _ _ := reap_trace env running
    have named := (reaping.shape (wf submitted.runId slot found)).claims _ c held
    refine ⟨after, ?_, tallies.next ?_ ?_ fun id => ?_⟩
    · rw [idempotentPut_runs, lookup_recordAll _ _ _ found, if_pos rfl]
    · rw [made, (apply_terms _ _ _).maxSteps, reapSlot_run]
    · rw [made, steps_commit c _ possible.2.1, reapSlot_run]
      rfl
    · refine (holds_erase (mem_of_lookup held) ?_ id).trans (Nat.le_add_left _ _)
      rw [made, SlotAct.apply, settleSlot_claimed, commitSlot, named.id]

private theorem fail_tallies {told : Told} {s : State} {req : FailWorkRequest} {slot : RunSlot}
    (env : Env) (ctx : RequestContext) (found : s.runs.lookup req.runId = some slot)
    (tallies : Tallies start told slot) :
    let failed := orReturn (checkDeadline env ctx) s fun _ => failWork env req s
    ∃ after, failed.1.runs.lookup req.runId = some after ∧
      Tallies start (told ++ [⟨.failWork req ctx, failed.2⟩]) after := by
  intro failed
  generalize result : failed = out
  obtain ⟨t, refused | run⟩ := out
  · refine refused_tallies env found tallies rfl rfl rfl ?_
    cases inTime : checkDeadline env ctx with
    | ok _ =>
        have fails := Failures.failWork_failsAt env req s
        simp only [failed, inTime, orReturn] at result
        rw [FailsAt, result] at fails
        exact .inr (fails refused rfl)
    | error late =>
        simp only [failed, inTime, orReturn] at result
        exact .inl (congrArg Prod.fst result).symm
  · obtain ⟨-, -, result⟩ := orReturn_ok result
    obtain ⟨slot', running, result⟩ := orReturn_ok result
    obtain ⟨found', running⟩ := runningSlot_ok.mp running
    obtain rfl := Option.some.inj (found.symm.trans found')
    simp only [reapExpiredLocked, record_eq_recordAll, recordAll_modules, recordAll_recordAll]
      at result
    cases held : (reapSlot env slot).claimed.lookup req.workId with
    | none => simp [held] at result
    | some c =>
        simp only [held] at result
        split_ifs at result <;> obtain ⟨rfl, -⟩ := Prod.mk.inj result
        all_goals
          rw [lookup_recordAll _ _ _ found, if_pos rfl]
          refine ⟨_, rfl, tallies.next ?_ ?_ fun id => ?_⟩
          · show (reapSlot env slot).run.maxSteps = slot.run.maxSteps
            rw [reapSlot_run]
          · show (reapSlot env slot).run.steps.toNat = slot.run.steps.toNat
            rw [reapSlot_run]
          · exact (holds_erase (mem_of_lookup held) rfl id).trans (Nat.le_add_left _ _)

/-- The call that a question to the kernel makes. -/
def opOf : Query → Option (Op × RequestContext)
  | .startRun req ctx => some (.startRun req, ctx)
  | .getRun ref ctx => some (.getRun ref, ctx)
  | .injectInput req ctx => some (.injectInput req, ctx)
  | .cancelRun ref ctx => some (.cancelRun ref, ctx)
  | .listDerivations ref ctx => some (.listDerivations ref, ctx)
  | .claimReady req ctx => some (.claimReady req, ctx)
  | .getArtifact ref ctx => some (.getArtifact ref, ctx)
  | .putArtifact artifact ctx => some (.putArtifact artifact, ctx)
  | .commit submitted ctx => some (.commit submitted, ctx)
  | .failWork req ctx => some (.failWork req, ctx)
  | _ => none

/-- A question changes the kernel as the call does that it makes, or not at all. -/
theorem inProcess_kernel (q : Query) (w : World S) :
    (inProcess store clock outside q w).1.kernel = (opOf q).elim w.kernel fun p =>
      (Substrate.Kernel.Api.step store w.kernel ⟨p.1, p.2, clock w.calls⟩).1 := by
  cases q with
  | claimReady req ctx =>
      show (claimAnswer (clock w.calls) req ctx w.kernel).1 =
        (orReturn (checkDeadline (clock w.calls) ctx) w.kernel fun _ =>
          claimReady (clock w.calls) req w.kernel).1
      unfold claimAnswer
      cases checkDeadline (clock w.calls) ctx <;> rfl
  | _ => rfl

/-- A kernel in process is always in a state that it can reach. -/
theorem inProcess_reachable {q : Query} {w : World S} (reached : Reachable store w.kernel) :
    Reachable store (inProcess store clock outside q w).1.kernel := by
  rw [inProcess_kernel]
  cases opOf q with
  | none => exact reached
  | some p => exact reachable_step _ reached

/-- What driving a run may ask of the kernel about runs. -/
def Drives (host : Host) (runId : String) (e : Exchange Query Answer) : Prop :=
  match e.1 with
  | .startRun _ _ | .injectInput _ _ | .cancelRun _ _ => False
  | .claimReady req _ => req.runId = runId
  | .commit submitted ctx => submitted.runId = runId ∧ ctx = host.ctx
  | .failWork req _ => req.runId = runId
  | _ => True

theorem tracked_step (bare : host.ctx.requestKey = "") {told : Told} {q : Query} {w : World S}
    (drives : Drives host runId ⟨q, (inProcess store clock outside q w).2⟩)
    (tracked : Tracked store runId start told w.kernel) :
    Tracked store runId start (told ++ [⟨q, (inProcess store clock outside q w).2⟩])
      (inProcess store clock outside q w).1.kernel := by
  refine ⟨inProcess_reachable tracked.reached, ?_⟩
  obtain ⟨reached, slot, found, tallies⟩ := tracked
  have quiet {e : Exchange Query Answer} {s : State} (same : s.runs = w.kernel.runs)
      (claims : handedBy e = 0) (releases : releasedBy e = 0) (silent : isCommit e = false) :
      ∃ slot, s.runs.lookup runId = some slot ∧ Tallies start (told ++ [e]) slot :=
    ⟨slot, same ▸ found, tallies.idle claims releases silent rfl fun _ member => member⟩
  have read {α : Type} (ctx : RequestContext) (answer : Except KernelError α) :
      (orReturn (checkDeadline (clock w.calls) ctx) w.kernel fun _ =>
        readOnly w.kernel answer).1.runs = w.kernel.runs := by
    cases checkDeadline (clock w.calls) ctx <;> rfl
  cases q with
  | startRun req ctx => exact drives.elim
  | injectInput req ctx => exact drives.elim
  | cancelRun ref ctx => exact drives.elim
  | getRun ref ctx => exact quiet (read ctx _) rfl rfl rfl
  | listDerivations ref ctx => exact quiet (read ctx _) rfl rfl rfl
  | getArtifact ref ctx => exact quiet (read ctx _) rfl rfl rfl
  | putArtifact artifact ctx => exact quiet (Starting.putArtifactCtx_runs _ _ _ _ _) rfl rfl rfl
  | claimReady req ctx =>
      obtain rfl : req.runId = runId := drives
      exact claim_tallies (clock w.calls) ctx found tallies
  | commit submitted ctx =>
      obtain ⟨rfl, rfl⟩ := drives
      exact commit_tallies (reachable_wellFormed reached) (clock w.calls) bare found tallies
  | failWork req ctx =>
      obtain rfl : req.runId = runId := drives
      exact fail_tallies (clock w.calls) ctx found tallies
  | _ => exact quiet rfl rfl rfl rfl

/-- What the steps of a run may exchange: they claim nothing. -/
def Works (host : Host) (runId : String) (e : Exchange Query Answer) : Prop :=
  Drives host runId e ∧ handedBy e = 0

/-- The claims that have handed out work. -/
def productive (told : Told) : Nat := told.countP fun e => 0 < (handedBy e).card

section Waves

variable {policies : KeyMap String (Backed host)}

omit [Sha256] [Prost] in
private theorem works_allows :
    Allows host runId (fun _ => True) (fun books => books.runPolicies = policies) (fun _ => True)
      (Works host runId) where
  policy _ _ _ _ := trivial
  noted _ _ _ _ known := known
  quiet q asked answer := by
    cases q <;> first | exact ⟨trivial, rfl⟩ | cases asked
  commits submitted here answer := ⟨⟨here, rfl⟩, rfl⟩
  fails req here answer := ⟨here, rfl⟩
  writes _ _ _ _ _ _ _ _ _ _ := ⟨trivial, rfl⟩
  logs _ _ _ := ⟨fun _ => ⟨trivial, rfl⟩, fun _ _ => ⟨trivial, rfl⟩⟩

omit [Sha256] [Prost] in
private theorem drives_allows :
    Allows host runId (fun _ => True) (fun books => books.runPolicies = policies) (fun _ => True)
      (Drives host runId) :=
  works_allows.mono fun _ works => works.1

omit [Sha256] [Prost] in
private theorem Keeps.upholds {α : Type} {E : Exchange Query Answer → Prop} {x : HostAct host α}
    (keeps : ∀ policies, Keeps (fun books => books.runPolicies = policies) E x) :
    Upholds (fun told _ => ∀ e ∈ told, E e) x :=
  fun s told _ _ run => (keeps s.runPolicies s told _ _ rfl run).1

omit [Sha256] [Prost] in
private theorem productive_works {told : Told} (works : ∀ e ∈ told, Works host runId e) :
    productive told = 0 ∧ handed told = 0 := by
  constructor
  · refine List.countP_eq_zero.mpr fun e member => ?_
    rw [(works e member).2]
    decide
  · refine List.sum_eq_zero fun units member => ?_
    obtain ⟨e, listed, rfl⟩ := List.mem_map.mp member
    exact (works e listed).2

omit [Sha256] [Prost] in
/-- Up to how many units a wave executes at a time. -/
def waveWidth (policy : Option (Backed host)) : UInt32 :=
  max ((policy.map (·.1.effectiveConcurrency)).getD defaultConcurrency) 1

omit [Sha256] [Prost] in
/-- What a wave of a drain loop asks the kernel for. -/
def drainClaim (runId : String) (policy : Option (Backed host)) : ClaimRequest :=
  waveClaim host runId (policy.map (·.1)) (min (max ((policy.map (·.1.effectiveClaimBatch)).getD
    (waveWidth policy)) 1) (waveWidth policy))

omit [Prost] in
/-- What a wave does with the units that its claim has handed out. -/
def finishWave (runId : String) (policy : Option (Backed host)) (items : List WorkItem) :
    HostAct host Bool :=
  if waveWidth policy ≤ 1 ∨ items.length ≤ 1 then do
    items.forM (finishWorkUnit runId)
    return true
  else do
    finishWorkUnitsParallel runId items
    return true

omit [Prost] in
private theorem wave_eq : (driveClaimWave runId false : HostAct host Bool) = (do
    let policy ← policyOf runId
    let resp ← Substrate.Framework.Calls.claimReady (drainClaim runId policy)
    if resp.1.items = [] then return false else finishWave runId policy resp.1.items) := by
  unfold driveClaimWave policyOf
  simp only [bind_assoc, pure_bind]
  refine congrArg _ (funext fun books => ?_)
  cases books.runPolicies.lookup runId <;> rfl

omit [Prost] in
private theorem finishWave_works (policy : Option (Backed host)) (items : List WorkItem) :
    Upholds (fun told r => (∀ e ∈ told, Works host runId e) ∧ r ≠ .ok false)
      (finishWave runId policy items : HostAct host Bool) := by
  refine Upholds.and (Keeps.upholds fun policies => ?_) ?_
  · unfold finishWave
    split
    · exact (Keeps.forM fun _ _ => finishWorkUnit_keeps works_allows trivial).bind fun _ => .pure _
    · exact (finishWorkUnitsParallel_keeps works_allows (fun _ => trivial) _).bind fun _ => .pure _
  · unfold finishWave
    split <;> exact Upholds.last (fun _ => Upholds.pure nofun) nofun

omit [Prost] in
private theorem wave_claims :
    Upholds (fun told r => productive told ≤ 1 ∧ (r = .ok true → 0 < (handed told).card))
      (driveClaimWave runId false : HostAct host Bool) := by
  rw [wave_eq, policyOf, bind_assoc]
  refine Upholds.read fun books => ?_
  rw [pure_bind, Substrate.Framework.Calls.claimReady, bind_assoc]
  generalize books.runPolicies.lookup runId = policy
  refine Upholds.asked fun answer => ?_
  cases answer with
  | error e => exact Upholds.throw ⟨Nat.zero_le 1, nofun⟩
  | ok resp =>
      show Upholds _ (if resp.1.items = [] then pure false else finishWave runId policy resp.1.items)
      split
      · rename_i none
        refine Upholds.pure ⟨?_, nofun⟩
        exact List.countP_le_length
      · rename_i some
        refine (finishWave_works policy _).mono fun told r works => ?_
        obtain ⟨quiet, silent⟩ := productive_works works.1
        constructor
        · rw [productive, List.countP_cons]
          rw [productive] at quiet
          rw [quiet]
          split_ifs <;> decide
        · intro _
          have first : handed (⟨.claimReady (drainClaim runId policy) host.ctx, .ok resp⟩ :: told) =
              resp.1.items + handed told := rfl
          rw [first, silent, add_zero, Multiset.coe_card]
          exact List.length_pos_iff.mpr some

end Waves

/-- Whether a drain loop claims the nodes of a module: an allow-list that is empty admits all. -/
def MayClaim (policy : Option (Backed host)) (module : String) : Prop :=
  let allowed := (policy.bind (·.1.claimModules)).getD host.plugins
  allowed = [] ∨ module ∈ allowed

/-- Unless it has ended, the run has no READY unit that the host may claim. -/
def Drained (policy : Option (Backed host)) (runId : String) (s : State) : Prop :=
  ∀ slot, s.runs.lookup runId = some slot → slot.run.state = .running →
    ∀ node ∈ slot.run.assembly.nodes, MayClaim policy node.module →
      readyUnit s.modules slot node = none

omit [Sha256] [Prost] in
private theorem matches_drainClaim {policy : Option (Backed host)} {node : AssemblyNode}
    (may : MayClaim policy node.module) :
    nodeMatchesClaimFilter (drainClaim runId policy) node = true := by
  unfold drainClaim waveClaim
  generalize listed : ((policy.map (·.1)).bind (·.claimModules)).getD host.plugins = allowed
  have may : allowed = [] ∨ node.module ∈ allowed := by
    rw [← listed]
    cases policy <;> exact may
  refine Claiming.nodeMatches_iff.mpr ?_
  match allowed, may with
  | [], _ => exact ⟨.inl rfl, .inl rfl, .inl rfl⟩
  | [module], may =>
      have same : node.module = module := by simpa using may
      exact ⟨.inr same, .inl rfl, .inl rfl⟩
  | first :: second :: rest, may =>
      have among : node.module ∈ first :: second :: rest := by simpa using may
      exact ⟨.inl rfl, .inr among, .inl rfl⟩

omit [Sha256] [Prost] in
private theorem drainClaim_asks (policy : Option (Backed host)) :
    (drainClaim runId policy).runId = runId ∧ (drainClaim runId policy).maxItems ≠ 0 := by
  have one (c : UInt32) : max c 1 ≠ 0 := by
    rw [UInt32.max_def]
    split_ifs <;> grind
  have some (a b : UInt32) : min (max a 1) (max b 1) ≠ 0 := by
    rw [UInt32.min_def]
    split_ifs <;> exact one _
  unfold drainClaim waveClaim
  split <;> exact ⟨rfl, some _ _⟩

omit [Sha256] [Prost] in
private theorem capacity_free {slot : RunSlot} (free : ∀ id, id ∉ slot.claimed) :
    inFlightCapacity slot ≠ 0 := by
  have empty : size slot.claimed = 0 := by
    rw [size_eq_zero]
    exact fun id => AList.lookup_eq_none.mpr (free id)
  unfold inFlightCapacity
  split_ifs with unbounded
  · decide
  · rw [empty, Nat.sub_zero]
    exact fun zero => unbounded (UInt64.toNat_inj.mp zero)

private theorem claim_drains {policy : Option (Backed host)} {s : State} {slot : RunSlot}
    {env : Env} {ctx : RequestContext} {resp : Claimed (drainClaim runId policy)}
    (found : s.runs.lookup runId = some slot) (free : ∀ id, id ∉ slot.claimed)
    (accepted : (claimAnswer env (drainClaim runId policy) ctx s).2 = .ok resp)
    (none : resp.1.items = []) :
    Drained policy runId (claimAnswer env (drainClaim runId policy) ctx s).1 := by
  obtain ⟨here, asks⟩ := @drainClaim_asks host runId policy
  rcases claimAnswer_cases env (drainClaim runId policy) ctx s with ⟨⟨e, refused⟩, -⟩ |
    ⟨resp', accepted', claimed⟩
  · rw [accepted] at refused
    cases refused
  obtain rfl := Except.ok.inj (accepted.symm.trans accepted')
  generalize (claimAnswer env (drainClaim runId policy) ctx s).1 = after at claimed ⊢
  obtain ⟨other, running, -⟩ :=
    orReturn_ok (show claimReady env (drainClaim runId policy) s = (_, .ok resp.1) from claimed)
  obtain ⟨found', running⟩ := runningSlot_ok.mp running
  rw [here] at found'
  obtain rfl := Option.some.inj (found.symm.trans found')
  have started := found
  rw [← here] at started
  have ready : readyCandidates s.modules (reapSlot env slot) (drainClaim runId policy) = [] := by
    have items := Claiming.claimReady_reply env started running
    rw [claimed] at items
    have items := congrArg ClaimResponse.items (Except.ok.inj items)
    rw [none] at items
    have length := congrArg List.length items
    rw [claimUnits_length, List.length_take, List.length_nil, Claiming.wanted, if_neg asks] at length
    have room := @capacity_free (reapSlot env slot) fun id member =>
      free id (reapSlot_fewer member)
    have items : (drainClaim runId policy).maxItems.toNat ≠ 0 :=
      fun zero => asks (UInt32.toNat_inj.mp zero)
    exact List.length_eq_zero_iff.mp (by omega)
  obtain ⟨modules, cs, among, -, lookup⟩ := Stalling.claimReady_slot env started running
  rw [ready] at among
  obtain rfl := List.subset_nil.mp among
  rw [claimed] at modules lookup
  intro slot' found' running' node member may
  rw [here, found'] at lookup
  obtain rfl := Option.some.inj lookup
  split_ifs at running' member ⊢ with idle
  · cases running'
  · rw [modules]
    by_contra some
    obtain ⟨unit, unready⟩ := Option.ne_none_iff_exists'.mp some
    have candidate : (node, unit) ∈ readyCandidates s.modules (reapSlot env slot)
        (drainClaim runId policy) :=
      mem_readyCandidates.mpr ⟨member, matches_drainClaim may, unready⟩
    rw [ready] at candidate
    cases candidate

section Loop

variable {policies : KeyMap String (Backed host)}

/-- Between two waves: the policies of the host, a kernel that can be reached, and the run's slot. -/
structure At (store : ArtifactStorePolicy) (runId : String) (policies : KeyMap String (Backed host))
    (slot : RunSlot) (books : Books host) (w : World S) : Prop where
  policies : books.runPolicies = policies
  reached : Reachable store w.kernel
  found : w.kernel.runs.lookup runId = some slot

def Free (slot : RunSlot) : Prop := ∀ id, id ∉ slot.claimed

private theorem wave_drains :
    Meets (inProcess store clock outside) (At store runId policies start)
      (driveClaimWave runId false : HostAct host Bool) fun _ r _ v =>
        r = .ok false → Free start → Drained (policies.lookup runId) runId v.kernel := by
  rw [wave_eq, policyOf, bind_assoc]
  refine .read fun books => ?_
  rw [pure_bind, Substrate.Framework.Calls.claimReady, bind_assoc]
  refine .asked fun answer => ?_
  cases answer with
  | error e => exact .throw fun _ _ _ => nofun
  | ok resp =>
      show Meets _ _ (if resp.1.items = [] then pure false else finishWave runId _ resp.1.items) _
      split
      · rename_i none
        refine .pure ?_
        rintro b v ⟨w, ⟨rfl, at_⟩, answered⟩ - free
        rw [← at_.policies]
        obtain ⟨rfl, accepted⟩ := Prod.mk.inj answered
        exact claim_drains at_.found free accepted none
      · refine (Meets.of_upholds (finishWave_works _ _)).mono fun told r b v works ended => ?_
        exact absurd ended works.2

/-- What a wave leaves behind: whether or not it fails, a tally; when it has found work, all of that
work committed. -/
structure Waved (store : ArtifactStorePolicy) (runId : String)
    (policies : KeyMap String (Backed host)) (start : RunSlot) (told : Told)
    (r : Except FrameworkError Bool) (books : Books host) (w : World S) : Prop where
  same : books.runPolicies = policies
  tracked : Tracked store runId start told w.kernel
  once : productive told ≤ 1
  worked : r = .ok true → 0 < commits told ∧ (handed told).map (·.id) = released told
  idle : r = .ok false → Free start → Drained (policies.lookup runId) runId w.kernel

omit [Sha256] [Prost] in
private theorem commits_released {told : Told} (calm : NoFailure told) :
    (released told).card = commits told := by
  induction told with
  | nil => rfl
  | cons e told ih =>
      obtain ⟨first, rest⟩ := List.forall_mem_cons.mp calm
      have split : released (e :: told) = releasedBy e + released told := rfl
      rw [split, Multiset.card_add, ih rest, commits, commits, List.countP_cons, Nat.add_comm]
      congr 1
      obtain ⟨q, answer⟩ := e
      cases q <;> first | rfl | (cases answer <;> rfl) | cases first

private theorem wave_meets (bare : host.ctx.requestKey = "") :
    Meets (inProcess store clock outside) (At store runId policies start)
      (driveClaimWave runId false : HostAct host Bool)
      (Waved store runId policies start) := by
  have keeps : Meets (inProcess store clock outside)
      (fun (books : Books host) w => books.runPolicies = policies ∧
        Tracked store runId start [] w.kernel) (driveClaimWave runId false : HostAct host Bool)
      fun told _ books w => books.runPolicies = policies ∧ Tracked store runId start told w.kernel :=
    Meets.of_keeps (T := fun told w => Tracked store runId start told w.kernel)
      (driveClaimWave_keeps drives_allows (fun _ => trivial) (waves_claim fun _ here _ => here) false)
      fun told q w drives tracked => tracked_step bare drives tracked
  have keeps := keeps.pre (T := At store runId policies start) fun books w at_ =>
    ⟨at_.policies, at_.reached, start, at_.found, .refl start⟩
  refine ((keeps.and (.of_upholds wave_claims)).and ((Meets.of_upholds
    (driveClaimWave_finishes runId false)).and wave_drains)).mono ?_
  rintro told r books w ⟨⟨⟨same, tracked⟩, once, found⟩, outcome, idle⟩
  refine ⟨same, tracked, once, fun worked => ?_, idle⟩
  subst worked
  obtain ⟨all, calm⟩ := outcome.done rfl
  have within := outcome.within
  rw [zero_add] at all within
  refine ⟨?_, (Multiset.eq_of_le_of_card_le within ?_).symm⟩
  · rw [← commits_released calm, all]
    exact found rfl
  · rw [Multiset.card_map, all]

/-- How many steps a RUNNING run has left. -/
def stepsLeft (slot : RunSlot) : Nat :=
  if slot.run.state = .running then slot.run.maxSteps.toNat - slot.run.steps.toNat else 0

/-- What a drain loop of up to `fuel` waves leaves behind. -/
structure Looped (store : ArtifactStorePolicy) (runId : String)
    (policies : KeyMap String (Backed host)) (fuel : Nat) (start : RunSlot) (told : Told)
    (r : Except FrameworkError (Option Run)) (w : World S) : Prop where
  within : productive told ≤ stepsLeft start
  ends : stepsLeft start < fuel → r ≠ .ok none
  drained : Free start → ∀ run, r = .ok (some run) → Drained (policies.lookup runId) runId w.kernel

omit [Sha256] [Prost] in
private theorem productive_append (first second : Told) :
    productive (first ++ second) = productive first + productive second :=
  List.countP_append

omit [Sha256] [Prost] in
private theorem Tallies.free {slot : RunSlot} {told : Told} (tallies : Tallies start told slot)
    (all : (handed told).map (·.id) = released told) (free : Free start) : Free slot := by
  intro id member
  have held := tallies.held id
  rw [all, holds, holds, if_pos member, if_neg (free id)] at held
  omega

omit [Sha256] [Prost] in
private theorem Tallies.stepsLeft {slot : RunSlot} {told : Told} (tallies : Tallies start told slot)
    (running : start.run.state = .running) (spare : Spare start) (spare' : Spare slot)
    (some : 0 < commits told) : stepsLeft slot < stepsLeft start := by
  have before := UInt64.lt_iff_toNat_lt.mp (spare running)
  have counted := tallies.steps
  rw [Draining.stepsLeft, Draining.stepsLeft, if_pos running]
  split_ifs with still
  · have after := UInt64.lt_iff_toNat_lt.mp (spare' still)
    rw [tallies.limit] at after ⊢
    omega
  · omega

private theorem getRun_idle {books : Books host} {s : State} :
    Meets (inProcess store clock outside) (fun b w => b = books ∧ w.kernel = s)
      (getRun runId : HostAct host Run) fun told r b w =>
        productive told = 0 ∧ b = books ∧ w.kernel = s ∧
          ∀ run, r = .ok run → ∃ slot, s.runs.lookup runId = some slot ∧ run = slot.run :=
  Starting.getRun_reads.mono fun told r b w => by
    rintro ⟨⟨answer, rfl⟩, rest⟩
    exact ⟨rfl, rest⟩

omit [Prost] in
private theorem drained_closed {policy : Option (Backed host)} {s : State}
    (found : s.runs.lookup runId = some start) (closed : start.run.state ≠ .running) :
    Drained policy runId s := by
  intro slot found' running
  obtain rfl := Option.some.inj (found.symm.trans found')
  exact absurd running closed

private theorem rest_meets (bare : host.ctx.requestKey = "") {fuel : Nat}
    (running : start.run.state = .running) (spare : Spare start)
    (ih : ∀ start, Meets (inProcess store clock outside) (At store runId policies start)
      (driveUntilIdle runId fuel : HostAct host (Option Run)) fun told r _ w =>
        Looped store runId policies fuel start told r w) :
    Meets (inProcess store clock outside) (At store runId policies start)
      (do
        if ← driveClaimWave runId false then driveUntilIdle runId fuel
        else return some (← getRun runId) : HostAct host (Option Run)) fun told r _ w =>
        Looped store runId policies (fuel + 1) start told r w := by
  have some : 0 < stepsLeft start := by
    rw [stepsLeft, if_pos running]
    exact Nat.sub_pos_of_lt (UInt64.lt_iff_toNat_lt.mp (spare running))
  refine Meets.bind (wave_meets bare) (fun found told => ?_) fun e told books w waved =>
    ⟨waved.once.trans some, fun _ => nofun, fun _ _ => nofun⟩
  intro books w waved
  obtain ⟨slot, lookup, tallies⟩ := waved.tracked.slot
  cases found with
  | true =>
      obtain ⟨committed, all⟩ := waved.worked rfl
      have fewer := tallies.stepsLeft running spare (reachable_spare waved.tracked.reached lookup)
        committed
      obtain ⟨within, ends, drained⟩ := ih slot books w ⟨waved.same, waved.tracked.reached, lookup⟩
      refine ⟨?_, fun enough => ends (by omega), fun free => drained (tallies.free all free)⟩
      rw [productive_append]
      exact (Nat.add_le_add waved.once within).trans (by omega)
  | false =>
      have within : productive told ≤ stepsLeft start := waved.once.trans some
      refine Meets.bind (T := fun rest r _ v =>
          Looped store runId policies (fuel + 1) start (told ++ rest) r v)
        (getRun_idle (s := w.kernel)) (fun run more => .pure ?_) ?_ books w ⟨rfl, rfl⟩
      · rintro b v ⟨quiet, -, same, -⟩
        refine ⟨?_, fun _ => nofun, fun free _ _ => ?_⟩
        · rwa [List.append_nil, productive_append, quiet]
        · rw [same]
          exact waved.idle rfl free
      · rintro e more b v ⟨quiet, -⟩
        exact ⟨by rwa [productive_append, quiet], fun _ => nofun, fun _ _ => nofun⟩

private theorem loop_meets (bare : host.ctx.requestKey = "") (fuel : Nat) :
    ∀ start, Meets (inProcess store clock outside) (At store runId policies start)
      (driveUntilIdle runId fuel : HostAct host (Option Run)) fun told r _ w =>
        Looped store runId policies fuel start told r w := by
  induction fuel with
  | zero =>
      exact fun start => .pure fun _ _ _ =>
        ⟨Nat.zero_le _, fun less => absurd less (Nat.not_lt_zero _), nofun⟩
  | succ fuel ih =>
      intro start books w at_
      have spare := reachable_spare at_.reached at_.found
      refine Meets.bind (T := fun told r _ w => Looped store runId policies (fuel + 1) start told r w)
        (getRun_idle (s := w.kernel)) (fun run told => ?_) ?_ books w ⟨rfl, rfl⟩
      · rintro books' v ⟨quiet, rfl, same, given⟩
        obtain ⟨slot, found, rfl⟩ := given run rfl
        obtain rfl := Option.some.inj (found.symm.trans at_.found)
        split
        · rename_i closed
          refine ⟨?_, fun _ => nofun, fun _ _ _ => ?_⟩
          · show productive (told ++ []) ≤ _
            rw [List.append_nil, quiet]
            exact Nat.zero_le _
          · refine drained_closed ?_ closed
            rwa [← same] at found
        · rename_i running
          have running := not_not.mp running
          obtain ⟨within, ends, drained⟩ := rest_meets bare running spare ih books' v
            ⟨at_.policies, same ▸ at_.reached, same ▸ found⟩
          exact ⟨by rwa [productive_append, quiet, zero_add], ends, drained⟩
      · rintro e told books' v ⟨quiet, -⟩
        exact ⟨by rw [quiet]; exact Nat.zero_le _, fun _ => nofun, fun _ _ => nofun⟩

/-- Without a request key the drain loop of a RUNNING run makes no more waves with work than the run
has steps left, comes to its end after them, and when it succeeds after nothing was in flight leaves no
unit READY that the host may claim. -/
theorem untilIdle_drains (store : ArtifactStorePolicy) (clock : Nat → Env)
    (outside : Environment S Query Answer) (bare : host.ctx.requestKey = "") {w : World S}
    (reached : Reachable store w.kernel) {runId : String} {slot : RunSlot}
    (found : w.kernel.runs.lookup runId = some slot) (running : slot.run.state = .running)
    (books : Books host) (fuel : Nat) :
    let env := inProcess store clock outside
    let call := Act.start (driveUntilIdle runId fuel) books
    productive (transcript env call w) ≤ slot.run.maxSteps.toNat - slot.run.steps.toNat ∧
      (slot.run.maxSteps.toNat - slot.run.steps.toNat < fuel → (exec env call w).2.1 ≠ .ok none) ∧
      ((∀ id, id ∉ slot.claimed) → ∀ run, (exec env call w).2.1 = .ok (some run) →
        Drained (books.runPolicies.lookup runId) runId (exec env call w).1.kernel) := by
  have looped := @loop_meets _ _ _ _ store clock outside _ _ bare fuel slot books w
    ⟨rfl, reached, found⟩
  have left : stepsLeft slot = slot.run.maxSteps.toNat - slot.run.steps.toNat := if_pos running
  rw [← left]
  exact ⟨looped.within, looped.ends, looped.drained⟩

end Loop

end General

section Echo

open Substrate.Kernel.Concrete

/-- A kernel with an OPEN run of one node. -/
def openKernel : State := Substrate.Kernel.Api.exec policy {} (opening .once .open)

def worldOf (kernel : State) : World Unit := ⟨kernel, 0, ()⟩

def sayingClock : Nat → Env := fun _ => envAt 0

/-- A plugin that says one line. -/
def saying : Environment Unit Query Answer :=
  plainPlugins fun _ =>
    .ok ⟨[{ port := "said", traits := .singleton "text" (asBytes "one") }]⟩

def drainOpen : Prog Query Answer (Except FrameworkError (Option Run) × Books echoHost) :=
  Act.start (driveUntilIdle "r" 10) {}

/-- Whether a drain of the run ends, with the run as it is then. -/
def drains (w : World Unit) : Bool :=
  match (exec (inProcess policy sayingClock saying) drainOpen w).2.1 with
  | .ok (some run) => run.state == .running && run.steps == 1
  | _ => false

private theorem open_slot :
    (openKernel.runs.lookup "r").map (fun slot => (slot.run.state, size slot.claimed,
      slot.run.maxSteps.toNat - slot.run.steps.toNat)) = some (.running, 0, 9) := by
  decide +kernel

private theorem open_drains : drains (worldOf openKernel) = true := by
  decide +kernel

private theorem open_reached : Reachable policy openKernel :=
  ⟨opening .once .open, rfl⟩

private theorem drains_returns {w : World Unit} (ended : drains w = true) :
    ∃ run, (exec (inProcess policy sayingClock saying) drainOpen w).2.1 = .ok (some run) := by
  unfold drains at ended
  split at ended
  · exact ⟨_, by assumption⟩
  · cases ended

/-- What a drain of the run comes to. -/
def DrainedWithin (steps : Nat) (w : World Unit) : Prop :=
  productive (transcript (inProcess policy sayingClock saying) drainOpen w) ≤ steps ∧
    Drained (none : Option (Backed echoHost)) "r"
      (exec (inProcess policy sayingClock saying) drainOpen w).1.kernel

/-- The one unit is executed, and nothing is READY any more in the run, which goes on. -/
theorem untilIdle_drains_open : DrainedWithin 9 (worldOf openKernel) := by
  have settled (kernel : State) (reached : Reachable policy kernel)
      (read : (kernel.runs.lookup "r").map (fun slot => (slot.run.state, size slot.claimed,
        slot.run.maxSteps.toNat - slot.run.steps.toNat)) = some (.running, 0, 9))
      (ended : drains (worldOf kernel) = true) : DrainedWithin 9 (worldOf kernel) := by
    obtain ⟨slot, found, same⟩ := Option.map_eq_some_iff.mp read
    obtain ⟨running, rest⟩ := Prod.mk.inj same
    obtain ⟨empty, nine⟩ := Prod.mk.inj rest
    obtain ⟨run, returned⟩ := drains_returns ended
    have free : ∀ id, id ∉ slot.claimed := fun id =>
      AList.lookup_eq_none.mp (size_eq_zero.mp empty id)
    obtain ⟨within, -, drained⟩ := untilIdle_drains policy sayingClock saying rfl
      (w := worldOf kernel) reached found running ({} : Books echoHost) 10
    exact ⟨nine ▸ within, drained free run returned⟩
  exact settled openKernel open_reached open_slot open_drains

end Echo

end Substrate.Protocol.Draining
