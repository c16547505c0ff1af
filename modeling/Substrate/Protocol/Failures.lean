/- ID: Substrate/Protocol/Failures
   digest: A call that fails leaves the kernel as it found it, or with the expired leases of its run reaped. -/

import Substrate.Kernel.Concrete

set_option autoImplicit false
set_option relaxedAutoImplicit false

namespace Substrate.Protocol.Failures

open Substrate.Kernel.Wire
open Substrate.Kernel.Hashing
open Substrate.Kernel.Memory
open Substrate.Kernel.Registry
open Substrate.Kernel.Store
open Substrate.Kernel.Runs
open Substrate.Kernel.Work
open Substrate.Kernel.Api

/-- When the result is a failure, the state beside it is `after`. -/
def FailsAt {α : Type} (after : State) (result : State × Except KernelError α) : Prop :=
  ∀ e, result.2 = .error e → result.1 = after

section Rules

variable {α β : Type} {state after : State}

theorem failsAt_ok (a : α) : FailsAt after (state, .ok a) := fun _ failed => nomatch failed

theorem failsAt_error (e : KernelError) : FailsAt (α := α) state (state, .error e) :=
  fun _ _ => rfl

theorem failsAt_orReturn {checked : Except KernelError α}
    {next : α → State × Except KernelError β} (refused : ∀ e, checked = .error e → state = after)
    (passed : ∀ a, checked = .ok a → FailsAt after (next a)) :
    FailsAt after (orReturn checked state next) := by
  cases checked with
  | ok a => exact passed a rfl
  | error e => exact fun _ _ => refused e rfl

theorem failsAt_check {checked : Except KernelError α} {next : α → State × Except KernelError β}
    (passed : ∀ a, checked = .ok a → FailsAt state (next a)) :
    FailsAt state (orReturn checked state next) :=
  failsAt_orReturn (fun _ _ => rfl) passed

theorem failsAt_ite {p : Prop} [Decidable p] {yes no : State × Except KernelError α}
    (then' : p → FailsAt after yes) (else' : ¬ p → FailsAt after no) :
    FailsAt after (if p then yes else no) := by
  split_ifs with h
  · exact then' h
  · exact else' h

theorem failsAt_reply {wrap : α → Reply} {result : State × Except KernelError α}
    (wraps : ∀ a e, wrap a ≠ .error e) (fails : FailsAt after result) {e : KernelError}
    (failed : (reply wrap result).2 = .error e) : (reply wrap result).1 = after := by
  obtain ⟨left, a | a⟩ := result
  · exact fails a rfl
  · exact absurd failed (wraps a e)

end Rules

section Calls

variable [Sha256]

theorem transitionReq_failsAt (env : Env) (req : TransitionRequest) (ctx : RequestContext)
    (state : State) : FailsAt state (transitionReq env req ctx state) := by
  refine failsAt_check fun _ _ => ?_
  cases state.modules.find? (·.manifest.name == req.module) with
  | none => exact failsAt_error _
  | some slot => exact failsAt_ite (fun _ => failsAt_ok _) fun _ => failsAt_ok _

variable [Prost]

theorem putArtifactCtx_failsAt (policy : ArtifactStorePolicy) (env : Env) (artifact : Artifact)
    (ctx : RequestContext) (state : State) :
    FailsAt state (putArtifactCtx policy env artifact ctx state) := by
  refine failsAt_check fun _ _ => failsAt_check fun _ _ => ?_
  split
  · exact failsAt_ok _
  · exact failsAt_check fun _ _ => failsAt_ok _

theorem putBlob_failsAt (policy : ArtifactStorePolicy) (req : PutBlobRequest) (state : State) :
    FailsAt state (putBlob policy req state) := by
  refine failsAt_check fun _ _ => failsAt_ite (fun _ => failsAt_error _) fun _ => ?_
  exact failsAt_ite (fun _ => failsAt_ok _) fun _ => failsAt_ok _

theorem putContract_failsAt (contract : Contract) (state : State) :
    FailsAt state (putContract contract state) := by
  refine failsAt_ite (fun _ => failsAt_error _) fun _ => ?_
  refine failsAt_ite (fun _ => failsAt_error _) fun _ => ?_
  cases state.contracts.lookup contract.ref with
  | none => exact failsAt_ok _
  | some existing =>
      refine failsAt_ite (fun _ => failsAt_ok _) fun _ => ?_
      exact failsAt_ite (fun _ => failsAt_ok _) fun _ => failsAt_error _

theorem startRunCtx_failsAt (env : Env) (req : RunRequest) (ctx : RequestContext) (state : State) :
    FailsAt state (startRunCtx env req ctx state) := by
  refine failsAt_check fun _ _ => ?_
  split
  · exact failsAt_ok _
  · refine failsAt_ite (fun _ => failsAt_error _) fun _ => ?_
    refine failsAt_ite (fun _ => failsAt_error _) fun _ => ?_
    cases req.assembly with
    | none => exact failsAt_error _
    | some assembly =>
        refine failsAt_check fun _ _ => failsAt_check fun _ _ => ?_
        exact failsAt_ite (fun _ => failsAt_error _) fun _ => failsAt_ok _

theorem injectInputCtx_failsAt (env : Env) (req : InjectInputRequest) (ctx : RequestContext)
    (state : State) : FailsAt state (injectInputCtx env req ctx state) := by
  refine failsAt_check fun _ _ => ?_
  cases req.input with
  | none => exact failsAt_error _
  | some input =>
      refine failsAt_ite (fun _ => failsAt_error _) fun _ => ?_
      cases input.artifact with
      | none => exact failsAt_error _
      | some r =>
          refine failsAt_ite (fun _ => failsAt_error _) fun _ => failsAt_check fun _ _ => ?_
          exact failsAt_ite (fun _ => failsAt_ok _) fun _ => failsAt_error _

theorem claimReady_failsAt (env : Env) (req : ClaimRequest) (state : State) :
    FailsAt state (claimReady env req state) :=
  failsAt_check fun _ _ => failsAt_ite (fun _ => failsAt_ok _) fun _ => failsAt_ok _

theorem heartbeat_failsAt (env : Env) (req : HeartbeatRequest) (state : State) :
    FailsAt state (heartbeat env req state) :=
  failsAt_check fun _ _ => failsAt_ok _

theorem cancelRun_failsAt (ref : RunRef) (state : State) : FailsAt state (cancelRun ref state) :=
  failsAt_check fun _ _ => failsAt_ok _

/-- A RUNNING run with its expired leases reaped; any other state of the run changes nothing. -/
def reapedRun (env : Env) (runId : String) (state : State) : State :=
  match runningSlot state runId with
  | .ok slot => reapExpiredLocked env runId slot state
  | .error _ => state

theorem reapedRun_ok {env : Env} {runId : String} {state : State} {slot : RunSlot}
    (running : runningSlot state runId = .ok slot) :
    reapedRun env runId state = reapExpiredLocked env runId slot state := by
  rw [reapedRun, running]

theorem reapedRun_error {env : Env} {runId : String} {state : State} {e : KernelError}
    (closed : runningSlot state runId = .error e) : reapedRun env runId state = state := by
  rw [reapedRun, closed]

theorem failWork_failsAt (env : Env) (req : FailWorkRequest) (state : State) :
    FailsAt (reapedRun env req.runId state) (failWork env req state) := by
  refine failsAt_orReturn (fun _ closed => (reapedRun_error closed).symm) fun slot running => ?_
  rw [reapedRun_ok running]
  dsimp only
  cases (reapSlot env slot).claimed.lookup req.workId with
  | none => exact failsAt_error _
  | some c => exact failsAt_ite (fun _ => failsAt_ok _) fun _ => failsAt_ok _

theorem commitCtx_failsAt {env : Env} {submitted : Derivation} {ctx : RequestContext}
    {state : State} (inTime : checkDeadline env ctx = .ok ()) :
    FailsAt (reapedRun env submitted.runId state) (commitCtx env submitted ctx state) := by
  rw [commitCtx, inTime]
  dsimp only [orReturn]
  split
  · exact failsAt_ok _
  · refine failsAt_orReturn (fun _ closed => (reapedRun_error closed).symm) fun slot running => ?_
    rw [reapedRun_ok running]
    cases (reapSlot env slot).claimed.lookup submitted.workId with
    | none => exact failsAt_error _
    | some c =>
        refine failsAt_ite (fun _ => failsAt_error _) fun _ => ?_
        refine failsAt_ite (fun _ => failsAt_error _) fun _ => ?_
        exact failsAt_check fun _ _ => failsAt_check fun _ _ => failsAt_ok _

/-- What a failed call leaves: a report of work that came in time has reaped its run. -/
def afterFailure (state : State) (call : Call) : State :=
  match checkDeadline call.env call.ctx with
  | .error _ => state
  | .ok _ =>
      match call.op with
      | .failWork req => reapedRun call.env req.runId state
      | .commit submitted => reapedRun call.env submitted.runId state
      | _ => state

private theorem afterFailure_other {state : State} {call : Call}
    (noFailure : ∀ req, call.op ≠ .failWork req) (noCommit : ∀ d, call.op ≠ .commit d) :
    afterFailure state call = state := by
  unfold afterFailure
  split
  · rfl
  · split
    · exact absurd ‹_› (noFailure _)
    · exact absurd ‹_› (noCommit _)
    · rfl

private theorem afterFailure_late {state : State} {op : Op} {ctx : RequestContext} {env : Env}
    {e : KernelError} (late : checkDeadline env ctx = .error e) :
    afterFailure state ⟨op, ctx, env⟩ = state := by
  rw [afterFailure, late]

private theorem other_keeps (policy : ArtifactStorePolicy) {state : State} {op : Op}
    {ctx : RequestContext} {env : Env} {e : KernelError} (noFailure : ∀ req, op ≠ .failWork req)
    (noCommit : ∀ d, op ≠ .commit d) (failed : (step policy state ⟨op, ctx, env⟩).2 = .error e) :
    (step policy state ⟨op, ctx, env⟩).1 = state := by
  cases op with
  | failWork req => exact absurd rfl (noFailure req)
  | commit submitted => exact absurd rfl (noCommit submitted)
  | register manifest => cases failed
  | hasBlob req => rfl
  | publish event => cases failed
  | append req => cases failed
  | snapshot => rfl
  | transition req =>
      exact failsAt_reply (by simp) (transitionReq_failsAt env req ctx state) failed
  | putArtifact artifact =>
      exact failsAt_reply (by simp) (putArtifactCtx_failsAt policy env artifact ctx state) failed
  | getArtifact ref => exact failsAt_reply (by simp) (failsAt_check fun _ _ _ _ => rfl) failed
  | putBlob req => exact failsAt_reply (by simp) (putBlob_failsAt policy req state) failed
  | getBlob req => exact failsAt_reply (by simp) (failsAt_check fun _ _ _ _ => rfl) failed
  | putContract contract =>
      exact failsAt_reply (by simp) (failsAt_check fun _ _ => putContract_failsAt contract state)
        failed
  | startRun req => exact failsAt_reply (by simp) (startRunCtx_failsAt env req ctx state) failed
  | injectInput req => exact failsAt_reply (by simp) (injectInputCtx_failsAt env req ctx state) failed
  | claimReady req =>
      exact failsAt_reply (by simp) (failsAt_check fun _ _ => claimReady_failsAt env req state) failed
  | heartbeat req =>
      exact failsAt_reply (by simp) (failsAt_check fun _ _ => heartbeat_failsAt env req state) failed
  | getRun ref => exact failsAt_reply (by simp) (failsAt_check fun _ _ _ _ => rfl) failed
  | cancelRun ref =>
      exact failsAt_reply (by simp) (failsAt_check fun _ _ => cancelRun_failsAt ref state) failed
  | listDerivations ref => exact failsAt_reply (by simp) (failsAt_check fun _ _ _ _ => rfl) failed

/-- Every call that fails leaves the whole state as it was; a failure or a commit of work that was
not too late for its own deadline leaves its RUNNING run reaped, and nothing more. -/
theorem failed_call_keeps (policy : ArtifactStorePolicy) {state : State} {call : Call}
    {e : KernelError} (failed : (step policy state call).2 = .error e) :
    (step policy state call).1 = afterFailure state call := by
  obtain ⟨op, ctx, env⟩ := call
  by_cases failure : ∃ req, op = .failWork req
  · obtain ⟨req, rfl⟩ := failure
    have fails : FailsAt (afterFailure state ⟨.failWork req, ctx, env⟩)
        (orReturn (checkDeadline env ctx) state fun _ => failWork env req state) := by
      refine failsAt_orReturn (fun _ late => (afterFailure_late late).symm) fun _ inTime => ?_
      rw [afterFailure, inTime]
      exact failWork_failsAt env req state
    exact failsAt_reply (by simp) fails failed
  by_cases commit : ∃ d, op = .commit d
  · obtain ⟨submitted, rfl⟩ := commit
    have fails : FailsAt (afterFailure state ⟨.commit submitted, ctx, env⟩)
        (commitCtx env submitted ctx state) := by
      cases inTime : checkDeadline env ctx with
      | ok u =>
          rw [afterFailure, inTime]
          exact commitCtx_failsAt inTime
      | error late =>
          rw [afterFailure_late inTime, commitCtx, inTime]
          exact failsAt_error late
    exact failsAt_reply (by simp) fails failed
  push Not at failure commit
  rw [afterFailure_other failure commit]
  exact other_keeps policy failure commit failed

end Calls

section Late

open Substrate.Kernel.Concrete

/-- A worker claims the unit and goes silent until its lease has run out. -/
def silent : List Call := opening .once .unspecified ++ [claimAt 0]

/-- What it reports then, on a call that had to be in by the first millisecond. -/
def lateCommit : Call :=
  { commitAt 60001 "work:r/n" (text "one") with ctx := { deadlineUnixMs := 1 } }

theorem lateCommit_fails (s : State) :
    (step policy s lateCommit).2 = .error (.failedPrecondition "deadline exceeded") := rfl

/-- The commit fails on a RUNNING run and the lease that has run out is not reaped. -/
theorem late_commit_reaps_nothing :
    Reachable policy (exec policy {} silent) ∧
      ∃ slot, (exec policy {} silent).runs.lookup "r" = some slot ∧ slot.run.state = .running ∧
        (step policy (exec policy {} silent) lateCommit).2 =
          .error (.failedPrecondition "deadline exceeded") ∧
        (step policy (exec policy {} silent) lateCommit).1 ≠
          reapExpiredLocked lateCommit.env "r" slot (exec policy {} silent) := by
  have running : ((exec policy {} silent).runs.lookup "r").map (·.run.state) = some .running := by
    decide +kernel
  obtain ⟨slot, found, state⟩ := Option.map_eq_some_iff.mp running
  have kept : (step policy (exec policy {} silent) lateCommit).1.ledger.length = 4 := by
    decide +kernel
  have reaped : (reapedRun lateCommit.env "r" (exec policy {} silent)).ledger.length = 5 := by
    decide +kernel
  have open' : runningSlot (exec policy {} silent) "r" = .ok slot := by
    simp only [runningSlot, found, state, if_true]
  refine ⟨⟨silent, rfl⟩, slot, found, state, lateCommit_fails _, fun same => ?_⟩
  rw [← reapedRun_ok open'] at same
  rw [same, reaped] at kept
  cases kept

private theorem afterFailure_commitAt (s : State) (workId : String) (line : Artifact) :
    afterFailure s (commitAt 60001 workId line) = reapedRun (envAt 60001) "r" s := rfl

/-- The same report without a deadline fails too, and it reaps. -/
theorem failed_commit_reaps :
    (step policy (exec policy {} silent) (commitAt 60001 "work:r/n" (text "one"))).1 =
      reapedRun (envAt 60001) "r" (exec policy {} silent) := by
  have failed : (match (step policy (exec policy {} silent)
      (commitAt 60001 "work:r/n" (text "one"))).2 with
    | .error e => some e
    | _ => none) = some (.conflict "work was not claimed") := by decide +kernel
  revert failed
  generalize exec policy {} silent = s
  intro failed
  split at failed
  case h_1 e result => exact (failed_call_keeps policy result).trans (afterFailure_commitAt _ _ _)
  case h_2 => cases failed

end Late

end Substrate.Protocol.Failures
