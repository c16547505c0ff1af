/- ID: Substrate/Protocol/Stalling
   digest: A call stalls a run exactly when nothing of it is READY or in flight any more. -/

import Substrate.Kernel.Concrete
import Substrate.Protocol.Refine

set_option autoImplicit false
set_option relaxedAutoImplicit false

namespace Substrate.Protocol.Stalling

open Substrate.Kernel.Wire
open Substrate.Kernel.Hashing
open Substrate.Kernel.Memory
open Substrate.Kernel.Registry
open Substrate.Kernel.Schedule
open Substrate.Kernel.Runs
open Substrate.Kernel.Work
open Substrate.Kernel.Api
open Substrate.Protocol.Atoms
open Substrate.Protocol.Slots
open Substrate.Protocol.Delivery
open Substrate.Protocol.Serial
open Substrate.Protocol.Refine
open Substrate.Library.FiniteMap
open Substrate.Library.Transition

section Idle

variable [Sha256]

/-- A slot that can do no more on its own: not OPEN, nothing in flight, no unit READY. -/
structure Idle (modules : List ModuleSlot) (slot : RunSlot) : Prop where
  closure : isOpenClosure slot = false
  claimed : ∀ id, id ∉ slot.claimed
  ready : ∀ node ∈ slot.run.assembly.nodes, readyUnit modules slot node = none

theorem isIdle_iff {modules : List ModuleSlot} {slot : RunSlot} :
    isIdle modules slot = true ↔ Idle modules slot := by
  have ready : assemblyAnyReady modules slot = false ↔
      ∀ node ∈ slot.run.assembly.nodes, readyUnit modules slot node = none := by
    simp [assemblyAnyReady]
  have empty : size slot.claimed = 0 ↔ ∀ id, id ∉ slot.claimed := by
    simp only [size_eq_zero, AList.lookup_eq_none]
  simp only [isIdle, Bool.and_eq_true, Bool.not_eq_true', beq_iff_eq, ready, empty]
  constructor
  · rintro ⟨⟨closure, claimed⟩, ready⟩
    exact ⟨closure, claimed, ready⟩
  · rintro ⟨closure, claimed, ready⟩
    exact ⟨⟨closure, claimed⟩, ready⟩

theorem not_idle {modules : List ModuleSlot} {slot : RunSlot}
    (closure : isOpenClosure slot = false) (busy : ¬ Idle modules slot) :
    (∃ node ∈ slot.run.assembly.nodes, (readyUnit modules slot node).isSome) ∨
      ∃ id, id ∈ slot.claimed := by
  by_contra quiet
  push Not at quiet
  refine busy ⟨closure, quiet.2, ?_⟩
  intro node member
  exact Option.not_isSome_iff_eq_none.mp (quiet.1 node member)

theorem Idle.stall {modules : List ModuleSlot} {slot : RunSlot} (idle : Idle modules slot) :
    Idle modules (stallSlot slot) :=
  ⟨idle.closure, idle.claimed, idle.ready⟩

theorem Idle.capacity {modules : List ModuleSlot} {slot : RunSlot} (idle : Idle modules slot) :
    inFlightCapacity slot ≠ 0 := by
  have empty : size slot.claimed = 0 := by
    rw [size_eq_zero]
    exact fun id => AList.lookup_eq_none.mpr (idle.claimed id)
  unfold inFlightCapacity
  split_ifs with unbounded
  · decide
  · rw [empty, Nat.sub_zero]
    exact fun zero => unbounded (UInt64.toNat_inj.mp zero)

omit [Sha256] in
private theorem advanceRun_live {slot : RunSlot} (d : Derivation)
    (running : slot.run.state = .running) : (advanceRun slot d).state ≠ .stalled := by
  unfold advanceRun
  simp only
  split_ifs <;> simp [running]

theorem idle_apply {modules : List ModuleSlot} {artifacts : KeyMap String Artifact} {runId : String}
    {slot : RunSlot} {a : SlotAct} (running : slot.run.state = .running)
    (guard : a.enabled modules artifacts runId slot)
    (stalled : (a.apply modules slot).run.state = .stalled) : Idle modules (a.apply modules slot) := by
  have never : ∀ after : RunSlot, after.run = slot.run → after.run.state ≠ .stalled := by
    intro after same
    rw [same, running]
    decide
  cases a with
  | stall => exact (isIdle_iff.mp guard).stall
  | commit c outputs =>
      simp only [SlotAct.apply, settleSlot] at stalled ⊢
      split_ifs at stalled ⊢ with idle
      · exact (isIdle_iff.mp idle.2).stall
      · exact absurd stalled (advanceRun_live _ running)
  | cancel => cases stalled
  | inject input => exact absurd stalled (by simp [SlotAct.apply, injectSlot, running])
  | claim work => exact absurd stalled (never _ rfl)
  | renew id leaseUntil => exact absurd stalled (never _ (renewClaim_run _ _ _))
  | expire id c => exact absurd stalled (never _ rfl)
  | fail id c reason terminal => exact absurd stalled (never _ rfl)

end Idle

private theorem expireClaim_comm (slot : RunSlot) (e e' : String × ClaimedSlot) :
    expireClaim (expireClaim slot e) e' = expireClaim (expireClaim slot e') e := by
  have claimed : (slot.claimed.erase e.1).erase e'.1 = (slot.claimed.erase e'.1).erase e.1 :=
    AList.erase_erase e.1 e'.1 slot.claimed
  have done := Finset.insert_comm e.2.unitKey e'.2.unitKey slot.doneUnits
  by_cases spent : slot.maxAttempts ≤ e.2.attempt <;>
    by_cases spent' : slot.maxAttempts ≤ e'.2.attempt <;>
    simp [expireClaim, spent, spent', claimed, done]

theorem reapSlot_clock {env env' : Env} (clock : env.now = env'.now) (slot : RunSlot) :
    reapSlot env slot = reapSlot env' slot := by
  have perm : (expiredClaims env slot).Perm (expiredClaims env' slot) := by
    unfold expiredClaims
    rw [clock]
    exact ((env.iter_perm _).trans (env'.iter_perm _).symm).filterMap _
  have comm : RightCommutative expireClaim := ⟨expireClaim_comm⟩
  exact perm.foldl_eq slot

section Calls

variable [Sha256] [Prost]

/-- A run the kernel holds as STALLED. -/
def Stalled (s : State) (runId : String) : Prop :=
  ∃ slot, s.runs.lookup runId = some slot ∧ slot.run.state = .stalled

/-- A call moves a run to STALLED. -/
def Stalls (policy : ArtifactStorePolicy) (s : State) (call : Call) (runId : String) : Prop :=
  ¬ Stalled s runId ∧ Stalled (step policy s call).1 runId

private theorem stalled_apply {s u : State} {a : Atom} (guard : a.enabled u)
    (modules : (a.apply u).modules = u.modules)
    (before : ∀ runId slot, u.runs.lookup runId = some slot → slot.run.state = .stalled →
      Stalled s runId ∨ Idle u.modules slot) :
    ∀ runId slot, (a.apply u).runs.lookup runId = some slot → slot.run.state = .stalled →
      Stalled s runId ∨ Idle (a.apply u).modules slot := by
  intro runId after found stalled
  rw [modules]
  rcases runs_apply guard found with ⟨old, -⟩ | ⟨slot, act, rfl, there, running, possible, rfl⟩ |
    ⟨rfl, -, -, env, req, assembly, maxSteps, rfl, -⟩
  · exact before runId after old stalled
  · exact .inr (idle_apply running possible stalled)
  · cases stalled

private theorem modules_apply {s : State} {a : Atom} (guard : a.enabled s)
    (noRegister : ∀ manifest, a ≠ .registered manifest)
    (noAdvance : ∀ name target, a ≠ .advanced name target) : (a.apply s).modules = s.modules := by
  cases a with
  | registered manifest => exact absurd rfl (noRegister manifest)
  | advanced name target => exact absurd rfl (noAdvance name target)
  | acted runId act =>
      obtain ⟨slot, found, -⟩ := guard
      simp only [Atom.apply, found, recordAll_modules]
  | _ => rfl

omit [Prost] in
private theorem transition_runs (env : Env) (req : TransitionRequest) (ctx : RequestContext)
    (s : State) : (transitionReq env req ctx s).1.runs = s.runs := by
  unfold transitionReq orReturn
  split
  · split
    · rfl
    · simp only
      split_ifs <;> rfl
  · rfl

theorem stalled_idle (policy : ArtifactStorePolicy) {s : State} (wf : WellFormed s) (call : Call)
    {runId : String} {slot : RunSlot}
    (found : (step policy s call).1.runs.lookup runId = some slot)
    (stalled : slot.run.state = .stalled) :
    Stalled s runId ∨ Idle (step policy s call).1.modules slot := by
  have registry : (step policy s call).1.runs = s.runs →
      Stalled s runId ∨ Idle (step policy s call).1.modules slot := by
    intro same
    rw [same] at found
    exact .inl ⟨slot, found, stalled⟩
  by_cases registers : ∃ manifest, call.op = .register manifest
  · obtain ⟨op, ctx, env⟩ := call
    obtain ⟨manifest, rfl⟩ := registers
    exact registry rfl
  by_cases advances : ∃ req, call.op = .transition req
  · obtain ⟨op, ctx, env⟩ := call
    obtain ⟨req, rfl⟩ := advances
    exact registry (transition_runs env req ctx s)
  obtain ⟨atoms, path, allowed, -⟩ := step_explained policy wf call
  refine path.invariant (Allowed s call) (P := fun u => ∀ runId slot,
    u.runs.lookup runId = some slot → slot.run.state = .stalled →
      Stalled s runId ∨ Idle u.modules slot) ?_ allowed ?_ runId slot found stalled
  · intro u a ok guard
    refine stalled_apply guard (modules_apply guard ?_ ?_)
    · rintro manifest rfl
      exact registers ⟨manifest, allowed_registered ok⟩
    · rintro name target rfl
      exact advances (allowed_advanced ok)
  · exact fun runId slot found stalled => .inl ⟨slot, found, stalled⟩

omit [Sha256] [Prost] in
private theorem claimUnits_none {env : Env} {runId : String} {slot : RunSlot} {cs : List Candidate}
    (none : (claimUnits env runId slot cs).2 = []) : (claimUnits env runId slot cs).1 = slot := by
  cases cs with
  | nil => rfl
  | cons c cs => cases none

theorem claimReady_slot {s : State} {req : ClaimRequest} {slot : RunSlot} (env : Env)
    (found : s.runs.lookup req.runId = some slot) (running : slot.run.state = .running) :
    (claimReady env req s).1.modules = s.modules ∧
      ∃ cs ⊆ readyCandidates s.modules (reapSlot env slot) req,
        (claimReady env req s).2 =
          .ok { items := (claimUnits env req.runId (reapSlot env slot) cs).2 } ∧
        (claimReady env req s).1.runs.lookup req.runId =
          some (if isIdle s.modules (reapSlot env slot) then stallSlot (reapSlot env slot)
            else (claimUnits env req.runId (reapSlot env slot) cs).1) := by
  unfold claimReady
  simp only [runningSlot_ok.mpr ⟨found, running⟩, orReturn, reapExpiredLocked, record_eq_recordAll,
    recordAll_recordAll, recordAll_modules]
  generalize min _ (inFlightCapacity (reapSlot env slot)) = want
  have ready : ∀ c ∈ (readyCandidates s.modules (reapSlot env slot) req).take want,
      c ∈ readyCandidates s.modules (reapSlot env slot) req := fun c => List.mem_of_mem_take
  generalize (readyCandidates s.modules (reapSlot env slot) req).take want = cs at ready ⊢
  refine ⟨by split_ifs <;> exact recordAll_modules _ _ _ _ _, cs, ready, by split_ifs <;> rfl, ?_⟩
  by_cases idle : isIdle s.modules (reapSlot env slot) = true
  · have none : cs = [] := by
      rw [List.eq_nil_iff_forall_not_mem]
      intro c member
      obtain ⟨node, -, unit⟩ := mem_readyCandidates.mp (ready c member)
      rw [(isIdle_iff.mp idle).ready c.1 node] at unit
      cases unit
    subst none
    simp [claimUnits, idle, lookup_recordAll _ _ _ found]
  · have busy : ¬ ((claimUnits env req.runId (reapSlot env slot) cs).2 = [] ∧
        isIdle s.modules (claimUnits env req.runId (reapSlot env slot) cs).1 = true) := by
      rintro ⟨none, still⟩
      rw [claimUnits_none none] at still
      exact idle still
    rw [if_neg busy, if_neg idle, lookup_recordAll _ _ _ found, if_pos rfl]

omit [Sha256] [Prost] in
private theorem claimUnits_held {env : Env} {runId : String} {slot : RunSlot} {cs : List Candidate}
    {id : String} (held : id ∈ slot.claimed) : id ∈ (claimUnits env runId slot cs).1.claimed := by
  induction cs generalizing slot with
  | nil => exact held
  | cons c cs ih => exact ih (AList.mem_insert _ |>.mpr (.inr held))

omit [Prost] in
private theorem claimUnits_idle {modules : List ModuleSlot} {env : Env} {runId : String}
    {slot : RunSlot} {cs : List Candidate}
    (idle : Idle modules (claimUnits env runId slot cs).1) : Idle modules slot := by
  cases cs with
  | nil => exact idle
  | cons c cs =>
      have first : (claimWork env runId slot c).id ∈
          (claimSlot slot (claimWork env runId slot c)).claimed :=
        (AList.mem_insert _).mpr (.inl rfl)
      exact absurd (claimUnits_held first) (idle.claimed _)

/-- The calls that end in a stall check: a claim, a failure report, and a commit that is not answered
from the idempotency cache. -/
def Checks (s : State) (runId : String) (call : Call) : Prop :=
  match call.op with
  | .claimReady req => req.runId = runId
  | .failWork req => req.runId = runId
  | .commit submitted =>
      submitted.runId = runId ∧ ∀ r, idempotentGet s "commit" call.ctx ≠ some (.run r)
  | _ => False

/-- A stall check has been made: the run is not RUNNING and idle. -/
def Checked (modules : List ModuleSlot) (runId : String) (after : State) : Prop :=
  after.modules = modules ∧ ∃ slot, after.runs.lookup runId = some slot ∧
    (slot.run.state = .running → ¬ Idle modules slot)

omit [Prost] in
private theorem checked_recordAll {s : State} {runId : String} {slot after : RunSlot}
    (found : s.runs.lookup runId = some slot) (ds : List Derivation) (rs : List Record)
    (settled : after.run.state = .running → ¬ Idle s.modules after) :
    Checked s.modules runId (recordAll s runId after ds rs) := by
  refine ⟨recordAll_modules _ _ _ _ _, after, ?_, settled⟩
  rw [lookup_recordAll _ _ _ found, if_pos rfl]

omit [Prost] in
private theorem not_running_stall {modules : List ModuleSlot} (slot : RunSlot)
    (running : (stallSlot slot).run.state = .running) : ¬ Idle modules (stallSlot slot) := by
  cases running

theorem claimReady_checked {s t : State} {req : ClaimRequest} {env : Env} {response : ClaimResponse}
    (ok : claimReady env req s = (t, .ok response)) : Checked s.modules req.runId t := by
  obtain ⟨slot, running, -⟩ := orReturn_ok ok
  obtain ⟨found, running⟩ := runningSlot_ok.mp running
  obtain ⟨modules, cs, -, -, lookup⟩ := claimReady_slot env found running
  rw [ok] at modules lookup
  refine ⟨modules, _, lookup, ?_⟩
  split_ifs with idle
  · exact not_running_stall _
  · exact fun _ still => idle (isIdle_iff.mpr (claimUnits_idle still))

theorem failWork_checked {s t : State} {req : FailWorkRequest} {env : Env} {run : Run}
    (ok : failWork env req s = (t, .ok run)) : Checked s.modules req.runId t := by
  obtain ⟨slot, running, ok⟩ := orReturn_ok ok
  obtain ⟨found, -⟩ := runningSlot_ok.mp running
  simp only [reapExpiredLocked, record_eq_recordAll] at ok
  cases held : (reapSlot env slot).claimed.lookup req.workId with
  | none => simp [held] at ok
  | some c =>
      simp only [held, recordAll_recordAll, recordAll_modules] at ok
      generalize failSlot (reapSlot env slot) req.workId c _ = failed at ok
      by_cases idle : isIdle s.modules failed = true
      · rw [if_pos idle] at ok
        obtain rfl := (Prod.mk.inj ok).1
        exact checked_recordAll found _ _ (not_running_stall failed)
      · rw [if_neg idle] at ok
        obtain rfl := (Prod.mk.inj ok).1
        exact checked_recordAll found _ _ fun _ still => idle (isIdle_iff.mpr still)

omit [Prost] in
private theorem checked_remember {modules : List ModuleSlot} {runId : String} {t : State}
    (checked : Checked modules runId t) (op : String) (ctx : RequestContext)
    (value : IdempotentResult) : Checked modules runId (idempotentPut t op ctx value) := by
  obtain ⟨cache, same⟩ := idempotentPut_eq t op ctx value
  rw [same]
  exact checked

theorem commit_checked {s t : State} (wf : WellFormed s) {submitted : Derivation}
    {ctx : RequestContext} {env : Env} {run : Run}
    (applied : ∀ r, idempotentGet s "commit" ctx ≠ some (.run r))
    (ok : commitCtx env submitted ctx s = (t, .ok run)) : Checked s.modules submitted.runId t := by
  obtain ⟨slot, c, after, found, -, -, -, -, rfl, -, rfl⟩ := commitCtx_ok wf applied ok
  refine checked_remember (checked_recordAll found _ _ ?_) _ _ _
  simp only [SlotAct.apply, settleSlot]
  split_ifs with idle
  · exact not_running_stall _
  · exact fun running still => idle ⟨running, isIdle_iff.mpr still⟩

theorem checks_checked (policy : ArtifactStorePolicy) {s : State} (wf : WellFormed s) {call : Call}
    {runId : String} (checks : Checks s runId call) (ok : ∀ e, (step policy s call).2 ≠ .error e) :
    Checked s.modules runId (step policy s call).1 := by
  obtain ⟨op, ctx, env⟩ := call
  have succeeds : ∀ {α : Type} {wrap : α → Reply} (result : State × Except KernelError α),
      (∀ e, (reply wrap result).2 ≠ .error e) → ∃ a, result = (result.1, .ok a) := by
    rintro α wrap ⟨after, outcome⟩ ok
    cases outcome with
    | ok a => exact ⟨a, rfl⟩
    | error e => exact absurd rfl (ok e)
  cases op with
  | claimReady req =>
      obtain rfl := checks
      obtain ⟨response, ok⟩ := succeeds _ ok
      obtain ⟨-, -, ok⟩ := orReturn_ok ok
      exact claimReady_checked ok
  | failWork req =>
      obtain rfl := checks
      obtain ⟨run, ok⟩ := succeeds _ ok
      obtain ⟨-, -, ok⟩ := orReturn_ok ok
      exact failWork_checked ok
  | commit submitted =>
      obtain ⟨rfl, applied⟩ := checks
      obtain ⟨run, ok⟩ := succeeds _ ok
      exact commit_checked wf applied ok
  | _ => exact checks.elim

theorem claimReady_stalls (policy : ArtifactStorePolicy) (s : State) (req : ClaimRequest)
    (ctx : RequestContext) (env : Env) :
    Stalls policy s ⟨.claimReady req, ctx, env⟩ req.runId ↔
      checkDeadline env ctx = .ok () ∧ ∃ slot, s.runs.lookup req.runId = some slot ∧
        slot.run.state = .running ∧ Idle s.modules (reapSlot env slot) := by
  constructor
  · rintro ⟨before, slot', found', stalled⟩
    cases late : checkDeadline env ctx with
    | error e =>
        simp only [step, late, orReturn] at found'
        exact absurd ⟨slot', found', stalled⟩ before
    | ok u =>
        simp only [step, late, orReturn] at found'
        cases running : runningSlot s req.runId with
        | error e =>
            simp only [reply, claimReady, running, orReturn] at found'
            exact absurd ⟨slot', found', stalled⟩ before
        | ok slot =>
            obtain ⟨found, running⟩ := runningSlot_ok.mp running
            obtain ⟨-, cs, -, -, lookup⟩ := claimReady_slot env found running
            obtain rfl := Option.some.inj (found'.symm.trans lookup)
            refine ⟨rfl, slot, found, running, ?_⟩
            split_ifs at stalled with idle
            · exact isIdle_iff.mp idle
            · rw [claimUnits_run, reapSlot_run, running] at stalled
              cases stalled
  · rintro ⟨timely, slot, found, running, idle⟩
    obtain ⟨-, cs, -, -, lookup⟩ := claimReady_slot env found running
    rw [if_pos (isIdle_iff.mpr idle)] at lookup
    refine ⟨?_, stallSlot (reapSlot env slot), ?_, rfl⟩
    · rintro ⟨other, found', stalled⟩
      obtain rfl := Option.some.inj (found.symm.trans found')
      rw [running] at stalled
      cases stalled
    · simp only [step, timely, orReturn]
      exact lookup

/-- The stall rule: a call stalls a run only where the run is idle afterwards, every successful call
that ends in a stall check leaves a RUNNING run with something READY or in flight, and for a claim
neither the filters nor `max_items` decide, nor does it stall a run at `max_in_flight`. -/
theorem stall_rule {policy : ArtifactStorePolicy} {s : State} (reached : Reachable policy s) :
    (∀ call runId, Stalls policy s call runId →
      ∃ slot, (step policy s call).1.runs.lookup runId = some slot ∧ isOpenClosure slot = false ∧
        (∀ node ∈ slot.run.assembly.nodes,
          readyUnit (step policy s call).1.modules slot node = none) ∧
        ∀ id, id ∉ slot.claimed) ∧
    (∀ call runId slot, Checks s runId call → (∀ e, (step policy s call).2 ≠ .error e) →
      (step policy s call).1.runs.lookup runId = some slot → slot.run.state = .running →
      isOpenClosure slot = false →
      (∃ node ∈ slot.run.assembly.nodes,
        (readyUnit (step policy s call).1.modules slot node).isSome) ∨ ∃ id, id ∈ slot.claimed) ∧
    (∀ req req' ctx env env', req.runId = req'.runId → env.entryClock = env'.entryClock →
      env.now = env'.now →
      (Stalls policy s ⟨.claimReady req, ctx, env⟩ req.runId ↔
        Stalls policy s ⟨.claimReady req', ctx, env'⟩ req.runId)) ∧
    ∀ req ctx env slot, s.runs.lookup req.runId = some slot →
      inFlightCapacity (reapSlot env slot) = 0 →
      ¬ Stalls policy s ⟨.claimReady req, ctx, env⟩ req.runId := by
  have wf := reachable_wellFormed reached
  refine ⟨?_, ?_, ?_, ?_⟩
  · rintro call runId ⟨before, slot, found, stalled⟩
    have idle := (stalled_idle policy wf call found stalled).resolve_left before
    exact ⟨slot, found, idle.closure, idle.ready, idle.claimed⟩
  · intro call runId slot checks ok found running closure
    obtain ⟨modules, after, found', settled⟩ := checks_checked policy wf checks ok
    obtain rfl := Option.some.inj (found.symm.trans found')
    rw [modules]
    exact not_idle closure (settled running)
  · intro req req' ctx env env' same entry now
    have deadline : checkDeadline env ctx = checkDeadline env' ctx := by
      unfold checkDeadline
      rw [entry]
    rw [claimReady_stalls, deadline, same, claimReady_stalls]
    simp only [reapSlot_clock now]
  · intro req ctx env slot found full stalls
    obtain ⟨-, slot', found', -, idle⟩ := (claimReady_stalls policy s req ctx env).mp stalls
    obtain rfl := Option.some.inj (found.symm.trans found')
    exact idle.capacity full

end Calls

section Echo

open Substrate.Kernel.Concrete

/-- `echo` at work on its only unit. -/
def atWork : List Call := opening .once .unspecified ++ [claimAt 0]

/-- The worker gives up on it. -/
def giveUp : Call :=
  callAt 1 (.failWork { runId := "r", workId := "work:r/n", terminal := true })

theorem stall_rule_echo :
    Stalls policy (exec policy {} atWork) giveUp "r" ∧
      ∃ slot, (step policy (exec policy {} atWork) giveUp).1.runs.lookup "r" = some slot ∧
        isOpenClosure slot = false ∧
        (∀ node ∈ slot.run.assembly.nodes,
          readyUnit (step policy (exec policy {} atWork) giveUp).1.modules slot node = none) ∧
        ∀ id, id ∉ slot.claimed := by
  have before : ((exec policy {} atWork).runs.lookup "r").map (·.run.state) = some .running := by
    decide +kernel
  have after : ((step policy (exec policy {} atWork) giveUp).1.runs.lookup "r").map (·.run.state) =
      some .stalled := by decide +kernel
  have stalls : Stalls policy (exec policy {} atWork) giveUp "r" := by
    refine ⟨?_, Option.map_eq_some_iff.mp after⟩
    rintro ⟨slot, found, stalled⟩
    rw [found, Option.map_some, stalled] at before
    cases before
  exact ⟨stalls, (stall_rule ⟨atWork, rfl⟩).1 giveUp "r" stalls⟩

end Echo

end Substrate.Protocol.Stalling
