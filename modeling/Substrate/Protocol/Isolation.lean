/- ID: Substrate/Protocol/Isolation
   digest: Calls on one run read and change that run alone, so calls on two runs commute. -/

import Substrate.Kernel.Concrete
import Substrate.Protocol.Refine

set_option autoImplicit false
set_option relaxedAutoImplicit false

namespace Substrate.Protocol.Isolation

open Substrate.Kernel.Wire
open Substrate.Kernel.Hashing
open Substrate.Kernel.Memory
open Substrate.Kernel.Registry
open Substrate.Kernel.Schedule
open Substrate.Kernel.Runs
open Substrate.Kernel.Work
open Substrate.Kernel.Api
open Substrate.Protocol.Atoms
open Substrate.Protocol.Slots
open Substrate.Protocol.Serial
open Substrate.Protocol.Refine
open Substrate.Library.FiniteMap

/-- The run that a call is addressed to. -/
def addressee (call : Call) : Option String :=
  match call.op with
  | .startRun req => some req.id
  | .injectInput req => some req.runId
  | .claimReady req => some req.runId
  | .heartbeat req => some req.runId
  | .failWork req => some req.runId
  | .commit submitted => some submitted.runId
  | .cancelRun ref => some ref.id
  | _ => none

/-- Two kernels with the same registry, the same artifacts and the same slot of a run. -/
structure Sees (runId : String) (s t : State) : Prop where
  modules : s.modules = t.modules
  artifacts : s.artifacts = t.artifacts
  slot : s.runs.lookup runId = t.runs.lookup runId

theorem Sees.refl (runId : String) (s : State) : Sees runId s s := ⟨rfl, rfl, rfl⟩

/-- What a call on a run does: the slot it leaves, and the derivations and records it adds. -/
structure Effect where
  slot : Option RunSlot
  derivations : List Derivation
  records : List Record

/-- An effect on one run leads from `s` to `t` and changes no other run. -/
structure Effect.Leads (e : Effect) (runId : String) (s t : State) : Prop where
  slot : t.runs.lookup runId = e.slot
  others : ∀ other, other ≠ runId → t.runs.lookup other = s.runs.lookup other
  modules : t.modules = s.modules
  artifacts : t.artifacts = s.artifacts
  derivations : t.derivations = s.derivations ++ e.derivations
  ledger : t.ledger.map recordOf = s.ledger.map recordOf ++ e.records

/-- Two outcomes with the same answer, reached by one effect on a run. -/
def SameEffect {α : Type} (runId : String) (s t : State) (x y : State × α) : Prop :=
  x.2 = y.2 ∧ ∃ e : Effect, e.Leads runId s x.1 ∧ e.Leads runId t y.1

section Runs

variable {runId : String} {s t : State}

theorem Effect.Leads.refl (runId : String) (s : State) :
    Effect.Leads ⟨s.runs.lookup runId, [], []⟩ runId s s :=
  ⟨rfl, fun _ _ => rfl, rfl, rfl, (List.append_nil _).symm, (List.append_nil _).symm⟩

theorem SameEffect.unchanged {α : Type} (sees : Sees runId s t) (a : α) :
    SameEffect runId s t (s, a) (t, a) := by
  refine ⟨rfl, _, .refl runId s, ?_⟩
  rw [sees.slot]
  exact .refl runId t

theorem SameEffect.orReturn {α β : Type} {checked checked' : Except KernelError α} {u v : State}
    {next next' : α → State × Except KernelError β} (same : checked = checked')
    (refused : ∀ e : KernelError,
      SameEffect runId s t (u, (.error e : Except KernelError β)) (v, .error e))
    (ok : ∀ a, checked = .ok a → SameEffect runId s t (next a) (next' a)) :
    SameEffect runId s t (orReturn checked u next) (orReturn checked' v next') := by
  subst same
  cases checked with
  | ok a => exact ok a rfl
  | error e => exact refused e

theorem SameEffect.answer {α : Type} {wrap : α → Reply} {x y : State × Except KernelError α}
    (same : SameEffect runId s t x y) : SameEffect runId s t (reply wrap x) (reply wrap y) := by
  obtain ⟨answer, effect⟩ := same
  refine ⟨?_, effect⟩
  unfold reply
  rw [answer]

theorem Sees.running (sees : Sees runId s t) : runningSlot s runId = runningSlot t runId := by
  unfold runningSlot
  rw [sees.slot]

variable [Sha256]

theorem Effect.Leads.recordAll {slot : RunSlot} (found : s.runs.lookup runId = some slot)
    (after : RunSlot) (ds : List Derivation) (rs : List Record) :
    Effect.Leads ⟨some after, ds, rs⟩ runId s (recordAll s runId after ds rs) := by
  refine ⟨?_, ?_, recordAll_modules .., recordAll_artifacts .., ?_, ?_⟩
  · rw [lookup_recordAll after ds rs found, if_pos rfl]
  · intro other apart
    rw [lookup_recordAll after ds rs found, if_neg apart]
  · rw [recordAll_eq]
  · rw [recordAll_eq]
    exact map_extend s.ledger rs

theorem SameEffect.recordAll {α : Type} (sees : Sees runId s t) {slot : RunSlot}
    (found : s.runs.lookup runId = some slot) (after : RunSlot) (ds : List Derivation)
    (rs : List Record) (a : α) :
    SameEffect runId s t (recordAll s runId after ds rs, a) (recordAll t runId after ds rs, a) :=
  ⟨rfl, _, .recordAll found after ds rs, .recordAll (sees.slot ▸ found) after ds rs⟩

theorem SameEffect.started {α : Type} (slot : RunSlot) (kind subject : String) (detail : Bytes)
    (a : α) :
    SameEffect runId s t
      (appendLocked { s with runs := s.runs.insert runId slot } kind subject detail, a)
      (appendLocked { t with runs := t.runs.insert runId slot } kind subject detail, a) := by
  have leads : ∀ u : State, Effect.Leads ⟨some slot, [], [(kind, subject, detail)]⟩ runId u
      (appendLocked { u with runs := u.runs.insert runId slot } kind subject detail) := by
    intro u
    refine ⟨?_, ?_, rfl, rfl, (List.append_nil _).symm, List.map_append⟩
    · exact (lookup_insert_of u.runs runId runId slot).trans (if_pos rfl)
    · intro other apart
      exact (lookup_insert_of u.runs runId other slot).trans (if_neg apart)
  exact ⟨rfl, _, leads s, leads t⟩

variable [Prost]

theorem startRun_local {env : Env} {req : RunRequest} {ctx : RequestContext}
    (sees : Sees req.id s t) (keyless : ctx.requestKey = "") :
    SameEffect req.id s t (startRunCtx env req ctx s) (startRunCtx env req ctx t) := by
  have noKey : idempotencyKey "start_run" ctx = none := if_pos keyless
  have known : req.id ∈ s.runs ↔ req.id ∈ t.runs := by
    rw [← AList.lookup_isSome, ← AList.lookup_isSome, sees.slot]
  refine SameEffect.orReturn rfl (fun e => .unchanged sees _) fun _ _ => ?_
  simp only [idempotentGet, idempotentPut, noKey, Option.bind_none, known]
  split_ifs
  · exact .unchanged sees _
  · exact .unchanged sees _
  · cases req.assembly with
    | none => exact .unchanged sees _
    | some assembly =>
        refine SameEffect.orReturn rfl (fun e => .unchanged sees _) fun assembly _ => ?_
        refine SameEffect.orReturn (by rw [sees.modules, sees.artifacts])
          (fun e => .unchanged sees _) fun _ _ => ?_
        split_ifs
        · exact .unchanged sees _
        · exact .started _ _ _ _ _

theorem injectInput_local {env : Env} {req : InjectInputRequest} {ctx : RequestContext}
    (sees : Sees req.runId s t) :
    SameEffect req.runId s t (injectInputCtx env req ctx s) (injectInputCtx env req ctx t) := by
  refine SameEffect.orReturn rfl (fun e => .unchanged sees _) fun _ _ => ?_
  cases req.input with
  | none => exact .unchanged sees _
  | some input =>
      simp only [sees.artifacts]
      split_ifs
      · exact .unchanged sees _
      cases input.artifact with
      | none => exact .unchanged sees _
      | some r =>
          simp only
          split_ifs
          · refine SameEffect.orReturn sees.running (fun e => .unchanged sees _) fun slot running => ?_
            obtain ⟨found, -⟩ := runningSlot_ok.mp running
            simp only [record_eq_recordAll]
            split_ifs
            · exact .recordAll sees found _ _ _ _
            · exact .unchanged sees _
          · exact .unchanged sees _

theorem claimReady_local {env : Env} {req : ClaimRequest} (sees : Sees req.runId s t) :
    SameEffect req.runId s t (claimReady env req s) (claimReady env req t) := by
  refine SameEffect.orReturn sees.running (fun e => .unchanged sees _) fun slot running => ?_
  obtain ⟨found, -⟩ := runningSlot_ok.mp running
  simp only [reapExpiredLocked, record_eq_recordAll, recordAll_recordAll, recordAll_modules,
    sees.modules]
  generalize claimUnits env req.runId (reapSlot env slot) _ = claims
  split_ifs
  · exact .recordAll sees found _ _ _ _
  · exact .recordAll sees found _ _ _ _

theorem heartbeat_local {env : Env} {req : HeartbeatRequest} (sees : Sees req.runId s t) :
    SameEffect req.runId s t (heartbeat env req s) (heartbeat env req t) := by
  refine SameEffect.orReturn sees.running (fun e => .unchanged sees _) fun slot running => ?_
  obtain ⟨found, -⟩ := runningSlot_ok.mp running
  simp only [reapExpiredLocked, record_eq_recordAll, recordAll_recordAll]
  exact .recordAll sees found _ _ _ _

theorem failWork_local {env : Env} {req : FailWorkRequest} (sees : Sees req.runId s t) :
    SameEffect req.runId s t (failWork env req s) (failWork env req t) := by
  refine SameEffect.orReturn sees.running (fun e => .unchanged sees _) fun slot running => ?_
  obtain ⟨found, -⟩ := runningSlot_ok.mp running
  simp only [reapExpiredLocked, record_eq_recordAll, recordAll_recordAll, recordAll_modules,
    sees.modules]
  cases (reapSlot env slot).claimed.lookup req.workId with
  | none => exact .recordAll sees found _ _ _ _
  | some c =>
      generalize (if req.reason = "" then "failed" else req.reason) = reason
      simp only
      split_ifs
      · exact .recordAll sees found _ _ _ _
      · exact .recordAll sees found _ _ _ _

theorem cancelRun_local {ref : RunRef} (sees : Sees ref.id s t) :
    SameEffect ref.id s t (cancelRun ref s) (cancelRun ref t) := by
  refine SameEffect.orReturn sees.running (fun e => .unchanged sees _) fun slot running => ?_
  obtain ⟨found, -⟩ := runningSlot_ok.mp running
  simp only [record_eq_recordAll]
  exact .recordAll sees found _ _ _ _

theorem commit_local {env : Env} {submitted : Derivation} {ctx : RequestContext}
    (sees : Sees submitted.runId s t) (wf : WellFormed s) (keyless : ctx.requestKey = "") :
    SameEffect submitted.runId s t (commitCtx env submitted ctx s) (commitCtx env submitted ctx t) := by
  have noKey : idempotencyKey "commit" ctx = none := if_pos keyless
  refine SameEffect.orReturn rfl (fun e => .unchanged sees _) fun _ _ => ?_
  simp only [idempotentGet, idempotentPut, noKey, Option.bind_none]
  refine SameEffect.orReturn sees.running (fun e => .unchanged sees _) fun slot running => ?_
  obtain ⟨found, running⟩ := runningSlot_ok.mp running
  have reaping : Trace s.modules s.artifacts submitted.runId slot _ _ _ _ _ := reap_trace env running
  have shape := reaping.shape (wf submitted.runId slot found)
  simp only [reapExpiredLocked, record_eq_recordAll, recordAll_modules, recordAll_artifacts,
    sees.modules, sees.artifacts]
  cases held : (reapSlot env slot).claimed.lookup submitted.workId with
  | none => exact .recordAll sees found _ _ _ _
  | some c =>
      simp only
      split_ifs
      · exact .recordAll sees found _ _ _ _
      · exact .recordAll sees found _ _ _ _
      refine SameEffect.orReturn rfl (fun e => .recordAll sees found _ _ _ _) fun cap _ => ?_
      refine SameEffect.orReturn rfl (fun e => .recordAll sees found _ _ _ _) fun _ _ => ?_
      -- the claim was found in the run it names
      rw [(shape.claims submitted.workId c held).runId]
      have recorded : ∀ after ds rs (answer : Except KernelError Run),
          SameEffect submitted.runId s t (recordAll s submitted.runId after ds rs, answer)
            (recordAll t submitted.runId after ds rs, answer) :=
        fun after ds rs answer => .recordAll sees found after ds rs answer
      simp only [recordAll_eq, replace_replace, ← extend_append, List.append_nil, sees.modules,
        sees.artifacts] at recorded ⊢
      exact recorded _ _ _ _

theorem step_local (policy : ArtifactStorePolicy) {call : Call} (sees : Sees runId s t)
    (wf : WellFormed s) (here : addressee call = some runId) (keyless : call.ctx.requestKey = "") :
    SameEffect runId s t (step policy s call) (step policy t call) := by
  obtain ⟨op, ctx, env⟩ := call
  cases op with
  | startRun req =>
      obtain rfl := Option.some.inj here
      exact (startRun_local sees keyless).answer
  | injectInput req =>
      obtain rfl := Option.some.inj here
      exact (injectInput_local sees).answer
  | claimReady req =>
      obtain rfl := Option.some.inj here
      exact (SameEffect.orReturn rfl (fun e => .unchanged sees _) fun _ _ =>
        claimReady_local sees).answer
  | heartbeat req =>
      obtain rfl := Option.some.inj here
      exact (SameEffect.orReturn rfl (fun e => .unchanged sees _) fun _ _ =>
        heartbeat_local sees).answer
  | failWork req =>
      obtain rfl := Option.some.inj here
      exact (SameEffect.orReturn rfl (fun e => .unchanged sees _) fun _ _ =>
        failWork_local sees).answer
  | commit submitted =>
      obtain rfl := Option.some.inj here
      exact (commit_local sees wf keyless).answer
  | cancelRun ref =>
      obtain rfl := Option.some.inj here
      exact (SameEffect.orReturn rfl (fun e => .unchanged sees _) fun _ _ =>
        cancelRun_local sees).answer
  | _ => cases here

omit [Prost] in
private theorem allowed_elsewhere {call : Call} {a : Atom} (allowed : Allowed s call a)
    (here : addressee call = some runId) :
    (∀ other act, a = .acted other act → other = runId) ∧
      ∀ slot, a = .started slot → slot.run.id = runId := by
  have named : ∀ other, addressee call = some other → other = runId := by
    intro other there
    rw [here] at there
    exact (Option.some.inj there).symm
  refine ⟨?_, ?_⟩
  · rintro other act rfl
    refine named other ?_
    rcases allowed_acted allowed with ⟨req, -, op, rfl, -⟩ | ⟨ref, op, rfl, -⟩ | ⟨scheduled, -⟩
    · rw [addressee, op]
    · rw [addressee, op]
    · unfold scheduledRun at scheduled
      unfold addressee
      split at scheduled <;> simp_all
  · rintro slot rfl
    obtain ⟨req, op, same⟩ := allowed_started allowed
    refine named _ ?_
    rw [addressee, op, same]

private theorem apply_elsewhere {a : Atom} (guard : a.enabled s) {other : String}
    (quiet : ∀ act, a ≠ .acted other act)
    (unstarted : ∀ slot, a = .started slot → slot.run.id ≠ other) :
    (a.apply s).runs.lookup other = s.runs.lookup other := by
  cases found : s.runs.lookup other with
  | some slot =>
      rcases runs_persist guard found with ⟨same, -⟩ | ⟨act, acted, -⟩
      · exact same
      · exact absurd acted (quiet act)
  | none =>
      cases after : (a.apply s).runs.lookup other with
      | none => rfl
      | some slot =>
          rcases runs_apply guard after with ⟨old, -⟩ | ⟨_, act, acted, -⟩ | ⟨started, named, -⟩
          · exact old.symm.trans found
          · exact absurd acted (quiet act)
          · exact absurd named (unstarted slot started)

theorem step_elsewhere (policy : ArtifactStorePolicy) (wf : WellFormed s) {call : Call}
    (here : addressee call = some runId) {other : String} (apart : other ≠ runId) :
    (step policy s call).1.runs.lookup other = s.runs.lookup other := by
  obtain ⟨atoms, path, allowed, -⟩ := step_explained policy wf call
  refine path.invariant (Allowed s call) (P := fun u => u.runs.lookup other = s.runs.lookup other)
    ?_ allowed rfl
  intro u a ok guard before
  obtain ⟨acts, starts⟩ := allowed_elsewhere ok here
  refine (apply_elsewhere guard ?_ ?_).trans before
  · rintro act rfl
    exact apart (acts other act rfl)
  · rintro slot started rfl
    exact apart (starts slot started)

theorem step_commutes (policy : ArtifactStorePolicy) (wf : WellFormed s) {x y : Call}
    {a b : String} (apart : a ≠ b) (xa : addressee x = some a) (yb : addressee y = some b)
    (xKeyless : x.ctx.requestKey = "") (yKeyless : y.ctx.requestKey = "") :
    let first := step policy s x
    let second := step policy s y
    let xy := step policy first.1 y
    let yx := step policy second.1 x
    xy.2 = second.2 ∧ yx.2 = first.2 ∧ xy.1.runs.lookup a = yx.1.runs.lookup a ∧
      xy.1.runs.lookup b = yx.1.runs.lookup b ∧
      xy.1.derivations.Perm yx.1.derivations ∧
      (xy.1.ledger.map recordOf).Perm (yx.1.ledger.map recordOf) := by
  intro first second xy yx
  obtain ⟨-, _, alone, -⟩ := step_local policy (.refl a s) wf xa xKeyless
  have seesY : Sees b s first.1 :=
    ⟨alone.modules.symm, alone.artifacts.symm, (alone.others b apart.symm).symm⟩
  obtain ⟨yAnswer, ey, yFirst, yLast⟩ := step_local policy seesY wf yb yKeyless
  have seesX : Sees a s second.1 :=
    ⟨yFirst.modules.symm, yFirst.artifacts.symm, (yFirst.others a apart).symm⟩
  obtain ⟨xAnswer, ex, xFirst, xLast⟩ := step_local policy seesX wf xa xKeyless
  -- both orders add the two effects to the same start
  have swap : ∀ {α : Type} (l m n : List α), (l ++ m ++ n).Perm (l ++ n ++ m) := by
    intro α l m n
    rw [List.append_assoc, List.append_assoc]
    exact List.perm_append_comm.append_left l
  refine ⟨yAnswer.symm, xAnswer.symm, ?_, ?_, ?_, ?_⟩
  · exact (yLast.others a apart).trans (xFirst.slot.trans xLast.slot.symm)
  · exact yLast.slot.trans ((xLast.others b apart.symm).trans yFirst.slot).symm
  · rw [yLast.derivations, xLast.derivations, xFirst.derivations, yFirst.derivations]
    exact swap _ _ _
  · rw [yLast.ledger, xLast.ledger, xFirst.ledger, yFirst.ledger]
    exact swap _ _ _

/-- In every reachable state a call on one run leaves every other run's slot as it is, and keyless
calls on two runs commute: either order gives the same responses, the same two slots, and the same
derivations and ledger records but for their order. -/
theorem runs_isolated (policy : ArtifactStorePolicy) (history : List Call) :
    let s := exec policy {} history
    (∀ x a b, addressee x = some a → b ≠ a →
        (step policy s x).1.runs.lookup b = s.runs.lookup b) ∧
      ∀ x y a b, a ≠ b → addressee x = some a → addressee y = some b →
        x.ctx.requestKey = "" → y.ctx.requestKey = "" →
        let first := step policy s x
        let second := step policy s y
        let xy := step policy first.1 y
        let yx := step policy second.1 x
        xy.2 = second.2 ∧ yx.2 = first.2 ∧ xy.1.runs.lookup a = yx.1.runs.lookup a ∧
          xy.1.runs.lookup b = yx.1.runs.lookup b ∧
          xy.1.derivations.Perm yx.1.derivations ∧
          (xy.1.ledger.map recordOf).Perm (yx.1.ledger.map recordOf) := by
  have wf : WellFormed (exec policy {} history) := reachable_wellFormed ⟨history, rfl⟩
  exact ⟨fun x a b here apart => step_elsewhere policy wf here apart,
    fun x y a b apart xa yb xKeyless yKeyless =>
      step_commutes policy wf apart xa yb xKeyless yKeyless⟩

end Runs

end Substrate.Protocol.Isolation
