/- ID: Substrate/Protocol/Idempotency
   digest: Request keys answer a repeated call with its first response, where the keys stay apart. -/

import Substrate.Kernel.Concrete
import Substrate.Library.Framing
import Substrate.Protocol.Refine

set_option autoImplicit false
set_option relaxedAutoImplicit false

namespace Substrate.Protocol.Idempotency

open Substrate.Kernel.Wire
open Substrate.Kernel.Hashing
open Substrate.Kernel.Memory
open Substrate.Kernel.Store
open Substrate.Kernel.Runs
open Substrate.Kernel.Work
open Substrate.Kernel.Api
open Substrate.Protocol.Atoms
open Substrate.Protocol.Slots
open Substrate.Protocol.Refine
open Substrate.Library.FiniteMap
open Substrate.Library.Transition

/-- What a request key is meant to tell apart: the operation, the caller and the key. -/
structure Ident where
  operation : String
  caller : String
  requestKey : String
  deriving DecidableEq

/-- The cache key of an identity, as `idempotency_key` spells it. -/
def Ident.join (i : Ident) : String := i.operation ++ "\x00" ++ i.caller ++ "\x00" ++ i.requestKey

/-- The operations that honour a request key, under the names they cache by. -/
def operation : Op → Option String
  | .putArtifact _ => some "put_artifact"
  | .startRun _ => some "start_run"
  | .commit _ => some "commit"
  | _ => none

/-- The identity of a keyed call. -/
def identOf (call : Call) : Option Ident :=
  (operation call.op).bind fun op =>
    if call.ctx.requestKey = "" then none else some ⟨op, call.ctx.caller, call.ctx.requestKey⟩

/-- The same call without its request key. -/
def bare (call : Call) : Call := { call with ctx := { call.ctx with requestKey := "" } }

/-- A response as the cache holds it. -/
def cached : Reply → Option IdempotentResult
  | .artifactRef r => some (.artifactRef r)
  | .run r => some (.run r)
  | _ => none

/-- A cached response as a reply. -/
def answer : IdempotentResult → Reply
  | .artifactRef r => .artifactRef r
  | .run r => .run r

/-- Record a response under an identity that has none yet. -/
def remember (i : Ident) (reply : Reply) (s : State) : State :=
  match cached reply with
  | some v =>
      if i.join ∈ s.idempotency then s
      else { s with idempotency := s.idempotency.insert i.join v }
  | none => s

section Misses

/-- What a call does with the response it is about to give. -/
def remembering {α : Type} (op : String) (ctx : RequestContext) (wrap : α → IdempotentResult)
    (result : State × Except KernelError α) : State × Except KernelError α :=
  match result with
  | (t, .ok a) => (idempotentPut t op ctx (wrap a), .ok a)
  | (t, .error e) => (t, .error e)

variable {op : String} {ctx : RequestContext}

theorem remembering_orReturn {α β : Type} {wrap : β → IdempotentResult}
    (checked : Except KernelError α) (s : State) (next : α → State × Except KernelError β) :
    remembering op ctx wrap (orReturn checked s next) =
      orReturn checked s fun a => remembering op ctx wrap (next a) := by
  cases checked <;> rfl

variable [Sha256] [Prost] {s : State}

omit [Sha256] [Prost] in
private theorem idempotentGet_bare (op : String) :
    idempotentGet s op { ctx with requestKey := "" } = none := rfl

omit [Sha256] [Prost] in
private theorem idempotentPut_bare (op : String) (v : IdempotentResult) :
    idempotentPut s op { ctx with requestKey := "" } v = s := rfl

theorem putArtifact_miss (policy : ArtifactStorePolicy) (env : Env) (artifact : Artifact)
    (miss : ∀ r, idempotentGet s "put_artifact" ctx ≠ some (.artifactRef r)) :
    putArtifactCtx policy env artifact ctx s = remembering "put_artifact" ctx .artifactRef
      (putArtifactCtx policy env artifact { ctx with requestKey := "" } s) := by
  simp only [putArtifactCtx, remembering_orReturn, idempotentGet_bare, idempotentPut_bare]
  refine congrArg (orReturn _ s) (funext fun _ => congrArg (orReturn _ s) (funext fun _ => ?_))
  generalize idempotentGet s "put_artifact" ctx = hit at miss
  rcases hit with _ | r | r
  · rfl
  · exact absurd rfl (miss r)
  · rfl

theorem startRun_miss (env : Env) (req : RunRequest)
    (miss : ∀ r, idempotentGet s "start_run" ctx ≠ some (.run r)) :
    startRunCtx env req ctx s = remembering "start_run" ctx .run
      (startRunCtx env req { ctx with requestKey := "" } s) := by
  simp only [startRunCtx, remembering_orReturn, idempotentGet_bare, idempotentPut_bare]
  refine congrArg (orReturn _ s) (funext fun _ => ?_)
  generalize idempotentGet s "start_run" ctx = hit at miss
  rcases hit with _ | r | r
  case some.run => exact absurd rfl (miss r)
  all_goals
    split_ifs
    · rfl
    · rfl
    cases req.assembly with
    | none => rfl
    | some assembly =>
        simp only [remembering_orReturn]
        refine congrArg (orReturn _ s) (funext fun _ => congrArg (orReturn _ s) (funext fun _ => ?_))
        split_ifs <;> rfl

theorem commit_miss (env : Env) (submitted : Derivation)
    (miss : ∀ r, idempotentGet s "commit" ctx ≠ some (.run r)) :
    commitCtx env submitted ctx s = remembering "commit" ctx .run
      (commitCtx env submitted { ctx with requestKey := "" } s) := by
  simp only [commitCtx, remembering_orReturn, idempotentGet_bare, idempotentPut_bare]
  refine congrArg (orReturn _ s) (funext fun _ => ?_)
  generalize idempotentGet s "commit" ctx = hit at miss
  rcases hit with _ | r | r
  case some.run => exact absurd rfl (miss r)
  all_goals
    refine congrArg (orReturn _ s) (funext fun slot => ?_)
    cases (reapSlot env slot).claimed.lookup submitted.workId with
    | none => rfl
    | some c =>
        simp only
        split_ifs
        · rfl
        · rfl
        · simp only [remembering_orReturn]
          rfl

end Misses

/-- The responses an operation caches. -/
def Fits (i : Ident) : IdempotentResult → Prop
  | .artifactRef _ => i.operation = "put_artifact"
  | .run _ => i.operation = "start_run" ∨ i.operation = "commit"

/-- The operations that cache. -/
def Named (i : Ident) : Prop :=
  i.operation = "put_artifact" ∨ i.operation = "start_run" ∨ i.operation = "commit"

/-- The checks that come before the cache: `put_artifact` validates its payload first. -/
def PayloadOk (policy : ArtifactStorePolicy) (call : Call) : Prop :=
  match call.op with
  | .putArtifact artifact => validateArtifactContent artifact policy = .ok ()
  | _ => True

theorem identOf_spec {call : Call} {i : Ident} (ident : identOf call = some i) :
    operation call.op = some i.operation ∧ call.ctx.requestKey ≠ "" ∧
      i = ⟨i.operation, call.ctx.caller, call.ctx.requestKey⟩ := by
  obtain ⟨op, named, keyed⟩ := Option.bind_eq_some_iff.mp ident
  split_ifs at keyed with empty
  obtain rfl := Option.some.inj keyed
  exact ⟨named, empty, rfl⟩

theorem idempotentGet_ident {s : State} {ctx : RequestContext} {i : Ident} {op : String}
    (keyed : ctx.requestKey ≠ "") (same : i = ⟨op, ctx.caller, ctx.requestKey⟩) :
    idempotentGet s op ctx = s.idempotency.lookup i.join := by
  subst same
  simp [idempotentGet, idempotencyKey, keyed, Ident.join]

theorem reply_remembering {α : Type} {wrap : α → Reply} {store : α → IdempotentResult}
    (agree : ∀ a, cached (wrap a) = some (store a)) {i : Ident} {op : String} {ctx : RequestContext}
    (keyed : ctx.requestKey ≠ "") (same : i = ⟨op, ctx.caller, ctx.requestKey⟩)
    (result : State × Except KernelError α) :
    reply wrap (remembering op ctx store result) =
      (remember i (reply wrap result).2 (reply wrap result).1, (reply wrap result).2) := by
  subst same
  obtain ⟨t, outcome⟩ := result
  cases outcome with
  | error e => rfl
  | ok a =>
      simp only [reply, remembering, remember, agree, idempotentPut, idempotencyKey, keyed, if_false]
      rfl

section Calls

variable [Sha256] [Prost] {policy : ArtifactStorePolicy} {s : State} {call : Call} {i : Ident}

theorem step_hit (ident : identOf call = some i) (timely : checkDeadline call.env call.ctx = .ok ())
    (payload : PayloadOk policy call) {v : IdempotentResult}
    (held : s.idempotency.lookup i.join = some v) (fits : Fits i v) :
    step policy s call = (s, answer v) := by
  obtain ⟨named, keyed, same⟩ := identOf_spec ident
  obtain ⟨op, ctx, env⟩ := call
  have hit := (idempotentGet_ident (s := s) keyed same).trans held
  cases op with
  | putArtifact artifact =>
      have name : "put_artifact" = i.operation := Option.some.inj named
      rw [← name] at hit
      cases v with
      | run r => simp [Fits, ← name] at fits
      | artifactRef r =>
          have valid : validateArtifactContent artifact policy = .ok () := payload
          simp only at timely hit
          simp only [step, reply, putArtifactCtx, timely, valid, orReturn, hit, answer]
  | startRun req =>
      have name : "start_run" = i.operation := Option.some.inj named
      rw [← name] at hit
      cases v with
      | artifactRef r => simp [Fits, ← name] at fits
      | run r =>
          simp only at timely hit
          simp only [step, reply, startRunCtx, timely, orReturn, hit, answer]
  | commit submitted =>
      have name : "commit" = i.operation := Option.some.inj named
      rw [← name] at hit
      cases v with
      | artifactRef r => simp [Fits, ← name] at fits
      | run r =>
          simp only at timely hit
          simp only [step, reply, commitCtx, timely, orReturn, hit, answer]
  | _ => cases named

theorem step_refused {op : String} (named : operation call.op = some op)
    (refused : ¬ (checkDeadline call.env call.ctx = .ok () ∧ PayloadOk policy call)) :
    ∃ e, step policy s call = (s, .error e) ∧ step policy s (bare call) = (s, .error e) := by
  obtain ⟨op, ctx, env⟩ := call
  have same : checkDeadline env { ctx with requestKey := "" } = checkDeadline env ctx := rfl
  cases late : checkDeadline env ctx with
  | error e =>
      refine ⟨e, ?_⟩
      cases op with
      | putArtifact artifact => simp [step, bare, reply, putArtifactCtx, same, late, orReturn]
      | startRun req => simp [step, bare, reply, startRunCtx, same, late, orReturn]
      | commit submitted => simp [step, bare, reply, commitCtx, same, late, orReturn]
      | _ => cases named
  | ok u =>
      cases op with
      | putArtifact artifact =>
          cases valid : validateArtifactContent artifact policy with
          | ok u => exact absurd ⟨late, valid⟩ refused
          | error e =>
              exact ⟨e, by simp [step, bare, reply, putArtifactCtx, same, late, valid, orReturn]⟩
      | startRun req => exact absurd ⟨late, trivial⟩ refused
      | commit submitted => exact absurd ⟨late, trivial⟩ refused
      | _ => cases named

theorem step_miss (ident : identOf call = some i)
    (miss : checkDeadline call.env call.ctx = .ok () → PayloadOk policy call →
      ∀ v, s.idempotency.lookup i.join = some v → ¬ Fits i v) :
    step policy s call =
      (remember i (step policy s (bare call)).2 (step policy s (bare call)).1,
        (step policy s (bare call)).2) := by
  obtain ⟨named, keyed, same⟩ := identOf_spec ident
  by_cases passes : checkDeadline call.env call.ctx = .ok () ∧ PayloadOk policy call
  swap
  · obtain ⟨e, refused, refused'⟩ := step_refused (s := s) named passes
    rw [refused, refused']
    rfl
  have missed := miss passes.1 passes.2
  obtain ⟨op, ctx, env⟩ := call
  have get := idempotentGet_ident (s := s) keyed same
  cases op with
  | putArtifact artifact =>
      have name : "put_artifact" = i.operation := Option.some.inj named
      rw [← name] at get same
      have never : ∀ r, idempotentGet s "put_artifact" ctx ≠ some (.artifactRef r) :=
        fun r held => missed _ (get.symm.trans held) name.symm
      simp only [step, bare]
      rw [putArtifact_miss policy env artifact never]
      exact reply_remembering (fun _ => rfl) keyed same _
  | startRun req =>
      have name : "start_run" = i.operation := Option.some.inj named
      rw [← name] at get same
      have never : ∀ r, idempotentGet s "start_run" ctx ≠ some (.run r) :=
        fun r held => missed _ (get.symm.trans held) (.inl name.symm)
      simp only [step, bare]
      rw [startRun_miss env req never]
      exact reply_remembering (fun _ => rfl) keyed same _
  | commit submitted =>
      have name : "commit" = i.operation := Option.some.inj named
      rw [← name] at get same
      have never : ∀ r, idempotentGet s "commit" ctx ≠ some (.run r) :=
        fun r held => missed _ (get.symm.trans held) (.inr name.symm)
      simp only [step, bare]
      rw [commit_miss env submitted never]
      exact reply_remembering (fun _ => rfl) keyed same _
  | _ => cases named

omit [Sha256] [Prost] in
private theorem orReturn_frame {α β : Type} {P : State → Prop} {checked : Except KernelError α}
    {next : α → State × Except KernelError β} (start : P s) (kept : ∀ a, P (next a).1) :
    P (orReturn checked s next).1 := by
  cases checked with
  | ok a => exact kept a
  | error e => exact start

private theorem bare_idempotency (named : (operation call.op).isSome) :
    (step policy s (bare call)).1.idempotency = s.idempotency := by
  obtain ⟨op, ctx, env⟩ := call
  let P : State → Prop := fun t => t.idempotency = s.idempotency
  have recorded : ∀ (t : State) runId slot ds rs, P t → P (recordAll t runId slot ds rs) := by
    intro t runId slot ds rs before
    rw [recordAll_eq]
    exact before
  cases op with
  | putArtifact artifact =>
      show P (putArtifactCtx policy env artifact { ctx with requestKey := "" } s).1
      simp only [putArtifactCtx, idempotentGet_bare, idempotentPut_bare]
      refine orReturn_frame rfl fun _ => orReturn_frame rfl fun _ => orReturn_frame rfl fun _ => ?_
      split_ifs <;> rfl
  | startRun req =>
      show P (startRunCtx env req { ctx with requestKey := "" } s).1
      simp only [startRunCtx, idempotentGet_bare, idempotentPut_bare]
      refine orReturn_frame rfl fun _ => ?_
      split_ifs
      · rfl
      · rfl
      cases req.assembly with
      | none => rfl
      | some assembly =>
          refine orReturn_frame rfl fun _ => orReturn_frame rfl fun _ => ?_
          split_ifs <;> rfl
  | commit submitted =>
      show P (commitCtx env submitted { ctx with requestKey := "" } s).1
      simp only [commitCtx, idempotentGet_bare, idempotentPut_bare, reapExpiredLocked,
        record_eq_recordAll]
      refine orReturn_frame rfl fun _ => orReturn_frame rfl fun slot => ?_
      have reaped := recorded s submitted.runId (reapSlot env slot) []
        ((expiredClaims env slot).flatMap (expiryRecords submitted.runId slot.maxAttempts)) rfl
      cases (reapSlot env slot).claimed.lookup submitted.workId with
      | none => exact reaped
      | some c =>
          simp only
          split_ifs
          · exact reaped
          · exact reaped
          refine orReturn_frame reaped fun _ => orReturn_frame reaped fun _ => ?_
          exact recorded _ _ _ _ _ reaped
  | _ => cases named

theorem unkeyed_idempotency (wf : WellFormed s) (unkeyed : identOf call = none) :
    (step policy s call).1.idempotency = s.idempotency := by
  cases named : operation call.op with
  | some op =>
      have empty : call.ctx.requestKey = "" := by
        by_contra keyed
        simp [identOf, named, keyed] at unkeyed
      have same : bare call = call := by
        obtain ⟨_, ⟨caller, requestKey, deadline⟩, _⟩ := call
        simp only at empty
        subst empty
        rfl
      rw [← same]
      exact bare_idempotency (by simp [named])
  | none =>
      obtain ⟨atoms, path, allowed, -⟩ := step_explained policy wf call
      refine path.invariant (Allowed s call) (P := fun t => t.idempotency = s.idempotency) ?_ allowed
        rfl
      intro t a ok guard before
      have other : ∀ key v, a ≠ .remembered key v := by
        rintro key v rfl
        obtain ⟨op, ctx, env⟩ := call
        cases op with
        | putArtifact artifact => cases named
        | startRun req => cases named
        | commit submitted => cases named
        | _ => exact absurd ok (by simp [Allowed])
      cases a with
      | acted runId act =>
          obtain ⟨slot, found, -⟩ := guard
          simp only [kernel, Atom.apply, found, recordAll_eq]
          exact before
      | remembered key v => exact absurd rfl (other key v)
      | _ => exact before

/-- The response that a keyed call gives when it succeeds. -/
def answered (policy : ArtifactStorePolicy) (s : State) (call : Call) :
    List (Ident × IdempotentResult) :=
  match identOf call, cached (step policy s call).2 with
  | some i, some v => [(i, v)]
  | _, _ => []

/-- The responses of the keyed calls of a history, oldest first. -/
def answers (policy : ArtifactStorePolicy) (calls : List Call) : List (Ident × IdempotentResult) :=
  emitted (answered policy) (fun s call => (step policy s call).1) {} calls

/-- The first response to an identity. -/
def firstAnswer (i : Ident) (l : List (Ident × IdempotentResult)) : Option IdempotentResult :=
  (l.find? (·.1 = i)).map (·.2)

/-- The first response under a cache key, with the identity it was given to. -/
def firstUnder (key : String) (l : List (Ident × IdempotentResult)) :
    Option (Ident × IdempotentResult) :=
  l.find? (·.1.join = key)

omit [Sha256] [Prost] in
theorem firstUnder_append (key : String) (l m : List (Ident × IdempotentResult)) :
    firstUnder key (l ++ m) = (firstUnder key l).or (firstUnder key m) :=
  List.find?_append

omit [Sha256] [Prost] in
private theorem cached_answer (v : IdempotentResult) : cached (answer v) = some v := by
  cases v <;> rfl

theorem answers_snoc (policy : ArtifactStorePolicy) (calls : List Call) (call : Call) :
    answers policy (calls ++ [call]) =
      answers policy calls ++ answered policy (exec policy {} calls) call :=
  emitted_snoc _ _ _ _

theorem idempotency_step (wf : WellFormed s) (call : Call) (key : String) :
    (step policy s call).1.idempotency.lookup key = (s.idempotency.lookup key).or
      ((firstUnder key (answered policy s call)).map (·.2)) := by
  cases ident : identOf call with
  | none => simp [unkeyed_idempotency wf ident, answered, ident, firstUnder]
  | some i =>
      by_cases hit : checkDeadline call.env call.ctx = .ok () ∧ PayloadOk policy call ∧
          ∃ v, s.idempotency.lookup i.join = some v ∧ Fits i v
      · obtain ⟨timely, payload, v, held, fits⟩ := hit
        simp only [step_hit ident timely payload held fits, answered, ident, cached_answer, firstUnder]
        by_cases here : i.join = key
        · subst here
          simp [held]
        · simp [here]
      · have missed := step_miss ident fun timely payload v held fits =>
          hit ⟨timely, payload, v, held, fits⟩
        have same : (step policy s (bare call)).1.idempotency = s.idempotency :=
          bare_idempotency (by simp [(identOf_spec ident).1])
        simp only [missed, answered, ident]
        generalize step policy s (bare call) = outcome at same ⊢
        cases got : cached outcome.2 with
        | none => simp [remember, got, same, firstUnder]
        | some v =>
            simp only [remember, got, same, firstUnder]
            by_cases known : i.join ∈ s.idempotency
            · obtain ⟨w, held⟩ := lookup_of_mem known
              rw [if_pos known, same]
              by_cases here : i.join = key
              · subst here
                simp [held]
              · simp [here]
            · rw [if_neg known, lookup_insert_of]
              by_cases here : i.join = key
              · subst here
                simp [AList.lookup_eq_none.mpr known]
              · simp [here, Ne.symm here]

theorem idempotency_exec (policy : ArtifactStorePolicy) (calls : List Call) (key : String) :
    (exec policy {} calls).idempotency.lookup key =
      (firstUnder key (answers policy calls)).map (·.2) := by
  induction calls using List.reverseRecOn with
  | nil => rfl
  | append_singleton pre call ih =>
      have wf : WellFormed (exec policy {} pre) := reachable_wellFormed ⟨pre, rfl⟩
      rw [exec_snoc, idempotency_step wf, ih, answers_snoc, firstUnder_append, Option.map_or]

theorem answered_of {v : IdempotentResult} (ident : identOf call = some i)
    (got : cached (step policy s call).2 = some v) : answered policy s call = [(i, v)] := by
  simp [answered, ident, got]

theorem answered_spec {e : Ident × IdempotentResult} (given : e ∈ answered policy s call) :
    identOf call = some e.1 ∧ cached (step policy s call).2 = some e.2 ∧ Fits e.1 e.2 := by
  unfold answered at given
  cases ident : identOf call with
  | none => simp [ident] at given
  | some i =>
      cases got : cached (step policy s call).2 with
      | none => simp [ident, got] at given
      | some v =>
          simp only [ident, got, List.mem_singleton] at given
          subst given
          refine ⟨rfl, rfl, ?_⟩
          obtain ⟨named, -, -⟩ := identOf_spec ident
          obtain ⟨op, ctx, env⟩ := call
          cases op with
          | putArtifact artifact =>
              simp only [step, reply] at got
              split at got
              · obtain rfl := Option.some.inj got
                exact (Option.some.inj named).symm
              · cases got
          | startRun req =>
              simp only [step, reply] at got
              split at got
              · obtain rfl := Option.some.inj got
                exact .inl (Option.some.inj named).symm
              · cases got
          | commit submitted =>
              simp only [step, reply] at got
              split at got
              · obtain rfl := Option.some.inj got
                exact .inr (Option.some.inj named).symm
              · cases got
          | _ => cases named

theorem answered_timely {e : Ident × IdempotentResult} (given : e ∈ answered policy s call) :
    checkDeadline call.env call.ctx = .ok () ∧ PayloadOk policy call := by
  obtain ⟨ident, got, -⟩ := answered_spec given
  by_contra refused
  obtain ⟨error, same, -⟩ := step_refused (s := s) (identOf_spec ident).1 refused
  rw [same] at got
  cases got

theorem answers_fit {calls : List Call} {e : Ident × IdempotentResult}
    (given : e ∈ answers policy calls) : Fits e.1 e.2 := by
  obtain ⟨pre, call, post, -, here⟩ := mem_emitted.mp given
  exact (answered_spec here).2.2

omit [Sha256] [Prost] in
private theorem join_head {i : Ident} (named : Named i) :
    i.join.toList.head? = i.operation.toList.head? := by
  obtain ⟨op, caller, requestKey⟩ := i
  rcases named with same | same | same <;>
  · simp only at same
    subst same
    simp [Ident.join]

omit [Sha256] [Prost] in
theorem operation_of_join {i j : Ident} (ofI : Named i) (ofJ : Named j) (same : i.join = j.join) :
    i.operation = j.operation := by
  have heads : i.operation.toList.head? = j.operation.toList.head? := by
    rw [← join_head ofI, ← join_head ofJ, same]
  rcases ofI with a | a | a <;> rcases ofJ with b | b | b <;> rw [a, b] at heads ⊢ <;>
    simp at heads

omit [Sha256] [Prost] in
theorem fits_of_join {i j : Ident} {v : IdempotentResult} (fits : Fits i v) (named : Named j)
    (same : i.join = j.join) : Fits j v := by
  have ofI : Named i := by
    cases v with
    | artifactRef r => exact .inl fits
    | run r => exact .inr fits
  have op := operation_of_join ofI named same
  cases v with
  | artifactRef r => exact op.symm.trans fits
  | run r => exact fits.imp op.symm.trans op.symm.trans

omit [Sha256] [Prost] in
theorem identOf_named (ident : identOf call = some i) : Named i := by
  obtain ⟨named, -, -⟩ := identOf_spec ident
  obtain ⟨op, ctx, env⟩ := call
  cases op with
  | putArtifact artifact => exact .inl (Option.some.inj named).symm
  | startRun req => exact .inr (.inl (Option.some.inj named).symm)
  | commit submitted => exact .inr (.inr (Option.some.inj named).symm)
  | _ => cases named

/-- What a request key promises a call: its first response again and nothing else, or else the call
without its key, recorded. -/
structure Honoured (policy : ArtifactStorePolicy) (pre : List Call) (call : Call) (i : Ident) :
    Prop where
  repeated : ∀ v, firstAnswer i (answers policy pre) = some v →
    step policy (exec policy {} pre) call = (exec policy {} pre, answer v)
  fresh : firstAnswer i (answers policy pre) = none →
    step policy (exec policy {} pre) call =
      (remember i (step policy (exec policy {} pre) (bare call)).2
        (step policy (exec policy {} pre) (bare call)).1,
        (step policy (exec policy {} pre) (bare call)).2)

/-- When the kernel keeps that promise: a call past its own checks finds no other identity's response
under its cache key, and a call with a response to repeat is past its checks. -/
structure Unambiguous (policy : ArtifactStorePolicy) (pre : List Call) (call : Call) (i : Ident) :
    Prop where
  owner : PayloadOk policy call → ∀ e, firstUnder i.join (answers policy pre) = some e → e.1 = i
  payload : (firstAnswer i (answers policy pre)).isSome → PayloadOk policy call

omit [Sha256] [Prost] in
private theorem firstAnswer_owner {l : List (Ident × IdempotentResult)} {e : Ident × IdempotentResult}
    (first : firstUnder e.1.join l = some e) : firstAnswer e.1 l = some e.2 := by
  induction l with
  | nil => cases first
  | cons d l ih =>
      unfold firstUnder at first
      unfold firstAnswer
      rw [List.find?_cons] at first ⊢
      by_cases here : d.1 = e.1
      · simp only [here, decide_true] at first ⊢
        rw [Option.some.inj first]
        rfl
      · by_cases joined : d.1.join = e.1.join
        · simp only [joined, decide_true] at first
          exact absurd (congrArg (·.1) (Option.some.inj first)) here
        · simp only [joined, decide_false] at first
          simp only [here, decide_false]
          exact ih first

omit [Sha256] [Prost] in
private theorem firstUnder_of_answer {l : List (Ident × IdempotentResult)} {v : IdempotentResult}
    (first : firstAnswer i l = some v) : ∃ e, firstUnder i.join l = some e := by
  obtain ⟨e, found, -⟩ := Option.map_eq_some_iff.mp first
  have same : e.1 = i := by simpa using List.find?_some found
  refine Option.isSome_iff_exists.mp (List.find?_isSome.mpr ⟨e, List.mem_of_find?_eq_some found, ?_⟩)
  simp [same]

theorem honoured_of_unambiguous {pre : List Call} (ident : identOf call = some i)
    (timely : checkDeadline call.env call.ctx = .ok ()) (clear : Unambiguous policy pre call i) :
    Honoured policy pre call i := by
  refine ⟨?_, ?_⟩
  · intro v first
    have payload := clear.payload (by simp [first])
    obtain ⟨e, under⟩ := firstUnder_of_answer first
    obtain rfl := clear.owner payload e under
    obtain rfl := Option.some.inj ((firstAnswer_owner under).symm.trans first)
    refine step_hit ident timely payload ?_ (answers_fit (List.mem_of_find?_eq_some under))
    rw [idempotency_exec, under]
    rfl
  · intro none
    refine step_miss ident fun _ payload v held _ => ?_
    rw [idempotency_exec] at held
    obtain ⟨e, under, -⟩ := Option.map_eq_some_iff.mp held
    obtain rfl := clear.owner payload e under
    rw [firstAnswer_owner under] at none
    cases none

private theorem answers_extend {calls pre post : List Call} {e : Ident × IdempotentResult}
    (split : calls = pre ++ post) (early : e ∈ answers policy pre) : e ∈ answers policy calls := by
  obtain ⟨before, call, after, rfl, given⟩ := mem_emitted.mp early
  exact mem_emitted.mpr ⟨before, call, after ++ post, by simp [split], given⟩

/-- No two identities of a history share a cache entry. -/
def Separate (l : List (Ident × IdempotentResult)) : Prop :=
  ∀ e ∈ l, ∀ e' ∈ l, e.1.join = e'.1.join → e.1 = e'.1

private theorem first_owner {calls : List Call}
    (clear : ∀ pre call post i, calls = pre ++ call :: post → identOf call = some i →
      checkDeadline call.env call.ctx = .ok () → Unambiguous policy pre call i) :
    ∀ e ∈ answers policy calls, ∃ f, firstUnder e.1.join (answers policy calls) = some f ∧
      f.1 = e.1 := by
  induction calls using List.reverseRecOn with
  | nil => exact fun e member => by cases member
  | append_singleton pre call ih =>
      intro e member
      have before := ih fun pre' call' post i split => clear pre' call' (post ++ [call]) i
        (by simp [split])
      rw [answers_snoc] at member ⊢
      rw [firstUnder_append]
      rcases List.mem_append.mp member with old | new
      · obtain ⟨f, under, same⟩ := before e old
        exact ⟨f, by rw [under]; rfl, same⟩
      · obtain ⟨ident, got, -⟩ := answered_spec new
        obtain ⟨timely, payload⟩ := answered_timely new
        cases under : firstUnder e.1.join (answers policy pre) with
        | some f =>
            exact ⟨f, rfl, (clear pre call [] e.1 rfl ident timely).owner payload f under⟩
        | none =>
            rw [answered_of ident got]
            exact ⟨e, by simp [firstUnder], rfl⟩

/-- Request keys over a whole history: every call in time is honoured and no two identities share an
entry, exactly when every call is unambiguous where it is made. -/
theorem requests_honoured (policy : ArtifactStorePolicy) (calls : List Call) :
    ((∀ pre call post i, calls = pre ++ call :: post → identOf call = some i →
        checkDeadline call.env call.ctx = .ok () → Honoured policy pre call i) ∧
      Separate (answers policy calls)) ↔
      ∀ pre call post i, calls = pre ++ call :: post → identOf call = some i →
        checkDeadline call.env call.ctx = .ok () → Unambiguous policy pre call i := by
  constructor
  · rintro ⟨honoured, separate⟩ pre call post i split ident timely
    have kept := honoured pre call post i split ident timely
    refine ⟨?_, ?_⟩
    · intro payload e under
      have early := List.mem_of_find?_eq_some under
      have same : e.1.join = i.join := by simpa using List.find?_some under
      have fits := fits_of_join (answers_fit early) (identOf_named ident) same
      have held : (exec policy {} pre).idempotency.lookup i.join = some e.2 := by
        rw [idempotency_exec, under]
        rfl
      have hit := step_hit ident timely payload held fits
      have given : (i, e.2) ∈ answered policy (exec policy {} pre) call := by
        rw [answered_of ident (v := e.2) (by rw [hit, cached_answer])]
        exact List.mem_singleton_self _
      have mine : (i, e.2) ∈ answers policy calls := mem_emitted.mpr ⟨pre, call, post, split, given⟩
      exact separate e (answers_extend split early) (i, e.2) mine same
    · intro first
      obtain ⟨v, first⟩ := Option.isSome_iff_exists.mp first
      by_contra invalid
      obtain ⟨error, refused, -⟩ :
          ∃ e, step policy (exec policy {} pre) call = (exec policy {} pre, .error e) ∧ _ :=
        step_refused (identOf_spec ident).1 fun passes => invalid passes.2
      rw [kept.repeated v first] at refused
      cases v <;> cases congrArg Prod.snd refused
  · intro clear
    refine ⟨fun pre call post i split ident timely =>
      honoured_of_unambiguous ident timely (clear pre call post i split ident timely), ?_⟩
    intro e member e' member' same
    obtain ⟨f, under, owner⟩ := first_owner clear e member
    obtain ⟨f', under', owner'⟩ := first_owner clear e' member'
    rw [same, under'] at under
    rw [← owner, ← owner', Option.some.inj under]

end Calls

theorem join_plain {i j : Ident} (op : i.operation = j.operation) (same : i.join = j.join)
    (plain : '\x00' ∉ i.caller.toList) (plain' : '\x00' ∉ j.caller.toList) : i = j := by
  obtain ⟨opI, callerI, keyI⟩ := i
  obtain ⟨opJ, callerJ, keyJ⟩ := j
  simp only at op plain plain'
  subst op
  have chars : callerI.toList ++ '\x00' :: keyI.toList = callerJ.toList ++ '\x00' :: keyJ.toList := by
    have all := congrArg String.toList same
    simpa [Ident.join] using all
  have none : callerI.toList.count '\x00' = callerJ.toList.count '\x00' := by
    rw [List.count_eq_zero.mpr plain, List.count_eq_zero.mpr plain']
  obtain ⟨caller, key⟩ := Substrate.Library.Framing.field_inj_of_count chars none
  rw [String.toList_inj.mp caller, String.toList_inj.mp key]

/-- Where no caller has a 0x00, a call is unambiguous once its payload passes. -/
theorem unambiguous_of_plain [Sha256] [Prost] {policy : ArtifactStorePolicy} {pre : List Call}
    {call : Call} {i : Ident} (ident : identOf call = some i)
    (plain : ∀ c ∈ call :: pre, '\x00' ∉ c.ctx.caller.toList)
    (payload : (firstAnswer i (answers policy pre)).isSome → PayloadOk policy call) :
    Unambiguous policy pre call i := by
  have caller {c : Call} {j : Ident} (listed : c ∈ call :: pre) (ident : identOf c = some j) :
      '\x00' ∉ j.caller.toList := by
    rw [(identOf_spec ident).2.2]
    exact plain c listed
  refine ⟨fun _ e first => ?_, payload⟩
  have member := List.mem_of_find?_eq_some first
  have same : e.1.join = i.join := by simpa using List.find?_some first
  obtain ⟨before, c, after, rfl, given⟩ := mem_emitted.mp member
  have own := (answered_spec given).1
  exact join_plain (operation_of_join (identOf_named own) (identOf_named ident) same) same
    (caller (List.mem_cons_of_mem _ (List.mem_append_right _ List.mem_cons_self)) own)
    (caller List.mem_cons_self ident)

section Texts

open Substrate.Kernel.Concrete

/-- Put an artifact as a caller under a request key. -/
def putAs (caller requestKey : String) (artifact : Artifact) : Call :=
  { callAt 0 (.putArtifact artifact) with ctx := { caller, requestKey } }

/-- Two callers share an entry, and a repeat with an empty bag gets an error. -/
theorem requests_honoured_joined :
    ¬ Honoured policy [putAs "a\x00b" "c" (text "one")] (putAs "a" "b\x00c" (text "two"))
        ⟨"put_artifact", "a", "b\x00c"⟩ ∧
      ¬ Honoured policy [putAs "a" "k" (text "one")] (putAs "a" "k" { traits := .empty })
        ⟨"put_artifact", "a", "k"⟩ := by
  refine ⟨?_, ?_⟩
  · rintro ⟨-, fresh⟩
    have none : firstAnswer ⟨"put_artifact", "a", "b\x00c"⟩
        (answers policy [putAs "a\x00b" "c" (text "one")]) = none := by decide +kernel
    have replies := congrArg (fun outcome => cached outcome.2) (fresh none)
    revert replies
    decide +kernel
  · rintro ⟨repeated, -⟩
    have first : firstAnswer ⟨"put_artifact", "a", "k"⟩
        (answers policy [putAs "a" "k" (text "one")]) =
          some (.artifactRef ⟨artifactIdOf (text "one")⟩) := by decide +kernel
    have replies := congrArg (fun outcome => cached outcome.2) (repeated _ first)
    revert replies
    decide +kernel

end Texts

end Substrate.Protocol.Idempotency
