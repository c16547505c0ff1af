/- ID: Substrate/Protocol/Refine
   digest: Every call is a path of enabled atoms, each of a kind the call may take. -/

import Substrate.Protocol.Serial

set_option autoImplicit false
set_option relaxedAutoImplicit false

namespace Substrate.Protocol.Refine

open Substrate.Kernel.Wire
open Substrate.Kernel.Hashing
open Substrate.Kernel.Memory
open Substrate.Kernel.Registry
open Substrate.Kernel.Store
open Substrate.Kernel.Schedule
open Substrate.Kernel.Assembly (validateAssembly materializeAssembly)
open Substrate.Kernel.Runs
open Substrate.Kernel.Work
open Substrate.Kernel.Api
open Substrate.Protocol.Atoms
open Substrate.Protocol.Slots
open Substrate.Protocol.Serial
open Substrate.Library.FiniteMap
open Substrate.Library.Transition

variable [Sha256] [Prost]

/-- The claims that a call's reaping finds expired. -/
def expiring (s : State) (call : Call) : List (String × ClaimedSlot) :=
  match call.op with
  | .claimReady req => (s.runs.lookup req.runId).elim [] (expiredClaims call.env)
  | .failWork req => (s.runs.lookup req.runId).elim [] (expiredClaims call.env)
  | .commit submitted => (s.runs.lookup submitted.runId).elim [] (expiredClaims call.env)
  | .heartbeat req =>
      (s.runs.lookup req.runId).elim [] fun slot =>
        expiredClaims call.env (renewSlot call.env req slot)
  | _ => []

omit [Sha256] [Prost] in
theorem expiring_expired {s : State} {call : Call} {e : String × ClaimedSlot}
    (member : e ∈ expiring s call) : leaseExpired call.env.now e.2 := by
  obtain ⟨op, ctx, env⟩ := call
  have listed : ∀ (found : Option RunSlot) (f : RunSlot → RunSlot),
      e ∈ found.elim [] (fun slot => expiredClaims env (f slot)) → leaseExpired env.now e.2 := by
    intro found f member
    cases found with
    | none => cases member
    | some slot => exact (expiredClaims_lookup member).2
  cases op with
  | claimReady req => exact listed _ id member
  | failWork req => exact listed _ id member
  | commit submitted => exact listed _ id member
  | heartbeat req => exact listed _ (renewSlot env req) member
  | _ => cases member

/-- The acts a scheduling call may take on its run. -/
def ActAllowed (s : State) (call : Call) (act : SlotAct) : Prop :=
  (∃ e ∈ expiring s call, act = expireAct e) ∨
    match call.op with
    | .claimReady _ => (∃ work, act = .claim work) ∨ act = .stall
    | .heartbeat req => ∃ id ∈ req.workIds, ∃ leaseUntil, act = .renew id leaseUntil
    | .failWork req => act = .stall ∨ ∃ slot c reason, s.runs.lookup req.runId = some slot ∧
        slot.claimed.lookup req.workId = some c ∧
        act = .fail req.workId c reason (req.terminal || slot.maxAttempts ≤ c.attempt)
    | .commit submitted => ∃ slot c, s.runs.lookup submitted.runId = some slot ∧
        slot.claimed.lookup submitted.workId = some c ∧ act = .commit c submitted.outputs
    | _ => False

/-- The atoms a call may take. -/
def Allowed (s : State) (call : Call) (a : Atom) : Prop :=
  match call.op with
  | .register manifest => a = .registered manifest
  | .transition req => ∃ target, a = .advanced req.module target
  | .putArtifact artifact =>
      a = .artifactStored { artifact with id := artifactIdOf artifact } ∨
        ∃ key r, a = .remembered key (.artifactRef r)
  | .putBlob req => ∃ slot, a = .blobStored slot ∧ slot.data = req.data ∧ slot.ref.space = req.space
  | .putContract contract => a = .contractStored (sealContract contract)
  | .publish event => a = .published event
  | .append req => a = .appended req
  | .startRun req => (∃ slot, a = .started slot ∧ slot.run.id = req.id) ∨
      ∃ key r, a = .remembered key (.run r)
  | .injectInput req => ∃ input, req.input = some input ∧ a = .acted req.runId (.inject input)
  | .claimReady req => ∃ act, a = .acted req.runId act ∧ ActAllowed s call act
  | .heartbeat req => ∃ act, a = .acted req.runId act ∧ ActAllowed s call act
  | .failWork req => ∃ act, a = .acted req.runId act ∧ ActAllowed s call act
  | .commit submitted => (∃ act, a = .acted submitted.runId act ∧ ActAllowed s call act) ∨
      ∃ key r, a = .remembered key (.run r)
  | .cancelRun ref => a = .acted ref.id .cancel
  | _ => False

omit [Sha256] [Prost] in
/-- The run whose work a call schedules. -/
def scheduledRun (call : Call) : Option String :=
  match call.op with
  | .claimReady req => some req.runId
  | .heartbeat req => some req.runId
  | .failWork req => some req.runId
  | .commit submitted => some submitted.runId
  | _ => none

omit [Prost] in
/-- The calls that act on a run: an injection, a cancellation, or one that schedules its work. -/
theorem allowed_acted {s : State} {call : Call} {runId : String} {act : SlotAct}
    (allowed : Allowed s call (.acted runId act)) :
    (∃ req input, call.op = .injectInput req ∧ req.runId = runId ∧ req.input = some input ∧
        act = .inject input) ∨
      (∃ ref, call.op = .cancelRun ref ∧ ref.id = runId ∧ act = .cancel) ∨
      (scheduledRun call = some runId ∧ ActAllowed s call act) := by
  obtain ⟨op, ctx, env⟩ := call
  cases op with
  | injectInput req =>
      obtain ⟨input, given, same⟩ := allowed
      cases same
      exact .inl ⟨req, input, rfl, rfl, given, rfl⟩
  | cancelRun ref =>
      cases (show Atom.acted runId act = _ from allowed)
      exact .inr (.inl ⟨ref, rfl, rfl, rfl⟩)
  | claimReady req =>
      obtain ⟨act', same, ok⟩ := allowed
      cases same
      exact .inr (.inr ⟨rfl, ok⟩)
  | heartbeat req =>
      obtain ⟨act', same, ok⟩ := allowed
      cases same
      exact .inr (.inr ⟨rfl, ok⟩)
  | failWork req =>
      obtain ⟨act', same, ok⟩ := allowed
      cases same
      exact .inr (.inr ⟨rfl, ok⟩)
  | commit submitted =>
      rcases allowed with ⟨act', same, ok⟩ | ⟨key, r, same⟩
      · cases same
        exact .inr (.inr ⟨rfl, ok⟩)
      · cases same
  | startRun req => rcases allowed with ⟨slot, same, -⟩ | ⟨key, r, same⟩ <;> cases same
  | putArtifact artifact => rcases allowed with same | ⟨key, r, same⟩ <;> cases same
  | putBlob req =>
      obtain ⟨slot, same, -⟩ := allowed
      cases same
  | transition req =>
      obtain ⟨target, same⟩ := allowed
      cases same
  | _ => first | exact allowed.elim | cases allowed

omit [Prost] in
theorem allowed_registered {s : State} {call : Call} {manifest : ModuleManifest}
    (allowed : Allowed s call (.registered manifest)) : call.op = .register manifest := by
  obtain ⟨op, ctx, env⟩ := call
  cases op with
  | register other =>
      cases (show Atom.registered manifest = .registered other from allowed)
      rfl
  | _ => exact absurd allowed (by simp [Allowed])

omit [Prost] in
theorem allowed_advanced {s : State} {call : Call} {name : String} {target : Lifecycle}
    (allowed : Allowed s call (.advanced name target)) : ∃ req, call.op = .transition req := by
  obtain ⟨op, ctx, env⟩ := call
  cases op with
  | transition req => exact ⟨req, rfl⟩
  | _ => exact absurd allowed (by simp [Allowed])

omit [Prost] in
theorem allowed_appended {s : State} {call : Call} {req : AppendRequest}
    (allowed : Allowed s call (.appended req)) : call.op = .append req := by
  obtain ⟨op, ctx, env⟩ := call
  cases op with
  | append other =>
      cases (show Atom.appended req = .appended other from allowed)
      rfl
  | _ => exact absurd allowed (by simp [Allowed])

omit [Prost] in
theorem allowed_started {s : State} {call : Call} {slot : RunSlot}
    (allowed : Allowed s call (.started slot)) :
    ∃ req, call.op = .startRun req ∧ slot.run.id = req.id := by
  obtain ⟨op, ctx, env⟩ := call
  cases op with
  | startRun req =>
      rcases allowed with ⟨slot', same, named⟩ | ⟨key, r, same⟩
      · cases same
        exact ⟨req, rfl, named⟩
      · cases same
  | _ => exact absurd allowed (by simp [Allowed])

omit [Sha256] [Prost] in
/-- The acts a scheduling call may take, by kind. -/
theorem actAllowed_cases {s : State} {call : Call} {act : SlotAct}
    (allowed : ActAllowed s call act) :
    (∃ e ∈ expiring s call, act = expireAct e) ∨
      (∃ req, call.op = .claimReady req ∧ ((∃ work, act = .claim work) ∨ act = .stall)) ∨
      (∃ req id leaseUntil, call.op = .heartbeat req ∧ id ∈ req.workIds ∧ act = .renew id leaseUntil) ∨
      (∃ req, call.op = .failWork req ∧ (act = .stall ∨ ∃ slot c reason,
        s.runs.lookup req.runId = some slot ∧ slot.claimed.lookup req.workId = some c ∧
        act = .fail req.workId c reason (req.terminal || slot.maxAttempts ≤ c.attempt))) ∨
      ∃ submitted slot c, call.op = .commit submitted ∧
        s.runs.lookup submitted.runId = some slot ∧
        slot.claimed.lookup submitted.workId = some c ∧ act = .commit c submitted.outputs := by
  obtain ⟨op, ctx, env⟩ := call
  rcases allowed with expired | other
  · exact .inl expired
  · cases op with
    | claimReady req => exact .inr (.inl ⟨req, rfl, other⟩)
    | heartbeat req =>
        obtain ⟨id, listed, leaseUntil, same⟩ := other
        exact .inr (.inr (.inl ⟨req, id, leaseUntil, rfl, listed, same⟩))
    | failWork req => exact .inr (.inr (.inr (.inl ⟨req, rfl, other⟩)))
    | commit submitted =>
        obtain ⟨slot, c, found, held, same⟩ := other
        exact .inr (.inr (.inr (.inr ⟨submitted, slot, c, rfl, found, held, same⟩)))
    | _ => exact other.elim

omit [Sha256] [Prost] in
/-- The work items a reply hands out. -/
def handedOut : Reply → List WorkItem
  | .claim response => response.items
  | _ => []

/-- A change of state explained by a path of allowed atoms that hand out `items`. -/
def Explained (s : State) (allowed : Atom → Prop) (after : State) (items : List WorkItem) : Prop :=
  ∃ atoms, Path kernel s atoms after ∧ (∀ a ∈ atoms, allowed a) ∧
    atoms.filterMap Atom.handsOut = items

theorem Explained.refl (s : State) (allowed : Atom → Prop) : Explained s allowed s [] := by
  refine ⟨[], Path.nil s, ?_, rfl⟩
  intro a member
  cases member

theorem Explained.single {s : State} {allowed : Atom → Prop} {a : Atom} (guard : a.enabled s)
    (ok : allowed a) (silent : a.handsOut = none) : Explained s allowed (a.apply s) [] :=
  ⟨[a], Path.single guard, by simpa using ok, by simp [silent]⟩

theorem Explained.remember {s after : State} {allowed : Atom → Prop} {items : List WorkItem}
    (explained : Explained s allowed after items) (op : String) (ctx : RequestContext)
    (value : IdempotentResult) (ok : ∀ key, allowed (.remembered key value)) :
    Explained s allowed (idempotentPut after op ctx value) items := by
  unfold idempotentPut
  cases idempotencyKey op ctx with
  | none => exact explained
  | some key =>
      by_cases seen : key ∈ after.idempotency
      · simpa only [seen, if_true] using explained
      · obtain ⟨atoms, path, each, silent⟩ := explained
        simp only [seen, if_false]
        refine ⟨atoms ++ [.remembered key value],
          path.snoc (M := kernel) (a := .remembered key value) seen, ?_, ?_⟩
        · intro a member
          rcases List.mem_append.mp member with before | last
          · exact each a before
          · rw [List.mem_singleton.mp last]
            exact ok key
        · rw [List.filterMap_append, silent]
          exact List.append_nil items

omit [Sha256] [Prost] in
theorem runningSlot_ok {s : State} {runId : String} {slot : RunSlot} :
    runningSlot s runId = .ok slot ↔
      s.runs.lookup runId = some slot ∧ slot.run.state = .running := by
  unfold runningSlot
  cases s.runs.lookup runId with
  | none => simp
  | some other =>
      by_cases running : other.run.state = .running
      · simp only [running, if_true, Except.ok.injEq, Option.some.injEq]
        constructor
        · rintro rfl
          exact ⟨rfl, running⟩
        · exact fun h => h.1
      · simp only [running, if_false, Option.some.injEq]
        constructor
        · intro h
          cases h
        · rintro ⟨rfl, h⟩
          exact absurd h running

omit [Sha256] [Prost] in
/-- A call that succeeds has passed its check. -/
theorem orReturn_ok {α β : Type} {checked : Except KernelError α} {s t : State}
    {next : α → State × Except KernelError β} {b : β}
    (ok : orReturn checked s next = (t, .ok b)) : ∃ a, checked = .ok a ∧ next a = (t, .ok b) := by
  cases checked with
  | ok a => exact ⟨a, rfl, ok⟩
  | error e => cases ok

theorem Explained.orReturn {α β : Type} {checked : Except KernelError α} {start s : State}
    {next : α → State × Except KernelError β} {allowed : Atom → Prop}
    (refused : Explained start allowed s [])
    (ok : ∀ a, checked = .ok a → Explained start allowed (next a).1 []) :
    Explained start allowed (orReturn checked s next).1 [] := by
  cases checked with
  | ok a => exact ok a rfl
  | error e => exact refused

theorem Explained.reply {α : Type} {wrap : α → Reply} {s : State} {allowed : Atom → Prop}
    {result : State × Except KernelError α} (silent : ∀ a, handedOut (wrap a) = [])
    (explained : Explained s allowed result.1 []) :
    Explained s allowed (reply wrap result).1 (handedOut (reply wrap result).2) := by
  obtain ⟨after, outcome⟩ := result
  cases outcome with
  | ok a =>
      show Explained s allowed after (handedOut (wrap a))
      rw [silent a]
      exact explained
  | error e => exact explained

variable {s : State} {allowed : Atom → Prop}

theorem transition_explained {env : Env} {req : TransitionRequest} {ctx : RequestContext}
    (ok : ∀ target, allowed (.advanced req.module target)) :
    Explained s allowed (transitionReq env req ctx s).1 [] := by
  refine Explained.orReturn (.refl _ _) fun _ _ => ?_
  cases found : s.modules.find? (·.manifest.name == req.module) with
  | none => exact .refl s allowed
  | some slot =>
      by_cases step : ((Lifecycle.tryFrom req.toState).getD .unspecified).asI32 =
          slot.lifecycle.asI32 + 1
      · simp only [step, if_true]
        exact Explained.single (a := .advanced req.module _) ⟨slot, found, step⟩ (ok _) rfl
      · simp only [step, if_false]
        exact .refl s allowed

theorem putArtifact_explained {policy : ArtifactStorePolicy} {env : Env} {artifact : Artifact}
    {ctx : RequestContext}
    (stored : allowed (.artifactStored { artifact with id := artifactIdOf artifact }))
    (remembered : ∀ key r, allowed (.remembered key (.artifactRef r))) :
    Explained s allowed (putArtifactCtx policy env artifact ctx s).1 [] := by
  refine Explained.orReturn (.refl _ _) fun _ _ => Explained.orReturn (.refl _ _) fun _ valid => ?_
  split
  · exact .refl s allowed
  · refine Explained.orReturn (.refl _ _) fun _ _ => ?_
    refine Explained.remember ?_ _ _ _ fun key => remembered key _
    split_ifs with known
    · exact .refl s allowed
    · exact Explained.single (a := .artifactStored { artifact with id := artifactIdOf artifact })
        ⟨rfl, known, policy, valid⟩ stored rfl

theorem putBlob_explained {policy : ArtifactStorePolicy} {req : PutBlobRequest}
    (ok : ∀ slot : BlobSlot, slot.data = req.data → slot.ref.space = req.space →
      allowed (.blobStored slot)) :
    Explained s allowed (putBlob policy req s).1 [] := by
  refine Explained.orReturn (.refl _ _) fun _ _ => ?_
  simp only
  split_ifs with mode known
  · exact .refl s allowed
  · exact .refl s allowed
  · exact Explained.single (a := .blobStored
      { data := req.data
        ref := { digest := blobId req.data, byteCount := UInt64.ofNat req.data.length
                 space := req.space } })
      ⟨rfl, rfl, known⟩ (ok _ rfl rfl) rfl

theorem putContract_explained {contract : Contract}
    (ok : allowed (.contractStored (sealContract contract))) :
    Explained s allowed (putContract contract s).1 [] := by
  have store : contract.ref ≠ "" → (∀ existing, s.contracts.lookup contract.ref = some existing →
      isContractPlaceholder existing) → Explained s allowed
        (Atom.apply s (.contractStored (sealContract contract))) [] :=
    fun named free => Explained.single ⟨named, free⟩ ok rfl
  simp only [putContract]
  split_ifs with unnamed mismatch
  · exact .refl s allowed
  · exact .refl s allowed
  · cases found : s.contracts.lookup contract.ref with
    | none =>
        refine store unnamed ?_
        intro existing there
        rw [found] at there
        cases there
    | some existing =>
        simp only
        split_ifs with same fill
        · exact .refl s allowed
        · refine store unnamed ?_
          intro other there
          rw [found] at there
          obtain rfl := Option.some.inj there
          rw [Bool.and_eq_true] at fill
          exact fill.1
        · exact .refl s allowed

theorem startRun_explained {env : Env} {req : RunRequest} {ctx : RequestContext}
    (started : ∀ slot : RunSlot, slot.run.id = req.id → allowed (.started slot))
    (remembered : ∀ key r, allowed (.remembered key (.run r))) :
    Explained s allowed (startRunCtx env req ctx s).1 [] := by
  refine Explained.orReturn (.refl _ _) fun _ _ => ?_
  split
  · exact .refl s allowed
  · split_ifs with unnamed known
    · exact .refl s allowed
    · exact .refl s allowed
    · cases req.assembly with
      | none => exact .refl s allowed
      | some assembly =>
          refine Explained.orReturn (.refl _ _) fun assembly _ =>
            Explained.orReturn (.refl _ _) fun _ valid => ?_
          simp only
          split_ifs with zero
          · exact .refl s allowed
          · refine Explained.remember ?_ _ _ _ fun key => remembered key _
            exact Explained.single (a := .started (freshSlot req assembly _))
              ⟨known, env, req, assembly, _, rfl, zero, valid⟩ (started _ rfl) rfl

theorem Explained.ofTrace {runId : String} {slot after : RunSlot} {acts : List SlotAct}
    {ds : List Derivation} {rs : List Record} {items : List WorkItem} (allowed : Atom → Prop)
    (found : s.runs.lookup runId = some slot)
    (trace : Trace s.modules s.artifacts runId slot acts after ds rs items)
    (ok : ∀ a ∈ acts, allowed (.acted runId a)) :
    Explained s allowed (recordAll s runId after ds rs) items := by
  refine ⟨acts.map (.acted runId), trace.lift found, ?_, ?_⟩
  · intro a member
    obtain ⟨act, here, rfl⟩ := List.mem_map.mp member
    exact ok act here
  · rw [List.filterMap_map]
    exact trace.items

theorem injectInput_explained {env : Env} {req : InjectInputRequest} {ctx : RequestContext}
    (ok : ∀ input, req.input = some input → allowed (.acted req.runId (.inject input))) :
    Explained s allowed (injectInputCtx env req ctx s).1 [] := by
  refine Explained.orReturn (.refl _ _) fun _ _ => ?_
  cases given : req.input with
  | none => exact .refl s allowed
  | some input =>
      simp only
      split_ifs with unnamed
      · exact .refl s allowed
      · cases there : input.artifact with
        | none => exact .refl s allowed
        | some r =>
            simp only
            split_ifs with stored
            · refine Explained.orReturn (.refl _ _) fun slot running => ?_
              obtain ⟨found, running⟩ := runningSlot_ok.mp running
              split_ifs with bound
              · have guard : (SlotAct.inject input).enabled s.modules s.artifacts req.runId slot := by
                  refine ⟨⟨r, there, stored⟩, unnamed, ?_⟩
                  simpa using bound
                simp only [record_eq_recordAll]
                exact Explained.ofTrace allowed found (Trace.single running guard)
                  (by simpa using ok input given)
              · exact .refl s allowed
            · exact .refl s allowed

theorem cancelRun_explained {ref : RunRef} (ok : allowed (.acted ref.id .cancel)) :
    Explained s allowed (cancelRun ref s).1 [] := by
  refine Explained.orReturn (.refl _ _) fun slot running => ?_
  obtain ⟨found, running⟩ := runningSlot_ok.mp running
  simp only [record_eq_recordAll]
  exact Explained.ofTrace allowed found (Trace.single (a := .cancel) running trivial)
    (by simpa using ok)

omit [Sha256] [Prost] in
private theorem allowed_of_expired {call : Call} {es : List (String × ClaimedSlot)}
    (expired : expiring s call = es) {act : SlotAct} (member : act ∈ es.map expireAct) :
    ActAllowed s call act := by
  obtain ⟨e, there, rfl⟩ := List.mem_map.mp member
  exact .inl ⟨e, by rw [expired]; exact there, rfl⟩

theorem heartbeat_explained {env : Env} {req : HeartbeatRequest} {ctx : RequestContext}
    (ok : ∀ act, ActAllowed s ⟨.heartbeat req, ctx, env⟩ act → allowed (.acted req.runId act)) :
    Explained s allowed (heartbeat env req s).1 [] := by
  refine Explained.orReturn (.refl _ _) fun slot running => ?_
  obtain ⟨found, running⟩ := runningSlot_ok.mp running
  let leaseUntil := saturatingAdd env.now
    (Int64.ofNat (orDefault req.extendLeaseMs slot.defaultLeaseMs).toNat)
  have still : (renewSlot env req slot).run.state = .running := by
    rw [renewSlot, foldl_renew_run]
    exact running
  have trace : Trace s.modules s.artifacts req.runId slot _ _ _ _ _ :=
    (renew_trace leaseUntil req.workIds running).append (reap_trace env still)
  have explained := Explained.ofTrace allowed found trace ?_
  · simp only [reapExpiredLocked, record_eq_recordAll, recordAll_recordAll]
    exact explained
  · intro act member
    refine ok act ?_
    rcases List.mem_append.mp member with renewed | expired
    · obtain ⟨id, listed, rfl⟩ := List.mem_map.mp renewed
      exact .inr ⟨id, List.mem_of_mem_filter listed, leaseUntil, rfl⟩
    · refine allowed_of_expired ?_ expired
      simp only [expiring, found, Option.elim]
      rfl

theorem claimReady_explained {env : Env} {req : ClaimRequest} (ctx : RequestContext)
    (wf : WellFormed s)
    (ok : ∀ act, ActAllowed s ⟨.claimReady req, ctx, env⟩ act → allowed (.acted req.runId act)) :
    Explained s allowed (claimReady env req s).1
      (handedOut (reply .claim (claimReady env req s)).2) := by
  unfold claimReady
  cases running : runningSlot s req.runId with
  | error e => exact .refl s allowed
  | ok slot =>
      obtain ⟨found, running⟩ := runningSlot_ok.mp running
      have reaping : Trace s.modules s.artifacts req.runId slot _ _ _ _ _ := reap_trace env running
      have shape := reaping.shape (wf req.runId slot found)
      have expired : expiring s ⟨.claimReady req, ctx, env⟩ = expiredClaims env slot := by
        simp only [expiring, found, Option.elim]
      simp only [orReturn, reapExpiredLocked, record_eq_recordAll, recordAll_recordAll,
        recordAll_modules]
      generalize within : min _ (inFlightCapacity (reapSlot env slot)) = want
      have claimable : Claimable s.modules (reapSlot env slot)
          ((readyCandidates s.modules (reapSlot env slot) req).take want) :=
        take_claimable shape.ids (by rw [← within]; exact min_le_right _ _) shape.room
      have claiming : Trace s.modules s.artifacts req.runId (reapSlot env slot) _ _ _ _ _ :=
        claim_trace env (by rw [reapSlot_run]; exact running) claimable
      generalize batch : claimUnits env req.runId (reapSlot env slot)
        ((readyCandidates s.modules (reapSlot env slot) req).take want) = claims at claiming ⊢
      obtain ⟨claimed, items⟩ := claims
      have acts : ∀ act ∈ (expiredClaims env slot).map expireAct ++ items.map SlotAct.claim,
          allowed (.acted req.runId act) := by
        intro act member
        refine ok act ?_
        rcases List.mem_append.mp member with gone | taken
        · exact allowed_of_expired expired gone
        · obtain ⟨work, -, rfl⟩ := List.mem_map.mp taken
          exact .inr (.inl ⟨work, rfl⟩)
      have both := reaping.append claiming
      simp only
      split_ifs with idle
      · have still : claimed.run.state = .running := by
          have same := claimUnits_run env req.runId (reapSlot env slot)
            ((readyCandidates s.modules (reapSlot env slot) req).take want)
          rw [batch] at same
          rw [same, reapSlot_run]
          exact running
        have all := both.append (Trace.single (a := .stall) still idle.2)
        have explained := Explained.ofTrace allowed found all ?_
        · simpa [reply, handedOut, SlotAct.derivation, SlotAct.handsOut, SlotAct.records,
            SlotAct.apply] using explained
        · intro act member
          rcases List.mem_append.mp member with before | last
          · exact acts act before
          · rw [List.mem_singleton.mp last]
            exact ok .stall (.inr (.inr rfl))
      · simpa [reply, handedOut] using Explained.ofTrace allowed found both acts

theorem failWork_explained {env : Env} {req : FailWorkRequest} {ctx : RequestContext}
    (ok : ∀ act, ActAllowed s ⟨.failWork req, ctx, env⟩ act → allowed (.acted req.runId act)) :
    Explained s allowed (failWork env req s).1 [] := by
  refine Explained.orReturn (.refl _ _) fun slot running => ?_
  obtain ⟨found, running⟩ := runningSlot_ok.mp running
  have reaping : Trace s.modules s.artifacts req.runId slot _ _ _ _ _ := reap_trace env running
  have still : (reapSlot env slot).run.state = .running := by
    rw [reapSlot_run]
    exact running
  have gone : ∀ act ∈ (expiredClaims env slot).map expireAct, allowed (.acted req.runId act) := by
    intro act member
    refine ok act (allowed_of_expired ?_ member)
    simp only [expiring, found, Option.elim]
  simp only [reapExpiredLocked, record_eq_recordAll]
  cases held : (reapSlot env slot).claimed.lookup req.workId with
  | none => exact Explained.ofTrace allowed found reaping gone
  | some c =>
      simp only [reapSlot_maxAttempts, recordAll_recordAll, recordAll_modules]
      generalize verdict : (req.terminal || decide (slot.maxAttempts ≤ c.attempt)) = terminal
      generalize (if req.reason = "" then "failed" else req.reason) = reason
      have guard : (SlotAct.fail req.workId c reason terminal).enabled s.modules s.artifacts
          req.runId (reapSlot env slot) := by
        refine ⟨held, fun exhausted => ?_⟩
        rw [reapSlot_maxAttempts] at exhausted
        simp [← verdict, exhausted]
      have both := reaping.append (Trace.single still guard)
      have acts : ∀ act ∈ (expiredClaims env slot).map expireAct ++
          [.fail req.workId c reason terminal], allowed (.acted req.runId act) := by
        intro act member
        rcases List.mem_append.mp member with before | last
        · exact gone act before
        · rw [List.mem_singleton.mp last, ← verdict]
          exact ok _ (.inr (.inr ⟨slot, c, reason, found, reapSlot_lookup held, rfl⟩))
      split_ifs with idle
      · have all := both.append (Trace.single (a := .stall) still idle)
        refine Explained.ofTrace allowed found all ?_
        intro act member
        rcases List.mem_append.mp member with before | last
        · exact acts act before
        · rw [List.mem_singleton.mp last]
          exact ok .stall (.inr (.inl rfl))
      · exact Explained.ofTrace allowed found both acts

theorem commit_explained {env : Env} {submitted : Derivation} {ctx : RequestContext}
    (wf : WellFormed s)
    (ok : ∀ act, ActAllowed s ⟨.commit submitted, ctx, env⟩ act →
      allowed (.acted submitted.runId act))
    (remembered : ∀ key r, allowed (.remembered key (.run r))) :
    Explained s allowed (commitCtx env submitted ctx s).1 [] := by
  refine Explained.orReturn (.refl _ _) fun _ _ => ?_
  split
  · exact .refl s allowed
  · refine Explained.orReturn (.refl _ _) fun slot running => ?_
    obtain ⟨found, running⟩ := runningSlot_ok.mp running
    have reaping : Trace s.modules s.artifacts submitted.runId slot _ _ _ _ _ :=
      reap_trace env running
    have still : (reapSlot env slot).run.state = .running := by
      rw [reapSlot_run]
      exact running
    have shape := reaping.shape (wf submitted.runId slot found)
    have gone : ∀ act ∈ (expiredClaims env slot).map expireAct,
        allowed (.acted submitted.runId act) := by
      intro act member
      refine ok act (allowed_of_expired ?_ member)
      simp only [expiring, found, Option.elim]
    simp only [reapExpiredLocked, record_eq_recordAll, recordAll_modules, recordAll_artifacts]
    have refused := Explained.ofTrace allowed found reaping gone
    cases held : (reapSlot env slot).claimed.lookup submitted.workId with
    | none => exact refused
    | some c =>
        have claim := shape.claims submitted.workId c held
        simp only
        split_ifs with misnamed spent
        · exact refused
        · exact refused
        · refine Explained.orReturn refused fun cap resolved =>
            Explained.orReturn refused fun _ checked => ?_
          have guard : (SlotAct.commit c submitted.outputs).enabled s.modules s.artifacts
              submitted.runId (reapSlot env slot) :=
            ⟨by rw [claim.id]; exact held, UInt64.not_le.mp spent, cap, resolved, checked⟩
          have both := reaping.append (Trace.single still guard)
          have applied := Explained.ofTrace allowed found both (by
            intro act member
            rcases List.mem_append.mp member with before | last
            · exact gone act before
            · rw [List.mem_singleton.mp last]
              exact ok _ (.inr ⟨slot, c, found, reapSlot_lookup held, rfl⟩))
          refine Explained.remember ?_ _ _ _ fun key => remembered key _
          rw [claim.runId]
          rw [← recordAll_recordAll] at applied
          simp only [recordAll_eq, List.append_nil] at applied ⊢
          exact applied

/-- What a commit that succeeds on its own has found, and what it leaves. -/
theorem commitCtx_ok {env : Env} {submitted : Derivation} {ctx : RequestContext} {t : State}
    {run : Run} (wf : WellFormed s) (applied : ∀ r, idempotentGet s "commit" ctx ≠ some (.run r))
    (ok : commitCtx env submitted ctx s = (t, .ok run)) :
    ∃ slot c after, s.runs.lookup submitted.runId = some slot ∧ slot.run.state = .running ∧
      (reapSlot env slot).claimed.lookup submitted.workId = some c ∧
      (submitted.nodeId = "" ∨ submitted.nodeId = c.work.nodeId) ∧
      (SlotAct.commit c submitted.outputs).enabled s.modules s.artifacts submitted.runId
        (reapSlot env slot) ∧
      after = (SlotAct.commit c submitted.outputs).apply s.modules (reapSlot env slot) ∧
      run = after.run ∧
      t = idempotentPut (recordAll s submitted.runId after [derivationOf c.work submitted.outputs]
        ((expiredClaims env slot).flatMap (expiryRecords submitted.runId slot.maxAttempts) ++
          commitRecords (derivationOf c.work submitted.outputs) after.run)) "commit" ctx
        (.run after.run) := by
  obtain ⟨-, -, ok⟩ := orReturn_ok ok
  split at ok
  · exact absurd ‹_› (applied _)
  obtain ⟨slot, running, ok⟩ := orReturn_ok ok
  obtain ⟨found, running⟩ := runningSlot_ok.mp running
  have reaping : Trace s.modules s.artifacts submitted.runId slot _ _ _ _ _ := reap_trace env running
  have shape := reaping.shape (wf submitted.runId slot found)
  simp only [reapExpiredLocked, record_eq_recordAll, recordAll_modules, recordAll_artifacts] at ok
  cases held : (reapSlot env slot).claimed.lookup submitted.workId with
  | none => simp [held] at ok
  | some c =>
      have claim := shape.claims submitted.workId c held
      simp only [held] at ok
      split_ifs at ok with misnamed spent
      · cases ok
      · cases ok
      obtain ⟨cap, resolved, ok⟩ := orReturn_ok ok
      obtain ⟨u, checked, ok⟩ := orReturn_ok ok
      obtain ⟨rfl, same⟩ := Prod.mk.inj ok
      refine ⟨slot, c, _, found, running, held, ?_, ?_, rfl, (Except.ok.inj same).symm, ?_⟩
      · by_contra other
        push Not at other
        exact misnamed other
      · exact ⟨by rw [claim.id]; exact held, UInt64.not_le.mp spent, cap, resolved, checked⟩
      · congr 1
        rw [claim.runId]
        simp only [recordAll_eq, replace_replace, extend_append, List.append_nil, SlotAct.apply]

/-- Every call is explained by atoms it is allowed, and its reply hands out what they hand out. -/
theorem step_explained (policy : ArtifactStorePolicy) (wf : WellFormed s) (call : Call) :
    Explained s (Allowed s call) (step policy s call).1 (handedOut (step policy s call).2) := by
  obtain ⟨op, ctx, env⟩ := call
  cases op with
  | register manifest => exact Explained.single (a := .registered manifest) trivial rfl rfl
  | publish event => exact Explained.single (a := .published event) trivial rfl rfl
  | append req => exact Explained.single (a := .appended req) trivial rfl rfl
  | snapshot => exact .refl s _
  | hasBlob req => exact .refl s _
  | transition req =>
      exact Explained.reply (fun _ => rfl) (transition_explained fun target => ⟨target, rfl⟩)
  | putArtifact artifact =>
      exact Explained.reply (fun _ => rfl)
        (putArtifact_explained (.inl rfl) fun key r => .inr ⟨key, r, rfl⟩)
  | putBlob req =>
      exact Explained.reply (fun _ => rfl)
        (putBlob_explained fun slot data space => ⟨slot, rfl, data, space⟩)
  | putContract contract =>
      exact Explained.reply (fun _ => rfl)
        (Explained.orReturn (.refl _ _) fun _ _ => putContract_explained rfl)
  | startRun req =>
      exact Explained.reply (fun _ => rfl)
        (startRun_explained (fun slot named => .inl ⟨slot, rfl, named⟩)
          fun key r => .inr ⟨key, r, rfl⟩)
  | injectInput req =>
      exact Explained.reply (fun _ => rfl)
        (injectInput_explained fun input given => ⟨input, given, rfl⟩)
  | claimReady req =>
      cases late : checkDeadline env ctx with
      | error e =>
          simp only [step, late, orReturn]
          exact .refl s _
      | ok u =>
          simp only [step, late, orReturn]
          exact claimReady_explained ctx wf fun act ok => ⟨act, rfl, ok⟩
  | heartbeat req =>
      exact Explained.reply (fun _ => rfl)
        (Explained.orReturn (.refl _ _) fun _ _ => heartbeat_explained fun act ok => ⟨act, rfl, ok⟩)
  | failWork req =>
      exact Explained.reply (fun _ => rfl)
        (Explained.orReturn (.refl _ _) fun _ _ => failWork_explained fun act ok => ⟨act, rfl, ok⟩)
  | commit submitted =>
      exact Explained.reply (fun _ => rfl)
        (commit_explained wf (fun act ok => .inl ⟨act, rfl, ok⟩) fun key r => .inr ⟨key, r, rfl⟩)
  | cancelRun ref =>
      exact Explained.reply (fun _ => rfl)
        (Explained.orReturn (.refl _ _) fun _ _ => cancelRun_explained rfl)
  | getArtifact ref =>
      exact Explained.reply (fun _ => rfl)
        (Explained.orReturn (.refl _ _) fun _ _ => .refl _ _)
  | getBlob req =>
      exact Explained.reply (fun _ => rfl)
        (Explained.orReturn (.refl _ _) fun _ _ => .refl _ _)
  | getRun ref =>
      exact Explained.reply (fun _ => rfl)
        (Explained.orReturn (.refl _ _) fun _ _ => .refl _ _)
  | listDerivations ref =>
      exact Explained.reply (fun _ => rfl)
        (Explained.orReturn (.refl _ _) fun _ _ => .refl _ _)

theorem wellFormed_step (policy : ArtifactStorePolicy) (wf : WellFormed s) (call : Call) :
    WellFormed (step policy s call).1 := by
  obtain ⟨atoms, path, -⟩ := step_explained policy wf call
  exact path.keeps (P := WellFormed) (fun _ _ guard before => wellFormed_apply guard before) wf

theorem exec_path (policy : ArtifactStorePolicy) (wf : WellFormed s) (calls : List Call) :
    ∃ atoms, Path kernel s atoms (exec policy s calls) := by
  induction calls generalizing s with
  | nil => exact ⟨[], .nil s⟩
  | cons call calls ih =>
      obtain ⟨first, path, -⟩ := step_explained policy wf call
      obtain ⟨rest, path'⟩ := ih (wellFormed_step policy wf call)
      exact ⟨first ++ rest, path.append path'⟩

/-- What the empty kernel has and every atom keeps holds of every reachable state. -/
theorem reachable_invariant {policy : ArtifactStorePolicy} {P : State → Prop} (start : P {})
    (kept : ∀ (s : State) (a : Atom), a.enabled s → WellFormed s → P s → P (a.apply s))
    (reached : Reachable policy s) : P s := by
  have both : WellFormed s ∧ P s := by
    refine reachable_induction (P := fun s => WellFormed s ∧ P s) ⟨?_, start⟩ ?_ reached
    · intro runId slot found
      simp at found
    · rintro state call ⟨wf, before⟩
      obtain ⟨atoms, path, -⟩ := step_explained policy wf call
      exact path.keeps (P := fun s => WellFormed s ∧ P s)
        (fun s a guard h => ⟨wellFormed_apply guard h.1, kept s a guard h.1 h.2⟩) ⟨wf, before⟩
  exact both.2

/-- Every reachable state is in shape. -/
theorem reachable_wellFormed {policy : ArtifactStorePolicy} (reached : Reachable policy s) :
    WellFormed s := by
  refine reachable_invariant ?_ (fun _ _ guard wf _ => wellFormed_apply guard wf) reached
  intro runId slot found
  simp at found

end Substrate.Protocol.Refine
