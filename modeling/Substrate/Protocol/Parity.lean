/- ID: Substrate/Protocol/Parity
   source: kernel/sdk/rust/src/lib.rs, kernel/sdk/go/kernel.go
   digest: The Rust and the Go kernel answer alike and hold the same over whole histories of calls. -/

import Substrate.Library.Lockstep
import Substrate.Protocol.Capacity
import Substrate.Protocol.Heartbeats
import Substrate.Protocol.Reports
import Substrate.Protocol.Validators

set_option autoImplicit false
set_option relaxedAutoImplicit false

namespace Substrate.Protocol.Parity

open Substrate.Kernel
open Substrate.Kernel.Wire
open Substrate.Kernel.Hashing
open Substrate.Kernel.Memory
open Substrate.Kernel.Registry
open Substrate.Kernel.Schedule
open Substrate.Kernel.Runs
open Substrate.Kernel.Work
open Substrate.Kernel.Sdks
open Substrate.Kernel.Api
open Substrate.Protocol.Slots
open Substrate.Protocol.Accounting (commit_state)
open Substrate.Protocol.Capacity
open Substrate.Protocol.Claiming (wanted)
open Substrate.Protocol.Heartbeats
open Substrate.Protocol.Injections (Formed bound generation go_injectSlot_eq_iff)
open Substrate.Protocol.Mirrors
open Substrate.Protocol.Readiness
open Substrate.Protocol.Refine (reachable_wellFormed)
open Substrate.Protocol.Reports
open Substrate.Protocol.Serial
open Substrate.Protocol.Validators
open Substrate.Protocol.Verdicts
open Substrate.Library.Checks
open Substrate.Library.FiniteMap
open Substrate.Library.Lockstep

section Beside

variable [Sha256] [Prost] [Encodings]

/-- Two kernels hold the same, and since `base` have logged the same events, each with its own
encoder and in the order in which it went through its maps. -/
structure Beside (base : List LedgerEntry) (rust go : State) : Prop where
  same : go = { rust with ledger := go.ledger }
  logged : ∃ events events' : List LedgerEvent, events'.Perm events ∧
    rust.ledger = extend base (events.map (detailed encodeToVec)) ∧
    go.ledger = extend base (events'.map (detailed marshalCanonical))

variable {base : List LedgerEntry} {rust go : State}

theorem Beside.refl (s : State) : Beside s.ledger s s := ⟨rfl, [], [], .refl _, rfl, rfl⟩

theorem Beside.split (beside : Beside base rust go) : ∃ ledger, go = { rust with ledger } :=
  ⟨go.ledger, beside.same⟩

theorem Beside.log (beside : Beside base rust go) (t : State) {events events' : List LedgerEvent}
    (perm : events'.Perm events) :
    Beside base { t with ledger := extend rust.ledger (events.map (detailed encodeToVec)) }
      { t with ledger := extend go.ledger (events'.map (detailed marshalCanonical)) } := by
  obtain ⟨past, past', before, rustLog, goLog⟩ := beside.logged
  refine ⟨rfl, past ++ events, past' ++ events', before.append perm, ?_, ?_⟩
  · rw [List.map_append, extend_append, ← rustLog]
  · rw [List.map_append, extend_append, ← goLog]

theorem Beside.record (beside : Beside base rust go) (runId : String) (slot : RunSlot)
    {events events' : List LedgerEvent} (perm : events'.Perm events) :
    Beside base (Runs.record rust runId slot (events.map (detailed encodeToVec)))
      (Go.record go runId slot events') := by
  have next := beside.log { rust with runs := rust.runs.replace runId slot } perm
  rw [record_eq, goRecord_eq, beside.same]
  rw [beside.same] at next
  exact next

theorem Beside.derive (beside : Beside base rust go) (d : Derivation) :
    Beside base { rust with derivations := rust.derivations ++ [d] }
      { go with derivations := go.derivations ++ [d] } := by
  obtain ⟨same, logged⟩ := beside
  refine ⟨?_, logged⟩
  rw [same]

omit [Sha256] [Encodings] in
private theorem expiry_events (env : Env) (runId : String) (slot : RunSlot) :
    (expiredClaims env slot).flatMap (expiryRecords runId slot.maxAttempts) =
      ((expiredClaims env slot).flatMap (expiryOf runId slot)).map (detailed encodeToVec) := by
  rw [List.map_flatMap]
  exact List.flatMap_congr fun e _ => expiryRecords_eq runId slot e

theorem Beside.reap (beside : Beside base rust go) {env env' : Env} (clock : env'.now = env.now)
    (runId : String) (slot : RunSlot) :
    Beside base (reapExpiredLocked env runId slot rust)
      (Go.reapExpiredLocked env' runId slot go) := by
  have perm : (expiredClaims env' slot).Perm (expiredClaims env slot) :=
    ((expiredClaims_perm env' slot).trans (by rw [clock])).trans (expiredClaims_perm env slot).symm
  rw [reapExpiredLocked, expiry_events, Go.reapExpiredLocked, reapSlot_iter clock slot]
  exact beside.record runId (reapSlot env slot) (perm.flatMap_right (expiryOf runId slot))

/-- The same value, or errors of one code, out of kernels side by side. -/
structure Agree {α : Type} (base : List LedgerEntry) (rust go : State × Except KernelError α) :
    Prop where
  beside : Beside base rust.1 go.1
  answer : classed go.2 = classed rust.2

theorem Beside.same_answer {α : Type} (beside : Beside base rust go) (a : α) :
    Agree base (rust, .ok a) (go, .ok a) := ⟨beside, rfl⟩

theorem Beside.fails {α : Type} (beside : Beside base rust go) {e e' : KernelError}
    (code : classOf e' = classOf e) : @Agree _ _ _ α base (rust, .error e) (go, .error e') :=
  ⟨beside, congrArg Except.error code⟩

theorem Beside.checked {α β : Type} (beside : Beside base rust go) {check check' : Except KernelError α}
    (verdict : classed check' = classed check) {next next' : α → State × Except KernelError β}
    (passed : ∀ a, check = .ok a → check' = .ok a → Agree base (next a) (next' a)) :
    Agree base (orReturn check rust next) (orReturn check' go next') := by
  cases check with
  | error e =>
      cases check' with
      | ok a => cases verdict
      | error e' => exact beside.fails (Except.error.inj verdict)
  | ok a =>
      cases check' with
      | error e' => cases verdict
      | ok a' =>
          obtain rfl : a' = a := Except.ok.inj verdict
          exact passed a' rfl rfl

omit [Sha256] [Prost] [Encodings] in
theorem runningSlot_ledger (s : State) (ledger : List LedgerEntry) (runId : String) :
    runningSlot { s with ledger } runId = runningSlot s runId := rfl

omit [Sha256] [Prost] [Encodings] in
theorem idempotentPut_ledger (s : State) (ledger : List LedgerEntry) (op : String)
    (ctx : RequestContext) (value : IdempotentResult) :
    idempotentPut { s with ledger } op ctx value =
      { idempotentPut s op ctx value with ledger } := by
  unfold idempotentPut
  split
  · rfl
  · split_ifs <;> rfl

omit [Sha256] [Prost] [Encodings] in
theorem idempotentPut_same (s : State) (op : String) (ctx : RequestContext)
    (value : IdempotentResult) : (idempotentPut s op ctx value).ledger = s.ledger := by
  obtain ⟨cache, same⟩ := idempotentPut_eq s op ctx value
  rw [same]

theorem Beside.remember (beside : Beside base rust go) (op : String) (ctx : RequestContext)
    (value : IdempotentResult) :
    Beside base (idempotentPut rust op ctx value) (idempotentPut go op ctx value) := by
  obtain ⟨same, logged⟩ := beside
  refine ⟨?_, ?_⟩
  · rw [idempotentPut_same, same, idempotentPut_ledger]
  · rw [idempotentPut_same, idempotentPut_same]
    exact logged

end Beside

/-- A run in which every port has one binding at most and all enum values are declared. -/
structure Regular (modules : List ModuleSlot) (slot : RunSlot) : Prop where
  one : OneBinding slot.run.assembly
  declared : Declared modules slot

theorem Regular.same {modules : List ModuleSlot} {slot after : RunSlot}
    (regular : Regular modules slot) (assembly : after.run.assembly = slot.run.assembly)
    (policy : after.run.policy = slot.run.policy) : Regular modules after := by
  obtain ⟨one, registry, default, byNode⟩ := regular
  rw [← assembly] at one
  rw [← policy] at default byNode
  exact ⟨one, registry, default, byNode⟩

section Calls

variable [Sha256] [Prost] [Encodings] {base : List LedgerEntry} {rust go : State} {env env' : Env}
  {ctx : RequestContext} {slot : RunSlot}

theorem Beside.stalls {α : Type} (beside : Beside base rust go) (regular : Regular rust.modules slot)
    (runId : String) (a b : α) :
    Agree base
      (if isIdle rust.modules slot then
        (Runs.record rust runId (stallSlot slot) [stalledRecord (stallSlot slot)], .ok a)
      else (rust, .ok b))
      (if Go.isIdle go.modules slot then
        (Go.record go runId (stallSlot slot)
          [("run.stalled", (stallSlot slot).run.id, .run (stallSlot slot).run)], .ok a)
      else (go, .ok b)) := by
  have modules : go.modules = rust.modules := by rw [beside.same]
  rw [modules, go_isIdle regular.declared regular.one]
  have stalled := beside.record runId (stallSlot slot) (.refl
    [("run.stalled", (stallSlot slot).run.id, .run (stallSlot slot).run)])
  cases isIdle rust.modules slot
  · exact beside.same_answer b
  · exact stalled.same_answer a

theorem Beside.running (beside : Beside base rust go) (runId : String) :
    classed (runningSlot go runId) = classed (runningSlot rust runId) := by
  rw [beside.same, runningSlot_ledger]

omit [Sha256] [Prost] [Encodings] in
theorem deadline_same (entry : env'.entryClock = env.entryClock) :
    classed (checkDeadline env' ctx) = classed (checkDeadline env ctx) := by
  rw [checkDeadline, checkDeadline, entry]

theorem Beside.failWork (beside : Beside base rust go) (clock : env'.now = env.now)
    (entry : env'.entryClock = env.entryClock) {req : FailWorkRequest}
    (regular : ∀ slot, rust.runs.lookup req.runId = some slot → slot.run.state = .running →
      Regular rust.modules slot) :
    Agree base (orReturn (checkDeadline env ctx) rust fun _ => Work.failWork env req rust)
      (Go.failWork env' req ctx go) := by
  rw [Go.failWork]
  refine beside.checked (deadline_same entry) fun _ _ _ => ?_
  rw [Work.failWork]
  refine beside.checked (beside.running req.runId) fun slot taken _ => ?_
  obtain ⟨found, running⟩ := runningSlot_ok taken
  have fit := (regular slot found running).same (congrArg (·.assembly) (reapSlot_run env slot))
    (congrArg (·.policy) (reapSlot_run env slot))
  have reaped := beside.reap clock req.runId slot
  have modules : (reapExpiredLocked env req.runId slot rust).modules = rust.modules := by
    rw [reapExpiredLocked, record_eq]
  rw [reapSlot_iter clock slot]
  rw [← modules] at fit
  dsimp only
  generalize reapSlot env slot = now at fit ⊢
  generalize reapExpiredLocked env req.runId slot rust = rust' at reaped fit ⊢
  generalize Go.reapExpiredLocked env' req.runId slot go = go' at reaped ⊢
  cases held : now.claimed.lookup req.workId with
  | none => exact reaped.fails rfl
  | some c =>
      have fails : Regular rust'.modules
          (failSlot now req.workId c (req.terminal || decide (now.maxAttempts ≤ c.attempt))) :=
        fit.same rfl rfl
      dsimp only
      generalize failSlot now req.workId c (req.terminal || decide (now.maxAttempts ≤ c.attempt)) =
        after at fails ⊢
      have next := reaped.record req.runId after (.refl
        [("work.failed", req.workId, Message.workFailure
          { runId := req.runId, workId := req.workId, unitKey := c.unitKey
            reason := if req.reason = "" then "failed" else req.reason
            terminal := req.terminal || now.maxAttempts ≤ c.attempt, attempt := c.attempt })])
      refine next.stalls ?_ req.runId _ _
      rw [record_eq]
      exact fails

omit [Prost] [Encodings] in
private theorem settled_uncancelled (modules : List ModuleSlot) (c : ClaimedSlot)
    (outputs : List NamedArtifact) (running : slot.run.state = .running) :
    (settleSlot modules (commitSlot slot c (derivationOf c.work outputs))).run.state ≠ .cancelled := by
  have states := commit_state modules c outputs running
  intro cancelled
  rcases states with ⟨state, -⟩ | ⟨state, -⟩ | ⟨state | state, -⟩ <;>
    exact absurd (state.symm.trans cancelled) (by decide)

omit [Prost] [Encodings] in
theorem go_closing {modules : List ModuleSlot} {c : ClaimedSlot} {d : Derivation}
    (regular : Regular modules slot) (running : slot.run.state = .running)
    (carried : ∀ o ∈ d.outputs, o.artifact.isSome) :
    Go.stallRun modules (Go.exhaustRun (Go.answerRun (Go.settleClaim slot c d) d)) =
      { slot := settleSlot modules (commitSlot slot c d)
        closed := decide ((settleSlot modules (commitSlot slot c d)).run.state ≠ .running) } := by
  obtain ⟨-, assembly, policy, -, -, -⟩ := advanceRun_terms slot d
  have settled : Regular modules (commitSlot slot c d) := regular.same assembly policy
  rw [go_exhaust running carried]
  exact go_stall (go_isIdle settled.declared settled.one)

omit [Sha256] [Prost] [Encodings] in
theorem idempotentGet_ledger (s : State) (ledger : List LedgerEntry) (op : String)
    (ctx : RequestContext) : idempotentGet { s with ledger } op ctx = idempotentGet s op ctx := rfl

theorem Beside.recalls (beside : Beside base rust go) (past : Option IdempotentResult)
    {fresh fresh' : State × Except KernelError Run} (agree : Agree base fresh fresh') :
    Agree base
      (match past with
        | some (.run r) => (rust, .ok r)
        | _ => fresh)
      (match past with
        | some (.run r) => (go, .ok r)
        | _ => fresh') := by
  rcases past with _ | _ | r
  · exact agree
  · exact agree
  · exact beside.same_answer r

theorem Beside.commit (beside : Beside base rust go) (clock : env'.now = env.now)
    (entry : env'.entryClock = env.entryClock) {submitted : Derivation}
    (regular : ∀ slot, rust.runs.lookup submitted.runId = some slot → slot.run.state = .running →
      Regular rust.modules slot ∧ Grown submitted.runId slot) :
    Agree base (commitCtx env submitted ctx rust) (Go.commit env' submitted ctx go) := by
  have recalled : idempotentGet go "commit" ctx = idempotentGet rust "commit" ctx := by
    rw [beside.same, idempotentGet_ledger]
  rw [Go.commit, commitCtx, recalled]
  refine beside.checked (deadline_same entry) fun _ _ _ => ?_
  refine beside.recalls _ (beside.checked (beside.running submitted.runId) fun slot taken _ => ?_)
  obtain ⟨found, running⟩ := runningSlot_ok taken
  obtain ⟨fit, grown⟩ := regular slot found running
  replace fit := fit.same (congrArg (·.assembly) (reapSlot_run env slot))
    (congrArg (·.policy) (reapSlot_run env slot))
  replace grown := grown.reaped env
  have reaped := beside.reap clock submitted.runId slot
  have modules : (reapExpiredLocked env submitted.runId slot rust).modules = rust.modules := by
    rw [reapExpiredLocked, record_eq]
  rw [reapSlot_iter clock slot]
  rw [← modules] at fit
  dsimp only
  generalize reapSlot env slot = now at fit grown ⊢
  generalize reapExpiredLocked env submitted.runId slot rust = rust' at reaped fit ⊢
  generalize Go.reapExpiredLocked env' submitted.runId slot go = go' at reaped ⊢
  cases held : now.claimed.lookup submitted.workId with
  | none => exact reaped.fails rfl
  | some c =>
      dsimp only
      rw [if_neg (UInt64.not_le.mpr grown.spare), grown.claims submitted.workId c held]
      split_ifs with astray
      · exact reaped.fails rfl
      have goModules : go'.modules = rust'.modules := by rw [reaped.same]
      have goArtifacts : go'.artifacts = rust'.artifacts := by rw [reaped.same]
      rw [goModules, goArtifacts]
      refine reaped.checked rfl fun cap _ _ => ?_
      refine reaped.checked (classed_validateOutputs Go.dialect _ _ _) fun _ accepted _ => ?_
      have carried := carried_of_outputs accepted
      have kind := go_closingKind (settled_uncancelled rust'.modules c submitted.outputs grown.running)
      rw [@go_closing _ now rust'.modules c (derivationOf c.work submitted.outputs) fit grown.running
        carried]
      generalize derivationOf c.work submitted.outputs = d at kind ⊢
      generalize settleSlot rust'.modules (commitSlot now c d) = settled at kind ⊢
      dsimp only
      rw [kind]
      have next := (reaped.derive d).record submitted.runId settled (.refl
        [("derivation.committed", d.id, .derivation d),
          (closureKind settled.run.state, settled.run.id, .run settled.run)])
      rw [goModules, goArtifacts] at next
      exact (next.remember "commit" ctx (.run settled.run)).same_answer settled.run

/-- What a claim reads of a run as numbers that both kernels hold. -/
structure Moderate (now : Int64) (slot : RunSlot) : Prop where
  narrow : slot.maxInFlight.toNat < 2 ^ 63
  short : slot.defaultLeaseMs.toNat < 2 ^ 62
  fits : Fits now slot.defaultLeaseMs

omit [Sha256] [Prost] [Encodings] in
theorem go_claimWork (clock : env'.now = env.now) (moderate : Moderate env.now slot) (runId : String)
    (node : AssemblyNode) (inputs : List NamedArtifact) (unitKey : String) :
    Go.claimWork env' runId slot node inputs unitKey =
      claimWork env runId slot (node, inputs, unitKey) := by
  rw [Go.claimWork, claimWork, clock, wrappingAdd_eq, saturatingAdd_fits moderate.short moderate.fits]

omit [Sha256] [Prost] [Encodings] in
theorem go_claimUnits (clock : env'.now = env.now) (moderate : Moderate env.now slot) (runId : String)
    (cs : List Candidate) :
    Go.claimUnits env' runId slot cs = claimUnits env runId slot cs := by
  induction cs generalizing slot with
  | nil => rfl
  | cons c cs ih =>
      obtain ⟨node, inputs, unitKey⟩ := c
      have claimed : Moderate env.now (claimSlot slot (claimWork env runId slot (node, inputs, unitKey))) :=
        ⟨moderate.narrow, moderate.short, moderate.fits⟩
      have here := go_claimWork clock moderate runId node inputs unitKey
      rw [Go.claimUnits, claimUnits, here, ih claimed]

omit [Sha256] [Prost] [Encodings] in
theorem room_reaped (room : Room slot) (env : Env) : Room (reapSlot env slot) := by
  have fewer : ∀ (claims : List (String × ClaimedSlot)) (s : RunSlot),
      size (claims.foldl expireClaim s).claimed ≤ size s.claimed := by
    intro claims
    induction claims with
    | nil => exact fun s => le_rfl
    | cons e claims ih => exact fun s => (ih (expireClaim s e)).trans (size_erase_le s.claimed e.1)
  intro limited
  rw [(reapSlot_terms env slot).maxInFlight] at limited ⊢
  exact (fewer _ slot).trans (room limited)

omit [Sha256] [Prost] [Encodings] in
theorem narrow_unwrapped (narrow : slot.maxInFlight.toNat < 2 ^ 63) : ¬Wraps slot := by
  intro wraps
  have many := wraps.2
  omega

theorem Beside.claimReady (beside : Beside base rust go) (clock : env'.now = env.now)
    (entry : env'.entryClock = env.entryClock) {req : ClaimRequest}
    (regular : ∀ slot, rust.runs.lookup req.runId = some slot → slot.run.state = .running →
      Regular rust.modules slot ∧ Moderate env.now slot ∧ Room slot) :
    Agree base (orReturn (checkDeadline env ctx) rust fun _ => Work.claimReady env req rust)
      (Go.claimReady env' req ctx go) := by
  rw [Go.claimReady]
  refine beside.checked (deadline_same entry) fun _ _ _ => ?_
  rw [Work.claimReady]
  refine beside.checked (beside.running req.runId) fun slot taken _ => ?_
  obtain ⟨found, running⟩ := runningSlot_ok taken
  obtain ⟨fit, moderate, room⟩ := regular slot found running
  have terms := reapSlot_terms env slot
  replace fit := fit.same terms.assembly terms.policy
  replace moderate : Moderate env.now (reapSlot env slot) := by
    obtain ⟨narrow, short, fits⟩ := moderate
    rw [← terms.maxInFlight] at narrow
    rw [← terms.defaultLeaseMs] at short fits
    exact ⟨narrow, short, fits⟩
  replace room := room_reaped room env
  have reaped := beside.reap clock req.runId slot
  have modules : (reapExpiredLocked env req.runId slot rust).modules = rust.modules := by
    rw [reapExpiredLocked, record_eq]
  rw [reapSlot_iter clock slot]
  rw [← modules] at fit
  dsimp only
  generalize reapSlot env slot = now at fit moderate room ⊢
  generalize reapExpiredLocked env req.runId slot rust = rust' at reaped fit ⊢
  generalize Go.reapExpiredLocked env' req.runId slot go = go' at reaped ⊢
  have goModules : go'.modules = rust'.modules := by rw [reaped.same]
  rw [taken_eq room, if_neg (narrow_unwrapped moderate.narrow), goModules,
    readyCandidates_eq fit.declared fit.one, go_claimUnits clock moderate]
  have kept := claimUnits_run env req.runId now ((readyCandidates rust'.modules now req).take
    (wanted req now))
  rw [show min (if req.maxItems = 0 then 1 else req.maxItems.toNat) (inFlightCapacity now) =
    wanted req now from rfl]
  generalize claimUnits env req.runId now ((readyCandidates rust'.modules now req).take
    (wanted req now)) = units at kept ⊢
  obtain ⟨after, items⟩ := units
  dsimp only at kept ⊢
  have claims : items.map claimedRecord = (items.map fun work =>
      (("work.claimed", work.id, Message.workItem (ledgerWorkItem work)) : LedgerEvent)).map
        (detailed encodeToVec) := by
    rw [List.map_map]
    rfl
  rw [claims]
  generalize (items.map fun work =>
    (("work.claimed", work.id, Message.workItem (ledgerWorkItem work)) : LedgerEvent)) = events
  have next := reaped.record req.runId after (.refl events)
  have regular : Regular (Runs.record rust' req.runId after
      (events.map (detailed encodeToVec))).modules after := by
    rw [record_eq]
    exact fit.same (congrArg (·.assembly) kept) (congrArg (·.policy) kept)
  have stalls := next.stalls regular req.runId ({ items } : ClaimResponse) { items }
  by_cases idle : items = []
  · simp only [idle, true_and] at stalls ⊢
    exact stalls
  · simp only [idle, false_and, if_false]
    exact next.same_answer _

theorem Beside.cancelRun (beside : Beside base rust go) (entry : env'.entryClock = env.entryClock)
    (ref : RunRef) :
    Agree base (orReturn (checkDeadline env ctx) rust fun _ => Runs.cancelRun ref rust)
      (Go.cancelRun ref env' ctx go) := by
  rw [Go.cancelRun]
  refine beside.checked (deadline_same entry) fun _ _ _ => ?_
  rw [Runs.cancelRun]
  refine beside.checked (beside.running ref.id) fun slot _ _ => ?_
  have next := beside.record ref.id (cancelSlot slot) (.refl
    [("run.cancelled", (cancelSlot slot).run.id, .run (cancelSlot slot).run)])
  exact next.same_answer _

omit [Sha256] [Prost] [Encodings] in
theorem renewed_timely {req : HeartbeatRequest} (short : (extension req slot).toNat < 2 ^ 62)
    (timely : ListedTimely env.now req slot) :
    renewSlot env req slot =
        req.workIds.foldl (renewClaim (newLease env.now (extension req slot))) slot ∧
      reapSlot env (renewSlot env req slot) =
        req.workIds.foldl (renewClaim (newLease env.now (extension req slot))) (reapSlot env slot) ∧
      expiring env.now (renewSlot env req slot) = expiring env.now slot ∧
      ∀ id ∈ req.workIds, (id ∈ (reapSlot env slot).claimed ↔ id ∈ slot.claimed) := by
  have live : ListedLive env.now (newLease env.now (extension req slot)) req.workIds slot := by
    intro id inside c found
    obtain ⟨alive, fits, longer⟩ := timely id inside c found
    refine ⟨alive, Bool.eq_false_iff.mpr fun expired => ?_⟩
    obtain ⟨none, started⟩ := (leaseExpired_renewed fits c).mp expired
    exact longer.elim (absurd none) (Int64.not_le.mpr started)
  have renewed : renewSlot env req slot =
      req.workIds.foldl (renewClaim (newLease env.now (extension req slot))) slot := by
    by_cases claimed : ∃ id ∈ req.workIds, id ∈ slot.claimed
    · obtain ⟨id, inside, member⟩ := claimed
      obtain ⟨c, found⟩ := lookup_of_mem member
      have sum := saturatingAdd_fits short (timely id inside c found).fits
      rw [extension] at sum
      rw [renewSlot, sum]
      rfl
    · have absent : ∀ id ∈ req.workIds, id ∉ slot.claimed := fun id inside member =>
        claimed ⟨id, inside, member⟩
      rw [renewSlot, renew_absent absent, renew_absent absent]
  obtain ⟨slots, claims⟩ := reapSlot_renew live
  refine ⟨renewed, by rw [renewed, slots], by rw [renewed, claims], fun id inside => ?_⟩
  constructor
  · intro member
    obtain ⟨c, found⟩ := lookup_of_mem member
    exact mem_of_lookup (reapSlot_lookup found)
  · intro member
    obtain ⟨c, found⟩ := lookup_of_mem member
    rw [mem_reapSlot found]
    exact (timely id inside c found).live

omit [Prost] [Encodings] in
theorem record_record (s : State) (runId : String) (a b : RunSlot) (rs rs' : List Record) :
    Runs.record (Runs.record s runId a rs) runId b rs' = Runs.record s runId b (rs ++ rs') := by
  rw [record_eq_recordAll s, record_eq_recordAll, recordAll_recordAll, record_eq_recordAll]
  rfl

theorem Beside.heartbeat (beside : Beside base rust go) (clock : env'.now = env.now)
    (entry : env'.entryClock = env.entryClock) {req : HeartbeatRequest}
    (timely : ∀ slot, rust.runs.lookup req.runId = some slot → slot.run.state = .running →
      (extension req slot).toNat < 2 ^ 62 ∧ ListedTimely env.now req slot) :
    Agree base (orReturn (checkDeadline env ctx) rust fun _ => Work.heartbeat env req rust)
      (Go.heartbeat env' req ctx go) := by
  rw [Go.heartbeat]
  refine beside.checked (deadline_same entry) fun _ _ _ => ?_
  rw [Work.heartbeat]
  refine beside.checked (beside.running req.runId) fun slot taken _ => ?_
  obtain ⟨found, running⟩ := runningSlot_ok taken
  obtain ⟨short, timely⟩ := timely slot found running
  obtain ⟨renewed, slots, claims, kept⟩ := renewed_timely short timely
  have perm : (expiredClaims env' slot).Perm (expiredClaims env (renewSlot env req slot)) := by
    refine (expiredClaims_perm env' slot).trans (List.Perm.trans ?_ (expiredClaims_perm env _).symm)
    rw [clock, claims]
  have attempts : expiryOf req.runId (renewSlot env req slot) = expiryOf req.runId slot := by
    funext e
    rw [expiryOf, expiryOf, renewed, renew_maxAttempts]
  have next := beside.record req.runId (reapSlot env (renewSlot env req slot))
    (perm.flatMap_right (expiryOf req.runId slot))
  dsimp only
  have extend_eq : (if req.extendLeaseMs ≠ 0 then req.extendLeaseMs else
      (reapSlot env' slot).defaultLeaseMs) = extension req slot := by
    rw [(reapSlot_terms env' slot).defaultLeaseMs, extension, orDefault, ite_not]
  have held : req.workIds.filter (· ∈ (reapSlot env slot).claimed) =
      req.workIds.filter (· ∈ slot.claimed) :=
    List.filter_congr fun id inside => decide_eq_decide.mpr (kept id inside)
  have lost : req.workIds.filter (· ∉ (reapSlot env slot).claimed) =
      req.workIds.filter (· ∉ slot.claimed) :=
    List.filter_congr fun id inside => decide_eq_decide.mpr (not_congr (kept id inside))
  rw [reapExpiredLocked, expiry_events, Go.reapExpiredLocked, record_record, extend_eq, clock,
    wrappingAdd_eq, attempts, reapSlot_iter clock slot, ← slots, held, lost, Go.record, Go.record,
    record_record, List.map_nil, List.append_nil, List.nil_append]
  exact next.same_answer _

/-- An input is injected alike when the request names one for a run that is unknown, a stored one for a
run that is closed, and one of which a RUNNING run can count one more. -/
structure Injectable (req : InjectInputRequest) (s : State) : Prop where
  unknown : s.runs.lookup req.runId = none → ∃ input r, Formed req input r
  closed : ∀ slot, s.runs.lookup req.runId = some slot → slot.run.state ≠ .running →
    ∃ input r, Formed req input r ∧ r.id ∈ s.artifacts
  room : ∀ slot input r, s.runs.lookup req.runId = some slot → slot.run.state = .running →
    Formed req input r → (generation slot input).toNat + 1 < 2 ^ 64

theorem Beside.injectInput (beside : Beside base rust go) (entry : env'.entryClock = env.entryClock)
    {req : InjectInputRequest} (injectable : Injectable req rust) :
    Agree base (injectInputCtx env req ctx rust) (Go.injectInput env' req ctx go) := by
  rw [injectInputCtx, Go.injectInput]
  refine beside.checked (deadline_same entry) fun _ _ _ => ?_
  obtain ⟨ledger, rfl⟩ := beside.split
  have alike : runningSlot { rust with ledger } req.runId = runningSlot rust req.runId := rfl
  cases taken : runningSlot rust req.runId with
  | error e =>
      have formed : ∃ input r, Formed req input r ∧
          (classOf e ≠ .notFound → r.id ∈ rust.artifacts) := by
        rw [runningSlot] at taken
        cases stored : rust.runs.lookup req.runId with
        | none =>
            rw [stored] at taken
            obtain rfl := Except.error.inj taken
            obtain ⟨input, r, formed⟩ := injectable.unknown stored
            exact ⟨input, r, formed, fun other => absurd rfl other⟩
        | some slot =>
            rw [stored] at taken
            simp only at taken
            split_ifs at taken with running
            obtain ⟨input, r, formed, present⟩ := injectable.closed slot stored running
            exact ⟨input, r, formed, fun _ => present⟩
      obtain ⟨input, r, ⟨given, named, carried⟩, present⟩ := formed
      rw [taken] at alike
      simp only [given, if_neg named, carried, orReturn, alike]
      by_cases stored : r.id ∈ rust.artifacts
      · rw [if_neg (not_not.mpr stored)]
        exact beside.fails rfl
      · rw [if_pos stored]
        refine beside.fails ?_
        by_contra other
        exact stored (present other)
  | ok slot =>
      obtain ⟨found, running⟩ := runningSlot_ok taken
      rw [taken] at alike
      simp only [alike]
      cases given : req.input with
      | none => exact beside.fails rfl
      | some input =>
          by_cases named : input.name = ""
          · simp only [orReturn, Option.filter_some, named, ne_eq, not_true_eq_false,
              decide_false, Bool.false_eq_true, if_false]
            exact beside.fails rfl
          · simp only [orReturn, Option.filter_some, ne_eq, named, not_false_eq_true, decide_true,
              if_true, if_false]
            cases carried : input.artifact with
            | none => exact beside.fails rfl
            | some r =>
                have counted := injectable.room slot input r found running ⟨given, named, carried⟩
                simp only [(go_injectSlot_eq_iff slot input).mpr counted]
                have next := beside.record req.runId (injectSlot slot input) (.refl
                  [("run.input_injected", (injectSlot slot input).run.id, .namedArtifact input)])
                by_cases stored : r.id ∈ rust.artifacts
                · rw [if_neg (not_not.mpr stored), if_neg (not_not.mpr stored)]
                  split_ifs
                  · exact next.same_answer _
                  · exact beside.fails rfl
                · rw [if_pos stored, if_pos stored]
                  exact beside.fails rfl

end Calls

section Starts

variable {modules : List ModuleSlot} {artifacts : KeyMap String Artifact} {a : Assembly}
  {inputs : List NamedArtifact}

/-- An assembly that names no empty trait ref, and in which a node and a port are told apart when they
are joined with a NUL. -/
structure Spelled (modules : List ModuleSlot) (a : Assembly) : Prop where
  refs : NoEmptyRefs modules a
  ports : ∀ n ∈ a.nodes, ∀ cap, capabilityForNode modules n = .ok cap → ∀ p ∈ cap.inputs,
    ∀ b ∈ a.bindings, b.toNode ++ "\x00" ++ b.toPort = n.id ++ "\x00" ++ p.name →
      b.toNode = n.id ∧ b.toPort = p.name

theorem go_counted (spelled : Spelled modules a) :
    Counted modules a Go.dialect.samePort ↔ Counted modules a (· == ·) := by
  unfold Counted
  refine forall₂_congr fun n here => forall₂_congr fun cap resolved => forall₂_congr fun p listed => ?_
  have counts : (a.bindings.countP fun b => Go.dialect.samePort (b.toNode, b.toPort) (n.id, p.name)) =
      a.bindings.countP fun b => (b.toNode, b.toPort) == (n.id, p.name) := by
    refine List.countP_congr fun b member => ?_
    simp only [Go.dialect, beq_iff_eq, Prod.mk.injEq]
    constructor
    · exact spelled.ports n here cap resolved p listed b member
    · rintro ⟨node, port⟩
      rw [node, port]
  rw [counts]

theorem go_validateAssembly (spelled : Spelled modules a) (env env' : Env) :
    classed (Go.validateAssembly env' modules artifacts a inputs) =
      classed (Assembly.validateAssembly env modules artifacts a inputs) := by
  have go : classed (Go.validateAssembly env' modules artifacts a inputs) =
      verdict modules artifacts a inputs Go.dialect := classed_validateAssembly env'.iter_perm
  have rust : classed (Assembly.validateAssembly env modules artifacts a inputs) =
      verdict modules artifacts a inputs Python.dialect :=
    (rust_validateAssembly env).trans (classed_validateAssembly env.iter_perm)
  rw [go, rust, verdicts_agree]
  intro _
  exact ⟨fun blank => absurd spelled.refs blank, fun _ _ _ _ => go_counted spelled⟩

private theorem classed_onlyInvalid {x y : Except KernelError Unit} (first : OnlyInvalid x)
    (second : OnlyInvalid y) (passes : x = .ok () ↔ y = .ok ()) : classed x = classed y := by
  cases x with
  | ok _ => rw [passes.mp rfl]
  | error e =>
      cases y with
      | ok _ => cases passes.mpr rfl
      | error e' => rw [classed_error, classed_error, first e rfl, second e' rfl]

theorem go_materialize (env env' : Env) (whole : Assembly) (includeNodes : List String) :
    classed (Go.materializeAssembly env' whole includeNodes) =
      classed (Assembly.materializeAssembly env whole includeNodes) := by
  rw [Go.materializeAssembly, Sdks.materializeAssembly, Assembly.materializeAssembly]
  by_cases all : includeNodes = []
  · rw [if_pos all, if_pos all]
  by_cases distinct : ¬includeNodes.Nodup
  · rw [if_neg all, if_neg all, if_pos distinct, if_pos distinct]
  rw [if_neg all, if_neg all, if_neg distinct, if_neg distinct]
  have known : ∀ id : String, OnlyInvalid (if whole.nodes.any (·.id == id) then .ok ()
      else Assembly.invalid ("include_nodes references unknown node " ++ id)) := by
    intro id
    split_ifs
    · exact onlyInvalid_ok ()
    · exact onlyInvalid_invalid _
  refine classed_bind_congr ?_ fun _ _ => ?_
  · refine classed_onlyInvalid (onlyInvalid_forM known _) (onlyInvalid_forM known _) ?_
    simp only [forM_eq_ok, (env.iter_perm includeNodes).mem_iff, (env'.iter_perm includeNodes).mem_iff]
  · cases whole.terminal with
    | none => rfl
    | some terminal =>
        change classed (if decide (terminal.node ∈ includeNodes) = true then _ else _) =
          classed (if terminal.node ∉ includeNodes then _ else _)
        by_cases kept : terminal.node ∈ includeNodes
        · rw [if_neg (not_not.mpr kept), if_pos (decide_eq_true kept)]
        · rw [if_pos kept, if_neg fun inside => kept (of_decide_eq_true inside)]

variable [Sha256] [Prost] [Encodings] {base : List LedgerEntry} {rust go : State} {env env' : Env}
  {ctx : RequestContext}

theorem Beside.startRun (beside : Beside base rust go) (entry : env'.entryClock = env.entryClock)
    {req : RunRequest} (spelled : ∀ whole a, req.assembly = some whole →
      Assembly.materializeAssembly env whole req.includeNodes = .ok a → Spelled rust.modules a) :
    Agree base (startRunCtx env req ctx rust) (Go.startRun env' req ctx go) := by
  have recalled : idempotentGet go "start_run" ctx = idempotentGet rust "start_run" ctx := by
    rw [beside.same, idempotentGet_ledger]
  have runs : go.runs = rust.runs := by rw [beside.same]
  have modules : go.modules = rust.modules := by rw [beside.same]
  have artifacts : go.artifacts = rust.artifacts := by rw [beside.same]
  rw [Go.startRun, startRunCtx, recalled, runs, modules, artifacts]
  refine beside.checked (deadline_same entry) fun _ _ _ => beside.recalls _ ?_
  by_cases named : req.id = ""
  · rw [if_pos named, if_pos named]
    exact beside.fails rfl
  by_cases known : req.id ∈ rust.runs
  · rw [if_neg named, if_neg named, if_pos known, if_pos known]
    exact beside.fails rfl
  rw [if_neg named, if_neg named, if_neg known, if_neg known]
  cases given : req.assembly with
  | none => exact beside.fails rfl
  | some whole =>
      refine beside.checked (go_materialize env env' whole req.includeNodes) fun a cut _ => ?_
      refine beside.checked (go_validateAssembly (spelled whole a given cut) env env') fun _ _ _ => ?_
      have steps : (if (req.limits.getD {}).maxSteps ≠ 0 then (req.limits.getD {}).maxSteps else
          UInt64.ofNat a.nodes.length) = orDefault (req.limits.getD {}).maxSteps
            (UInt64.ofNat a.nodes.length) := ite_not _ _ _
      dsimp only
      rw [steps]
      generalize orDefault (req.limits.getD {}).maxSteps (UInt64.ofNat a.nodes.length) = max
      by_cases zero : max = 0
      · rw [if_pos zero, if_pos zero]
        exact beside.fails rfl
      · rw [if_neg zero, if_neg zero]
        have next := (beside.log { rust with runs := rust.runs.insert req.id (freshSlot req a max) }
          (.refl [("run.started", req.id, Message.run (freshSlot req a max).run)])).remember "start_run"
            ctx (.run (freshSlot req a max).run)
        obtain ⟨ledger, rfl⟩ := beside.split
        exact next.same_answer _

theorem Beside.putArtifact (beside : Beside base rust go) (entry : env'.entryClock = env.entryClock)
    (policy : ArtifactStorePolicy) (artifact : Artifact) :
    Agree base (Store.putArtifactCtx policy env artifact ctx rust)
      (Go.putArtifact policy env' artifact ctx go) := by
  obtain ⟨ledger, rfl⟩ := beside.split
  unfold Go.putArtifact Store.putArtifactCtx
  refine beside.checked (deadline_same entry) fun _ _ _ => beside.checked rfl fun _ _ _ => ?_
  rw [idempotentGet_ledger rust ledger]
  rcases idempotentGet rust "put_artifact" ctx with _ | r | r
  case some.artifactRef => exact beside.same_answer r
  all_goals
    refine beside.checked rfl fun _ _ _ => ?_
    by_cases stored : artifactIdOf artifact ∈ rust.artifacts
    · simp only [if_pos stored]
      exact (beside.remember "put_artifact" ctx _).same_answer _
    · simp only [if_neg stored]
      have next := beside.log
        { rust with artifacts := rust.artifacts.insert (artifactIdOf artifact)
                      { artifact with id := artifactIdOf artifact } }
        (.refl [("artifact.put", artifactIdOf artifact, Message.artifact
          (Store.clearExternalBodies { artifact with id := artifactIdOf artifact }))])
      exact (next.remember "put_artifact" ctx _).same_answer _

end Starts

section Histories

/-- The calls on artifacts and runs that both kernels take. -/
inductive PeerCall
  | putArtifact (artifact : Artifact)
  | startRun (req : RunRequest)
  | injectInput (req : InjectInputRequest)
  | claimReady (req : ClaimRequest)
  | heartbeat (req : HeartbeatRequest)
  | failWork (req : FailWorkRequest)
  | commit (submitted : Derivation)
  | cancelRun (ref : RunRef)

def PeerCall.op : PeerCall → Op
  | .putArtifact artifact => .putArtifact artifact
  | .startRun req => .startRun req
  | .injectInput req => .injectInput req
  | .claimReady req => .claimReady req
  | .heartbeat req => .heartbeat req
  | .failWork req => .failWork req
  | .commit submitted => .commit submitted
  | .cancelRun ref => .cancelRun ref

/-- A call that is made to both kernels at one moment; each goes through its maps in an order of its
own. -/
structure Twin where
  call : PeerCall
  ctx : RequestContext := {}
  rust : Env
  go : Env
  clock : go.now = rust.now
  entry : go.entryClock = rust.entryClock

/-- A property of a run as long as it is RUNNING. -/
def WhileRunning (s : State) (runId : String) (P : RunSlot → Prop) : Prop :=
  ∀ slot, s.runs.lookup runId = some slot → slot.run.state = .running → P slot

/-- A reply up to the text of its error. -/
def portable : Reply → Except ErrorClass Reply
  | .error e => .error (classOf e)
  | r => .ok r

variable [Sha256] [Prost] [Encodings]

def rustStep (policy : ArtifactStorePolicy) (s : State) (t : Twin) : State × Reply :=
  step policy s ⟨t.call.op, t.ctx, t.rust⟩

def goStep (policy : ArtifactStorePolicy) (s : State) (t : Twin) : State × Reply :=
  match t.call with
  | .putArtifact artifact => reply .artifactRef (Go.putArtifact policy t.go artifact t.ctx s)
  | .startRun req => reply .run (Go.startRun t.go req t.ctx s)
  | .injectInput req => reply .run (Go.injectInput t.go req t.ctx s)
  | .claimReady req => reply .claim (Go.claimReady t.go req t.ctx s)
  | .heartbeat req => reply .heartbeat (Go.heartbeat t.go req t.ctx s)
  | .failWork req => reply .run (Go.failWork t.go req t.ctx s)
  | .commit submitted => reply .run (Go.commit t.go submitted t.ctx s)
  | .cancelRun ref => reply .run (Go.cancelRun ref t.go t.ctx s)

/-- A call that the kernels are meant to take alike: an artifact that is accepted (Go goes through the
traits of a refused one in any order), an assembly that is spelled, an input with one fault at most and
a generation below 2^64 - 1, leases that are numbers of the clock and are renewed before they run out,
and work on runs with one binding to a port, declared enum values and a `max_in_flight` below 2^63. -/
def Fitting (policy : ArtifactStorePolicy) (s : State) (t : Twin) : Prop :=
  match t.call with
  | .putArtifact artifact => ∃ r, (Store.putArtifactCtx policy t.rust artifact t.ctx s).2 = .ok r
  | .startRun req => ∀ whole a, req.assembly = some whole →
      Assembly.materializeAssembly t.rust whole req.includeNodes = .ok a → Spelled s.modules a
  | .injectInput req => Injectable req s
  | .claimReady req => WhileRunning s req.runId fun slot =>
      Regular s.modules slot ∧ Moderate t.rust.now slot
  | .heartbeat req => WhileRunning s req.runId fun slot =>
      (extension req slot).toNat < 2 ^ 62 ∧ ListedTimely t.rust.now req slot
  | .failWork req => WhileRunning s req.runId (Regular s.modules)
  | .commit submitted => WhileRunning s submitted.runId (Regular s.modules)
  | .cancelRun _ => True

theorem Agree.reply {α : Type} {base : List LedgerEntry} {rust go : State × Except KernelError α}
    (agree : Agree base rust go) (wrap : α → Reply) :
    Beside base (reply wrap rust).1 (reply wrap go).1 ∧
      portable (Api.reply wrap rust).2 = portable (Api.reply wrap go).2 := by
  obtain ⟨s, result⟩ := rust
  obtain ⟨t, result'⟩ := go
  obtain ⟨beside, answer⟩ := agree
  refine ⟨beside, ?_⟩
  cases result with
  | ok a =>
      cases result' with
      | ok a' =>
          obtain rfl : a' = a := Except.ok.inj answer
          rfl
      | error e' => cases answer
  | error e =>
      cases result' with
      | ok a' => cases answer
      | error e' => exact congrArg Except.error (Except.error.inj answer).symm

theorem steps_agree {policy : ArtifactStorePolicy} {base : List LedgerEntry} {s go : State}
    (reached : Reachable policy s) {t : Twin} (fitting : Fitting policy s t)
    (beside : Beside base s go) :
    Beside base (rustStep policy s t).1 (goStep policy go t).1 ∧
      portable (rustStep policy s t).2 = portable (goStep policy go t).2 := by
  obtain ⟨call, ctx, env, env', clock, entry⟩ := t
  cases call with
  | putArtifact artifact => exact (beside.putArtifact entry policy artifact).reply _
  | startRun req => exact (beside.startRun entry fitting).reply _
  | injectInput req => exact (beside.injectInput entry fitting).reply _
  | claimReady req =>
      refine (beside.claimReady clock entry fun slot found running => ?_).reply _
      obtain ⟨regular, moderate⟩ := fitting slot found running
      exact ⟨regular, moderate, (reachable_wellFormed reached req.runId slot found).room⟩
  | heartbeat req => exact (beside.heartbeat clock entry fitting).reply _
  | failWork req => exact (beside.failWork clock entry fitting).reply _
  | commit submitted =>
      refine (beside.commit clock entry fun slot found running => ?_).reply _
      exact ⟨fitting slot found running, grown_of_reachable reached found running⟩
  | cancelRun ref => exact (beside.cancelRun entry ref).reply _

theorem kernels_paired (policy : ArtifactStorePolicy) (base : List LedgerEntry) :
    Paired (rustStep policy) (goStep policy) (Reachable policy) (Fitting policy) (Beside base)
      fun r r' => portable r = portable r' where
  kept _ _ reached := reachable_step _ reached
  moves _ _ _ reached fitting beside := (steps_agree reached fitting beside).1
  replies _ _ _ reached fitting beside := (steps_agree reached fitting beside).2

/-- Over every history of fitting calls, however either kernel goes through its maps, the Go kernel
gives the answers of the Rust kernel and holds the same, and both have logged the same events. -/
theorem kernels_agree {policy : ArtifactStorePolicy} {base : List LedgerEntry} {s go : State}
    (reached : Reachable policy s) (beside : Beside base s go) {twins : List Twin}
    (fitting : Guarded (rustStep policy) (Fitting policy) s twins) :
    Beside base (after (rustStep policy) s twins) (after (goStep policy) go twins) ∧
      List.Forall₂ (fun r r' => portable r = portable r') (answers (rustStep policy) s twins)
        (answers (goStep policy) go twins) :=
  ((kernels_paired policy base).run reached beside fitting).2

end Histories

section Echo

open Substrate.Kernel.Concrete
open scoped Substrate.Kernel.Marshal

/-- A host that lists its maps from the end. -/
def backwards (ms : Int64) : Env :=
  { entryClock := ms, now := ms, iter := List.reverse, iter_perm := List.reverse_perm }

def twin (ms : Int64) (call : PeerCall) : Twin :=
  { call, rust := envAt ms, go := backwards ms, clock := rfl, entry := rfl }

/-- The run is started, its only unit claimed and committed. -/
def echoed : List Twin :=
  [twin 0 (.startRun (echoRequest .firstTerminal)), twin 0 (.claimReady { runId := "r" }),
    twin 1 (.commit { runId := "r", workId := "work:r/n", outputs := [given "said" (text "one")] })]

private theorem regular_of {s : State} {slot : RunSlot} (modules : s.modules = [⟨echo .once, .registered⟩])
    (assembly : slot.run.assembly = echoes)
    (policy : slot.run.policy = some { closure := Closure.firstTerminal.asI32 }) :
    Regular s.modules slot := by
  refine ⟨?_, ?_, ?_, ?_⟩
  · rw [assembly]
    unfold OneBinding
    decide
  · rw [modules]
    decide
  · intro p known
    rw [policy] at known
    obtain rfl := Option.some.inj known
    decide
  · intro p known id f found
    rw [policy] at known
    obtain rfl := Option.some.inj known
    cases found

private theorem spelled_echoes {s : State} (modules : s.modules = [⟨echo .once, .registered⟩]) :
    Spelled s.modules echoes := by
  have caps : ∀ n ∈ echoes.nodes, capabilityForNode [⟨echo .once, .registered⟩] n =
      .ok { name := "say", inputs := [{ name := "heard", traits := ["text"] }]
            outputs := [{ name := "said", traits := ["text"] }], firing := Firing.once.asI32 } := by
    decide +kernel
  rw [modules]
  refine ⟨fun n here cap resolved p listed => ?_, fun n here cap resolved p listed b bound _ => ?_⟩
  · obtain rfl := Except.ok.inj ((caps n here).symm.trans resolved)
    revert p
    decide
  · obtain rfl := Except.ok.inj ((caps n here).symm.trans resolved)
    obtain rfl := List.mem_singleton.mp here
    obtain rfl := List.mem_singleton.mp bound
    obtain rfl := List.mem_singleton.mp listed
    exact ⟨rfl, rfl⟩

private theorem fitting_echo {s : State}
    (modules : s.modules = [⟨echo .once, .registered⟩])
    (terms : (s.runs.lookup "r").all fun slot => slot.run.assembly = echoes ∧
      slot.run.policy = some { closure := Closure.firstTerminal.asI32 } ∧ slot.maxInFlight = 0 ∧
        slot.defaultLeaseMs = 60000) :
    WhileRunning s "r" fun slot => Regular s.modules slot ∧ Moderate 0 slot := by
  intro slot found _
  rw [found, Option.all_some, decide_eq_true_eq] at terms
  obtain ⟨assembly, policy, narrow, lease⟩ := terms
  refine ⟨regular_of modules assembly policy, ?_, ?_, ?_⟩
  · rw [narrow]
    decide
  · rw [lease]
    decide
  · rw [lease]
    unfold Fits
    decide

private theorem fitting_said {s : State} (modules : s.modules = [⟨echo .once, .registered⟩])
    (terms : (s.runs.lookup "r").all fun slot => slot.run.assembly = echoes ∧
      slot.run.policy = some { closure := Closure.firstTerminal.asI32 } ∧ slot.maxInFlight = 0 ∧
        slot.defaultLeaseMs = 60000) {submitted : Derivation} (own : submitted.runId = "r") :
    Fitting policy s (twin 1 (.commit submitted)) := by
  intro slot found running
  rw [own] at found
  exact (fitting_echo modules terms slot found running).1

/-- The Go kernel does with the run what the Rust kernel does. -/
theorem echo_agrees :
    let s := exec policy {} (stocked .once)
    Beside s.ledger (after (rustStep policy) s echoed) (after (goStep policy) s echoed) ∧
      List.Forall₂ (fun r r' => portable r = portable r') (answers (rustStep policy) s echoed)
        (answers (goStep policy) s echoed) := by
  intro s
  refine kernels_agree ⟨_, rfl⟩ (Beside.refl s) ?_
  refine guarded_cons.mpr ⟨?_, guarded_cons.mpr ⟨?_, guarded_cons.mpr ⟨?_, guarded_nil _ _ _⟩⟩⟩
  · rintro whole a asked cut
    obtain rfl := Option.some.inj asked
    obtain rfl := Except.ok.inj cut
    exact spelled_echoes (by decide +kernel)
  · exact fitting_echo (by decide +kernel) (by decide +kernel)
  · exact fitting_said (by decide +kernel) (by decide +kernel) rfl

end Echo

end Substrate.Protocol.Parity
