/- ID: Substrate/Protocol/Frozen
   digest: What a started run sees of later registrations: only those that provide a pinned coordinate again. -/

import Substrate.Kernel.Concrete
import Substrate.Protocol.Refine

set_option autoImplicit false
set_option relaxedAutoImplicit false

namespace Substrate.Protocol.Frozen

open Substrate.Kernel.Wire
open Substrate.Kernel.Hashing
open Substrate.Kernel.Memory
open Substrate.Kernel.Registry
open Substrate.Kernel.Store
open Substrate.Kernel.Schedule
open Substrate.Kernel.Runs
open Substrate.Kernel.Work
open Substrate.Kernel.Api
open Substrate.Protocol.Atoms
open Substrate.Protocol.Slots
open Substrate.Protocol.Delivery
open Substrate.Protocol.Serial
open Substrate.Protocol.Refine
open Substrate.Library.FiniteMap
open Substrate.Library.Transition

/-- A manifest provides the coordinate a node pins. -/
def provides (manifest : ModuleManifest) (node : AssemblyNode) : Bool :=
  manifest.name == node.module && manifest.version == node.moduleVersion &&
    manifest.provides.any (·.name == node.capability)

theorem providers_append (modules more : List ModuleSlot) (node : AssemblyNode) :
    providers (modules ++ more) node = providers modules node ++ providers more node := by
  simp [providers, List.filter_append]

theorem providers_register {modules : List ModuleSlot} {m : ModuleSlot} {node : AssemblyNode}
    (fresh : provides m.manifest node = false) :
    providers (modules ++ [m]) node = providers modules node := by
  have none : providers [m] node = [] := by
    simp only [providers, List.flatMap_eq_nil_iff, List.mem_filter, List.mem_singleton,
      List.filter_eq_nil_iff]
    rintro other ⟨rfl, pinned⟩ cap member named
    have again : provides other.manifest node = true := by
      rw [provides, pinned, Bool.true_and]
      exact List.any_eq_true.mpr ⟨cap, member, named⟩
    rw [fresh] at again
    cases again
  rw [providers_append, none, List.append_nil]

theorem providers_setLifecycle (name : String) (target : Lifecycle) (modules : List ModuleSlot)
    (node : AssemblyNode) :
    providers (setLifecycle name target modules) node = providers modules node := by
  induction modules with
  | nil => rfl
  | cons m modules ih =>
      have split : ∀ (m : ModuleSlot) (l : List ModuleSlot), providers (m :: l) node =
          providers [m] node ++ providers l node := fun m l => providers_append [m] l node
      have relabel : providers [{ m with lifecycle := target }] node = providers [m] node := by
        unfold providers
        by_cases here : m.manifest.name == node.module && m.manifest.version == node.moduleVersion
        · simp [here]
        · simp [here]
      unfold setLifecycle
      split_ifs
      · rw [split { m with lifecycle := target }, split m, relabel]
      · rw [split m (setLifecycle name target modules), split m modules, ih]

theorem capabilityForNode_congr {modules modules' : List ModuleSlot} {node : AssemblyNode}
    (same : providers modules node = providers modules' node) :
    capabilityForNode modules node = capabilityForNode modules' node := by
  unfold capabilityForNode
  rw [same]

/-- Two kernels that differ only in their registries and ledgers, and resolve the nodes of one run
alike. -/
structure AgreeOn (runId : String) (s t : State) : Prop where
  runs : s.runs = t.runs
  artifacts : s.artifacts = t.artifacts
  blobs : s.blobs = t.blobs
  derivations : s.derivations = t.derivations
  idempotency : s.idempotency = t.idempotency
  nodes : ∀ slot, s.runs.lookup runId = some slot → ∀ node ∈ slot.run.assembly.nodes,
    capabilityForNode s.modules node = capabilityForNode t.modules node

/-- Two outcomes that agree on a run: the same answer and agreeing states. -/
def SameOutcome {α : Type} (runId : String) (x y : State × α) : Prop :=
  x.2 = y.2 ∧ AgreeOn runId x.1 y.1

section Runs

variable {runId : String} {s t : State}

theorem SameOutcome.orReturn {α β : Type} {checked checked' : Except KernelError α}
    {next next' : α → State × Except KernelError β} (agree : AgreeOn runId s t)
    (same : checked = checked')
    (ok : ∀ a, checked = .ok a → SameOutcome runId (next a) (next' a)) :
    SameOutcome runId (orReturn checked s next) (orReturn checked' t next') := by
  subst same
  cases checked with
  | ok a => exact ok a rfl
  | error e => exact ⟨rfl, agree⟩

theorem AgreeOn.running (agree : AgreeOn runId s t) (other : String) :
    runningSlot s other = runningSlot t other := by
  unfold runningSlot
  rw [agree.runs]

theorem AgreeOn.remembered (agree : AgreeOn runId s t) (op : String) (ctx : RequestContext) :
    idempotentGet s op ctx = idempotentGet t op ctx := by
  unfold idempotentGet
  rw [agree.idempotency]

theorem AgreeOn.remember (agree : AgreeOn runId s t) (op : String) (ctx : RequestContext)
    (value : IdempotentResult) :
    AgreeOn runId (idempotentPut s op ctx value) (idempotentPut t op ctx value) := by
  unfold idempotentPut
  cases idempotencyKey op ctx with
  | none => exact agree
  | some key =>
      simp only [agree.idempotency]
      split_ifs
      · exact agree
      · exact ⟨agree.runs, agree.artifacts, agree.blobs, agree.derivations, rfl, agree.nodes⟩

variable [Sha256]

theorem AgreeOn.recordAll (agree : AgreeOn runId s t) {slot after : RunSlot}
    (found : s.runs.lookup runId = some slot)
    (assembly : after.run.assembly = slot.run.assembly) (ds : List Derivation)
    (rs rs' : List Record) :
    AgreeOn runId (recordAll s runId after ds rs) (recordAll t runId after ds rs') := by
  simp only [recordAll_eq]
  refine ⟨by rw [agree.runs], agree.artifacts, agree.blobs, by rw [agree.derivations],
    agree.idempotency, ?_⟩
  intro slot' found' node member
  simp only [lookup_replace found, if_true, Option.some.injEq] at found'
  subst found'
  rw [assembly] at member
  exact agree.nodes slot found node member

section Readiness

variable {modules modules' : List ModuleSlot}

theorem readyUnit_caps {slot : RunSlot} {node : AssemblyNode}
    (same : capabilityForNode modules node = capabilityForNode modules' node) :
    readyUnit modules slot node = readyUnit modules' slot node := by
  unfold readyUnit currentUnit
  rw [same]

theorem readyCandidates_caps {slot : RunSlot} (req : ClaimRequest)
    (same : ∀ node ∈ slot.run.assembly.nodes,
      capabilityForNode modules node = capabilityForNode modules' node) :
    readyCandidates modules slot req = readyCandidates modules' slot req := by
  unfold readyCandidates
  refine List.filterMap_congr fun node member => ?_
  rw [readyUnit_caps (same node (List.mem_of_mem_filter member))]

theorem isIdle_caps {slot : RunSlot}
    (same : ∀ node ∈ slot.run.assembly.nodes,
      capabilityForNode modules node = capabilityForNode modules' node) :
    isIdle modules slot = isIdle modules' slot := by
  have ready : assemblyAnyReady modules slot = assemblyAnyReady modules' slot := by
    rw [Bool.eq_iff_iff, anyReady_iff, anyReady_iff]
    constructor
    · rintro ⟨node, member, inputs, unitKey, ready⟩
      exact ⟨node, member, inputs, unitKey, by rw [← readyUnit_caps (same node member), ready]⟩
    · rintro ⟨node, member, inputs, unitKey, ready⟩
      exact ⟨node, member, inputs, unitKey, by rw [readyUnit_caps (same node member), ready]⟩
  unfold isIdle
  rw [ready]

theorem settleSlot_caps {slot : RunSlot}
    (same : ∀ node ∈ slot.run.assembly.nodes,
      capabilityForNode modules node = capabilityForNode modules' node) :
    settleSlot modules slot = settleSlot modules' slot := by
  unfold settleSlot
  rw [isIdle_caps same]

end Readiness

variable [Prost]

theorem heartbeat_same (agree : AgreeOn runId s t) (env : Env) {req : HeartbeatRequest}
    (here : req.runId = runId) :
    SameOutcome runId (heartbeat env req s) (heartbeat env req t) := by
  subst here
  refine SameOutcome.orReturn agree (agree.running _) fun slot running => ?_
  obtain ⟨found, -⟩ := runningSlot_ok.mp running
  refine ⟨rfl, ?_⟩
  simp only [reapExpiredLocked, record_eq_recordAll, recordAll_recordAll]
  refine agree.recordAll found ?_ _ _ _
  rw [reapSlot_run, renewSlot, foldl_renew_run]

theorem claimReady_same (agree : AgreeOn runId s t) (env : Env) {req : ClaimRequest}
    (here : req.runId = runId) :
    SameOutcome runId (claimReady env req s) (claimReady env req t) := by
  subst here
  refine SameOutcome.orReturn agree (agree.running _) fun slot running => ?_
  obtain ⟨found, -⟩ := runningSlot_ok.mp running
  have caps : ∀ node ∈ (reapSlot env slot).run.assembly.nodes,
      capabilityForNode s.modules node = capabilityForNode t.modules node := by
    rw [reapSlot_run]
    exact agree.nodes slot found
  simp only [reapExpiredLocked, record_eq_recordAll, recordAll_recordAll, recordAll_modules,
    ← readyCandidates_caps req caps]
  generalize batch : claimUnits env req.runId (reapSlot env slot) _ = claims
  have assembly : claims.1.run.assembly = slot.run.assembly := by
    rw [← batch, claimUnits_run, reapSlot_run]
  have idle : isIdle s.modules claims.1 = isIdle t.modules claims.1 := by
    refine isIdle_caps ?_
    rw [assembly]
    exact agree.nodes slot found
  rw [← idle]
  split_ifs
  · refine ⟨rfl, agree.recordAll found ?_ _ _ _⟩
    exact assembly
  · exact ⟨rfl, agree.recordAll found assembly _ _ _⟩

theorem failWork_same (agree : AgreeOn runId s t) (env : Env) {req : FailWorkRequest}
    (here : req.runId = runId) :
    SameOutcome runId (failWork env req s) (failWork env req t) := by
  subst here
  refine SameOutcome.orReturn agree (agree.running _) fun slot running => ?_
  obtain ⟨found, -⟩ := runningSlot_ok.mp running
  have assembly : (reapSlot env slot).run.assembly = slot.run.assembly := by rw [reapSlot_run]
  simp only [reapExpiredLocked, record_eq_recordAll, recordAll_recordAll, recordAll_modules]
  cases (reapSlot env slot).claimed.lookup req.workId with
  | none => exact ⟨rfl, agree.recordAll found assembly _ _ _⟩
  | some c =>
      simp only
      generalize (req.terminal || decide ((reapSlot env slot).maxAttempts ≤ c.attempt)) = terminal
      generalize (if req.reason = "" then "failed" else req.reason) = reason
      have idle : isIdle s.modules (failSlot (reapSlot env slot) req.workId c terminal) =
          isIdle t.modules (failSlot (reapSlot env slot) req.workId c terminal) := by
        refine isIdle_caps fun node member => agree.nodes slot found node ?_
        rw [← assembly]
        exact member
      rw [← idle]
      split_ifs
      · refine ⟨rfl, agree.recordAll found ?_ _ _ _⟩
        exact assembly
      · refine ⟨rfl, agree.recordAll found ?_ _ _ _⟩
        exact assembly

theorem injectInput_same (agree : AgreeOn runId s t) (env : Env) {req : InjectInputRequest}
    (ctx : RequestContext) (here : req.runId = runId) :
    SameOutcome runId (injectInputCtx env req ctx s) (injectInputCtx env req ctx t) := by
  subst here
  refine SameOutcome.orReturn agree rfl fun _ _ => ?_
  cases req.input with
  | none => exact ⟨rfl, agree⟩
  | some input =>
      simp only [agree.artifacts]
      split_ifs
      · exact ⟨rfl, agree⟩
      · cases input.artifact with
        | none => exact ⟨rfl, agree⟩
        | some r =>
            simp only
            split_ifs
            · refine SameOutcome.orReturn agree (agree.running _) fun slot running => ?_
              obtain ⟨found, -⟩ := runningSlot_ok.mp running
              split_ifs
              · simp only [record_eq_recordAll]
                refine ⟨rfl, agree.recordAll found ?_ _ _ _⟩
                rfl
              · exact ⟨rfl, agree⟩
            · exact ⟨rfl, agree⟩

theorem cancelRun_same (agree : AgreeOn runId s t) {ref : RunRef} (here : ref.id = runId) :
    SameOutcome runId (cancelRun ref s) (cancelRun ref t) := by
  subst here
  refine SameOutcome.orReturn agree (agree.running _) fun slot running => ?_
  obtain ⟨found, -⟩ := runningSlot_ok.mp running
  simp only [record_eq_recordAll]
  refine ⟨rfl, agree.recordAll found ?_ _ _ _⟩
  rfl

theorem commit_same (agree : AgreeOn runId s t) (wf : WellFormed s) (env : Env)
    {submitted : Derivation} (ctx : RequestContext) (here : submitted.runId = runId) :
    SameOutcome runId (commitCtx env submitted ctx s) (commitCtx env submitted ctx t) := by
  subst here
  refine SameOutcome.orReturn agree rfl fun _ _ => ?_
  rw [← agree.remembered "commit" ctx]
  split
  · exact ⟨rfl, agree⟩
  · refine SameOutcome.orReturn agree (agree.running _) fun slot running => ?_
    obtain ⟨found, running⟩ := runningSlot_ok.mp running
    have reaping : Trace s.modules s.artifacts submitted.runId slot _ _ _ _ _ :=
      reap_trace env running
    have shape := reaping.shape (wf submitted.runId slot found)
    have assembly : (reapSlot env slot).run.assembly = slot.run.assembly := by rw [reapSlot_run]
    simp only [reapExpiredLocked, record_eq_recordAll, recordAll_modules, recordAll_artifacts]
    generalize (expiredClaims env slot).flatMap
      (expiryRecords submitted.runId slot.maxAttempts) = gone
    have reaped : AgreeOn submitted.runId
        (recordAll s submitted.runId (reapSlot env slot) [] gone)
        (recordAll t submitted.runId (reapSlot env slot) [] gone) :=
      agree.recordAll found assembly _ _ _
    cases held : (reapSlot env slot).claimed.lookup submitted.workId with
    | none => exact ⟨rfl, reaped⟩
    | some c =>
        have claim := shape.claims submitted.workId c held
        have pinned : capabilityForWork s.modules c.work = capabilityForWork t.modules c.work :=
          agree.nodes slot found _ (by rw [← assembly]; exact claim.node)
        simp only
        split_ifs
        · exact ⟨rfl, reaped⟩
        · exact ⟨rfl, reaped⟩
        · refine SameOutcome.orReturn reaped pinned fun cap _ => ?_
          refine SameOutcome.orReturn reaped (by rw [agree.artifacts]) fun _ _ => ?_
          have terms := apply_terms s.modules (reapSlot env slot) (.commit c submitted.outputs)
          have settled : settleSlot s.modules (commitSlot (reapSlot env slot) c
                (derivationOf c.work submitted.outputs)) =
              settleSlot t.modules (commitSlot (reapSlot env slot) c
                (derivationOf c.work submitted.outputs)) := by
            refine settleSlot_caps fun node member => agree.nodes slot found node ?_
            have same := (advanceRun_terms (reapSlot env slot)
              (derivationOf c.work submitted.outputs)).2.1
            rw [← assembly, ← same]
            exact member
          rw [← settled, claim.runId]
          refine ⟨rfl, AgreeOn.remember ?_ _ _ _⟩
          have stored : ∀ after ds rs, after.run.assembly = (reapSlot env slot).run.assembly →
              AgreeOn submitted.runId
                (recordAll (recordAll s submitted.runId (reapSlot env slot) [] gone)
                  submitted.runId after ds rs)
                (recordAll (recordAll t submitted.runId (reapSlot env slot) [] gone)
                  submitted.runId after ds rs) := fun after ds rs same =>
            reaped.recordAll (by rw [lookup_recordAll _ _ _ found, if_pos rfl]) same ds rs rs
          have committed := stored _ [derivationOf c.work submitted.outputs]
            (commitRecords (derivationOf c.work submitted.outputs)
              (settleSlot s.modules (commitSlot (reapSlot env slot) c
                (derivationOf c.work submitted.outputs))).run) terms.assembly
          simp only [recordAll_eq, List.append_nil] at committed ⊢
          exact committed

theorem putArtifact_same (agree : AgreeOn runId s t) (policy : ArtifactStorePolicy) (env : Env)
    (artifact : Artifact) (ctx : RequestContext) :
    SameOutcome runId (putArtifactCtx policy env artifact ctx s)
      (putArtifactCtx policy env artifact ctx t) := by
  refine SameOutcome.orReturn agree rfl fun _ _ => SameOutcome.orReturn agree rfl fun _ _ => ?_
  rw [← agree.remembered "put_artifact" ctx]
  split
  · exact ⟨rfl, agree⟩
  · refine SameOutcome.orReturn agree ?_ fun _ _ => ⟨rfl, AgreeOn.remember ?_ _ _ _⟩
    · unfold verifyObjectRefLocked
      rw [agree.blobs]
    · simp only [agree.artifacts]
      split_ifs
      · exact agree
      · exact ⟨agree.runs, rfl, agree.blobs, agree.derivations, agree.idempotency, agree.nodes⟩

theorem putBlob_same (agree : AgreeOn runId s t) (policy : ArtifactStorePolicy)
    (req : PutBlobRequest) :
    SameOutcome runId (putBlob policy req s) (putBlob policy req t) := by
  refine SameOutcome.orReturn agree rfl fun _ _ => ?_
  simp only [agree.blobs]
  split_ifs
  · exact ⟨rfl, agree⟩
  · exact ⟨rfl, agree⟩
  · exact ⟨rfl, agree.runs, agree.artifacts, rfl, agree.derivations, agree.idempotency,
      agree.nodes⟩

private theorem nodes_path {atoms : List Atom} (path : Path kernel s atoms t)
    {nodes : List AssemblyNode}
    (frozen : ∃ slot, s.runs.lookup runId = some slot ∧ slot.run.assembly.nodes = nodes) :
    ∃ slot, t.runs.lookup runId = some slot ∧ slot.run.assembly.nodes = nodes := by
  refine path.keeps (P := fun s => ∃ slot, s.runs.lookup runId = some slot ∧
    slot.run.assembly.nodes = nodes) ?_ frozen
  rintro u a guard ⟨slot, found, same⟩
  rcases runs_persist guard found with ⟨still, -⟩ | ⟨act, -, -, -, after⟩
  · exact ⟨slot, still, same⟩
  · exact ⟨_, after, by rw [(apply_terms u.modules slot act).assembly, same]⟩

/-- Calls that name the run, and the puts that fill the store for it. -/
def Concerns (runId : String) (call : Call) : Prop :=
  match call.op with
  | .putArtifact _ => True
  | .putBlob _ => True
  | .injectInput req => req.runId = runId
  | .claimReady req => req.runId = runId
  | .heartbeat req => req.runId = runId
  | .failWork req => req.runId = runId
  | .commit submitted => submitted.runId = runId
  | .getRun ref => ref.id = runId
  | .cancelRun ref => ref.id = runId
  | .listDerivations ref => ref.id = runId
  | _ => False

omit [Sha256] [Prost] in
private theorem SameOutcome.answer {α : Type} {wrap : α → Reply} {x y : State × Except KernelError α}
    (same : SameOutcome runId x y) : SameOutcome runId (reply wrap x) (reply wrap y) := by
  obtain ⟨answer, agree⟩ := same
  refine ⟨?_, agree⟩
  unfold reply
  rw [answer]

theorem step_same (agree : AgreeOn runId s t) (wf : WellFormed s) (policy : ArtifactStorePolicy)
    {call : Call} (concerns : Concerns runId call) :
    SameOutcome runId (step policy s call) (step policy t call) := by
  obtain ⟨op, ctx, env⟩ := call
  cases op with
  | putArtifact artifact => exact (putArtifact_same agree policy env artifact ctx).answer
  | putBlob req => exact (putBlob_same agree policy req).answer
  | injectInput req => exact (injectInput_same agree env ctx concerns).answer
  | claimReady req =>
      exact (SameOutcome.orReturn agree rfl fun _ _ => claimReady_same agree env concerns).answer
  | heartbeat req =>
      exact (SameOutcome.orReturn agree rfl fun _ _ => heartbeat_same agree env concerns).answer
  | failWork req =>
      exact (SameOutcome.orReturn agree rfl fun _ _ => failWork_same agree env concerns).answer
  | commit submitted => exact (commit_same agree wf env ctx concerns).answer
  | cancelRun ref =>
      exact (SameOutcome.orReturn agree rfl fun _ _ => cancelRun_same agree concerns).answer
  | getRun ref =>
      refine (SameOutcome.orReturn agree rfl fun _ _ => ⟨?_, agree⟩).answer
      simp only [readOnly, getRun, agree.runs]
  | listDerivations ref =>
      refine (SameOutcome.orReturn agree rfl fun _ _ => ⟨?_, agree⟩).answer
      simp only [readOnly, listDerivations, agree.runs, agree.derivations]
  | _ => exact concerns.elim

theorem register_agree (agree : AgreeOn runId s t) {manifest : ModuleManifest}
    (fresh : ∀ slot, s.runs.lookup runId = some slot → ∀ node ∈ slot.run.assembly.nodes,
      provides manifest node = false) :
    AgreeOn runId (register manifest s) t := by
  refine ⟨agree.runs, agree.artifacts, agree.blobs, agree.derivations, agree.idempotency, ?_⟩
  intro slot found node member
  rw [← agree.nodes slot found node member]
  exact capabilityForNode_congr (providers_register (fresh slot found node member))

/-- The manifest a call registers. -/
def registered (call : Call) : Option ModuleManifest :=
  match call.op with
  | .register manifest => some manifest
  | _ => none

omit [Sha256] [Prost] in
private theorem registered_eq_some {call : Call} {manifest : ModuleManifest}
    (found : registered call = some manifest) : call.op = .register manifest := by
  unfold registered at found
  split at found
  · rename_i op
    rw [op, Option.some.inj found]
  · cases found

/-- The calls that are not registrations. -/
def withoutRegistrations (calls : List Call) : List Call :=
  calls.filter fun call => (registered call).isNone

/-- The answers to the calls that are not registrations. -/
def answers (policy : ArtifactStorePolicy) (s : State) (calls : List Call) : List Reply :=
  emitted (fun s call => if (registered call).isNone then [(step policy s call).2] else [])
    (fun s call => (step policy s call).1) s calls

/-- A registration of coordinates the nodes do not pin, or a call on the run. -/
def Unpinned (runId : String) (nodes : List AssemblyNode) (call : Call) : Prop :=
  match registered call with
  | some manifest => ∀ node ∈ nodes, provides manifest node = false
  | none => Concerns runId call

theorem without_same (policy : ArtifactStorePolicy) {nodes : List AssemblyNode} {calls : List Call}
    (unpinned : ∀ call ∈ calls, Unpinned runId nodes call) (agree : AgreeOn runId s t)
    (wf : WellFormed s)
    (frozen : ∃ slot, s.runs.lookup runId = some slot ∧ slot.run.assembly.nodes = nodes) :
    answers policy s calls = answers policy t (withoutRegistrations calls) ∧
      AgreeOn runId (exec policy s calls) (exec policy t (withoutRegistrations calls)) := by
  induction calls generalizing s t with
  | nil => exact ⟨rfl, agree⟩
  | cons call calls ih =>
      obtain ⟨atoms, path, -⟩ := step_explained policy wf call
      have wf' := wellFormed_step policy wf call
      have frozen' := nodes_path path frozen
      have later : ∀ c ∈ calls, Unpinned runId nodes c :=
        fun c h => unpinned c (List.mem_cons_of_mem _ h)
      have now := unpinned call List.mem_cons_self
      unfold Unpinned at now
      cases made : registered call with
      | some manifest =>
          rw [made] at now
          obtain ⟨slot, found, same⟩ := frozen
          have next : AgreeOn runId (step policy s call).1 t := by
            have op := registered_eq_some made
            obtain ⟨op', ctx, env⟩ := call
            subst op
            refine register_agree agree fun slot' found' node member => now node ?_
            obtain rfl : slot = slot' := Option.some.inj (found.symm.trans found')
            exact same ▸ member
          simpa [answers, emitted, withoutRegistrations, made] using ih later next wf' frozen'
      | none =>
          rw [made] at now
          obtain ⟨answer, next⟩ := step_same agree wf policy now
          obtain ⟨rest, final⟩ := ih later next wf' frozen'
          simp only [answers, emitted, withoutRegistrations, made, Option.isNone_none,
            List.filter_cons_of_pos, exec_cons, if_true] at rest final ⊢
          exact ⟨by rw [answer, rest], final⟩

/-- A run of a reachable kernel answers every later call on it, and moves through the same states,
as if no later registration had happened, when none provides a coordinate its nodes pin. -/
theorem registrations_invisible {policy : ArtifactStorePolicy} (reached : Reachable policy s)
    {slot : RunSlot} (found : s.runs.lookup runId = some slot) {calls : List Call}
    (unpinned : ∀ call ∈ calls, Unpinned runId slot.run.assembly.nodes call) :
    answers policy s calls = answers policy s (withoutRegistrations calls) ∧
      (exec policy s calls).runs.lookup runId =
        (exec policy s (withoutRegistrations calls)).runs.lookup runId := by
  have agree : AgreeOn runId s s := ⟨rfl, rfl, rfl, rfl, rfl, fun _ _ _ _ => rfl⟩
  obtain ⟨same, final⟩ := without_same policy unpinned agree (reachable_wellFormed reached)
    ⟨slot, found, rfl⟩
  exact ⟨same, by rw [final.runs]⟩

end Runs

section Reregistered

open Substrate.Kernel.Concrete

def opened : State := exec policy {} (opening .once .unspecified)

/-- Registering the pinned coordinate again: nothing is handed out and the run is stalled. -/
theorem registrations_stall :
    ((handedOut (step policy opened (claimAt 0)).2).map (·.id) = ["work:r/n"] ∧
      ((step policy opened (claimAt 0)).1.runs.lookup "r").map (·.run.state) = some .running) ∧
    let again := (step policy opened (callAt 0 (.register (echo .once)))).1
    handedOut (step policy again (claimAt 0)).2 = [] ∧
      ((step policy again (claimAt 0)).1.runs.lookup "r").map (·.run.state) = some .stalled := by
  decide +kernel

theorem registrations_invisible_other :
    let other := callAt 0 (.register { name := "echo", version := "2" })
    answers policy opened [other, claimAt 0] =
        answers policy opened (withoutRegistrations [other, claimAt 0]) ∧
      (exec policy opened [other, claimAt 0]).runs.lookup "r" =
        (exec policy opened (withoutRegistrations [other, claimAt 0])).runs.lookup "r" := by
  have running : (opened.runs.lookup "r").isSome = true := by decide +kernel
  obtain ⟨slot, found⟩ := Option.isSome_iff_exists.mp running
  have frozen : (opened.runs.lookup "r").map (·.run.assembly) = some echoes := by decide +kernel
  rw [found, Option.map_some, Option.some.injEq] at frozen
  refine registrations_invisible ⟨_, rfl⟩ found ?_
  rw [frozen]
  simp [Unpinned, registered, callAt, claimAt, Concerns, provides, echoes]

end Reregistered

end Substrate.Protocol.Frozen
