/- ID: Substrate/Kernel/Go
   source: kernel/sdk/go/kernel.go
   digest: Work-unit identity, leases, inputs, commits and assembly validation in the Go kernel. -/

import Mathlib.Data.String.Basic
import Substrate.Kernel.Sdks
import Substrate.Library.ExchangeSort

set_option autoImplicit false
set_option relaxedAutoImplicit false

namespace Substrate.Kernel.Go

open Substrate.Kernel.Wire
open Substrate.Kernel.Hashing
open Substrate.Kernel.Memory
open Substrate.Kernel.Registry
open Substrate.Kernel.Store
open Substrate.Kernel.Schedule (resolveInputs keyPairs deliveryRows deliveryRowBytes unitIsClaimed)
open Substrate.Kernel.Runs (runningSlot admitInput freshSlot cancelSlot)
open Substrate.Kernel.Schedule (nodeMatchesClaimFilter)
open Substrate.Kernel.Work (Candidate expiredClaims reapSlot renewClaim failSlot claimSlot stallSlot
  ledgerWorkItem derivationOf workId)
open Substrate.Kernel.Sdks
open Substrate.Library.FiniteMap (KeyMap size)
open Substrate.Library.ExchangeSort (exchangeSort)

/-! The maps and slots are declared as in the Rust crate, and a range over a map hands out its keys
in an order of its own. Only what is written differently has a definition here. -/

section Identity

def isOpenClosure (slot : RunSlot) : Bool :=
  match slot.run.policy with
  | some p => p.closure == Closure.open.asI32
  | none => false

/-- Enums stay open: any value but the zero one is taken as it is. -/
def effectiveFiring (slot : RunSlot) (node : AssemblyNode) (cap : Capability) : Int32 :=
  match slot.run.policy.bind fun p => (p.byNode.get? node.id).filter (· ≠ 0) with
  | some f => f
  | none =>
      if cap.firing ≠ 0 then cap.firing
      else
        match (slot.run.policy.map (·.default)).filter (· ≠ 0) with
        | some f => f
        | none => Firing.once.asI32

/-- The pairs are sorted by name with two nested loops. -/
def inputKeyBytes (cap : Capability) (inputs : List NamedArtifact) : Bytes :=
  (exchangeSort (·.1) (keyPairs cap inputs)).flatMap fun (name, id) =>
    asBytes name ++ [sep] ++ asBytes id ++ [sep]

def deliveryBytes (rows : List (String × String × UInt64)) : Bytes :=
  (exchangeSort (·.1) rows).flatMap deliveryRowBytes

variable [Sha256]

def inputKey (cap : Capability) (inputs : List NamedArtifact) : String :=
  sha256Hex (inputKeyBytes cap inputs)

def deliveryFingerprint (slot : RunSlot) (node : AssemblyNode) (inputs : List NamedArtifact) :
    Option String :=
  (deliveryRows slot node inputs).map fun rows => sha256Hex (deliveryBytes rows)

def workUnitKey (slot : RunSlot) (node : AssemblyNode) (cap : Capability) (firing : Int32)
    (inputs : List NamedArtifact) : Option String :=
  if firing = Firing.always.asI32 then
    (deliveryFingerprint slot node inputs).map fun fp => "always:" ++ node.id ++ ":" ++ fp
  else if firing = Firing.oncePerKey.asI32 then
    some ("key:" ++ node.id ++ ":" ++ inputKey cap inputs)
  else some ("once:" ++ node.id)

/-- A node's resolved inputs and the unit they make up. -/
def currentUnit (modules : List ModuleSlot) (slot : RunSlot) (node : AssemblyNode) :
    Option (List NamedArtifact × String) :=
  (resolveInputs slot node).bind fun inputs =>
    (capabilityForNode modules node).toOption.bind fun cap =>
      (workUnitKey slot node cap (effectiveFiring slot node cap) inputs).map fun unitKey =>
        (inputs, unitKey)

def readyUnit (modules : List ModuleSlot) (slot : RunSlot) (node : AssemblyNode) :
    Option (List NamedArtifact × String) :=
  (currentUnit modules slot node).filter fun (_, unitKey) =>
    unitKey ∉ slot.doneUnits && !unitIsClaimed slot unitKey

def assemblyAnyReady (modules : List ModuleSlot) (slot : RunSlot) : Bool :=
  slot.run.assembly.nodes.any fun node => (readyUnit modules slot node).isSome

def readyCandidates (modules : List ModuleSlot) (slot : RunSlot) (req : ClaimRequest) :
    List Candidate :=
  (slot.run.assembly.nodes.filter (nodeMatchesClaimFilter req)).filterMap fun node =>
    (readyUnit modules slot node).map (node, ·)

/-- The work item that a claim of a ready unit hands out; the lease is a wrapping sum. -/
def claimWork (env : Env) (runId : String) (slot : RunSlot) (node : AssemblyNode)
    (inputs : List NamedArtifact) (unitKey : String) : WorkItem :=
  { id := workId runId node.id unitKey
    runId, nodeId := node.id, module := node.module, moduleVersion := node.moduleVersion
    capability := node.capability, inputs, unitKey
    attempt := (slot.claimAttempts.lookup unitKey).getD 0 + 1
    leaseUntilUnixMs := env.now + slot.defaultLeaseMs.toInt64 }

omit [Sha256] in
def claimUnits (env : Env) (runId : String) : RunSlot → List Candidate → RunSlot × List WorkItem
  | slot, [] => (slot, [])
  | slot, (node, inputs, unitKey) :: rest =>
      let work := claimWork env runId slot node inputs unitKey
      let (slot', items) := claimUnits env runId (claimSlot slot work) rest
      (slot', work :: items)

end Identity

/-- Free claims under `max_in_flight`: `MaxInt` when it is zero, else an unsigned difference that is
converted to `int`. -/
def inFlightCapacity (slot : RunSlot) : Int64 :=
  if slot.maxInFlight = 0 then Int64.maxValue
  else
    let used := UInt64.ofNat (size slot.claimed)
    if slot.maxInFlight ≤ used then 0 else (slot.maxInFlight - used).toInt64

/-- The loop bound of a claim. -/
def wantedItems (slot : RunSlot) (req : ClaimRequest) : Int64 :=
  let maxItems := Int64.ofNat (if req.maxItems = 0 then 1 else req.maxItems.toNat)
  let capacity := inFlightCapacity slot
  if capacity < maxItems then capacity else maxItems

section Calls

variable [Sha256] [Prost] [Encodings]

/-- Store a run's slot again and log what happened to it. -/
def record (state : State) (runId : String) (slot : RunSlot) (events : List LedgerEvent) : State :=
  Runs.record state runId slot (events.map (detailed marshalCanonical))

/-- The same steps in the same order as in Rust; only the encoder is another. -/
def putArtifact (policy : ArtifactStorePolicy) (env : Env) (artifact : Artifact)
    (ctx : RequestContext) (state : State) : State × Except KernelError ArtifactRef :=
  @putArtifactCtx _ ⟨marshalCanonical⟩ policy env artifact ctx state

def reapExpiredLocked (env : Env) (runId : String) (slot : RunSlot) (state : State) : State :=
  record state runId (reapSlot env slot) ((expiredClaims env slot).flatMap fun (id, c) =>
    expiryEvents runId slot.maxAttempts id c.unitKey c.work c.attempt)

/-- The counter of a run input wraps. -/
def injectSlot (slot : RunSlot) (input : NamedArtifact) : RunSlot :=
  { slot with
    run := { slot.run with inputs := admitInput input slot.run.inputs }
    inputEpochs := slot.inputEpochs.insert input.name
      ((slot.inputEpochs.lookup input.name).getD 0 + 1) }

def injectInput (env : Env) (req : InjectInputRequest) (ctx : RequestContext) (state : State) :
    State × Except KernelError Run :=
  orReturn (checkDeadline env ctx) state fun _ =>
  orReturn (runningSlot state req.runId) state fun slot =>
  match req.input.filter (·.name ≠ "") with
  | none => (state, .error (.invalid "input is required"))
  | some input =>
      match input.artifact with
      | none => (state, .error (.invalid ("input " ++ input.name ++ " has no artifact")))
      | some r =>
          if r.id ∉ state.artifacts then (state, .error (.notFound r.id)) else
          if slot.run.assembly.bindings.any (·.input == input.name) then
            let slot := injectSlot slot input
            (record state req.runId slot [("run.input_injected", slot.run.id, .namedArtifact input)],
              .ok slot.run)
          else (state, .error (.invalid
            ("run input " ++ input.name ++ " is not bound in the assembly")))

/-- Reaps first, then renews what is still claimed; the lease is a wrapping sum. -/
def heartbeat (env : Env) (req : HeartbeatRequest) (ctx : RequestContext) (state : State) :
    State × Except KernelError HeartbeatResponse :=
  orReturn (checkDeadline env ctx) state fun _ =>
  orReturn (runningSlot state req.runId) state fun slot =>
  let state := reapExpiredLocked env req.runId slot state
  let slot := reapSlot env slot
  let extend := if req.extendLeaseMs ≠ 0 then req.extendLeaseMs else slot.defaultLeaseMs
  let leaseUntil := env.now + extend.toInt64
  (record state req.runId (req.workIds.foldl (renewClaim leaseUntil) slot) [],
    .ok { renewedWorkIds := req.workIds.filter (· ∈ slot.claimed)
          lostWorkIds := req.workIds.filter (· ∉ slot.claimed) })

/-- Default closure with nothing in flight and nothing READY. -/
def isIdle (modules : List ModuleSlot) (slot : RunSlot) : Bool :=
  !isOpenClosure slot && size slot.claimed == 0 && !assemblyAnyReady modules slot

def failWork (env : Env) (req : FailWorkRequest) (ctx : RequestContext) (state : State) :
    State × Except KernelError Run :=
  orReturn (checkDeadline env ctx) state fun _ =>
  orReturn (runningSlot state req.runId) state fun slot =>
  let state := reapExpiredLocked env req.runId slot state
  let slot := reapSlot env slot
  match slot.claimed.lookup req.workId with
  | none => (state, .error (.conflict "work was not claimed"))
  | some c =>
      let terminal := req.terminal || slot.maxAttempts ≤ c.attempt
      let slot := failSlot slot req.workId c terminal
      let state := record state req.runId slot
        [("work.failed", req.workId, .workFailure
          { runId := req.runId, workId := req.workId, unitKey := c.unitKey
            reason := if req.reason = "" then "failed" else req.reason
            terminal, attempt := c.attempt })]
      if isIdle state.modules slot then
        let slot := stallSlot slot
        (record state req.runId slot [("run.stalled", slot.run.id, .run slot.run)], .ok slot.run)
      else (state, .ok slot.run)

def claimReady (env : Env) (req : ClaimRequest) (ctx : RequestContext) (state : State) :
    State × Except KernelError ClaimResponse :=
  orReturn (checkDeadline env ctx) state fun _ =>
  orReturn (runningSlot state req.runId) state fun slot =>
  let state := reapExpiredLocked env req.runId slot state
  let slot := reapSlot env slot
  let want := wantedItems slot req
  let ready :=
    if 0 < want then (readyCandidates state.modules slot req).take want.toNatClampNeg else []
  let (slot, items) := claimUnits env req.runId slot ready
  let state := record state req.runId slot
    (items.map fun work => ("work.claimed", work.id, .workItem (ledgerWorkItem work)))
  if items = [] ∧ isIdle state.modules slot then
    let slot := stallSlot slot
    (record state req.runId slot [("run.stalled", slot.run.id, .run slot.run)], .ok { items })
  else (state, .ok { items })

def cancelRun (ref : RunRef) (env : Env) (ctx : RequestContext) (state : State) :
    State × Except KernelError Run :=
  orReturn (checkDeadline env ctx) state fun _ =>
  orReturn (runningSlot state ref.id) state fun slot =>
  let slot := cancelSlot slot
  (record state ref.id slot [("run.cancelled", slot.run.id, .run slot.run)], .ok slot.run)

end Calls

section Commit

/-- `%v` of a slice. -/
def dialect : Dialect where
  colon := " "
  checksTraitRefs := false
  samePort a b := a.1 ++ "\x00" ++ a.2 == b.1 ++ "\x00" ++ b.2
  traitList l := "[" ++ String.intercalate " " l ++ "]"

def validateAssembly (env : Env) : List ModuleSlot → KeyMap String Artifact → Assembly →
    List NamedArtifact → Except KernelError Unit :=
  Sdks.validateAssembly dialect env.iter

def validateOutputs : KeyMap String Artifact → Capability → List NamedArtifact →
    Except KernelError Unit :=
  Sdks.validateOutputs dialect

def materializeAssembly (env : Env) : Assembly → List String → Except KernelError Assembly :=
  Sdks.materializeAssembly env.iter

def startRun [Sha256] [Prost] [Encodings] (env : Env) (req : RunRequest) (ctx : RequestContext)
    (state : State) : State × Except KernelError Run :=
  orReturn (checkDeadline env ctx) state fun _ =>
  match idempotentGet state "start_run" ctx with
  | some (.run r) => (state, .ok r)
  | _ =>
      if req.id = "" then (state, .error (.invalid "run id is required")) else
      if req.id ∈ state.runs then
        (state, .error (.conflict ("run " ++ req.id ++ " already exists"))) else
      match req.assembly with
      | none => (state, .error (.invalid "assembly is required"))
      | some a =>
          orReturn (materializeAssembly env a req.includeNodes) state fun a =>
          orReturn (validateAssembly env state.modules state.artifacts a req.inputs) state fun _ =>
          let limits := req.limits.getD {}
          let max := if limits.maxSteps ≠ 0 then limits.maxSteps else UInt64.ofNat a.nodes.length
          if max = 0 then (state, .error (.invalid "max_steps must be positive")) else
          let slot := freshSlot req a max
          let state := appendLocked { state with runs := state.runs.insert req.id slot }
            "run.started" req.id (marshalCanonical (.run slot.run))
          (idempotentPut state "start_run" ctx (.run slot.run), .ok slot.run)

/-- A run between the steps that may close it. -/
structure Closing where
  slot : RunSlot
  closed : Bool := false

/-- The slot once a claim has become a derivation. -/
def settleClaim (slot : RunSlot) (c : ClaimedSlot) (d : Derivation) : RunSlot :=
  { slot with
    claimed := slot.claimed.erase c.work.id
    doneUnits := insert c.unitKey slot.doneUnits
    latest := slot.latest.insert c.work.nodeId d
    nodeCommits := slot.nodeCommits.insert c.work.nodeId
      ((slot.nodeCommits.lookup c.work.nodeId).getD 0 + 1)
    run := { slot.run with steps := slot.run.steps + 1 } }

/-- The first output on the terminal port is the answer. A run without a terminal, for which the
source panics, is never started. -/
def answerRun (slot : RunSlot) (d : Derivation) : Closing :=
  match (slot.run.assembly.terminal.filter (·.node == d.nodeId)).bind fun terminal =>
      d.outputs.find? (·.name == terminal.port) with
  | none => { slot }
  | some output =>
      if isOpenClosure slot then
        { slot := { slot with run := { slot.run with answer := output.artifact } } }
      else
        { slot := { slot with run := { slot.run with answer := output.artifact, state := .completed } }
          closed := true }

def exhaustRun (c : Closing) : Closing :=
  if c.closed = false ∧ c.slot.run.maxSteps ≤ c.slot.run.steps then
    { slot := { c.slot with run := { c.slot.run with
        state := .failed, reason := "max_steps exhausted before the terminal output" } }
      closed := true }
  else c

variable [Sha256]

def stallRun (modules : List ModuleSlot) (c : Closing) : Closing :=
  if c.closed = false ∧ isIdle modules c.slot then { slot := stallSlot c.slot, closed := true } else c

def closingKind (c : Closing) : String :=
  if c.slot.run.state = .completed then "run.completed"
  else if c.slot.run.state = .stalled then "run.stalled"
  else if c.closed then "run.failed"
  else "run.progressed"

variable [Prost] [Encodings]

def commit (env : Env) (submitted : Derivation) (ctx : RequestContext) (state : State) :
    State × Except KernelError Run :=
  orReturn (checkDeadline env ctx) state fun _ =>
  match idempotentGet state "commit" ctx with
  | some (.run r) => (state, .ok r)
  | _ =>
      orReturn (runningSlot state submitted.runId) state fun slot =>
      let state := reapExpiredLocked env submitted.runId slot state
      let slot := reapSlot env slot
      match slot.claimed.lookup submitted.workId with
      | none => (state, .error (.conflict "work was not claimed"))
      | some c =>
          if submitted.nodeId ≠ "" ∧ submitted.nodeId ≠ c.work.nodeId then
            (state, .error (.invalid "node_id does not match the claim")) else
          orReturn (capabilityForWork state.modules c.work) state fun cap =>
          orReturn (validateOutputs state.artifacts cap submitted.outputs) state fun _ =>
          let d := derivationOf c.work submitted.outputs
          let closing := stallRun state.modules (exhaustRun (answerRun (settleClaim slot c d) d))
          let run := closing.slot.run
          let state := record { state with derivations := state.derivations ++ [d] }
            submitted.runId closing.slot
            [("derivation.committed", d.id, .derivation d), (closingKind closing, run.id, .run run)]
          (idempotentPut state "commit" ctx (.run run), .ok run)

end Commit

section Runs

variable [Sha256] [Prost] [Encodings]

/-- The calls that may change a run; all others leave the runs alone. -/
inductive Step : State → State → Prop
  | startRun (env : Env) (req : RunRequest) (ctx : RequestContext) (s : State) :
      Step s (startRun env req ctx s).1
  | injectInput (env : Env) (req : InjectInputRequest) (ctx : RequestContext) (s : State) :
      Step s (injectInput env req ctx s).1
  | claimReady (env : Env) (req : ClaimRequest) (ctx : RequestContext) (s : State) :
      Step s (claimReady env req ctx s).1
  | heartbeat (env : Env) (req : HeartbeatRequest) (ctx : RequestContext) (s : State) :
      Step s (heartbeat env req ctx s).1
  | failWork (env : Env) (req : FailWorkRequest) (ctx : RequestContext) (s : State) :
      Step s (failWork env req ctx s).1
  | commit (env : Env) (submitted : Derivation) (ctx : RequestContext) (s : State) :
      Step s (commit env submitted ctx s).1
  | cancelRun (env : Env) (ref : RunRef) (ctx : RequestContext) (s : State) :
      Step s (cancelRun ref env ctx s).1
  | other {s t : State} (same : t.runs = s.runs) : Step s t

/-- The states that the calls of a kernel lead to. -/
inductive Reachable : State → Prop
  | start : Reachable {}
  | next {s t : State} (before : Reachable s) (step : Step s t) : Reachable t

end Runs

end Substrate.Kernel.Go
