/- ID: Substrate/Kernel/Python
   source: kernel/sdk/python/src/srcport_substrate/_kernel.py
   digest: Work-unit identity, leases, inputs, commits and assembly validation in the Python kernel. -/

import Substrate.Kernel.Sdks

set_option autoImplicit false
set_option relaxedAutoImplicit false

namespace Substrate.Kernel.Python

open Substrate.Kernel.Wire
open Substrate.Kernel.Hashing
open Substrate.Kernel.Memory (Env ModuleSlot IdempotentResult KernelError nextEntry idempotencyKey)
open Substrate.Kernel.Registry (capabilityForNode capabilityForWork)
open Substrate.Kernel.Schedule (bindingsOf inputKey sortByPort)
open Substrate.Kernel.Runs (admitInput orDefault defaultLeaseMs defaultMaxAttempts)
open Substrate.Kernel.Work (derivationOf)
open Substrate.Kernel.Sdks
open Substrate.Library.FiniteMap (KeyMap values size)
open Substrate.Library.Framing (beBytes)

/-- An exception: one of the kernel's own, a number that a protobuf field does not hold, or one that
does not fit eight bytes. -/
inductive Raised
  | kernel (e : KernelError)
  | valueError
  | overflowError

/-- In-flight leased claim; the lease is an unbounded `int`. -/
structure ClaimedSlot where
  work : WorkItem
  unitKey : String
  leaseUntilMs : Int
  attempt : UInt32

/-- The dictionary of one run; generations and commit counts are unbounded. -/
structure RunSlot where
  run : Run
  claimed : KeyMap String ClaimedSlot
  latest : KeyMap String Derivation
  doneUnits : Finset String
  claimAttempts : KeyMap String UInt32
  inputEpochs : KeyMap String Nat
  nodeCommits : KeyMap String Nat
  maxInFlight : UInt64
  defaultLeaseMs : UInt64
  maxAttempts : UInt32

/-- What the calls on runs read and write. -/
structure MemoryKernel where
  modules : List ModuleSlot := []
  artifacts : KeyMap String Artifact := ∅
  ledger : List LedgerEntry := []
  runs : KeyMap String RunSlot := ∅
  derivations : List Derivation := []
  idempotency : KeyMap String IdempotentResult := ∅

/-- Go on after a check; an exception leaves the kernel as it stands. -/
def orRaise {α β : Type} (checked : Except Raised α) (k : MemoryKernel)
    (next : α → MemoryKernel × Except Raised β) : MemoryKernel × Except Raised β :=
  match checked with
  | .ok a => next a
  | .error e => (k, .error e)

def raising {α : Type} (checked : Except KernelError α) : Except Raised α := checked.mapError .kernel

/-- Only a zero deadline is taken for none. -/
def checkDeadline (env : Env) (ctx : RequestContext) : Except KernelError Unit :=
  if ctx.deadlineUnixMs = 0 then .ok ()
  else if ctx.deadlineUnixMs < env.entryClock then
    .error (.failedPrecondition "deadline exceeded")
  else .ok ()

/-- A dictionary lists its items in the order of insertion; the map holds the newest first. -/
def items {V : Type} (m : KeyMap String V) : List (String × V) :=
  m.entries.reverse.map fun e => (e.1, e.2)

/-- A reference that is not set reads as the empty one. -/
def resolveBinding (slot : RunSlot) (b : Binding) : Option ArtifactRef :=
  let item :=
    if b.input ≠ "" then slot.run.inputs.find? (·.name == b.input)
    else (slot.latest.lookup b.fromNode).bind fun d => d.outputs.find? (·.name == b.fromPort)
  item.map fun item => item.artifact.getD ⟨""⟩

def resolveInputs (slot : RunSlot) (node : AssemblyNode) : Option (List NamedArtifact) :=
  (bindingsOf slot.run.assembly node.id).mapM fun b =>
    (resolveBinding slot b).map fun ref => { name := b.toPort, artifact := some ref }

def isOpenClosure (slot : RunSlot) : Bool :=
  match slot.run.policy with
  | some p => p.closure == Closure.open.asI32
  | none => false

def effectiveFiring (slot : RunSlot) (node : AssemblyNode) (cap : Capability) : Int32 :=
  match slot.run.policy.bind fun p => (p.byNode.get? node.id).filter (· ≠ 0) with
  | some f => f
  | none =>
      if cap.firing ≠ 0 then cap.firing
      else
        match (slot.run.policy.map (·.default)).filter (· ≠ 0) with
        | some f => f
        | none => Firing.once.asI32

def bindingEpoch (slot : RunSlot) (b : Binding) : Nat :=
  if b.input ≠ "" then (slot.inputEpochs.lookup b.input).getD 0
  else (slot.nodeCommits.lookup b.fromNode).getD 0

def deliveryRows (slot : RunSlot) (node : AssemblyNode) (inputs : List NamedArtifact) :
    Option (List (String × String × Nat)) :=
  (bindingsOf slot.run.assembly node.id).mapM fun b =>
    (inputs.find? (·.name == b.toPort)).bind fun art =>
      art.artifact.map fun ref => (b.toPort, ref.id, bindingEpoch slot b)

/-- `int(epoch).to_bytes(8, "big")` takes no more than eight bytes. -/
def deliveryRowBytes (row : String × String × Nat) : Except Raised Bytes :=
  if row.2.2 < 2 ^ 64 then
    .ok (asBytes row.1 ++ [sep] ++ asBytes row.2.1 ++ [sep] ++ beBytes 8 row.2.2 ++ [sep])
  else .error .overflowError

def unitIsClaimed (slot : RunSlot) (unitKey : String) : Bool :=
  (values slot.claimed).any (·.unitKey == unitKey)

section Units

variable [Sha256]

def deliveryFingerprint (slot : RunSlot) (node : AssemblyNode) (inputs : List NamedArtifact) :
    Except Raised (Option String) :=
  match deliveryRows slot node inputs with
  | none => .ok none
  | some rows => do
      let parts ← (sortByPort rows).mapM deliveryRowBytes
      return some (sha256Hex parts.flatten)

def workUnitKey (slot : RunSlot) (node : AssemblyNode) (cap : Capability) (firing : Int32)
    (inputs : List NamedArtifact) : Except Raised (Option String) :=
  if firing = Firing.always.asI32 then do
    let fp ← deliveryFingerprint slot node inputs
    return fp.map fun fp => "always:" ++ node.id ++ ":" ++ fp
  else if firing = Firing.oncePerKey.asI32 then
    .ok (some ("key:" ++ node.id ++ ":" ++ inputKey cap inputs))
  else .ok (some ("once:" ++ node.id))

/-- The body of the loop over the nodes. -/
def nodeIsReady (modules : List ModuleSlot) (slot : RunSlot) (node : AssemblyNode) :
    Except Raised Bool :=
  match resolveInputs slot node, capabilityForNode modules node with
  | some inputs, .ok cap => do
      let key ← workUnitKey slot node cap (effectiveFiring slot node cap) inputs
      return key.any fun unitKey => unitKey ∉ slot.doneUnits && !unitIsClaimed slot unitKey
  | _, _ => .ok false

def anyReady (modules : List ModuleSlot) (slot : RunSlot) : List AssemblyNode → Except Raised Bool
  | [] => .ok false
  | node :: rest => do
      if ← nodeIsReady modules slot node then return true
      anyReady modules slot rest

def assemblyAnyReady (modules : List ModuleSlot) (slot : RunSlot) : Except Raised Bool :=
  anyReady modules slot slot.run.assembly.nodes

end Units

def stallSlot (slot : RunSlot) : RunSlot :=
  { slot with
    run := { slot.run with
      state := .stalled, reason := "no node is ready and no work is in flight" } }

def runningSlot (k : MemoryKernel) (runId : String) : Except Raised RunSlot :=
  match k.runs.lookup runId with
  | none => .error (.kernel (.notFound runId))
  | some slot =>
      if slot.run.state = .running then .ok slot
      else .error (.kernel (.runClosed slot.run.state))

/-- The claims whose lease has run out, oldest claim first. -/
def expiredClaims (now : Int64) (slot : RunSlot) : List (String × ClaimedSlot) :=
  (items slot.claimed).filter fun (_, c) => 0 < c.leaseUntilMs && c.leaseUntilMs ≤ now.toInt

def expireClaim (slot : RunSlot) (expired : String × ClaimedSlot) : RunSlot :=
  { slot with
    claimed := slot.claimed.erase expired.1
    doneUnits :=
      if slot.maxAttempts ≤ expired.2.attempt then insert expired.2.unitKey slot.doneUnits
      else slot.doneUnits }

def reapSlot (now : Int64) (slot : RunSlot) : RunSlot :=
  (expiredClaims now slot).foldl expireClaim slot

/-- A lease that an `int64` field does not hold is refused after the slot's own copy is set. -/
def renewClaims (leaseUntil : Int) :
    RunSlot → List String → RunSlot × Except Raised (List String × List String)
  | slot, [] => (slot, .ok ([], []))
  | slot, id :: rest =>
      match slot.claimed.lookup id with
      | none =>
          let (after, result) := renewClaims leaseUntil slot rest
          (after, result.map fun (renewed, lost) => (renewed, id :: lost))
      | some c =>
          let c := { c with leaseUntilMs := leaseUntil }
          if Int64.minValue.toInt ≤ leaseUntil ∧ leaseUntil ≤ Int64.maxValue.toInt then
            let c := { c with work := { c.work with leaseUntilUnixMs := Int64.ofInt leaseUntil } }
            let (after, result) :=
              renewClaims leaseUntil { slot with claimed := slot.claimed.replace id c } rest
            (after, result.map fun (renewed, lost) => (id :: renewed, lost))
          else ({ slot with claimed := slot.claimed.replace id c }, .error .valueError)

def injectSlot (slot : RunSlot) (input : NamedArtifact) : RunSlot :=
  { slot with
    run := { slot.run with inputs := admitInput input slot.run.inputs }
    inputEpochs := slot.inputEpochs.insert input.name
      ((slot.inputEpochs.lookup input.name).getD 0 + 1) }

def failSlot (slot : RunSlot) (id : String) (c : ClaimedSlot) (terminal : Bool) : RunSlot :=
  { slot with
    claimed := slot.claimed.erase id
    doneUnits := if terminal then insert c.unitKey slot.doneUnits else slot.doneUnits }

/-- `f"{list(traits)}"` for refs that need no escapes. -/
def dialect : Dialect where
  colon := ": "
  checksTraitRefs := true
  samePort a b := a == b
  traitList l := "[" ++ String.intercalate ", " (l.map fun t => "'" ++ t ++ "'") ++ "]"

def validateAssembly : List ModuleSlot → KeyMap String Artifact → Assembly → List NamedArtifact →
    Except KernelError Unit :=
  Sdks.validateAssembly dialect id

def materializeAssembly : Assembly → List String → Except KernelError Assembly :=
  Sdks.materializeAssembly id

def validateOutputs : KeyMap String Artifact → Capability → List NamedArtifact →
    Except KernelError Unit :=
  Sdks.validateOutputs dialect

section Calls

variable [Sha256] [Prost] [Encodings]

omit [Prost] in
def append (k : MemoryKernel) (kind subject : String) (detail : Bytes) : MemoryKernel :=
  { k with ledger := k.ledger ++ [nextEntry k.ledger kind subject detail] }

/-- Store a run's dictionary again and log what happened to it. -/
def record (k : MemoryKernel) (runId : String) (slot : RunSlot) (events : List LedgerEvent) :
    MemoryKernel :=
  (events.map (detailed canonical)).foldl (fun k r => append k r.1 r.2.1 r.2.2)
    { k with runs := k.runs.replace runId slot }

def reapExpiredLocked (now : Int64) (runId : String) (slot : RunSlot) (k : MemoryKernel) :
    MemoryKernel :=
  record k runId (reapSlot now slot) ((expiredClaims now slot).flatMap fun (id, c) =>
    expiryEvents runId slot.maxAttempts id c.unitKey c.work c.attempt)

omit [Sha256] [Prost] [Encodings] in
def idempotentPut (k : MemoryKernel) (op : String) (ctx : RequestContext)
    (value : IdempotentResult) : MemoryKernel :=
  match idempotencyKey op ctx with
  | none => k
  | some key =>
      if key ∈ k.idempotency then k else { k with idempotency := k.idempotency.insert key value }

omit [Sha256] [Prost] [Encodings] in
/-- The dictionary a fresh run starts with; `or` takes the default for zero. -/
def freshSlot (req : RunRequest) (assembly : Assembly) (maxSteps : UInt64) : RunSlot :=
  let limits := req.limits.getD {}
  { run :=
      { id := req.id, assembly, inputs := req.inputs, state := .running, answer := none, steps := 0
        maxSteps, reason := "", policy := req.policy }
    claimed := ∅
    latest := ∅
    doneUnits := ∅
    claimAttempts := ∅
    inputEpochs := req.inputs.foldl (fun epochs input => epochs.insert input.name 0) ∅
    nodeCommits := ∅
    maxInFlight := limits.maxInFlight
    defaultLeaseMs := orDefault limits.defaultLeaseMs defaultLeaseMs
    maxAttempts := orDefault limits.maxAttempts defaultMaxAttempts }

def startRun (env : Env) (req : RunRequest) (ctx : RequestContext) (k : MemoryKernel) :
    MemoryKernel × Except Raised Run :=
  orRaise (raising (checkDeadline env ctx)) k fun _ =>
  match (idempotencyKey "start_run" ctx).bind fun key => k.idempotency.lookup key with
  | some (.run r) => (k, .ok r)
  | _ =>
      if req.id = "" then (k, .error (.kernel (.invalid "run id is required"))) else
      if req.id ∈ k.runs then
        (k, .error (.kernel (.conflict ("run " ++ req.id ++ " already exists")))) else
      match req.assembly with
      | none => (k, .error (.kernel (.invalid "assembly is required")))
      | some assembly =>
          orRaise (raising (materializeAssembly assembly req.includeNodes)) k fun assembly =>
          orRaise (raising (validateAssembly k.modules k.artifacts assembly req.inputs)) k fun _ =>
          let maxSteps := orDefault (req.limits.getD {}).maxSteps
            (UInt64.ofNat assembly.nodes.length)
          if maxSteps = 0 then (k, .error (.kernel (.invalid "max_steps must be positive"))) else
          let slot := freshSlot req assembly maxSteps
          let k := append { k with runs := k.runs.insert req.id slot }
            "run.started" req.id (canonical (.run slot.run))
          (idempotentPut k "start_run" ctx (.run slot.run), .ok slot.run)

def injectInput (env : Env) (req : InjectInputRequest) (ctx : RequestContext) (k : MemoryKernel) :
    MemoryKernel × Except Raised Run :=
  orRaise (raising (checkDeadline env ctx)) k fun _ =>
  orRaise (runningSlot k req.runId) k fun slot =>
  match req.input.filter (·.name ≠ "") with
  | none => (k, .error (.kernel (.invalid "input is required")))
  | some input =>
      match input.artifact with
      | none => (k, .error (.kernel (.invalid ("input " ++ input.name ++ " has no artifact"))))
      | some r =>
          if r.id ∉ k.artifacts then (k, .error (.kernel (.notFound r.id))) else
          if slot.run.assembly.bindings.any (·.input == input.name) then
            let slot := injectSlot slot input
            (record k req.runId slot [("run.input_injected", slot.run.id, .namedArtifact input)],
              .ok slot.run)
          else (k, .error (.kernel (.invalid
            ("run input " ++ input.name ++ " is not bound in the assembly"))))

/-- Reaps first, then renews what is still claimed. -/
def heartbeat (env : Env) (req : HeartbeatRequest) (ctx : RequestContext) (k : MemoryKernel) :
    MemoryKernel × Except Raised HeartbeatResponse :=
  orRaise (raising (checkDeadline env ctx)) k fun _ =>
  orRaise (runningSlot k req.runId) k fun slot =>
  let k := reapExpiredLocked env.now req.runId slot k
  let slot := reapSlot env.now slot
  let extend := if req.extendLeaseMs = 0 then slot.defaultLeaseMs else req.extendLeaseMs
  let leaseUntil := env.now.toInt + extend.toNat
  let (slot, result) := renewClaims leaseUntil slot req.workIds
  (record k req.runId slot [],
    result.map fun (renewed, lost) => { renewedWorkIds := renewed, lostWorkIds := lost })

def failWork (env : Env) (req : FailWorkRequest) (ctx : RequestContext) (k : MemoryKernel) :
    MemoryKernel × Except Raised Run :=
  orRaise (raising (checkDeadline env ctx)) k fun _ =>
  orRaise (runningSlot k req.runId) k fun slot =>
  let k := reapExpiredLocked env.now req.runId slot k
  let slot := reapSlot env.now slot
  match slot.claimed.lookup req.workId with
  | none => (k, .error (.kernel (.conflict "work was not claimed")))
  | some c =>
      let terminal := req.terminal || slot.maxAttempts ≤ c.attempt
      let slot := failSlot slot req.workId c terminal
      let k := record k req.runId slot
        [("work.failed", req.workId, .workFailure
          { runId := req.runId, workId := req.workId, unitKey := c.unitKey
            reason := if req.reason = "" then "failed" else req.reason
            terminal, attempt := c.attempt })]
      if !isOpenClosure slot && size slot.claimed == 0 then
        orRaise (assemblyAnyReady k.modules slot) k fun ready =>
        if ready then (k, .ok slot.run)
        else
          let slot := stallSlot slot
          (record k req.runId slot [("run.stalled", slot.run.id, .run slot.run)], .ok slot.run)
      else (k, .ok slot.run)

/-- A run between the steps that may close it. -/
structure Closing where
  slot : RunSlot
  closed : Bool := false

omit [Sha256] [Prost] [Encodings] in
/-- The slot once a claim has become a derivation, the step not yet counted. -/
def settleClaim (slot : RunSlot) (c : ClaimedSlot) (d : Derivation) : RunSlot :=
  { slot with
    claimed := slot.claimed.erase c.work.id
    doneUnits := insert c.unitKey slot.doneUnits
    latest := slot.latest.insert c.work.nodeId d
    nodeCommits := slot.nodeCommits.insert c.work.nodeId
      ((slot.nodeCommits.lookup c.work.nodeId).getD 0 + 1) }

omit [Sha256] [Prost] [Encodings] in
def countStep (slot : RunSlot) : RunSlot :=
  { slot with run := { slot.run with steps := slot.run.steps + 1 } }

omit [Sha256] [Prost] [Encodings] in
/-- The first output on the terminal port is the answer; a terminal that is not set reads as the
empty one. -/
def answerRun (slot : RunSlot) (d : Derivation) : Closing :=
  let terminal := slot.run.assembly.terminal.getD ⟨"", ""⟩
  match (if terminal.node = d.nodeId then d.outputs.find? (·.name == terminal.port) else none) with
  | none => { slot }
  | some output =>
      let slot := { slot with run := { slot.run with
        answer := some (output.artifact.getD ⟨""⟩) } }
      if isOpenClosure slot then { slot }
      else { slot := { slot with run := { slot.run with state := .completed } }, closed := true }

omit [Sha256] [Prost] [Encodings] in
def exhaustRun (c : Closing) : Closing :=
  if c.closed = false ∧ c.slot.run.maxSteps ≤ c.slot.run.steps then
    { slot := { c.slot with run := { c.slot.run with
        state := .failed, reason := "max_steps exhausted before the terminal output" } }
      closed := true }
  else c

omit [Prost] [Encodings] in
def stallRun (modules : List ModuleSlot) (c : Closing) : Except Raised Closing := do
  if c.closed || isOpenClosure c.slot then return c
  let ready ← assemblyAnyReady modules c.slot
  if !ready && size c.slot.claimed == 0 then return { slot := stallSlot c.slot, closed := true }
  return c

omit [Sha256] [Prost] [Encodings] in
def closingKind (c : Closing) : String :=
  if c.slot.run.state = .completed then "run.completed"
  else if c.slot.run.state = .stalled then "run.stalled"
  else if c.closed then "run.failed"
  else "run.progressed"

/-- The run is written in place, so that an exception leaves what was written before it. -/
def commit (env : Env) (submitted : Derivation) (ctx : RequestContext) (k : MemoryKernel) :
    MemoryKernel × Except Raised Run :=
  orRaise (raising (checkDeadline env ctx)) k fun _ =>
  match (idempotencyKey "commit" ctx).bind fun key => k.idempotency.lookup key with
  | some (.run r) => (k, .ok r)
  | _ =>
      orRaise (runningSlot k submitted.runId) k fun slot =>
      let k := reapExpiredLocked env.now submitted.runId slot k
      let slot := reapSlot env.now slot
      match slot.claimed.lookup submitted.workId with
      | none => (k, .error (.kernel (.conflict "work was not claimed")))
      | some c =>
          if submitted.nodeId ≠ "" ∧ submitted.nodeId ≠ c.work.nodeId then
            (k, .error (.kernel (.invalid "node_id does not match the claim"))) else
          orRaise (raising (capabilityForWork k.modules c.work)) k fun cap =>
          orRaise (raising (validateOutputs k.artifacts cap submitted.outputs)) k fun _ =>
          let d := derivationOf c.work submitted.outputs
          let settled := settleClaim slot c d
          if settled.run.steps.toNat + 1 = 2 ^ 64 then
            (record k submitted.runId settled [], .error .valueError) else
          let closing := exhaustRun (answerRun (countStep settled) d)
          orRaise (stallRun k.modules closing) (record k submitted.runId closing.slot [])
            fun closing =>
          let run := closing.slot.run
          let k := record { k with derivations := k.derivations ++ [d] } submitted.runId closing.slot
            [("derivation.committed", d.id, .derivation d), (closingKind closing, run.id, .run run)]
          (idempotentPut k "commit" ctx (.run run), .ok run)

end Calls

end Substrate.Kernel.Python
