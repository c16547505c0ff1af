/- ID: Substrate/Kernel/Runs
   source: kernel/sdk/rust/src/lib.rs
   digest: Starting a run, admitting inputs, cancelling and reading it back. -/

import Substrate.Kernel.Assembly
import Substrate.Kernel.Schedule

set_option autoImplicit false
set_option relaxedAutoImplicit false

namespace Substrate.Kernel.Runs

open Substrate.Kernel.Wire
open Substrate.Kernel.Hashing
open Substrate.Kernel.Memory
open Substrate.Kernel.Assembly (materializeAssembly validateAssembly)
open Substrate.Library.FiniteMap (KeyMap)

def defaultLeaseMs : UInt64 := 60000

def defaultMaxAttempts : UInt32 := 3

/-- A ledger entry before it is chained: kind, subject, detail. -/
abbrev Record := String × String × Bytes

/-- Store a run's slot again and log what happened to it. -/
def record [Sha256] (state : State) (runId : String) (slot : RunSlot) (records : List Record) :
    State :=
  records.foldl (fun s r => appendLocked s r.1 r.2.1 r.2.2)
    { state with runs := state.runs.replace runId slot }

/-- The slot of a run that still takes work. -/
def runningSlot (state : State) (runId : String) : Except KernelError RunSlot :=
  match state.runs.lookup runId with
  | none => .error (.notFound runId)
  | some slot =>
      if slot.run.state = .running then .ok slot else .error (.runClosed slot.run.state)

/-- `v` unless it is zero, then the default. -/
def orDefault {α : Type} [DecidableEq α] [OfNat α 0] (v default : α) : α :=
  if v = 0 then default else v

/-- The slot a fresh run starts with. -/
def freshSlot (req : RunRequest) (assembly : Assembly) (maxSteps : UInt64) : RunSlot :=
  let limits := req.limits.getD {}
  { run :=
      { id := req.id, assembly, inputs := req.inputs, state := .running, answer := none, steps := 0
        maxSteps, reason := "", policy := req.policy }
    claimed := ∅
    latest := ∅
    doneUnits := ∅
    claimAttempts := ∅
    inputEpochs := req.inputs.foldl (fun epochs input => epochs.insert input.name 0) ∅
    nodeCommits := ∅
    maxInFlight := limits.maxInFlight
    defaultLeaseMs := orDefault limits.defaultLeaseMs defaultLeaseMs
    maxAttempts := orDefault limits.maxAttempts defaultMaxAttempts }

def startRunCtx [Sha256] [Prost] (env : Env) (req : RunRequest) (ctx : RequestContext)
    (state : State) : State × Except KernelError Run :=
  orReturn (checkDeadline env ctx) state fun _ =>
  match idempotentGet state "start_run" ctx with
  | some (.run r) => (state, .ok r)
  | _ =>
      if req.id = "" then (state, .error (.invalid "run id is required")) else
      if req.id ∈ state.runs then
        (state, .error (.conflict ("run " ++ req.id ++ " already exists"))) else
      match req.assembly with
      | none => (state, .error (.invalid "assembly is required"))
      | some assembly =>
          orReturn (materializeAssembly env assembly req.includeNodes) state fun assembly =>
          orReturn (validateAssembly env state.modules state.artifacts assembly req.inputs) state
            fun _ =>
          let maxSteps := orDefault (req.limits.getD {}).maxSteps
            (UInt64.ofNat assembly.nodes.length)
          if maxSteps = 0 then (state, .error (.invalid "max_steps must be positive")) else
          let slot := freshSlot req assembly maxSteps
          let state := appendLocked { state with runs := state.runs.insert req.id slot }
            "run.started" req.id (encodeToVec (.run slot.run))
          (idempotentPut state "start_run" ctx (.run slot.run), .ok slot.run)

/-- Replace the first input of that name, or add it at the end. -/
def admitInput (input : NamedArtifact) : List NamedArtifact → List NamedArtifact
  | [] => [input]
  | i :: rest => if i.name = input.name then input :: rest else i :: admitInput input rest

/-- `u64::saturating_add(1)`. -/
def saturatingSucc (n : UInt64) : UInt64 := if n.toNat + 1 < 2 ^ 64 then n + 1 else n

def injectSlot (slot : RunSlot) (input : NamedArtifact) : RunSlot :=
  { slot with
    run := { slot.run with inputs := admitInput input slot.run.inputs }
    inputEpochs := slot.inputEpochs.insert input.name
      (saturatingSucc ((slot.inputEpochs.lookup input.name).getD 0)) }

def injectInputCtx [Sha256] [Prost] (env : Env) (req : InjectInputRequest) (ctx : RequestContext)
    (state : State) : State × Except KernelError Run :=
  orReturn (checkDeadline env ctx) state fun _ =>
  match req.input with
  | none => (state, .error (.invalid "input is required"))
  | some input =>
      if input.name = "" then (state, .error (.invalid "input name is required")) else
      match input.artifact with
      | none => (state, .error (.invalid ("input " ++ input.name ++ " has no artifact")))
      | some r =>
          if r.id ∉ state.artifacts then (state, .error (.notFound r.id)) else
          orReturn (runningSlot state req.runId) state fun slot =>
          if slot.run.assembly.bindings.any (·.input == input.name) then
            let slot := injectSlot slot input
            (record state req.runId slot
              [("run.input_injected", slot.run.id, encodeToVec (.namedArtifact input))],
              .ok slot.run)
          else (state, .error (.invalid
            ("run input " ++ input.name ++ " is not bound in the assembly")))

def cancelSlot (slot : RunSlot) : RunSlot :=
  { slot with
    run := { slot.run with state := .cancelled, reason := "cancelled" }
    claimed := ∅ }

def cancelRun [Sha256] [Prost] (r : RunRef) (state : State) : State × Except KernelError Run :=
  orReturn (runningSlot state r.id) state fun slot =>
  let slot := cancelSlot slot
  (record state r.id slot [("run.cancelled", slot.run.id, encodeToVec (.run slot.run))],
    .ok slot.run)

def getRun (r : RunRef) (state : State) : Except KernelError Run :=
  match state.runs.lookup r.id with
  | some slot => .ok slot.run
  | none => .error (.notFound r.id)

def listDerivations (r : RunRef) (state : State) : Except KernelError (List Derivation) :=
  if r.id ∈ state.runs then .ok (state.derivations.filter (·.runId == r.id))
  else .error (.notFound r.id)

end Substrate.Kernel.Runs
