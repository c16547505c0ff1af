/- ID: Substrate/Framework/Drive
   source: framework/sdk/rust/src/lib.rs
   digest: Starting a pipeline, driving it, and every step of a claimed unit. -/

import Substrate.Framework.Calls
import Substrate.Kernel.Runs

set_option autoImplicit false
set_option relaxedAutoImplicit false

namespace Substrate.Framework.Drive

open Substrate.Kernel.Wire
open Substrate.Kernel.Hashing
open Substrate.Kernel.Runs (saturatingSucc)
open Substrate.Framework.Steps
open Substrate.Framework.Storage
open Substrate.Framework.Memo
open Substrate.Framework.Policy
open Substrate.Framework.Cut
open Substrate.Framework.Calls
open Substrate.Library.Resumption
open Substrate.Library.Resumption.Act (ask attempt)
open Substrate.Library.FiniteMap (KeyMap OrderedMap)

variable {host : Host}

def maybePutUi (module contract : String) (view : Presentation) : HostAct host String :=
  if host.uiPersist ≠ .artifacts then pure "" else do
    let body ← toVec view
    let r ← putArtifact { traits := .singleton contract { body }, producedBy := module }
    return r.id

def emitPresentation (module : String) (presentation : Presentation) : HostAct host Unit := do
  let stage := presentation.stage
  let artifactId ← maybePutUi module stage.contractRef presentation
  modify fun books =>
    { books with stepEvents := books.stepEvents ++ [{ stage, presentation, artifactId }] }

/-- Emit what a hook has returned, if anything. -/
def emitOptional (module : String) : Option Presentation → HostAct host Unit
  | none => pure ()
  | some p => emitPresentation module p

/-- The tables that a plan needs, module tables first. -/
def neededTables (host : Host) (plan : StoragePlan) (runId : String) : List QualifiedTable :=
  (if plan.moduleTables then
    host.storageSchemas.entries.map fun e => qualifyTable plan.mode runId e.1 e.2 else []) ++
  (if plan.stepLog then [stepLogQualified plan.mode runId] else [])

def ensureRunStorage (runId : String) (plan : StoragePlan) : HostAct host Unit :=
  if ¬ plan.enabled then pure () else do
    requireStorage "storage enabled without backend"
    let tables := neededTables host plan runId
    tables.forM ensureTable
    if tables = [] then return () else
    modify fun books =>
      { books with runTables := books.runTables.insert runId (tables.map (·.physicalName)) }

/-- Apply what a plugin wants written, unless it is no row at all. -/
def writeStore (plan : StoragePlan) (runId module : String) (schema : TableSchema)
    (step : StepContext) : Option StoreWrite → HostAct host Unit
  | none => pure ()
  | some write =>
      if write.rows = [] then pure () else do
        requireStorage "storage missing at write"
        writeRows (qualifyTable plan.mode runId module schema).physicalName
          (write.mode.getD schema.writeMode)
          (write.rows.map (injectIdentity runId step.work.id step.work.nodeId module))
          schema.primaryKey runId

def writeModuleRows (plan : StoragePlan) (runId module : String) (step : StepContext)
    (result : StepResult) : HostAct host Unit :=
  if ¬ plan.moduleTables then pure () else
  match host.storageSchemas.lookup module with
  | none => pure ()
  | some schema => do
      requirePlugin module
      writeStore plan runId module schema step (← ask (Query.onStore module step result))

def stepLogRow (runId module : String) (step : StepContext) (result : StepResult) : StoreRow :=
  let columns : List (String × StoreValue) :=
    [("run_id", .text runId), ("work_id", .text step.work.id), ("node_id", .text step.work.nodeId),
      ("module", .text module), ("capability", .text step.work.capability),
      ("ok", .boolean result.ok)] ++
    result.error.toList.map (fun err => ("error", .text err)) ++
    [("output_ports", .json (.array (result.outputs.map fun o => .string o.name)))]
  columns.foldl (fun row column => row.insert column.1 column.2) .empty

def writeStepLog (plan : StoragePlan) (runId module : String) (step : StepContext)
    (result : StepResult) : HostAct host Unit :=
  if ¬ plan.stepLog then pure () else do
    requireStorage "storage missing at step_log write"
    let q := stepLogQualified plan.mode runId
    ensureTable q
    writeRows q.physicalName .append [stepLogRow runId module step result] [] runId

def applyStepStorage (runId module : String) (step : StepContext) (result : StepResult) :
    HostAct host Unit := do
  match ← policyOf runId with
  | none => pure ()
  | some policy =>
      if ¬ policy.1.storage.enabled then pure () else do
        writeModuleRows policy.1.storage runId module step result
        writeStepLog policy.1.storage runId module step result

def dropTables (tables : List String) : HostAct host Unit :=
  tables.forM fun table => do let _ ← ask (.dropTable table)

/-- Drop per-run tables when retention says so; always forget the run's policy. -/
def finishRunStorage (runId : String) : HostAct host Unit := do
  let books ← get
  let plan := (books.runPolicies.lookup runId).elim { retention := .keep } (·.1.storage)
  let tables := (books.runTables.lookup runId).getD []
  modify fun books => { books with runTables := books.runTables.erase runId }
  dropTables (if plan.retention = .dropOnEnd ∧ plan.mode = .perRun ∧ host.storage then tables else [])
  modify fun books => { books with runPolicies := books.runPolicies.erase runId }

section Memo

variable [Sha256]

/-- The digest under which a unit may be cached, when its run's policy allows that at all. -/
def memoDigest (runId module : String) (work : WorkItem) : HostAct host (Option String) := do
  match ← policyOf runId with
  | none => return none
  | some policy =>
      if ¬ policy.1.memo.enabled ∨ ¬ policy.1.memo.nodes.allows work.nodeId then return none
      else if module ∉ host.plugins then return none
      else
        let digest ← ask (Query.moduleDigest module)
        return Option.filter (· ≠ "") digest

/-- Whether the kernel still has every output of a record. -/
def outputsExist : List NamedArtifact → HostAct host Bool
  | [] => pure true
  | na :: rest =>
      match na.artifact with
      | none => pure false
      | some r => do
          match (← ask (Query.getArtifact r host.ctx) : Except _ Artifact) with
          | .error _ => return false
          | .ok _ => outputsExist rest

def unitKeyOf (module digest : String) (work : WorkItem) : String :=
  memoKey module work.moduleVersion digest work.capability (inputFingerprintMap work)

/-- The key, the outputs and the source run of a valid record. -/
def lookupMemo (module digest : String) (work : WorkItem) :
    HostAct host (Option (String × List NamedArtifact × String)) := do
  let key := unitKeyOf module digest work
  match ← memoGet key with
  | none => return none
  | some record =>
      let named := recordToNamedOutputs record
      if ¬ (← outputsExist named) then return none
      else if named = [] ∧ record.outputs.entries ≠ [] then return none
      else return some (key, named, record.sourceRunId)

def tryMemoHit (runId module : String) (work : WorkItem) :
    HostAct host (Option (String × List NamedArtifact × String)) := do
  match ← memoDigest runId module work with
  | none => return none
  | some digest => if ¬ host.memo then return none else lookupMemo module digest work

def commitOutputs (runId : String) (work : WorkItem) (outputs : List NamedArtifact) :
    HostAct host Unit := do
  let _ ← commit { runId, workId := work.id, nodeId := work.nodeId, outputs }

/-- What a cached step shows. -/
def cachedPresentation (runId : String) (work : WorkItem) (key sourceRun : String)
    (outputs : List NamedArtifact) : Presentation :=
  let p := (Presentation.cached ("Cached " ++ work.nodeId)
    ("memo hit; outputs from run " ++ sourceRun)).fillIdentity runId work
  { p with
    outputPorts := outputs.map (·.name)
    «meta» := ((p.«meta».insert "memo" "hit").insert "memo_key" key).insert
      "memo_source_run" sourceRun }

def commitMemoHit (runId module : String) (work : WorkItem) (step : StepContext) (key : String)
    (outputs : List NamedArtifact) (sourceRun : String) : HostAct host Unit := do
  emitPresentation module (cachedPresentation runId work key sourceRun outputs)
  commitOutputs runId work outputs
  modify fun books => { books with memoHitCount := saturatingSucc books.memoHitCount }
  applyStepStorage runId module step { ok := true, outputs, error := none }

def storeMemoAfterSuccess (runId module : String) (work : WorkItem)
    (outputs : List NamedArtifact) : HostAct host Unit := do
  match ← memoDigest runId module work with
  | none => return ()
  | some digest =>
      if ¬ host.memo then return ()
      else
        memoPut (buildRecord (unitKeyOf module digest work) work digest outputs runId)

end Memo

/-- Load the inputs of a unit; a later artifact of a port hides an earlier one. -/
def loadInputs : List NamedArtifact → KeyMap String Artifact → HostAct host (KeyMap String Artifact)
  | [], loaded => pure loaded
  | na :: rest, loaded =>
      match na.artifact with
      | none => loadInputs rest loaded
      | some r => do
          let artifact ← getArtifact r
          loadInputs rest (loaded.insert na.name artifact)

def loadStep (runId : String) (work : WorkItem) : HostAct host StepContext := do
  let inputs ← loadInputs work.inputs ∅
  return { runId, work, inputs, progressBuf := [] }

def initPresentation (runId : String) (work : WorkItem) (p : Presentation) : Presentation :=
  { p with stage := .init }.fillIdentity runId work

/-- The artifact of one output port. -/
def outputArtifact (module : String) (out : PortBody) : Artifact :=
  { traits := out.traits.map fun body => { body }, producedBy := module, entityId := out.entityId }

def putOutputs (module : String) : List PortBody → HostAct host (List NamedArtifact)
  | [] => pure []
  | out :: rest => do
      let r ← putArtifact (outputArtifact module out)
      let named ← putOutputs module rest
      return { name := out.port, artifact := some r } :: named

def finalPresentation (runId : String) (work : WorkItem) (outputs : List NamedArtifact)
    (p : Presentation) : Presentation :=
  let p := { p with stage := .final }.fillIdentity runId work
  { p with outputPorts := if p.outputPorts = [] then outputs.map (·.name) else p.outputPorts }

section Units

variable [Sha256]

def commitStepSuccess (runId module : String) (work : WorkItem) (step : StepContext)
    (output : StepOutput) : HostAct host Unit := do
  let outputs ← putOutputs module output.outputs
  let result : StepResult := { ok := true, outputs, error := none }
  requirePlugin module
  let shown ← ask (Query.onFinal module step result)
  emitOptional module (Option.map (finalPresentation runId work outputs) shown)
  commitOutputs runId work outputs
  storeMemoAfterSuccess runId module work outputs
  applyStepStorage runId module step result

omit [Sha256] in
/-- Whatever goes wrong on the way, the unit is handed back and the step's error returned. -/
def failStep (runId module : String) (work : WorkItem) (step : StepContext) (e : FrameworkError) :
    HostAct host Unit := do
  let msg := e.message
  let result : StepResult := { ok := false, outputs := [], error := some msg }
  requirePlugin module
  let shown ← ask (Query.onFinal module step result)
  let p : Presentation := (Option.getD shown (.finalFailed "Step failed" msg))
  let p := { p with stage := .final, status := .failed }.fillIdentity runId work
  let _ ← attempt (emitPresentation module p)
  let _ ← attempt (applyStepStorage runId module step result)
  let _ ← ask (.failWork { runId, workId := work.id, reason := msg, terminal := false } host.ctx)
  throw (.stepFailed msg)

/-- The step after `execute`, the progress it left behind, and its outcome. -/
structure Executed where
  step : StepContext
  progress : List Presentation
  outcome : Except FrameworkError StepOutput

omit [Sha256] in
def executeStep (module : String) (step : StepContext) : HostAct host Executed := do
  let answer ← ask (Query.execute module step)
  let (step, outcome) : StepContext × Except FrameworkError StepOutput := answer
  return { step := { step with progressBuf := [] }, progress := step.progressBuf, outcome }

omit [Sha256] in
def countExecute : HostAct host Unit :=
  modify fun books => { books with executeCount := saturatingSucc books.executeCount }

def settleStep (runId : String) (work : WorkItem) (executed : Executed) : HostAct host Unit :=
  match executed.outcome with
  | .ok output => commitStepSuccess runId work.module work executed.step output
  | .error e => failStep runId work.module work executed.step e

/-- A unit on its own: load, memo, init, execute, progress, commit or fail. -/
def finishWorkUnit (runId : String) (work : WorkItem) : HostAct host Unit := do
  let step ← loadStep runId work
  match ← tryMemoHit runId work.module work with
  | some (key, outputs, sourceRun) =>
      commitMemoHit runId work.module work step key outputs sourceRun
  | none =>
      requirePlugin work.module
      let shown ← ask (Query.onInit work.module step)
      emitOptional work.module (Option.map (initPresentation runId work) shown)
      let executed ← executeStep work.module step
      countExecute
      executed.progress.forM (emitPresentation work.module)
      settleStep runId work executed

/-- A unit that has to be executed, with what its plugin shows first. -/
structure Deferred where
  work : WorkItem
  step : StepContext
  shown : Option Presentation

/-- The first phase of a wave: memo hits are committed, the other units are loaded. -/
def prepareUnits (runId : String) : List WorkItem → HostAct host (List Deferred)
  | [] => pure []
  | work :: rest => do
      match ← tryMemoHit runId work.module work with
      | some (key, outputs, sourceRun) =>
          let step ← loadStep runId work
          commitMemoHit runId work.module work step key outputs sourceRun
          prepareUnits runId rest
      | none =>
          requirePlugin work.module
          let step ← loadStep runId work
          let shown ← ask (Query.onInit work.module step)
          let deferred ← prepareUnits runId rest
          return { work, step, shown } :: deferred

omit [Sha256] in
/-- The second phase: every unit runs; the threads are joined in the order they were spawned. -/
def executeUnits : List Deferred → HostAct host (List (Deferred × Executed))
  | [] => pure []
  | unit :: rest => do
      let executed ← executeStep unit.work.module unit.step
      let others ← executeUnits rest
      return (unit, executed) :: others

/-- The last phase for one unit. -/
def settleUnit (runId : String) (outcome : Deferred × Executed) : HostAct host Unit := do
  let (unit, executed) := outcome
  countExecute
  emitOptional unit.work.module (unit.shown.map (initPresentation runId unit.work))
  executed.progress.forM (emitPresentation unit.work.module)
  settleStep runId unit.work executed

def finishWorkUnitsParallel (runId : String) (items : List WorkItem) : HostAct host Unit := do
  let deferred ← prepareUnits runId items
  let outcomes ← executeUnits deferred
  outcomes.forM (settleUnit runId)

omit [Sha256] in
/-- The claim of a wave: up to `batch` units of the modules that the host may claim. -/
def waveClaim (host : Host) (runId : String) (policy : Option FrameworkPolicy) (batch : UInt32) :
    ClaimRequest :=
  match (policy.bind (·.claimModules)).getD host.plugins with
  | [] => { runId, maxItems := batch }
  | [module] => { runId, module, maxItems := batch }
  | modules => { runId, modules, maxItems := batch }

/-- One claim wave; whether it has found any work. -/
def driveClaimWave (runId : String) (onePass : Bool) : HostAct host Bool := do
  let policy := (← policyOf runId).map (·.1)
  let conc := max ((policy.map (·.effectiveConcurrency)).getD defaultConcurrency) 1
  let claimBatch := max ((policy.map (·.effectiveClaimBatch)).getD conc) 1
  let batch := if onePass then claimBatch else min claimBatch conc
  let resp ← claimReady (waveClaim host runId policy batch)
  if resp.1.items = [] then return false
  else if conc ≤ 1 ∨ resp.1.items.length ≤ 1 then
    resp.1.items.forM (finishWorkUnit runId)
    return true
  else
    finishWorkUnitsParallel runId resp.1.items
    return true

/-- Claim and finish at most one unit of a module; whether there was one. -/
def tryStep (runId module : String) : HostAct host Bool := do
  let resp ← claimReady { runId, module, maxItems := 1 }
  match resp.1.items with
  | [] => return false
  | work :: _ =>
      finishWorkUnit runId work
      return true

/-- The drain loop; `none` when `fuel` waves were not enough. -/
def driveUntilIdle (runId : String) : Nat → HostAct host (Option Run)
  | 0 => pure none
  | fuel + 1 => do
      let run ← getRun runId
      if run.state ≠ .running then return some run
      else if ← driveClaimWave runId false then driveUntilIdle runId fuel
      else return some (← getRun runId)

def driveOnePass (runId : String) : HostAct host (Option Run) := do
  let run ← getRun runId
  if run.state ≠ .running then return some run
  else
    let _ ← driveClaimWave runId true
    return some (← getRun runId)

def driveWith (fuel : Nat) (runId : String) (plan : DrivePlan) : HostAct host (Option Run) := do
  let run ←
    match plan with
    | .onePass => driveOnePass runId
    | .untilIdle | .untilIdleThenWait => driveUntilIdle runId fuel
  match run with
  | some run =>
      if run.state ≠ .running then
        finishRunStorage runId
        return some run
      else return some run
  | none => return none

/-- The waves of a plan. -/
def driveWaves (fuel : Nat) (runId : String) : DrivePlan → HostAct host (Option Run)
  | .onePass => driveOnePass runId
  | .untilIdle | .untilIdleThenWait => driveUntilIdle runId fuel

omit [Sha256] in
/-- What follows the waves: the storage of a run that has ended is finished. -/
def closeRun (runId : String) : Option Run → HostAct host (Option Run)
  | none => pure none
  | some run =>
      if run.state ≠ .running then do
        finishRunStorage runId
        return some run
      else pure (some run)

theorem driveWith_eq (fuel : Nat) (runId : String) (plan : DrivePlan) :
    (driveWith fuel runId plan : HostAct host (Option Run)) =
      driveWaves fuel runId plan >>= closeRun runId := by
  have same : (fun run => closeRun runId run : Option Run → HostAct host (Option Run)) =
      fun run => match run with
        | some run =>
            if run.state ≠ .running then do
              finishRunStorage runId
              return some run
            else return some run
        | none => return none :=
    funext fun run => by cases run <;> rfl
  cases plan <;> exact congrArg (_ >>= ·) same.symm

/-- Drive under the policy that the pipeline was started with. -/
def drive (fuel : Nat) (runId : String) : HostAct host (Option Run) := do
  let policy ← policyOf runId
  driveWith fuel runId (policy.elim .untilIdle (·.1.effectiveDrive))

/-- What `inject` does once the input is in. -/
inductive DriveAfter
  | no | untilIdle | onePass
  deriving DecidableEq

def inject (fuel : Nat) (runId : String) (input : NamedArtifact) (after : DriveAfter) :
    HostAct host (Option Run) := do
  let run ← injectInput { runId, input := some input }
  match after with
  | .no => return some run
  | .untilIdle => driveWith fuel runId .untilIdle
  | .onePass => driveWith fuel runId .onePass

omit [Sha256] in
/-- Cancel a run; its policy and, when retention says so, its tables go with it. -/
def cancel (runId : String) : HostAct host Run := do
  let run ← cancelRun runId
  finishRunStorage runId
  return run

end Units

end Substrate.Framework.Drive
