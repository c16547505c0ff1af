/- ID: Substrate/Framework/Go
   source: framework/sdk/go/host.go
   digest: The framework in Go: cuts, kernel requests, and units that are finished one by one. -/

import Substrate.Framework.Sessions

set_option autoImplicit false
set_option relaxedAutoImplicit false

namespace Substrate.Framework.Go

open Substrate.Kernel.Wire
open Substrate.Kernel.Hashing
open Substrate.Kernel.Memory (KernelError)
open Substrate.Framework.Steps
open Substrate.Framework.Memo
open Substrate.Framework.Policy
open Substrate.Framework.Cut (Checked SeedSpec AssemblyCut invalid predecessors reachableFrom rebind
  seedsOfRun validateSeedsPresent isSeedInputName)
open Substrate.Framework.Calls
open Substrate.Framework.Drive (DriveAfter Executed emitPresentation emitOptional ensureRunStorage
  applyStepStorage dropTables outputsExist unitKeyOf commitOutputs cachedPresentation loadStep
  initPresentation putOutputs finalPresentation executeStep)
open Substrate.Framework.Pipeline (seedsFromRun)
open Substrate.Framework.Sessions (HostCall ignore)
open Substrate.Library.FiniteMap (KeyMap OrderedMap)
open Substrate.Library.Resumption
open Substrate.Library.Resumption.Act (ask attempt)
open Substrate.Library.Worklist (Search)

/-! Types are those of the Rust crate, and so is what the two write alike. An empty string stands for
an absent text here. -/

/-- The search back from a node notes a producer in each of its two sets. -/
def transitivePredecessors (assembly : Assembly) (nodeId : String) : List String :=
  (Search.walk (predecessors assembly) (assembly.bindings.length + 1) ⟨[], [nodeId], [nodeId]⟩).found

def checkOnly (known : List String) : List String → List String → Checked Unit
  | _, [] => .ok ()
  | seen, id :: rest =>
      if id ∈ seen then invalid ("NodePlan Only contains duplicate node id " ++ id)
      else if id ∉ known then invalid ("NodePlan Only references unknown node " ++ id)
      else checkOnly known (id :: seen) rest

def resolveKeptNodes (assembly : Assembly) (plan : NodePlan) : Checked (List String) :=
  let known := assembly.nodes.map (·.id)
  if assembly.nodes = [] then invalid "assembly has no nodes" else
  match assembly.terminal with
  | none => invalid "assembly terminal is required"
  | some terminal =>
      if terminal.node ∉ known then
        invalid ("terminal node " ++ terminal.node ++ " is not in the assembly") else
      match plan with
      | .all => .ok known.dedup
      | .only ids =>
          if ids = [] then invalid "NodePlan Only requires at least one node id" else do
          checkOnly known [] ids
          if terminal.node ∉ ids then invalid "node plan must retain the terminal node"
          else .ok ids
      | .after nodeId =>
          if nodeId ∉ known then
            invalid ("NodePlan After references unknown node " ++ nodeId) else
          let dropped := nodeId :: transitivePredecessors assembly nodeId
          if terminal.node ∈ dropped then
            invalid ("NodePlan After(" ++ nodeId ++ ") would drop the terminal node") else
          let kept := (known.filter (· ∉ dropped)).dedup
          if kept = [] then invalid "NodePlan After left no nodes to run" else .ok kept
      | .from nodeId =>
          if nodeId ∉ known then
            invalid ("NodePlan From references unknown node " ++ nodeId) else
          let reach := reachableFrom assembly nodeId
          if terminal.node ∉ reach then
            invalid ("NodePlan From(" ++ nodeId ++ "): terminal " ++ terminal.node ++
              " is not reachable from that node")
          else .ok reach

/-- Producer and port are joined by a NUL. -/
def seedKey (s : SeedSpec) : String := s.fromNode ++ "\x00" ++ s.fromPort

/-- The first seed of each key, by key. -/
def uniqueSeeds (seeds : List SeedSpec) : List SeedSpec :=
  let byKey : BTreeMap SeedSpec := seeds.foldl (fun byKey s => byKey.orInsert (seedKey s) s) .empty
  byKey.entries.map (·.2)

def materializeCut (assembly : Assembly) (plan : NodePlan) : Checked AssemblyCut := do
  let kept ← resolveKeptNodes assembly plan
  if plan = .all ∨ kept.length = assembly.nodes.length then
    .ok { assembly, skipped := [], requiredSeeds := []
          keptNodeIds := assembly.nodes.map (·.id) }
  else
    let rebound ← (assembly.bindings.filter (·.toNode ∈ kept)).mapM (rebind kept)
    let nodes := assembly.nodes.filter (·.id ∈ kept)
    .ok
      { assembly := { assembly with nodes, bindings := rebound.map (·.1) }
        skipped := (assembly.nodes.filter (·.id ∉ kept)).map fun n =>
          { nodeId := n.id, module := n.module, capability := n.capability
            moduleVersion := n.moduleVersion }
        requiredSeeds := uniqueSeeds (rebound.filterMap (·.2))
        keptNodeIds := nodes.map (·.id) }

/-- The map holds the last input of a name; the name is listed once. -/
def mergeInput (merged : KeyMap String NamedArtifact × List String) (na : NamedArtifact) :
    KeyMap String NamedArtifact × List String :=
  (merged.1.insert na.name na, if na.name ∈ merged.1 then merged.2 else merged.2 ++ [na.name])

def mergeInputs (base seeds : List NamedArtifact) : List NamedArtifact :=
  let merged := (base ++ seeds).foldl mergeInput (∅, [])
  (merged.2.insertionSort (· ≤ ·)).filterMap merged.1.lookup

/-- A product of `uint64`s that wraps. -/
def resolveMaxSteps (policy : FrameworkPolicy) (nodeCount : UInt64) : UInt64 :=
  policy.maxSteps.getD
    (if policy.closure = .open then
      if nodeCount * 10000 < 10000 then 10000 else nodeCount * 10000
    else 0)

def applyToRunRequest (policy : FrameworkPolicy) (req : RunRequest) : RunRequest :=
  let nodeCount := UInt64.ofNat (req.assembly.elim 0 (·.nodes.length))
  { req with
    policy := some (policy.executionPolicyFor req.assembly)
    includeNodes := policy.includeNodes
    limits := some
      { maxSteps := resolveMaxSteps policy nodeCount
        maxInFlight := policy.effectiveConcurrency.toUInt64
        defaultLeaseMs := policy.leaseMs.getD 0
        maxAttempts := policy.maxAttempts.getD 0 } }

variable {host : Host}

/-- The tables are dropped before the host forgets them. -/
def finishRunStorage (runId : String) : HostAct host Unit := do
  let books ← get
  let plan := (books.runPolicies.lookup runId).elim { retention := .keep } (·.1.storage)
  let tables := (books.runTables.lookup runId).getD []
  dropTables (if plan.retention = .dropOnEnd ∧ plan.mode = .perRun ∧ host.storage then tables else [])
  modify fun books => { books with runTables := books.runTables.erase runId }
  modify fun books => { books with runPolicies := books.runPolicies.erase runId }

section Memo

variable [Sha256]

omit [Sha256] in
/-- The digest under which a unit may be cached. -/
def memoDigest (runId module : String) (work : WorkItem) : HostAct host (Option String) := do
  match ← policyOf runId with
  | none => return none
  | some policy =>
      if ¬ policy.1.memo.enabled ∨ ¬ host.memo then return none
      else if ¬ policy.1.memo.nodes.allows work.nodeId then return none
      else if module ∉ host.plugins then return none
      else
        let digest ← ask (Query.moduleDigest module)
        return Option.filter (· ≠ "") digest

/-- A store that fails is a miss. -/
def lookupMemo (module digest : String) (work : WorkItem) :
    HostAct host (Option (String × List NamedArtifact × String)) := do
  let key := unitKeyOf module digest work
  match (← ask (Query.memoGet key) : Except FrameworkError (Option MemoRecord)) with
  | .error _ => return none
  | .ok none => return none
  | .ok (some record) =>
      let named := recordToNamedOutputs record
      if ¬ (← outputsExist named) then return none
      else if named = [] ∧ record.outputs.entries ≠ [] then return none
      else return some (key, named, record.sourceRunId)

def tryMemoHit (runId module : String) (work : WorkItem) :
    HostAct host (Option (String × List NamedArtifact × String)) := do
  match ← memoDigest runId module work with
  | none => return none
  | some digest => lookupMemo module digest work

omit [Sha256] in
def commitMemoHit (runId module : String) (work : WorkItem) (step : StepContext) (key : String)
    (outputs : List NamedArtifact) (sourceRun : String) : HostAct host Unit := do
  emitPresentation module (cachedPresentation runId work key sourceRun outputs)
  commitOutputs runId work outputs
  modify fun books => { books with memoHitCount := books.memoHitCount + 1 }
  applyStepStorage runId module step { ok := true, outputs, error := none }

def storeMemoAfterSuccess (runId module : String) (work : WorkItem)
    (outputs : List NamedArtifact) : HostAct host Unit := do
  match ← memoDigest runId module work with
  | none => return ()
  | some digest => memoPut (buildRecord (unitKeyOf module digest work) work digest outputs runId)

end Memo

section Units

/-- A text, unless it is empty. -/
def optional (text : String) : Option String := if text = "" then none else some text

variable [Sha256]

def commitStepSuccess (runId module : String) (work : WorkItem) (step : StepContext)
    (output : StepOutput) : HostAct host Unit := do
  let outputs ← putOutputs module output.outputs
  let result : StepResult := { ok := true, outputs, error := none }
  let shown ← ask (Query.onFinal module step result)
  emitOptional module (Option.map (finalPresentation runId work outputs) shown)
  commitOutputs runId work outputs
  storeMemoAfterSuccess runId module work outputs
  applyStepStorage runId module step result

variable (text : FrameworkError → String)

omit [Sha256] in
/-- The reason is the text of the plugin's error, whatever its type. -/
def failStep (runId module : String) (work : WorkItem) (step : StepContext) (e : FrameworkError) :
    HostAct host Unit := do
  let msg := text e
  let result : StepResult := { ok := false, outputs := [], error := optional msg }
  let shown ← ask (Query.onFinal module step result)
  let p : Presentation :=
    (Option.getD shown { Presentation.finalFailed "Step failed" msg with detail := optional msg })
  let p := { p with stage := .final, status := .failed }.fillIdentity runId work
  let _ ← attempt (emitPresentation module p)
  let _ ← attempt (applyStepStorage runId module step result)
  let _ ← ask (.failWork { runId, workId := work.id, reason := msg, terminal := false } host.ctx)
  throw (.stepFailed msg)

def settleStep (runId : String) (work : WorkItem) (executed : Executed) : HostAct host Unit :=
  match executed.outcome with
  | .ok output => commitStepSuccess runId work.module work executed.step output
  | .error e => failStep text runId work.module work executed.step e

def finishWorkUnit (runId : String) (work : WorkItem) : HostAct host Unit := do
  let step ← loadStep runId work
  match ← tryMemoHit runId work.module work with
  | some (key, outputs, sourceRun) =>
      commitMemoHit runId work.module work step key outputs sourceRun
  | none =>
      requirePlugin work.module
      let shown ← ask (Query.onInit work.module step)
      emitOptional work.module (Option.map (initPresentation runId work) shown)
      let executed ← executeStep work.module step
      modify fun books => { books with executeCount := books.executeCount + 1 }
      executed.progress.forM (emitPresentation work.module)
      settleStep text runId work executed

omit [Sha256] in
/-- The names of the plugins are sorted. -/
def waveClaim (host : Host) (runId : String) (policy : Option FrameworkPolicy) (batch : UInt32) :
    ClaimRequest :=
  match (policy.bind (·.claimModules)).getD (host.plugins.insertionSort (· ≤ ·)) with
  | [] => { runId, maxItems := batch }
  | [module] => { runId, module, maxItems := batch }
  | modules => { runId, modules, maxItems := batch }

omit [Sha256] in
def waveBatch (policy : Option FrameworkPolicy) (onePass : Bool) : UInt32 :=
  match policy with
  | none => defaultConcurrency
  | some policy =>
      if onePass then policy.effectiveClaimBatch
      else if policy.effectiveClaimBatch < policy.effectiveConcurrency then policy.effectiveClaimBatch
      else policy.effectiveConcurrency

/-- Claim a batch and finish its units one by one; whether there were any. -/
def driveClaimWave (runId : String) (onePass : Bool) : HostAct host Bool := do
  let policy := (← policyOf runId).map (·.1)
  let resp ← claimReady (waveClaim host runId policy (waveBatch policy onePass))
  if resp.1.items = [] then return false
  else
    resp.1.items.forM (finishWorkUnit text runId)
    return true

def tryStep (runId module : String) : HostAct host Bool := do
  let resp ← claimReady { runId, module, maxItems := 1 }
  match resp.1.items with
  | [] => return false
  | work :: _ =>
      if work.id = "" then return false
      else
        finishWorkUnit text runId work
        return true

/-- The drain loop; `none` when `fuel` waves were not enough. -/
def driveUntilIdle (runId : String) : Nat → HostAct host (Option Run)
  | 0 => pure none
  | fuel + 1 => do
      let run ← getRun runId
      if run.state ≠ .running then return some run
      else if ← driveClaimWave text runId false then driveUntilIdle runId fuel
      else return some (← getRun runId)

def driveOnePass (runId : String) : HostAct host (Option Run) := do
  let run ← getRun runId
  if run.state ≠ .running then return some run
  else
    let _ ← driveClaimWave text runId true
    return some (← getRun runId)

def driveWaves (fuel : Nat) (runId : String) : DrivePlan → HostAct host (Option Run)
  | .onePass => driveOnePass text runId
  | .untilIdle | .untilIdleThenWait => driveUntilIdle text runId fuel

omit [Sha256] in
/-- The storage of a run that has ended is finished. -/
def closeRun (runId : String) : Option Run → HostAct host (Option Run)
  | none => pure none
  | some run =>
      if run.state ≠ .running then do
        finishRunStorage runId
        return some run
      else pure (some run)

def driveWith (fuel : Nat) (runId : String) (plan : DrivePlan) : HostAct host (Option Run) := do
  let run ← driveWaves text fuel runId plan
  closeRun runId run

def drive (fuel : Nat) (runId : String) : HostAct host (Option Run) := do
  let policy ← policyOf runId
  driveWith text fuel runId (policy.elim .untilIdle (·.1.effectiveDrive))

def inject (fuel : Nat) (runId : String) (input : NamedArtifact) (after : DriveAfter) :
    HostAct host (Option Run) := do
  let run ← injectInput { runId, input := some input }
  match after with
  | .no => return some run
  | .untilIdle => driveWith text fuel runId .untilIdle
  | .onePass => driveWith text fuel runId .onePass

omit [Sha256] in
def cancel (runId : String) : HostAct host Run := do
  let run ← cancelRun runId
  finishRunStorage runId
  return run

end Units

/-- The ports are listed between brackets, with blanks between them. -/
def skipPresentation (runId : String) (cut : AssemblyCut) (node : Cut.SkippedNode) : Presentation :=
  let seeds := cut.requiredSeeds.filter (·.fromNode == node.nodeId)
  let detail :=
    if seeds = [] then "skipped (no outputs required by kept nodes)"
    else "skipped (seeded ports: [" ++ String.intercalate " " (seeds.map (·.fromPort)) ++
      "]); cut from run"
  { Presentation.skipped ("Skip " ++ node.nodeId) detail with
    runId, nodeId := node.nodeId, module := node.module, capability := node.capability
    «meta» := seeds.foldl (fun hints s => hints.insert ("seed:" ++ s.fromPort) s.inputName)
      (OrderedMap.empty.insert "cut" "true") }

def emitSkipEvents (runId : String) (cut : AssemblyCut) : HostAct host Unit :=
  cut.skipped.forM fun node => emitPresentation node.module (skipPresentation runId cut node)

def pipelineRequest (runId : String) (assembly : Assembly) (inputs : List NamedArtifact)
    (policy : FrameworkPolicy) : RunRequest :=
  applyToRunRequest { policy with nodes := .all } { id := runId, assembly := some assembly, inputs }

def startBacked (runId : String) (assembly : Assembly) (inputs : List NamedArtifact)
    (policy : Backed host) : HostAct host Run := do
  let cut ← fromFramework (materializeCut assembly policy.1.nodes)
  fromFramework (validateSeedsPresent cut inputs)
  emitSkipEvents runId cut
  let run ← startRun (pipelineRequest runId cut.assembly inputs policy.1)
  ensureRunStorage runId policy.1.storage
  modify fun books => { books with runPolicies := books.runPolicies.insert runId policy }
  return run

def startPipeline (runId : String) (assembly : Assembly) (inputs : List NamedArtifact)
    (policy : FrameworkPolicy) : HostAct host Run :=
  if policy.mode = .selective ∧ policy.nodes = .all then
    throw (.invalid "RunMode Selective requires NodePlan Only, After, or From")
  else if runId = "" then throw (.invalid "run_id must be non-empty")
  else do
    let registered ← policyOf runId
    if registered.isSome then
      throw (.invalid ("pipeline policy already registered for run_id " ++ runId))
    else if backed : policy.storage.enabled = true → host.storage = true then
      if policy.memo.enabled ∧ ¬ host.memo then
        throw (.invalid "MemoPlan enabled but host has no MemoStore (use WithMemo)")
      else startBacked runId assembly inputs ⟨policy, backed⟩
    else
      throw (.invalid "StoragePlan enabled but host has no StorageBackend (use WithStorage)")

def resumeAfter (newRunId priorRunId afterNode : String) (policy : FrameworkPolicy) :
    HostAct host Run := do
  let prior ← getRun priorRunId
  let assembly := prior.assembly
  let policy := { policy with nodes := .after afterNode }
  let cut ← fromFramework (materializeCut assembly policy.nodes)
  let skipped := cut.skipped.map (·.nodeId)
  let cutNodes := if afterNode ∈ skipped then skipped else skipped ++ [afterNode]
  let seeds ← seedsFromRun priorRunId cutNodes
  let base := prior.inputs.filter (!isSeedInputName ·.name)
  startPipeline newRunId assembly (mergeInputs base seeds) policy

/-- What a call of the host does, without its result. -/
def perform [Sha256] (text : FrameworkError → String) : HostCall → HostAct host Unit
  | .startPipeline runId assembly inputs policy =>
      ignore (startPipeline runId assembly inputs policy)
  | .resumeAfter newRunId priorRunId afterNode policy =>
      ignore (resumeAfter newRunId priorRunId afterNode policy)
  | .drive fuel runId => ignore (drive text fuel runId)
  | .driveWith fuel runId plan => ignore (driveWith text fuel runId plan)
  | .inject fuel runId input after => ignore (inject text fuel runId input after)
  | .tryStep runId module => ignore (tryStep text runId module)
  | .cancel runId => ignore (cancel runId)

end Substrate.Framework.Go
