/- ID: Substrate/Framework/Pipeline
   source: framework/sdk/rust/src/lib.rs
   digest: Starting a pipeline: the cut, its skip events, the kernel run and the run's tables. -/

import Substrate.Framework.Drive

set_option autoImplicit false
set_option relaxedAutoImplicit false

namespace Substrate.Framework.Pipeline

open Substrate.Kernel.Wire
open Substrate.Framework.Steps
open Substrate.Framework.Policy
open Substrate.Framework.Cut
open Substrate.Framework.Calls
open Substrate.Framework.Drive
open Substrate.Library.FiniteMap (OrderedMap)

variable {host : Host}

/-- What a node left out by the cut shows. -/
def skipPresentation (runId : String) (cut : AssemblyCut) (node : SkippedNode) : Presentation :=
  let seeds := cut.requiredSeeds.filter (·.fromNode == node.nodeId)
  let detail :=
    if seeds = [] then "skipped (no outputs required by kept nodes)"
    else "skipped (seeded ports: " ++ String.intercalate ", " (seeds.map (·.fromPort)) ++
      "); cut from run"
  { Presentation.skipped ("Skip " ++ node.nodeId) detail with
    runId, nodeId := node.nodeId, module := node.module, capability := node.capability
    «meta» := seeds.foldl (fun hints s => hints.insert ("seed:" ++ s.fromPort) s.inputName)
      (OrderedMap.empty.insert "cut" "true") }

def emitSkipEvents (runId : String) (cut : AssemblyCut) : HostAct host Unit :=
  cut.skipped.forM fun node => emitPresentation node.module (skipPresentation runId cut node)

/-- The kernel request of a cut assembly, which is not filtered by nodes again. -/
def pipelineRequest (runId : String) (assembly : Assembly) (inputs : List NamedArtifact)
    (policy : FrameworkPolicy) : RunRequest :=
  { policy with nodes := .all }.applyToRunRequest { id := runId, assembly := some assembly, inputs }

/-- Cut, start and register a pipeline whose storage plan has a backend. -/
def startBacked (runId : String) (assembly : Assembly) (inputs : List NamedArtifact)
    (policy : Backed host) : HostAct host Run := do
  let cut ← fromFramework (materializeCut assembly policy.1.nodes)
  fromFramework (validateSeedsPresent cut inputs)
  emitSkipEvents runId cut
  let run ← startRun (pipelineRequest runId cut.assembly inputs policy.1)
  ensureRunStorage runId policy.1.storage
  modify fun books => { books with runPolicies := books.runPolicies.insert runId policy }
  return run

def startPipeline (runId : String) (assembly : Assembly) (inputs : List NamedArtifact)
    (policy : FrameworkPolicy) : HostAct host Run :=
  if policy.mode = .selective ∧ policy.nodes = .all then
    throw (.invalid "RunMode::Selective requires NodePlan::Only, After, or From")
  else if runId = "" then throw (.invalid "run_id must be non-empty")
  else do
    let registered ← policyOf runId
    if registered.isSome then
      throw (.invalid ("pipeline policy already registered for run_id " ++ runId))
    else if backed : policy.storage.enabled = true → host.storage = true then
      if policy.memo.enabled ∧ ¬ host.memo then
        throw (.invalid "MemoPlan enabled but host has no MemoStore (use Host::with_memo)")
      else startBacked runId assembly inputs ⟨policy, backed⟩
    else
      throw (.invalid
        "StoragePlan enabled but host has no StorageBackend (use Host::with_storage)")

def seedsFromRun (runId : String) (cutNodes : List String) : HostAct host (List NamedArtifact) := do
  let derivations ← listDerivations runId
  fromFramework (seedsOfRun runId derivations cutNodes)

/-- Start the rest of a prior run's assembly after one of its nodes, seeded with what that node and
its predecessors have committed. -/
def resumeAfter (newRunId priorRunId afterNode : String) (policy : FrameworkPolicy) :
    HostAct host Run := do
  let prior ← getRun priorRunId
  let assembly := prior.assembly
  let policy := { policy with nodes := .after afterNode }
  let cut ← fromFramework (materializeCut assembly policy.nodes)
  let skipped := cut.skipped.map (·.nodeId)
  let cutNodes := if afterNode ∈ skipped then skipped else skipped ++ [afterNode]
  let seeds ← seedsFromRun priorRunId cutNodes
  let baseInputs := prior.inputs.filter (!isSeedInputName ·.name)
  startPipeline newRunId assembly (mergeInputs baseInputs seeds) policy

end Substrate.Framework.Pipeline
