/- ID: Substrate/Framework/Python
   source: framework/sdk/python/src/srcport_framework/cut.py, policy.py, host.py
   digest: The cut, the seeds of a prior run and the kernel request of the framework in Python. -/

import Mathlib.Data.Prod.Lex
import Substrate.Framework.Pipeline

set_option autoImplicit false
set_option relaxedAutoImplicit false

namespace Substrate.Framework.Python

open Substrate.Kernel.Wire
open Substrate.Framework.Steps (FrameworkError)
open Substrate.Framework.Policy
open Substrate.Framework.Cut (Checked SeedSpec AssemblyCut invalid predecessors reachableFrom rebind
  seedInputName)
open Substrate.Library.FiniteMap (KeyMap)
open Substrate.Library.Worklist (Search)

/-! Types are those of the Rust crate. A message that is not set reads as the empty one, and never as
`None`. -/

def transitivePredecessors (assembly : Assembly) (nodeId : String) : List String :=
  (Search.walk (predecessors assembly) (assembly.bindings.length + 1) ⟨[], [nodeId], [nodeId]⟩).found

def resolveKeptNodes (assembly : Assembly) (plan : NodePlan) : Checked (List String) :=
  let known := assembly.nodes.map (·.id)
  let terminal := (assembly.terminal.getD ⟨"", ""⟩).node
  if assembly.nodes = [] then invalid "assembly has no nodes"
  else if terminal ∉ known then invalid ("terminal node " ++ terminal ++ " is not in the assembly")
  else
    match plan with
    | .all => .ok known.dedup
    | .only ids =>
        if ids = [] then invalid "NodePlan only requires at least one node id"
        else if ids.length ≠ ids.dedup.length then invalid "NodePlan only contains duplicate node id"
        else
          match ids.find? (· ∉ known) with
          | some id => invalid ("NodePlan only references unknown node " ++ id)
          | none =>
              if terminal ∉ ids then invalid "node plan must retain the terminal node" else .ok ids
    | .after nodeId =>
        if nodeId ∉ known then invalid ("NodePlan after references unknown node " ++ nodeId) else
        let dropped := nodeId :: transitivePredecessors assembly nodeId
        if terminal ∈ dropped then
          invalid ("NodePlan after(" ++ nodeId ++ ") would drop the terminal node") else
        let kept := (known.filter (· ∉ dropped)).dedup
        if kept = [] then invalid "NodePlan after left no nodes to run" else .ok kept
    | .from nodeId =>
        if nodeId ∉ known then invalid ("NodePlan from references unknown node " ++ nodeId) else
        let reach := reachableFrom assembly nodeId
        if terminal ∉ reach then
          invalid ("NodePlan from(" ++ nodeId ++ "): terminal " ++ terminal ++
            " is not reachable from that node")
        else .ok reach

/-- `setdefault` on a dictionary, which lists its items in the order of insertion. -/
def setDefault (seedByKey : List SeedSpec) (s : SeedSpec) : List SeedSpec :=
  if seedByKey.any fun k => k.fromNode == s.fromNode && k.fromPort == s.fromPort then seedByKey
  else seedByKey ++ [s]

/-- The seeds by pair of producer and port. -/
def uniqueSeeds (seeds : List SeedSpec) : List SeedSpec :=
  (seeds.foldl setDefault []).insertionSort fun a b =>
    toLex (a.fromNode, a.fromPort) ≤ toLex (b.fromNode, b.fromPort)

def materializeCut (assembly : Assembly) (plan : NodePlan) : Checked AssemblyCut := do
  let kept ← resolveKeptNodes assembly plan
  if plan = .all ∨ kept.length = assembly.nodes.length then
    .ok { assembly, skipped := [], requiredSeeds := []
          keptNodeIds := assembly.nodes.map (·.id) }
  else
    let rebound ← (assembly.bindings.filter (·.toNode ∈ kept)).mapM (rebind kept)
    let nodes := assembly.nodes.filter (·.id ∈ kept)
    .ok
      { assembly :=
          { assembly with
            nodes, bindings := rebound.map (·.1), terminal := some (assembly.terminal.getD ⟨"", ""⟩) }
        skipped := (assembly.nodes.filter (·.id ∉ kept)).map fun n =>
          { nodeId := n.id, module := n.module, capability := n.capability
            moduleVersion := n.moduleVersion }
        requiredSeeds := uniqueSeeds (rebound.filterMap (·.2))
        keptNodeIds := nodes.map (·.id) }

/-- A seed that is there is taken to have a reference. -/
def missingSeed (inputs : List NamedArtifact) (s : SeedSpec) : Option String :=
  match inputs.reverse.find? (·.name == s.inputName) with
  | none => some (s.inputName ++ " (from " ++ s.fromNode ++ "." ++ s.fromPort ++ " → " ++
      s.toNode ++ "." ++ s.toPort ++ ")")
  | some _ => none

def validateSeedsPresent (cut : AssemblyCut) (inputs : List NamedArtifact) : Checked Unit :=
  match cut.requiredSeeds.filterMap (missingSeed inputs) with
  | [] => .ok ()
  | missing => invalid ("cut requires seed inputs that were not provided: " ++
      String.intercalate "; " missing)

def seedsOfOutputs (nodeId : String) : List NamedArtifact → List String → List NamedArtifact
  | [], _ => []
  | o :: rest, seen =>
      let name := seedInputName nodeId o.name
      if o.name = "" ∨ name ∈ seen then seedsOfOutputs nodeId rest seen
      else
        { name, artifact := some (o.artifact.getD ⟨""⟩) } :: seedsOfOutputs nodeId rest (name :: seen)

def seedsOfNodes (runId : String) (derivations : List Derivation) :
    List String → List String → Checked (List NamedArtifact)
  | [], _ => .ok []
  | nodeId :: rest, seen =>
      match (derivations.filter (·.nodeId == nodeId)).getLast? with
      | none => invalid ("seeds_from_run: no derivation for node " ++ nodeId ++ " on run " ++ runId)
      | some d => do
          let seeds := seedsOfOutputs nodeId d.outputs seen
          let others ← seedsOfNodes runId derivations rest (seeds.map (·.name) ++ seen)
          .ok (seeds ++ others)

def seedsOfRun (runId : String) (derivations : List Derivation) (cutNodes : List String) :
    Checked (List NamedArtifact) :=
  seedsOfNodes runId derivations (cutNodes.dedup.insertionSort (· ≤ ·)) []

/-- A dictionary by name, read in the order of its sorted keys. -/
def mergeInputs (base seeds : List NamedArtifact) : List NamedArtifact :=
  let named : KeyMap String NamedArtifact := (base ++ seeds).foldl (fun m na => m.insert na.name na) ∅
  (named.keys.insertionSort (· ≤ ·)).filterMap named.lookup

/-- An integer without bound. -/
def resolveMaxSteps (policy : FrameworkPolicy) (nodeCount : Nat) : Nat :=
  policy.maxSteps.elim (if policy.closure = .open then max (nodeCount * 10000) 10000 else 0)
    UInt64.toNat

/-- The request, unless it does not fit its message: a `uint64` field takes no larger integer. -/
def applyToRunRequest (policy : FrameworkPolicy) (req : RunRequest) : Option RunRequest :=
  let maxSteps := resolveMaxSteps policy (req.assembly.elim 0 (·.nodes.length))
  if maxSteps < 2 ^ 64 then
    some
      { req with
        policy := some (policy.executionPolicyFor req.assembly)
        includeNodes := policy.includeNodes
        limits := some
          { maxSteps := UInt64.ofNat maxSteps
            maxInFlight := policy.effectiveConcurrency.toUInt64
            defaultLeaseMs := policy.leaseMs.getD 0
            maxAttempts := policy.maxAttempts.getD 0 } }
  else none

def pipelineRequest (runId : String) (assembly : Assembly) (inputs : List NamedArtifact)
    (policy : FrameworkPolicy) : Option RunRequest :=
  applyToRunRequest { policy with nodes := .all } { id := runId, assembly := some assembly, inputs }

end Substrate.Framework.Python
