/- ID: Substrate/Framework/Cut
   source: framework/sdk/rust/src/cut.rs
   digest: Which nodes of an assembly a plan keeps, and the seeds that stand for the others. -/

import Substrate.Framework.Policy
import Substrate.Framework.Steps
import Substrate.Library.Worklist

set_option autoImplicit false
set_option relaxedAutoImplicit false

namespace Substrate.Framework.Cut

open Substrate.Kernel.Wire
open Substrate.Framework.Steps (FrameworkError)
open Substrate.Framework.Policy (NodePlan)
open Substrate.Library.FiniteMap (OrderedMap)
open Substrate.Library.Worklist (Search spread)

abbrev Checked := Except FrameworkError

def invalid {α : Type} (reason : String) : Checked α := .error (.invalid reason)

def seedInputPrefix : String := "__seed/"

/-- The input that stands for a dropped producer's output port. -/
def seedInputName (fromNode fromPort : String) : String :=
  seedInputPrefix ++ fromNode ++ "/" ++ fromPort

def isSeedInputName (name : String) : Bool := seedInputPrefix.toList.isPrefixOf name.toList

/-- One binding of a dropped node to a kept one, rewritten into a run input. -/
structure SeedSpec where
  inputName : String
  fromNode : String
  fromPort : String
  toNode : String
  toPort : String
  deriving DecidableEq

structure SkippedNode where
  nodeId : String
  module : String
  capability : String
  moduleVersion : String
  deriving DecidableEq

structure AssemblyCut where
  assembly : Assembly
  skipped : List SkippedNode
  /-- One for each dropped output port that a kept node reads. -/
  requiredSeeds : List SeedSpec
  keptNodeIds : List String

/-- The node-to-node edges of an assembly; a binding without either end is none. -/
def edges (assembly : Assembly) : List (String × String) :=
  (assembly.bindings.filter fun b => b.fromNode ≠ "" && b.toNode ≠ "").map fun b =>
    (b.fromNode, b.toNode)

def successors (assembly : Assembly) (node : String) : List String :=
  ((edges assembly).filter (·.1 == node)).map (·.2)

def predecessors (assembly : Assembly) (node : String) : List String :=
  ((edges assembly).filter (·.2 == node)).map (·.1)

/-- The search back from a node; the fuel covers the start and one source for each binding. -/
def predecessorSearch (assembly : Assembly) (nodeId : String) : Search String :=
  Search.run (predecessors assembly) (assembly.bindings.length + 1) ⟨[], [nodeId], [nodeId]⟩

/-- The start is among its own predecessors when a cycle leads back to it. -/
def transitivePredecessors (assembly : Assembly) (nodeId : String) : List String :=
  (predecessorSearch assembly nodeId).found

/-- The search on from a node: what it has seen and what is left of its queue. -/
def reachableSearch (assembly : Assembly) (nodeId : String) : List String × List String :=
  spread (successors assembly) (assembly.bindings.length + 1) [nodeId] [nodeId]

def reachableFrom (assembly : Assembly) (nodeId : String) : List String :=
  (reachableSearch assembly nodeId).1

def checkOnly (known : List String) : List String → List String → Checked Unit
  | _, [] => .ok ()
  | seen, id :: rest =>
      if id ∈ seen then invalid ("NodePlan::Only contains duplicate node id " ++ id)
      else if id ∉ known then invalid ("NodePlan::Only references unknown node " ++ id)
      else checkOnly known (id :: seen) rest

/-- The kept node ids, before rebinding. -/
def resolveKeptNodes (assembly : Assembly) (plan : NodePlan) : Checked (List String) :=
  let known := assembly.nodes.map (·.id)
  if known = [] then invalid "assembly has no nodes" else
  match assembly.terminal with
  | none => invalid "assembly terminal is required"
  | some terminal =>
      if terminal.node ∉ known then
        invalid ("terminal node " ++ terminal.node ++ " is not in the assembly") else
      match plan with
      | .all => .ok known.dedup
      | .only ids =>
          if ids = [] then invalid "NodePlan::Only requires at least one node id" else do
          checkOnly known [] ids
          if terminal.node ∉ ids then invalid "node plan must retain the terminal node"
          else .ok ids
      | .after nodeId =>
          if nodeId ∉ known then
            invalid ("NodePlan::After references unknown node " ++ nodeId) else
          let dropped := nodeId :: transitivePredecessors assembly nodeId
          if terminal.node ∈ dropped then
            invalid ("NodePlan::After(" ++ nodeId ++ ") would drop the terminal node") else
          let kept := (known.filter (· ∉ dropped)).dedup
          if kept = [] then invalid "NodePlan::After left no nodes to run" else .ok kept
      | .from nodeId =>
          if nodeId ∉ known then
            invalid ("NodePlan::From references unknown node " ++ nodeId) else
          let reachable := reachableFrom assembly nodeId
          if terminal.node ∉ reachable then
            invalid ("NodePlan::From(" ++ nodeId ++ "): terminal " ++ terminal.node ++
              " is not reachable from that node")
          else .ok reachable

/-- What becomes of one binding into a kept node: kept, or rewritten to a seed input. -/
def rebind (kept : List String) (b : Binding) : Checked (Binding × Option SeedSpec) :=
  if b.input ≠ "" then .ok (b, none)
  else if b.fromNode = "" then
    invalid ("binding to " ++ b.toNode ++ "." ++ b.toPort ++ " has neither input nor from_node")
  else if b.fromNode ∈ kept then .ok (b, none)
  else
    let inputName := seedInputName b.fromNode b.fromPort
    .ok ({ toNode := b.toNode, toPort := b.toPort, input := inputName },
      some { inputName, fromNode := b.fromNode, fromPort := b.fromPort
             toNode := b.toNode, toPort := b.toPort })

/-- Order of the map that the seeds are collected in. -/
def seedBefore (a b : SeedSpec) : Bool :=
  a.fromNode < b.fromNode || (a.fromNode == b.fromNode && a.fromPort < b.fromPort)

/-- The first seed of each dropped output port, by node and port. -/
def uniqueSeeds (seeds : List SeedSpec) : List SeedSpec :=
  (seeds.foldl (fun kept s =>
    if kept.any fun k => k.fromNode == s.fromNode && k.fromPort == s.fromPort then kept
    else kept ++ [s]) []).insertionSort fun a b => !seedBefore b a

/-- Drop nodes and rebind crossing edges to seed inputs. -/
def materializeCut (assembly : Assembly) (plan : NodePlan) : Checked AssemblyCut := do
  let kept ← resolveKeptNodes assembly plan
  if plan = .all ∨ kept.length = assembly.nodes.length then
    .ok { assembly, skipped := [], requiredSeeds := []
          keptNodeIds := assembly.nodes.map (·.id) }
  else
    let rebound ← (assembly.bindings.filter (·.toNode ∈ kept)).mapM (rebind kept)
    let nodes := assembly.nodes.filter (·.id ∈ kept)
    .ok
      { assembly := { assembly with nodes, bindings := rebound.map (·.1) }
        skipped := (assembly.nodes.filter (·.id ∉ kept)).map fun n =>
          { nodeId := n.id, module := n.module, capability := n.capability
            moduleVersion := n.moduleVersion }
        requiredSeeds := uniqueSeeds (rebound.filterMap (·.2))
        keptNodeIds := nodes.map (·.id) }

def missingSeed (inputs : List NamedArtifact) (s : SeedSpec) : Option String :=
  -- a later input of the same name hides an earlier one
  match inputs.reverse.find? (·.name == s.inputName) with
  | none => some (s.inputName ++ " (from " ++ s.fromNode ++ "." ++ s.fromPort ++ " → " ++
      s.toNode ++ "." ++ s.toPort ++ ")")
  | some na =>
      if na.artifact.isNone then some (s.inputName ++ " (present but artifact ref is empty)")
      else none

/-- Fail closed when a required seed is missing. -/
def validateSeedsPresent (cut : AssemblyCut) (inputs : List NamedArtifact) : Checked Unit :=
  match cut.requiredSeeds.filterMap (missingSeed inputs) with
  | [] => .ok ()
  | missing => invalid ("cut requires seed inputs that were not provided: " ++
      String.intercalate "; " missing)

/-- One seed for each output port of a node, the first output of the port. -/
def seedsOfOutputs (nodeId : String) : List NamedArtifact → List String → Checked (List NamedArtifact)
  | [], _ => .ok []
  | o :: rest, seen =>
      let name := seedInputName nodeId o.name
      if o.name = "" ∨ name ∈ seen then seedsOfOutputs nodeId rest seen
      else
        match o.artifact with
        | none => invalid ("seeds_from_run: output " ++ nodeId ++ "." ++ o.name ++
            " has no artifact ref")
        | some r => do
            let seeds ← seedsOfOutputs nodeId rest (name :: seen)
            .ok ({ name, artifact := some r } :: seeds)

/-- The seeds of the wanted nodes in their order; a name is seeded once. -/
def seedsOfNodes (runId : String) (derivations : List Derivation) :
    List String → List String → Checked (List NamedArtifact)
  | [], _ => .ok []
  | nodeId :: rest, seen =>
      match (derivations.filter (·.nodeId == nodeId)).getLast? with
      | none => invalid ("seeds_from_run: no derivation for node " ++ nodeId ++ " on run " ++ runId)
      | some d => do
          let seeds ← seedsOfOutputs nodeId d.outputs seen
          let others ← seedsOfNodes runId derivations rest (seeds.map (·.name) ++ seen)
          .ok (seeds ++ others)

/-- Seeds from the latest derivations of a run, by node id in ascending order. -/
def seedsOfRun (runId : String) (derivations : List Derivation) (cutNodes : List String) :
    Checked (List NamedArtifact) :=
  seedsOfNodes runId derivations (cutNodes.dedup.insertionSort (· ≤ ·)) []

/-- Inputs by name in ascending order; a later one hides an earlier one, and seeds come last. -/
def mergeInputs (base seeds : List NamedArtifact) : List NamedArtifact :=
  let byName : BTreeMap NamedArtifact :=
    (base ++ seeds).foldl (fun byName na => byName.insert na.name na) .empty
  byName.entries.map (·.2)

end Substrate.Framework.Cut
