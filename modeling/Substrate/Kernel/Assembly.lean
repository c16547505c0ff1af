/- ID: Substrate/Kernel/Assembly
   source: kernel/sdk/rust/src/lib.rs
   digest: Node subsets of an assembly and the validation that freezes it into a run. -/

import Substrate.Kernel.Registry
import Substrate.Kernel.Store
import Substrate.Library.Topological

set_option autoImplicit false
set_option relaxedAutoImplicit false

namespace Substrate.Kernel.Assembly

open Substrate.Kernel.Wire
open Substrate.Kernel.Hashing
open Substrate.Kernel.Memory
open Substrate.Kernel.Registry
open Substrate.Kernel.Store (debugStrings)
open Substrate.Library.FiniteMap (KeyMap)
open Substrate.Library.Topological (visitAll)

abbrev Checked := Except KernelError

def invalid {α : Type} (reason : String) : Checked α := .error (.invalid reason)

def orInvalid {α : Type} (found : Option α) (reason : String) : Checked α :=
  match found with
  | some a => .ok a
  | none => invalid reason

def materializeAssembly (env : Env) (assembly : Assembly) (includeNodes : List String) :
    Except KernelError Assembly :=
  if includeNodes = [] then .ok assembly
  else if ¬ includeNodes.Nodup then invalid "include_nodes contains duplicates"
  else do
    -- `want` is a hash set, so which unknown id is reported follows its iteration order
    (env.iter includeNodes).forM fun id =>
      if assembly.nodes.any (·.id == id) then .ok ()
      else invalid ("include_nodes references unknown node " ++ id)
    let terminal ← orInvalid assembly.terminal "assembly terminal is required"
    if terminal.node ∉ includeNodes then invalid "include_nodes must retain the terminal node"
    else
      .ok { assembly with
        nodes := assembly.nodes.filter fun n => n.id ∈ includeNodes
        bindings := assembly.bindings.filter fun b =>
          b.toNode ∈ includeNodes && (b.input ≠ "" || b.fromNode ∈ includeNodes) }

/-- One direction's ports of a node: distinct non-empty names, non-empty trait refs. -/
def validatePorts (nodeId : String) : List String → List Port → Except KernelError Unit
  | _, [] => .ok ()
  | names, p :: rest =>
      if p.name = "" ∨ p.traits = [] ∨ p.name ∈ names then
        invalid (nodeId ++ " has an empty or duplicate typed port")
      else if "" ∈ p.traits then invalid (nodeId ++ "." ++ p.name ++ " has an empty trait ref")
      else validatePorts nodeId (p.name :: names) rest

def validateNodes (modules : List ModuleSlot) :
    List String → List AssemblyNode → Except KernelError Unit
  | _, [] => .ok ()
  | seen, node :: rest =>
      if node.id = "" ∨ node.id ∈ seen then invalid ("duplicate or empty node id: " ++ node.id)
      else do
        let cap ← capabilityForNode modules node
        validatePorts node.id [] cap.inputs
        validatePorts node.id [] cap.outputs
        validateNodes modules (node.id :: seen) rest

def validateInputs (artifacts : KeyMap String Artifact) :
    List String → List NamedArtifact → Except KernelError Unit
  | _, [] => .ok ()
  | seen, input :: rest =>
      if input.name = "" ∨ input.name ∈ seen then
        invalid ("duplicate or empty run input: " ++ input.name)
      else do
        let r ← orInvalid input.artifact ("input " ++ input.name ++ " has no artifact")
        if r.id ∉ artifacts then .error (.notFound r.id)
        else validateInputs artifacts (input.name :: seen) rest

def nodeById (nodes : List AssemblyNode) (id : String) : Option AssemblyNode :=
  nodes.find? (·.id == id)

def inputByName (inputs : List NamedArtifact) (name : String) : Option NamedArtifact :=
  inputs.find? (·.name == name)

/-- One binding: a known target port, exactly one source, and the source's traits cover it. -/
def validateBinding (modules : List ModuleSlot) (artifacts : KeyMap String Artifact)
    (nodes : List AssemblyNode) (inputs : List NamedArtifact) (b : Binding) :
    Except KernelError Unit := do
  let targetNode ← orInvalid (nodeById nodes b.toNode)
    ("binding target " ++ b.toNode ++ " is unknown")
  let targetCap ← capabilityForNode modules targetNode
  let target ← orInvalid (port targetCap.inputs b.toPort)
    ("input port " ++ b.toNode ++ "." ++ b.toPort ++ " is unknown")
  let upstream := b.fromNode ≠ "" ∨ b.fromPort ≠ ""
  let external := b.input ≠ ""
  if upstream ↔ external then invalid "binding must have exactly one source"
  else if external then
    let input ← orInvalid (inputByName inputs b.input) ("run input " ++ b.input ++ " is unknown")
    match input.artifact.bind fun r => artifacts.lookup r.id with
    | some art =>
        if hasTraits art target.traits then .ok ()
        else invalid ("trait set mismatch at " ++ b.toNode ++ "." ++ b.toPort ++
          ": input artifact missing required traits " ++ debugStrings target.traits)
    -- unreachable: every input's artifact was found above
    | none => invalid ("run input " ++ b.input ++ " is unknown")
  else
    let sourceNode ← orInvalid (nodeById nodes b.fromNode)
      ("binding source " ++ b.fromNode ++ " is unknown")
    let sourceCap ← capabilityForNode modules sourceNode
    let source ← orInvalid (port sourceCap.outputs b.fromPort)
      ("output port " ++ b.fromNode ++ "." ++ b.fromPort ++ " is unknown")
    if traitSetCovers source.traits target.traits then .ok ()
    else invalid ("trait set mismatch at " ++ b.toNode ++ "." ++ b.toPort ++
      ": source guarantees " ++ debugStrings source.traits ++ " does not cover " ++
      debugStrings target.traits)

/-- How many bindings feed each input port of a node. -/
def validateCounts (bindings : List Binding) (nodeId : String) (inputs : List Port) :
    Except KernelError Unit :=
  inputs.forM fun input =>
    let n := bindings.countP fun b => b.toNode == nodeId && b.toPort == input.name
    if n = 0 ∧ ¬ input.optional then
      invalid ("required input " ++ nodeId ++ "." ++ input.name ++ " is unbound")
    else if n > 1 ∧ ¬ input.multiple then
      invalid ("input " ++ nodeId ++ "." ++ input.name ++ " is not multiple")
    else .ok ()

/-- Targets of the upstream bindings out of a node, in binding order. -/
def edges (bindings : List Binding) (node : String) : List String :=
  (bindings.filter fun b => b.input == "" && b.fromNode == node).map (·.toNode)

def validateAssembly (env : Env) (modules : List ModuleSlot) (artifacts : KeyMap String Artifact)
    (assembly : Assembly) (inputs : List NamedArtifact) : Except KernelError Unit :=
  if assembly.id = "" then invalid "assembly id is required"
  else if assembly.nodes = [] then invalid "assembly has no nodes"
  else do
    let terminal ← orInvalid assembly.terminal "assembly terminal is required"
    validateNodes modules [] assembly.nodes
    let terminalNode ← orInvalid (nodeById assembly.nodes terminal.node)
      "terminal node does not exist"
    let terminalCap ← capabilityForNode modules terminalNode
    let terminalPort ← orInvalid (port terminalCap.outputs terminal.port)
      "terminal output port does not exist"
    if terminalPort.multiple then invalid "terminal output must be scalar" else
    validateInputs artifacts [] inputs
    assembly.bindings.forM (validateBinding modules artifacts assembly.nodes inputs)
    assembly.nodes.forM fun node => do
      let cap ← capabilityForNode modules node
      validateCounts assembly.bindings node.id cap.inputs
    -- a path never holds more nodes than there are, so this fuel is never used up
    match visitAll (edges assembly.bindings) (assembly.nodes.length + 1)
        (env.iter (assembly.nodes.map (·.id))) with
    | some _ => .ok ()
    | none => invalid "assembly contains a cycle"

end Substrate.Kernel.Assembly
