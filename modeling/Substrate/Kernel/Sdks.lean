/- ID: Substrate/Kernel/Sdks
   source: kernel/sdk/go/kernel.go, kernel/sdk/python/src/srcport_substrate/_kernel.py
   digest: What the Go and Python kernels have in common: encoders, error classes, reaping and the checks of assemblies and outputs. -/

import Substrate.Kernel.Work

set_option autoImplicit false
set_option relaxedAutoImplicit false

namespace Substrate.Kernel.Sdks

open Substrate.Kernel.Wire
open Substrate.Kernel.Hashing
open Substrate.Kernel.Memory
open Substrate.Kernel.Registry
open Substrate.Kernel.Assembly (invalid orInvalid nodeById inputByName edges)
open Substrate.Kernel.Runs (Record)
open Substrate.Kernel.Work (ledgerWorkItem)
open Substrate.Library.FiniteMap (KeyMap)
open Substrate.Library.Topological (visitAll)

/-- The class of an error. Two classes can share a code in the SDKs, and texts differ from kernel to
kernel. -/
inductive ErrorClass
  | notFound | invalid | conflict | runClosed | failedPrecondition | blobIntegrity
  | resourceExhausted
  deriving DecidableEq

def classOf : KernelError → ErrorClass
  | .notFound _ => .notFound
  | .invalid _ => .invalid
  | .conflict _ => .conflict
  | .runClosed _ => .runClosed
  | .failedPrecondition _ => .failedPrecondition
  | .blobIntegrity _ => .blobIntegrity
  | .resourceExhausted _ => .resourceExhausted

/-- A result up to the text of its error. -/
def classed {α : Type} (result : Except KernelError α) : Except ErrorClass α := result.mapError classOf

/-- A ledger entry before its detail is encoded: kind, subject, message. -/
abbrev LedgerEvent := String × String × Message

def detailed (encode : Message → Bytes) (e : LedgerEvent) : Record := (e.1, e.2.1, encode e.2.2)

/-- Map fields are where the protobuf libraries differ. -/
def mapFree : Message → Bool
  | .artifact _ => false
  | .run _ => false
  | _ => true

/-- `marshalCanonical` of Go and `_canonical` of Python, whose protobuf libraries are not part of
the repository. All of them write fields in number order and leave out proto3 defaults, which fixes
the bytes of every message that holds no map. -/
class Encodings [Prost] where
  marshalCanonical : Message → Bytes
  canonical : Message → Bytes
  marshalCanonical_mapFree : ∀ m, mapFree m → marshalCanonical m = encodeToVec m
  canonical_mapFree : ∀ m, mapFree m → canonical m = encodeToVec m

export Encodings (marshalCanonical canonical)

/-- What reaping one expired claim logs. -/
def expiryEvents (runId : String) (maxAttempts : UInt32) (id unitKey : String) (work : WorkItem)
    (attempt : UInt32) : List LedgerEvent :=
  ("work.expired", id, .workItem (ledgerWorkItem work)) ::
    if maxAttempts ≤ attempt then
      [("work.failed", id, .workFailure
        { runId, workId := id, unitKey, reason := "lease expired; max_attempts exhausted"
          terminal := true, attempt })]
    else []

/-- Where the validators of the two kernels differ. -/
structure Dialect where
  /-- Between the words and the name in the two errors about duplicates. -/
  colon : String
  /-- Whether a port's trait refs are checked to be non-empty. -/
  checksTraitRefs : Bool
  /-- Whether two bindings are counted for one port. -/
  samePort : String × String → String × String → Bool
  /-- How a list of trait refs is printed. -/
  traitList : List String → String

variable (d : Dialect)

def validatePorts (nodeId : String) : List String → List Port → Except KernelError Unit
  | _, [] => .ok ()
  | names, p :: rest =>
      if p.name = "" ∨ p.traits = [] ∨ p.name ∈ names then
        invalid (nodeId ++ " has an empty or duplicate typed port")
      else if d.checksTraitRefs ∧ "" ∈ p.traits then
        invalid (nodeId ++ "." ++ p.name ++ " has an empty trait ref")
      else validatePorts nodeId (p.name :: names) rest

def validateNodes (modules : List ModuleSlot) :
    List String → List AssemblyNode → Except KernelError Unit
  | _, [] => .ok ()
  | seen, node :: rest =>
      if node.id = "" ∨ node.id ∈ seen then
        invalid ("duplicate or empty node id" ++ d.colon ++ node.id)
      else do
        let cap ← capabilityForNode modules node
        validatePorts d node.id [] cap.inputs
        validatePorts d node.id [] cap.outputs
        validateNodes modules (node.id :: seen) rest

def validateInputs (artifacts : KeyMap String Artifact) :
    List String → List NamedArtifact → Except KernelError Unit
  | _, [] => .ok ()
  | seen, value :: rest =>
      if value.name = "" ∨ value.name ∈ seen then
        invalid ("duplicate or empty run input" ++ d.colon ++ value.name)
      else do
        let r ← orInvalid value.artifact ("input " ++ value.name ++ " has no artifact")
        if r.id ∉ artifacts then .error (.notFound r.id)
        else validateInputs artifacts (value.name :: seen) rest

/-- The body of the loop over the bindings. -/
def validateBinding (modules : List ModuleSlot) (artifacts : KeyMap String Artifact)
    (nodes : List AssemblyNode) (inputs : List NamedArtifact) (b : Binding) :
    Except KernelError Unit := do
  let targetNode ← orInvalid (nodeById nodes b.toNode) ("unknown target " ++ b.toNode)
  let targetCap ← capabilityForNode modules targetNode
  let target ← orInvalid (port targetCap.inputs b.toPort)
    ("unknown input " ++ b.toNode ++ "." ++ b.toPort)
  let upstream := b.fromNode ≠ "" ∨ b.fromPort ≠ ""
  let external := b.input ≠ ""
  if upstream ↔ external then invalid "binding must have exactly one source"
  else if external then
    let value ← orInvalid (inputByName inputs b.input) ("unknown run input " ++ b.input)
    let covered := (value.artifact.bind fun r => artifacts.lookup r.id).any
      (hasTraits · target.traits)
    if covered then .ok ()
    else invalid ("trait set mismatch at " ++ b.toNode ++ "." ++ b.toPort)
  else
    let sourceNode ← orInvalid (nodeById nodes b.fromNode) ("unknown source " ++ b.fromNode)
    let sourceCap ← capabilityForNode modules sourceNode
    let source ← orInvalid (port sourceCap.outputs b.fromPort)
      ("unknown output " ++ b.fromNode ++ "." ++ b.fromPort)
    if traitSetCovers source.traits target.traits then .ok ()
    else invalid ("trait set mismatch at " ++ b.toNode ++ "." ++ b.toPort)

/-- The counts of the bindings, read for each input port of a node. -/
def validateCounts (bindings : List Binding) (nodeId : String) (inputs : List Port) :
    Except KernelError Unit :=
  inputs.forM fun p =>
    let count := bindings.countP fun b => d.samePort (b.toNode, b.toPort) (nodeId, p.name)
    if count = 0 ∧ ¬ p.optional then
      invalid ("required input " ++ nodeId ++ "." ++ p.name ++ " is unbound")
    else if count > 1 ∧ ¬ p.multiple then
      invalid ("input " ++ nodeId ++ "." ++ p.name ++ " is not multiple")
    else .ok ()

/-- `roots` are the node ids in the order in which the last loop visits them. -/
def validateAssembly (roots : List String → List String) (modules : List ModuleSlot)
    (artifacts : KeyMap String Artifact) (a : Assembly) (inputs : List NamedArtifact) :
    Except KernelError Unit :=
  if a.id = "" then invalid "assembly id is required"
  else if a.nodes = [] then invalid "assembly needs nodes and a terminal"
  else do
    let terminal ← orInvalid a.terminal "assembly needs nodes and a terminal"
    validateNodes d modules [] a.nodes
    let terminalNode ← orInvalid (nodeById a.nodes terminal.node) "terminal node does not exist"
    let terminalCap ← capabilityForNode modules terminalNode
    let terminalPort ← orInvalid (port terminalCap.outputs terminal.port)
      "terminal output does not exist"
    if terminalPort.multiple then invalid "terminal output must be scalar" else
    validateInputs d artifacts [] inputs
    a.bindings.forM (validateBinding modules artifacts a.nodes inputs)
    a.nodes.forM fun n => do
      let cap ← capabilityForNode modules n
      validateCounts d a.bindings n.id cap.inputs
    match visitAll (edges a.bindings) (a.nodes.length + 1) (roots (a.nodes.map (·.id))) with
    | some _ => .ok ()
    | none => invalid "assembly contains a cycle"

/-- `order` is the order in which the included ids are looked up. -/
def materializeAssembly (order : List String → List String) (a : Assembly)
    (includeNodes : List String) : Except KernelError Assembly :=
  if includeNodes = [] then .ok a
  else if ¬ includeNodes.Nodup then invalid "include_nodes contains duplicates"
  else do
    (order includeNodes).forM fun id =>
      if a.nodes.any (·.id == id) then .ok ()
      else invalid ("include_nodes references unknown node " ++ id)
    if (a.terminal.any fun t => t.node ∈ includeNodes) then
      .ok { a with
        nodes := a.nodes.filter fun n => n.id ∈ includeNodes
        bindings := a.bindings.filter fun b =>
          b.toNode ∈ includeNodes && (b.input ≠ "" || b.fromNode ∈ includeNodes) }
    else invalid "include_nodes must retain the terminal node"

def validateOutput (artifacts : KeyMap String Artifact) (cap : Capability)
    (output : NamedArtifact) : Except KernelError Unit :=
  match port cap.outputs output.name, output.artifact with
  | some expected, some r =>
      match artifacts.lookup r.id with
      | none => .error (.notFound r.id)
      | some artifact =>
          if hasTraits artifact expected.traits then .ok ()
          else invalid ("output " ++ output.name ++ " missing required traits " ++
            d.traitList expected.traits)
  | _, _ => invalid ("undeclared or empty output " ++ output.name)

def validateOutputs (artifacts : KeyMap String Artifact) (cap : Capability)
    (outputs : List NamedArtifact) : Except KernelError Unit := do
  cap.outputs.forM fun expected =>
    let count := outputs.countP (·.name == expected.name)
    if count = 0 ∧ ¬ expected.optional then
      invalid ("required output " ++ expected.name ++ " is absent")
    else if count > 1 ∧ ¬ expected.multiple then
      invalid ("output " ++ expected.name ++ " is not multiple")
    else .ok ()
  outputs.forM (validateOutput d artifacts cap)

end Substrate.Kernel.Sdks
