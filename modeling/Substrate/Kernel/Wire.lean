/- ID: Substrate/Kernel/Wire
   source: kernel/contracts/proto/srcport/substrate/v1/substrate.proto
   digest: The protobuf messages the kernel reads, stores and encodes. -/

import Mathlib.Data.Finset.Basic
import Substrate.Library.FiniteMap

set_option autoImplicit false
set_option relaxedAutoImplicit false

namespace Substrate.Kernel.Wire

open Substrate.Library.FiniteMap (OrderedMap)

abbrev Bytes := List UInt8

/-- A `map<string, V>` field; prost generates these as `BTreeMap`. -/
abbrev BTreeMap (V : Type) := OrderedMap String V

inductive Lifecycle
  | unspecified | registered | loaded | active | deactivated
  deriving DecidableEq

def Lifecycle.asI32 : Lifecycle → Int32
  | .unspecified => 0
  | .registered => 1
  | .loaded => 2
  | .active => 3
  | .deactivated => 4

def Lifecycle.tryFrom (n : Int32) : Option Lifecycle :=
  [.unspecified, .registered, .loaded, .active, .deactivated].find? (·.asI32 == n)

inductive Firing
  | unspecified | once | always | oncePerKey
  deriving DecidableEq

def Firing.asI32 : Firing → Int32
  | .unspecified => 0
  | .once => 1
  | .always => 2
  | .oncePerKey => 3

def Firing.tryFrom (n : Int32) : Option Firing :=
  [.unspecified, .once, .always, .oncePerKey].find? (·.asI32 == n)

inductive Closure
  | unspecified | firstTerminal | open
  deriving DecidableEq

def Closure.asI32 : Closure → Int32
  | .unspecified => 0
  | .firstTerminal => 1
  | .open => 2

def Closure.tryFrom (n : Int32) : Option Closure :=
  [.unspecified, .firstTerminal, .open].find? (·.asI32 == n)

/-- Only the kernel writes this field, always with a declared value. -/
inductive RunState
  | running | completed | stalled | failed | cancelled
  deriving DecidableEq

structure Port where
  name : String
  multiple : Bool := false
  optional : Bool := false
  key : Bool := false
  traits : List String
  deriving DecidableEq

structure Capability where
  name : String
  inputs : List Port := []
  outputs : List Port := []
  firing : Int32 := 0
  deriving DecidableEq

/-- The generated getter: an undeclared wire value reads as the zero value. -/
def Capability.firingOf (c : Capability) : Firing := (Firing.tryFrom c.firing).getD .unspecified

structure ModuleManifest where
  name : String
  version : String
  provides : List Capability := []
  requires : List String := []
  deriving DecidableEq

structure BlobRef where
  digest : String
  byteCount : UInt64
  space : String
  deriving DecidableEq

structure ObjectRef where
  digest : String
  byteCount : UInt64
  space : String
  deriving DecidableEq

structure Trait where
  body : Bytes := []
  object : Option ObjectRef := none
  deriving DecidableEq

structure Artifact where
  id : String := ""
  info : BTreeMap String := .empty
  producedBy : String := ""
  traits : BTreeMap Trait
  entityId : String := ""
  supersedes : String := ""
  deriving DecidableEq

structure ArtifactRef where
  id : String
  deriving DecidableEq

structure ArtifactStorePolicy where
  maxInlineBytes : UInt64 := 0
  maxBlobBytes : UInt64 := 0
  ingestMode : Int32 := 0
  durability : Int32 := 0
  deriving DecidableEq

structure PutBlobRequest where
  space : String
  data : Bytes

structure GetBlobRequest where
  digest : String
  space : String

structure BlobData where
  digest : String
  byteCount : UInt64
  space : String
  data : Bytes
  deriving DecidableEq

structure HasBlobResponse where
  present : Bool
  byteCount : UInt64
  deriving DecidableEq

structure Contract where
  ref : String
  schema : String := ""
  mediaType : String := ""
  version : String := ""
  digest : String := ""
  compatibleWith : List String := []
  deriving DecidableEq

structure Event where
  id : String := ""
  topic : String
  type : String := ""
  source : String := ""
  seq : UInt64 := 0
  runId : String := ""
  artifacts : List ArtifactRef := []
  deriving DecidableEq

structure LedgerEntry where
  seq : UInt64
  kind : String
  subject : String
  detail : Bytes
  prevHash : String
  hash : String
  deriving DecidableEq

structure AppendRequest where
  kind : String
  subject : String
  detail : Bytes

structure NamedArtifact where
  name : String
  artifact : Option ArtifactRef
  deriving DecidableEq

structure AssemblyNode where
  id : String
  module : String
  moduleVersion : String
  capability : String
  deriving DecidableEq

structure Binding where
  toNode : String
  toPort : String
  fromNode : String := ""
  fromPort : String := ""
  input : String := ""
  deriving DecidableEq

structure NodeOutput where
  node : String
  port : String
  deriving DecidableEq

structure Limits where
  maxSteps : UInt64 := 0
  maxInFlight : UInt64 := 0
  defaultLeaseMs : UInt64 := 0
  maxAttempts : UInt32 := 0
  deriving DecidableEq

structure ExecutionPolicy where
  default : Int32 := 0
  byNode : BTreeMap Int32 := .empty
  closure : Int32 := 0
  deriving DecidableEq

def ExecutionPolicy.defaultOf (p : ExecutionPolicy) : Firing :=
  (Firing.tryFrom p.default).getD .unspecified

def ExecutionPolicy.closureOf (p : ExecutionPolicy) : Closure :=
  (Closure.tryFrom p.closure).getD .unspecified

structure Assembly where
  id : String
  nodes : List AssemblyNode := []
  bindings : List Binding := []
  terminal : Option NodeOutput := none
  deriving DecidableEq

structure RunRequest where
  id : String
  assembly : Option Assembly := none
  inputs : List NamedArtifact := []
  limits : Option Limits := none
  includeNodes : List String := []
  policy : Option ExecutionPolicy := none

/-- `assembly` is optional on the wire; the kernel only ever builds runs that carry one. -/
structure Run where
  id : String
  assembly : Assembly
  inputs : List NamedArtifact
  state : RunState
  answer : Option ArtifactRef
  steps : UInt64
  maxSteps : UInt64
  reason : String
  policy : Option ExecutionPolicy
  deriving DecidableEq

structure RunRef where
  id : String

structure InjectInputRequest where
  runId : String
  input : Option NamedArtifact

structure ClaimRequest where
  runId : String
  module : String := ""
  nodeIds : List String := []
  maxItems : UInt32 := 0
  modules : List String := []

structure WorkItem where
  id : String
  runId : String
  nodeId : String
  module : String
  moduleVersion : String
  capability : String
  inputs : List NamedArtifact
  unitKey : String
  attempt : UInt32
  leaseUntilUnixMs : Int64
  deriving DecidableEq

structure ClaimResponse where
  items : List WorkItem
  deriving DecidableEq

structure HeartbeatRequest where
  runId : String
  workIds : List String
  extendLeaseMs : UInt64 := 0

structure HeartbeatResponse where
  renewedWorkIds : List String
  lostWorkIds : List String
  deriving DecidableEq

structure FailWorkRequest where
  runId : String
  workId : String
  reason : String := ""
  terminal : Bool := false

structure WorkFailure where
  runId : String
  workId : String
  unitKey : String
  reason : String
  terminal : Bool
  attempt : UInt32
  deriving DecidableEq

structure Derivation where
  id : String := ""
  runId : String
  workId : String
  nodeId : String := ""
  module : String := ""
  moduleVersion : String := ""
  capability : String := ""
  inputs : List NamedArtifact := []
  outputs : List NamedArtifact := []
  deriving DecidableEq

structure TransitionRequest where
  module : String
  toState : Int32

structure RequestContext where
  caller : String := ""
  requestKey : String := ""
  deadlineUnixMs : Int64 := 0

/-- The messages whose encoding lands in a ledger entry's `detail`. -/
inductive Message
  | moduleManifest (m : ModuleManifest)
  | contract (c : Contract)
  | artifact (a : Artifact)
  | blobRef (b : BlobRef)
  | event (e : Event)
  | run (r : Run)
  | namedArtifact (n : NamedArtifact)
  | workItem (w : WorkItem)
  | workFailure (f : WorkFailure)
  | derivation (d : Derivation)
  deriving DecidableEq

/-- The generated protobuf encoder; the crate that provides it is not part of the repository. -/
class Prost where
  encodeToVec : Message → Bytes

export Prost (encodeToVec)

end Substrate.Kernel.Wire
