/- ID: Substrate/Kernel/Codec
   source: kernel/contracts/proto/srcport/substrate/v1/substrate.proto
   digest: The protobuf encoding of ledger details, field by field in tag order, and its decoder. -/

import Substrate.Kernel.Hashing
import Substrate.Library.Proto3

set_option autoImplicit false
set_option relaxedAutoImplicit false

namespace Substrate.Kernel.Codec

open Substrate.Kernel.Wire
open Substrate.Kernel.Hashing
open Substrate.Library.FiniteMap (OrderedMap)
open Substrate.Library.Proto3

def readUtf8 : Value → Option String
  | .bytes b => String.fromUTF8? ⟨b.toArray⟩
  | .varint _ => none

def readBytes : Value → Option Bytes
  | .bytes b => some b
  | .varint _ => none

def readNumber {α : Type} (ofNat : Nat → α) : Value → Option α
  | .varint n => some (ofNat n)
  | .bytes _ => none

def str : String → List Value := scalar "" fun s => .bytes (asBytes s)

def byteString : Bytes → List Value := scalar [] .bytes

def uint64 : UInt64 → List Value := scalar 0 fun n => .varint n.toNat

def uint32 : UInt32 → List Value := scalar 0 fun n => .varint n.toNat

/-- Negative values are sign-extended to 64 bits. -/
def int64 : Int64 → List Value := scalar 0 fun n => .varint n.toUInt64.toNat

/-- Open enumerations travel as `int32`. -/
def int32 : Int32 → List Value := scalar 0 fun n => .varint n.toInt64.toUInt64.toNat

def bool : Bool → List Value := scalar false fun b => .varint b.toNat

def strings (l : List String) : List Value := l.map fun s => .bytes (asBytes s)

theorem readUtf8_asBytes (s : String) : readUtf8 (.bytes (asBytes s)) = some s := by
  have bytes : (⟨(asBytes s).toArray⟩ : ByteArray) = s.toByteArray := by
    simp [asBytes]
  rw [readUtf8, bytes, String.fromUTF8?, dif_pos s.isValidUTF8]
  rfl

@[simp] theorem readStr (s : String) : readScalar "" readUtf8 (str s) = some s :=
  readScalar_scalar readUtf8_asBytes s

@[simp] theorem readByteString (b : Bytes) : readScalar [] readBytes (byteString b) = some b :=
  readScalar_scalar (fun b => show readBytes (.bytes b) = some b from rfl) b

@[simp] theorem readUInt64 (n : UInt64) :
    readScalar 0 (readNumber UInt64.ofNat) (uint64 n) = some n :=
  readScalar_scalar (fun n => by simp [readNumber]) n

@[simp] theorem readUInt32 (n : UInt32) :
    readScalar 0 (readNumber UInt32.ofNat) (uint32 n) = some n :=
  readScalar_scalar (fun n => by simp [readNumber]) n

private theorem int64_bits (n : Int64) : Int64.ofNat n.toUInt64.toNat = n := by
  rw [← UInt64.toInt64_ofNat', UInt64.ofNat_toNat, Int64.toInt64_toUInt64]

@[simp] theorem readInt64 (n : Int64) :
    readScalar 0 (readNumber Int64.ofNat) (int64 n) = some n := by
  refine readScalar_scalar (fun n => ?_) n
  exact congrArg some (int64_bits n)

@[simp] theorem readInt32 (n : Int32) :
    readScalar 0 (readNumber Int32.ofNat) (int32 n) = some n := by
  refine readScalar_scalar (fun n => ?_) n
  rw [readNumber, ← Int64.toInt32_ofNat', int64_bits, Int32.toInt32_toInt64]

@[simp] theorem readBool (b : Bool) :
    readScalar false (readNumber fun n => n != 0) (bool b) = some b :=
  readScalar_scalar (fun b => by cases b <;> rfl) b

@[simp] theorem readStrings (l : List String) : (strings l).mapM readUtf8 = some l :=
  readRepeated_map readUtf8_asBytes l

section Nested

variable {T : Type} {fields : T → List Field} {parse : List Field → Option T}

def nested (fields : T → List Field) (t : T) : Value := .bytes (encodeFields (fields t))

def readNested (parse : List Field → Option T) : Value → Option T
  | .bytes b => (decodeFields b).bind parse
  | .varint _ => none

theorem readNested_nested (inverse : ∀ t, parse (fields t) = some t) (t : T) :
    readNested parse (nested fields t) = some t := by
  rw [nested, readNested, decodeFields_encodeFields, Option.bind_some, inverse]

theorem readMessages (inverse : ∀ t, parse (fields t) = some t) (l : List T) :
    (l.map (nested fields)).mapM (readNested parse) = some l :=
  readRepeated_map (readNested_nested inverse) l

theorem readMessage (inverse : ∀ t, parse (fields t) = some t) (t : Option T) :
    readOptional (readNested parse) (optional (nested fields) t) = some t :=
  readOptional_optional (readNested_nested inverse) t

end Nested

@[simp] def strAt (k : Nat) (fs : List Field) : Option String :=
  readScalar "" readUtf8 (occurrences k fs)

@[simp] def boolAt (k : Nat) (fs : List Field) : Option Bool :=
  readScalar false (readNumber fun n => n != 0) (occurrences k fs)

@[simp] def uint64At (k : Nat) (fs : List Field) : Option UInt64 :=
  readScalar 0 (readNumber UInt64.ofNat) (occurrences k fs)

@[simp] def uint32At (k : Nat) (fs : List Field) : Option UInt32 :=
  readScalar 0 (readNumber UInt32.ofNat) (occurrences k fs)

@[simp] def int32At (k : Nat) (fs : List Field) : Option Int32 :=
  readScalar 0 (readNumber Int32.ofNat) (occurrences k fs)

@[simp] def int64At (k : Nat) (fs : List Field) : Option Int64 :=
  readScalar 0 (readNumber Int64.ofNat) (occurrences k fs)

@[simp] def stringsAt (k : Nat) (fs : List Field) : Option (List String) :=
  (occurrences k fs).mapM readUtf8

@[simp] def messageAt {T : Type} (parse : List Field → Option T) (k : Nat) (fs : List Field) :
    Option (Option T) :=
  readOptional (readNested parse) (occurrences k fs)

@[simp] def messagesAt {T : Type} (parse : List Field → Option T) (k : Nat) (fs : List Field) :
    Option (List T) :=
  (occurrences k fs).mapM (readNested parse)

section Maps

variable {V : Type} {value : V → List Value} {read : List Value → Option V}

/-- A map travels as a list of entries: the key under 1, the value under 2. -/
def entryFields (value : V → List Value) (e : String × V) : List Field :=
  field 1 (str e.1) ++ field 2 (value e.2)

def parseEntry (read : List Value → Option V) (fs : List Field) : Option (String × V) := do
  let key ← strAt 1 fs
  let value ← read (occurrences 2 fs)
  return (key, value)

def mapEntries (value : V → List Value) (m : BTreeMap V) : List Value :=
  m.entries.map (nested (entryFields value))

/-- Entries are accepted in key order, as a `BTreeMap` writes them. -/
def readMap (read : List Value → Option V) (values : List Value) : Option (BTreeMap V) :=
  (values.mapM (readNested (parseEntry read))).bind fun entries =>
    if ascending : entries.Pairwise fun a b => a.1 < b.1 then some ⟨entries, ascending⟩ else none

theorem readMap_mapEntries (inverse : ∀ v, read (value v) = some v) (m : BTreeMap V) :
    readMap read (mapEntries value m) = some m := by
  have entry : ∀ e, parseEntry read (entryFields value e) = some e := by
    intro e
    simp [parseEntry, entryFields, inverse]
  rw [readMap, mapEntries, readMessages entry, Option.bind_some, dif_pos m.ascending]

end Maps

def portFields (p : Port) : List Field :=
  field 1 (str p.name) ++ field 3 (bool p.multiple) ++ field 4 (bool p.optional) ++
    field 5 (bool p.key) ++ field 6 (strings p.traits)

def parsePort (fs : List Field) : Option Port := do
  let name ← strAt 1 fs
  let multiple ← boolAt 3 fs
  let optional ← boolAt 4 fs
  let key ← boolAt 5 fs
  let traits ← stringsAt 6 fs
  return { name, multiple, optional, key, traits }

theorem parsePort_fields (p : Port) : parsePort (portFields p) = some p := by
  simp [parsePort, portFields]

def capabilityFields (c : Capability) : List Field :=
  field 1 (str c.name) ++ field 3 (c.inputs.map (nested portFields)) ++
    field 4 (c.outputs.map (nested portFields)) ++ field 5 (int32 c.firing)

def parseCapability (fs : List Field) : Option Capability := do
  let name ← strAt 1 fs
  let inputs ← messagesAt parsePort 3 fs
  let outputs ← messagesAt parsePort 4 fs
  let firing ← int32At 5 fs
  return { name, inputs, outputs, firing }

theorem parseCapability_fields (c : Capability) :
    parseCapability (capabilityFields c) = some c := by
  simp [parseCapability, capabilityFields, readMessages parsePort_fields]

def manifestFields (m : ModuleManifest) : List Field :=
  field 1 (str m.name) ++ field 2 (str m.version) ++
    field 3 (m.provides.map (nested capabilityFields)) ++ field 4 (strings m.requires)

def parseManifest (fs : List Field) : Option ModuleManifest := do
  let name ← strAt 1 fs
  let version ← strAt 2 fs
  let provides ← messagesAt parseCapability 3 fs
  let requires ← stringsAt 4 fs
  return { name, version, provides, requires }

theorem parseManifest_fields (m : ModuleManifest) : parseManifest (manifestFields m) = some m := by
  simp [parseManifest, manifestFields, readMessages parseCapability_fields]

def blobRefFields (b : BlobRef) : List Field :=
  field 1 (str b.digest) ++ field 2 (uint64 b.byteCount) ++ field 3 (str b.space)

def parseBlobRef (fs : List Field) : Option BlobRef := do
  let digest ← strAt 1 fs
  let byteCount ← uint64At 2 fs
  let space ← strAt 3 fs
  return { digest, byteCount, space }

theorem parseBlobRef_fields (b : BlobRef) : parseBlobRef (blobRefFields b) = some b := by
  simp [parseBlobRef, blobRefFields]

def objectRefFields (o : ObjectRef) : List Field :=
  field 1 (str o.digest) ++ field 2 (uint64 o.byteCount) ++ field 3 (str o.space)

def parseObjectRef (fs : List Field) : Option ObjectRef := do
  let digest ← strAt 1 fs
  let byteCount ← uint64At 2 fs
  let space ← strAt 3 fs
  return { digest, byteCount, space }

theorem parseObjectRef_fields (o : ObjectRef) : parseObjectRef (objectRefFields o) = some o := by
  simp [parseObjectRef, objectRefFields]

def traitFields (t : Trait) : List Field :=
  field 1 (byteString t.body) ++ field 2 (optional (nested objectRefFields) t.object)

def parseTrait (fs : List Field) : Option Trait := do
  let body ← readScalar [] readBytes (occurrences 1 fs)
  let object ← messageAt parseObjectRef 2 fs
  return { body, object }

theorem parseTrait_fields (t : Trait) : parseTrait (traitFields t) = some t := by
  simp [parseTrait, traitFields, readMessage parseObjectRef_fields]

def artifactFields (a : Artifact) : List Field :=
  field 1 (str a.id) ++ field 4 (mapEntries str a.info) ++ field 5 (str a.producedBy) ++
    field 8 (mapEntries (scalar {} (nested traitFields)) a.traits) ++ field 9 (str a.entityId) ++
    field 10 (str a.supersedes)

def parseArtifact (fs : List Field) : Option Artifact := do
  let id ← strAt 1 fs
  let info ← readMap (readScalar "" readUtf8) (occurrences 4 fs)
  let producedBy ← strAt 5 fs
  let traits ← readMap (readScalar {} (readNested parseTrait)) (occurrences 8 fs)
  let entityId ← strAt 9 fs
  let supersedes ← strAt 10 fs
  return { id, info, producedBy, traits, entityId, supersedes }

theorem parseArtifact_fields (a : Artifact) : parseArtifact (artifactFields a) = some a := by
  simp [parseArtifact, artifactFields, readMap_mapEntries readStr,
    readMap_mapEntries (readScalar_scalar (readNested_nested parseTrait_fields))]

def artifactRefFields (r : ArtifactRef) : List Field :=
  field 1 (str r.id)

def parseArtifactRef (fs : List Field) : Option ArtifactRef := do
  let id ← strAt 1 fs
  return { id }

theorem parseArtifactRef_fields (r : ArtifactRef) :
    parseArtifactRef (artifactRefFields r) = some r := by
  simp [parseArtifactRef, artifactRefFields]

def contractFields (c : Contract) : List Field :=
  field 1 (str c.ref) ++ field 2 (str c.schema) ++ field 3 (str c.mediaType) ++
    field 4 (str c.version) ++ field 5 (str c.digest) ++ field 6 (strings c.compatibleWith)

def parseContract (fs : List Field) : Option Contract := do
  let ref ← strAt 1 fs
  let schema ← strAt 2 fs
  let mediaType ← strAt 3 fs
  let version ← strAt 4 fs
  let digest ← strAt 5 fs
  let compatibleWith ← stringsAt 6 fs
  return { ref, schema, mediaType, version, digest, compatibleWith }

theorem parseContract_fields (c : Contract) : parseContract (contractFields c) = some c := by
  simp [parseContract, contractFields]

def eventFields (e : Event) : List Field :=
  field 1 (str e.id) ++ field 2 (str e.topic) ++ field 3 (str e.type) ++ field 5 (str e.source) ++
    field 6 (uint64 e.seq) ++ field 7 (str e.runId) ++
    field 8 (e.artifacts.map (nested artifactRefFields))

def parseEvent (fs : List Field) : Option Event := do
  let id ← strAt 1 fs
  let topic ← strAt 2 fs
  let type ← strAt 3 fs
  let source ← strAt 5 fs
  let seq ← uint64At 6 fs
  let runId ← strAt 7 fs
  let artifacts ← messagesAt parseArtifactRef 8 fs
  return { id, topic, type, source, seq, runId, artifacts }

theorem parseEvent_fields (e : Event) : parseEvent (eventFields e) = some e := by
  simp [parseEvent, eventFields, readMessages parseArtifactRef_fields]

def namedArtifactFields (n : NamedArtifact) : List Field :=
  field 1 (str n.name) ++ field 2 (optional (nested artifactRefFields) n.artifact)

def parseNamedArtifact (fs : List Field) : Option NamedArtifact := do
  let name ← strAt 1 fs
  let artifact ← messageAt parseArtifactRef 2 fs
  return { name, artifact }

theorem parseNamedArtifact_fields (n : NamedArtifact) :
    parseNamedArtifact (namedArtifactFields n) = some n := by
  simp [parseNamedArtifact, namedArtifactFields, readMessage parseArtifactRef_fields]

def assemblyNodeFields (n : AssemblyNode) : List Field :=
  field 1 (str n.id) ++ field 2 (str n.module) ++ field 3 (str n.moduleVersion) ++
    field 4 (str n.capability)

def parseAssemblyNode (fs : List Field) : Option AssemblyNode := do
  let id ← strAt 1 fs
  let module ← strAt 2 fs
  let moduleVersion ← strAt 3 fs
  let capability ← strAt 4 fs
  return { id, module, moduleVersion, capability }

theorem parseAssemblyNode_fields (n : AssemblyNode) :
    parseAssemblyNode (assemblyNodeFields n) = some n := by
  simp [parseAssemblyNode, assemblyNodeFields]

def bindingFields (b : Binding) : List Field :=
  field 1 (str b.toNode) ++ field 2 (str b.toPort) ++ field 3 (str b.fromNode) ++
    field 4 (str b.fromPort) ++ field 5 (str b.input)

def parseBinding (fs : List Field) : Option Binding := do
  let toNode ← strAt 1 fs
  let toPort ← strAt 2 fs
  let fromNode ← strAt 3 fs
  let fromPort ← strAt 4 fs
  let input ← strAt 5 fs
  return { toNode, toPort, fromNode, fromPort, input }

theorem parseBinding_fields (b : Binding) : parseBinding (bindingFields b) = some b := by
  simp [parseBinding, bindingFields]

def nodeOutputFields (o : NodeOutput) : List Field :=
  field 1 (str o.node) ++ field 2 (str o.port)

def parseNodeOutput (fs : List Field) : Option NodeOutput := do
  let node ← strAt 1 fs
  let port ← strAt 2 fs
  return { node, port }

theorem parseNodeOutput_fields (o : NodeOutput) :
    parseNodeOutput (nodeOutputFields o) = some o := by
  simp [parseNodeOutput, nodeOutputFields]

def assemblyFields (a : Assembly) : List Field :=
  field 1 (str a.id) ++ field 2 (a.nodes.map (nested assemblyNodeFields)) ++
    field 3 (a.bindings.map (nested bindingFields)) ++
    field 4 (optional (nested nodeOutputFields) a.terminal)

def parseAssembly (fs : List Field) : Option Assembly := do
  let id ← strAt 1 fs
  let nodes ← messagesAt parseAssemblyNode 2 fs
  let bindings ← messagesAt parseBinding 3 fs
  let terminal ← messageAt parseNodeOutput 4 fs
  return { id, nodes, bindings, terminal }

theorem parseAssembly_fields (a : Assembly) : parseAssembly (assemblyFields a) = some a := by
  simp [parseAssembly, assemblyFields, readMessages parseAssemblyNode_fields,
    readMessages parseBinding_fields, readMessage parseNodeOutput_fields]

def policyFields (p : ExecutionPolicy) : List Field :=
  field 1 (int32 p.default) ++ field 2 (mapEntries int32 p.byNode) ++ field 3 (int32 p.closure)

def parsePolicy (fs : List Field) : Option ExecutionPolicy := do
  let default ← int32At 1 fs
  let byNode ← readMap (readScalar 0 (readNumber Int32.ofNat))
    (occurrences 2 fs)
  let closure ← int32At 3 fs
  return { default, byNode, closure }

theorem parsePolicy_fields (p : ExecutionPolicy) : parsePolicy (policyFields p) = some p := by
  simp [parsePolicy, policyFields, readMap_mapEntries readInt32]

def runStateNumber : RunState → Nat
  | .running => 1
  | .completed => 2
  | .stalled => 3
  | .failed => 4
  | .cancelled => 5

def readRunState (values : List Value) : Option RunState :=
  match values.getLast? with
  | some (.varint n) =>
      [.running, .completed, .stalled, .failed, .cancelled].find? (runStateNumber · == n)
  | _ => none

@[simp] theorem readRunState_number (state : RunState) :
    readRunState [.varint (runStateNumber state)] = some state := by
  cases state <;> rfl

def runFields (r : Run) : List Field :=
  field 1 (str r.id) ++ field 2 [nested assemblyFields r.assembly] ++
    field 3 (r.inputs.map (nested namedArtifactFields)) ++
    field 4 [.varint (runStateNumber r.state)] ++
    field 5 (optional (nested artifactRefFields) r.answer) ++ field 6 (uint64 r.steps) ++
    field 7 (uint64 r.maxSteps) ++ field 8 (str r.reason) ++
    field 9 (optional (nested policyFields) r.policy)

def parseRun (fs : List Field) : Option Run := do
  let id ← strAt 1 fs
  let some assembly ← messageAt parseAssembly 2 fs | none
  let inputs ← messagesAt parseNamedArtifact 3 fs
  let state ← readRunState (occurrences 4 fs)
  let answer ← messageAt parseArtifactRef 5 fs
  let steps ← uint64At 6 fs
  let maxSteps ← uint64At 7 fs
  let reason ← strAt 8 fs
  let policy ← messageAt parsePolicy 9 fs
  return { id, assembly, inputs, state, answer, steps, maxSteps, reason, policy }

theorem parseRun_fields (r : Run) : parseRun (runFields r) = some r := by
  have assembly := readMessage parseAssembly_fields (some r.assembly)
  change readOptional (readNested parseAssembly) [nested assemblyFields r.assembly] = _ at assembly
  simp [parseRun, runFields, assembly, readMessages parseNamedArtifact_fields,
    readMessage parseArtifactRef_fields, readMessage parsePolicy_fields]

def workItemFields (w : WorkItem) : List Field :=
  field 1 (str w.id) ++ field 2 (str w.runId) ++ field 3 (str w.nodeId) ++ field 4 (str w.module) ++
    field 5 (str w.moduleVersion) ++ field 6 (str w.capability) ++
    field 7 (w.inputs.map (nested namedArtifactFields)) ++ field 8 (str w.unitKey) ++
    field 9 (uint32 w.attempt) ++ field 10 (int64 w.leaseUntilUnixMs)

def parseWorkItem (fs : List Field) : Option WorkItem := do
  let id ← strAt 1 fs
  let runId ← strAt 2 fs
  let nodeId ← strAt 3 fs
  let module ← strAt 4 fs
  let moduleVersion ← strAt 5 fs
  let capability ← strAt 6 fs
  let inputs ← messagesAt parseNamedArtifact 7 fs
  let unitKey ← strAt 8 fs
  let attempt ← uint32At 9 fs
  let leaseUntilUnixMs ← int64At 10 fs
  return { id, runId, nodeId, module, moduleVersion, capability,
           inputs, unitKey, attempt, leaseUntilUnixMs }

theorem parseWorkItem_fields (w : WorkItem) : parseWorkItem (workItemFields w) = some w := by
  simp [parseWorkItem, workItemFields, readMessages parseNamedArtifact_fields]

def workFailureFields (f : WorkFailure) : List Field :=
  field 1 (str f.runId) ++ field 2 (str f.workId) ++ field 3 (str f.unitKey) ++
    field 4 (str f.reason) ++ field 5 (bool f.terminal) ++ field 6 (uint32 f.attempt)

def parseWorkFailure (fs : List Field) : Option WorkFailure := do
  let runId ← strAt 1 fs
  let workId ← strAt 2 fs
  let unitKey ← strAt 3 fs
  let reason ← strAt 4 fs
  let terminal ← boolAt 5 fs
  let attempt ← uint32At 6 fs
  return { runId, workId, unitKey, reason, terminal, attempt }

theorem parseWorkFailure_fields (f : WorkFailure) :
    parseWorkFailure (workFailureFields f) = some f := by
  simp [parseWorkFailure, workFailureFields]

def derivationFields (d : Derivation) : List Field :=
  field 1 (str d.id) ++ field 2 (str d.runId) ++ field 3 (str d.workId) ++ field 4 (str d.nodeId) ++
    field 5 (str d.module) ++ field 6 (str d.moduleVersion) ++ field 7 (str d.capability) ++
    field 8 (d.inputs.map (nested namedArtifactFields)) ++
    field 9 (d.outputs.map (nested namedArtifactFields))

def parseDerivation (fs : List Field) : Option Derivation := do
  let id ← strAt 1 fs
  let runId ← strAt 2 fs
  let workId ← strAt 3 fs
  let nodeId ← strAt 4 fs
  let module ← strAt 5 fs
  let moduleVersion ← strAt 6 fs
  let capability ← strAt 7 fs
  let inputs ← messagesAt parseNamedArtifact 8 fs
  let outputs ← messagesAt parseNamedArtifact 9 fs
  return { id, runId, workId, nodeId, module, moduleVersion, capability, inputs, outputs }

theorem parseDerivation_fields (d : Derivation) :
    parseDerivation (derivationFields d) = some d := by
  simp [parseDerivation, derivationFields, readMessages parseNamedArtifact_fields]

def messageFields : Message → List Field
  | .moduleManifest m => manifestFields m
  | .contract c => contractFields c
  | .artifact a => artifactFields a
  | .blobRef b => blobRefFields b
  | .event e => eventFields e
  | .run r => runFields r
  | .namedArtifact n => namedArtifactFields n
  | .workItem w => workItemFields w
  | .workFailure f => workFailureFields f
  | .derivation d => derivationFields d

/-- The bytes prost writes for a message. -/
def encode (message : Message) : Bytes := encodeFields (messageFields message)

end Substrate.Kernel.Codec
