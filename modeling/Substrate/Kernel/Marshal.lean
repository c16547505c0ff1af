/- ID: Substrate/Kernel/Marshal
   source: kernel/contracts/proto/srcport/substrate/v1/substrate.proto
   digest: Protobuf as Go and Python write it: every map entry carries its key and its value. -/

import Substrate.Kernel.Concrete
import Substrate.Kernel.Sdks

set_option autoImplicit false
set_option relaxedAutoImplicit false

namespace Substrate.Kernel.Marshal

open Substrate.Kernel.Wire
open Substrate.Kernel.Hashing
open Substrate.Kernel.Codec (str uint64 int32 nested traitFields namedArtifactFields
  artifactRefFields assemblyFields runStateNumber encode)
open Substrate.Kernel.Sdks
open Substrate.Library.Proto3

section Maps

variable {V : Type}

/-- Key and value are written whatever they are. -/
def entryFields (value : V → Value) (e : String × V) : List Field :=
  [(1, .bytes (asBytes e.1)), (2, value e.2)]

def mapEntries (value : V → Value) (m : BTreeMap V) : List Value :=
  m.entries.map (nested (entryFields value))

end Maps

def artifactFields (a : Artifact) : List Field :=
  field 1 (str a.id) ++ field 4 (mapEntries (fun s => .bytes (asBytes s)) a.info) ++
    field 5 (str a.producedBy) ++ field 8 (mapEntries (nested traitFields) a.traits) ++
    field 9 (str a.entityId) ++ field 10 (str a.supersedes)

def policyFields (p : ExecutionPolicy) : List Field :=
  field 1 (int32 p.default) ++
    field 2 (mapEntries (fun n => .varint n.toInt64.toUInt64.toNat) p.byNode) ++
    field 3 (int32 p.closure)

def runFields (r : Run) : List Field :=
  field 1 (str r.id) ++ field 2 [nested assemblyFields r.assembly] ++
    field 3 (r.inputs.map (nested namedArtifactFields)) ++
    field 4 [.varint (runStateNumber r.state)] ++
    field 5 (optional (nested artifactRefFields) r.answer) ++ field 6 (uint64 r.steps) ++
    field 7 (uint64 r.maxSteps) ++ field 8 (str r.reason) ++
    field 9 (optional (nested policyFields) r.policy)

/-- Only the two messages that hold a map differ from what prost writes. -/
def marshal : Message → Bytes
  | .artifact a => encodeFields (artifactFields a)
  | .run r => encodeFields (runFields r)
  | m => encode m

open Substrate.Kernel.Concrete in
scoped instance encodings : Encodings where
  marshalCanonical := marshal
  canonical := marshal
  marshalCanonical_mapFree m free := by cases m <;> first | rfl | cases free
  canonical_mapFree m free := by cases m <;> first | rfl | cases free

end Substrate.Kernel.Marshal
