/- ID: Substrate/Framework/Memo
   source: framework/sdk/rust/src/memo.rs
   digest: Memo plans, the key of a work unit and the records kept under it. -/

import Mathlib.Data.String.Basic
import Substrate.Kernel.Hashing

set_option autoImplicit false
set_option relaxedAutoImplicit false

namespace Substrate.Framework.Memo

open Substrate.Kernel.Wire
open Substrate.Kernel.Hashing
open Substrate.Library.FiniteMap (KeyMap OrderedMap)

structure MemoRecord where
  key : String
  module : String
  moduleVersion : String
  moduleDigest : String
  capability : String
  nodeId : String
  inputs : BTreeMap String
  outputs : BTreeMap String
  sourceRunId : String
  sourceWorkId : String
  deriving DecidableEq

inductive MemoNodes
  | all
  | only (ids : List String)
  | except (ids : List String)
  deriving DecidableEq

def MemoNodes.allows (nodes : MemoNodes) (nodeId : String) : Bool :=
  match nodes with
  | .all => true
  | .only ids => ids.any (· == nodeId)
  | .except ids => !ids.any (· == nodeId)

/-- `require_digest` changes nothing: a node without a digest always misses. -/
structure MemoPlan where
  enabled : Bool := false
  requireDigest : Bool := false
  nodes : MemoNodes := .all
  deriving DecidableEq

/-- Port → artifact id; the last artifact of a port is the one that stays. -/
def idsByPort (named : List NamedArtifact) : BTreeMap String :=
  named.foldl (fun ids na =>
    match na.artifact with
    | some r => if na.name ≠ "" ∧ r.id ≠ "" then ids.insert na.name r.id else ids
    | none => ids) .empty

def inputFingerprintMap (work : WorkItem) : BTreeMap String := idsByPort work.inputs

def memoKeyBytes (module moduleVersion moduleDigest capability : String)
    (inputs : BTreeMap String) : Bytes :=
  [module, moduleVersion, moduleDigest, capability].flatMap (fun value => asBytes value ++ [sep]) ++
    inputs.entries.flatMap fun (port, id) => asBytes port ++ [sep] ++ asBytes id ++ [sep]

def memoKey [Sha256] (module moduleVersion moduleDigest capability : String)
    (inputs : BTreeMap String) : String :=
  "sha256:" ++ sha256Hex (memoKeyBytes module moduleVersion moduleDigest capability inputs)

def recordToNamedOutputs (record : MemoRecord) : List NamedArtifact :=
  record.outputs.entries.map fun (port, id) => { name := port, artifact := some ⟨id⟩ }

def buildRecord (key : String) (work : WorkItem) (moduleDigest : String)
    (outputs : List NamedArtifact) (runId : String) : MemoRecord :=
  { key, module := work.module, moduleVersion := work.moduleVersion, moduleDigest
    capability := work.capability, nodeId := work.nodeId, inputs := inputFingerprintMap work
    outputs := idsByPort outputs, sourceRunId := runId, sourceWorkId := work.id }

/-- The process-local store: records by key. -/
abbrev MemoryMemo := KeyMap String MemoRecord

def MemoryMemo.put (record : MemoRecord) (store : MemoryMemo) : MemoryMemo :=
  store.insert record.key record

end Substrate.Framework.Memo
