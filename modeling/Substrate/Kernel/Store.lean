/- ID: Substrate/Kernel/Store
   source: kernel/sdk/rust/src/lib.rs
   digest: The store policy, content-addressed artifacts and blobs. -/

import Substrate.Kernel.Memory

set_option autoImplicit false
set_option relaxedAutoImplicit false

namespace Substrate.Kernel.Store

open Substrate.Kernel.Wire
open Substrate.Kernel.Hashing
open Substrate.Kernel.Memory

/-- 1 MiB. -/
def maxInlineArtifactBytes : UInt64 := 1048576

/-- `BlobIngestMode` and `StoreDurability` values on the wire. -/
def copyVerify : Int32 := 1
def ephemeral : Int32 := 1
def durable : Int32 := 2

/-- Fill defaults. The one declared ingest mode besides the zero value is `COPY_VERIFY` and an
undeclared value reads as the zero value, so no wire value is refused. -/
def normalizeStorePolicy (policy : ArtifactStorePolicy) : ArtifactStorePolicy :=
  { maxInlineBytes :=
      if policy.maxInlineBytes = 0 then maxInlineArtifactBytes else policy.maxInlineBytes
    maxBlobBytes := policy.maxBlobBytes
    ingestMode := copyVerify
    durability :=
      if policy.durability = ephemeral ∨ policy.durability = durable then policy.durability
      else ephemeral }

def isSha256Digest (d : String) : Bool :=
  let bytes := asBytes d
  bytes.length == 71 && (asBytes "sha256:").isPrefixOf bytes &&
    (bytes.drop 7).all fun c => (48 ≤ c && c ≤ 57) || (97 ≤ c && c ≤ 102)

def enforceBlobSize (policy : ArtifactStorePolicy) (len : Nat) : Except KernelError Unit :=
  if policy.maxBlobBytes > 0 ∧ policy.maxBlobBytes < UInt64.ofNat len then
    .error (.resourceExhausted
      ("blob size " ++ toString len ++ " exceeds max_blob_bytes " ++ toString policy.maxBlobBytes))
  else .ok ()

/-- The checks of `validate_artifact_content` on one entry of the bag. -/
def validateTrait (policy : ArtifactStorePolicy) (contract : String) (tr : Trait) :
    Except KernelError Unit :=
  let hasObj := traitHasExternal tr
  let hasBody := tr.body ≠ []
  if contract = "" then .error (.invalid "trait contract ref must be non-empty")
  else if hasObj ∧ hasBody then
    .error (.invalid ("trait " ++ contract ++ " must not set both body and object"))
  else if hasBody ∧ policy.maxInlineBytes < UInt64.ofNat tr.body.length then
    .error (.resourceExhausted
      ("trait " ++ contract ++ ": body size " ++ toString tr.body.length ++
        " exceeds max_inline_bytes " ++ toString policy.maxInlineBytes))
  else
    match tr.object with
    | none => .ok ()
    | some obj =>
        if obj.digest = "" ∧ (obj.byteCount ≠ 0 ∨ obj.space ≠ "") then
          .error (.invalid ("trait " ++ contract ++ ": object.digest is required when object is set"))
        else if hasObj ∧ ¬ isSha256Digest obj.digest then
          .error (.invalid ("trait " ++ contract ++ ": object.digest must be sha256:<hex>"))
        else .ok ()

def validateArtifactContent (artifact : Artifact) (policy : ArtifactStorePolicy) :
    Except KernelError Unit :=
  if artifact.traits.entries = [] then .error (.invalid "artifact must have at least one trait")
  else artifact.traits.entries.forM fun (contract, tr) => validateTrait policy contract tr

variable [Sha256]

/-- Rust's `{:?}` of a character in a string. Of the characters that are not printed, those from U+00A0
on are taken as they are. -/
def debugChar (c : Char) : List Char :=
  if c = '"' then ['\\', '"'] else if c = '\\' then ['\\', '\\']
  else if c = '\n' then ['\\', 'n'] else if c = '\r' then ['\\', 'r']
  else if c = '\t' then ['\\', 't'] else if c = '\x00' then ['\\', '0']
  else if c.toNat < 0x20 ∨ 0x7f ≤ c.toNat ∧ c.toNat < 0xa0 then
    ['\\', 'u', '\x7b'] ++ Nat.toDigits 16 c.toNat ++ ['\x7d']
  else [c]

/-- Rust's `{:?}` of a string: quotes, and a backslash before what would end or break it. -/
def debugString (s : String) : String := "\"" ++ String.ofList (s.toList.flatMap debugChar) ++ "\""

def debugStrings (l : List String) : String :=
  "[" ++ String.intercalate ", " (l.map debugString) ++ "]"

def verifyObjectRefLocked (state : State) (object : ObjectRef) : Except KernelError Unit :=
  match state.blobs.lookup (object.space, object.digest) with
  | none => .error (.notFound
      ("blob " ++ object.digest ++ " (namespace " ++ debugString object.space ++ ")"))
  | some slot =>
      if slot.ref.byteCount ≠ object.byteCount then
        .error (.blobIntegrity ("object.byte_count " ++ toString object.byteCount ++
          " != stored " ++ toString slot.ref.byteCount))
      else if blobId slot.data ≠ object.digest ∨
          UInt64.ofNat slot.data.length ≠ object.byteCount then
        .error (.blobIntegrity "blob does not match object ref")
      else .ok ()

omit [Sha256] in
/-- The artifact as its ledger detail carries it: bodies of external traits are cleared. -/
def clearExternalBodies (artifact : Artifact) : Artifact :=
  { artifact with traits :=
    { entries := artifact.traits.entries.map fun (k, f) =>
        (k, if traitHasExternal f then { f with body := [] } else f)
      ascending := by
        rw [List.pairwise_map]
        exact artifact.traits.ascending } }

/-- Content-addresses the bag and stores it; only the first writer of an id sets the bytes. -/
def putArtifactCtx [Prost] (policy : ArtifactStorePolicy) (env : Env) (artifact : Artifact)
    (ctx : RequestContext) (state : State) : State × Except KernelError ArtifactRef :=
  orReturn (checkDeadline env ctx) state fun _ =>
  orReturn (validateArtifactContent artifact policy) state fun _ =>
  match idempotentGet state "put_artifact" ctx with
  | some (.artifactRef r) => (state, .ok r)
  | _ =>
      orReturn (artifact.traits.entries.forM fun (_, tr) =>
        match traitExternal tr with
        | some object => verifyObjectRefLocked state object
        | none => .ok ()) state fun _ =>
      let id := artifactIdOf artifact
      let artifact := { artifact with id }
      let state :=
        if id ∈ state.artifacts then state
        else appendLocked { state with artifacts := state.artifacts.insert id artifact }
          "artifact.put" id (encodeToVec (.artifact (clearExternalBodies artifact)))
      (idempotentPut state "put_artifact" ctx (.artifactRef ⟨id⟩), .ok ⟨id⟩)

omit [Sha256] in
def getArtifact (ref : ArtifactRef) (state : State) : Except KernelError Artifact :=
  match state.artifacts.lookup ref.id with
  | some artifact => .ok artifact
  | none => .error (.notFound ref.id)

/-- Copies raw bytes under `(namespace, digest)`; first write wins. -/
def putBlob [Prost] (policy : ArtifactStorePolicy) (req : PutBlobRequest) (state : State) :
    State × Except KernelError BlobRef :=
  orReturn (enforceBlobSize policy req.data.length) state fun _ =>
  if policy.ingestMode ≠ copyVerify then
    (state, .error (.invalid "unsupported BlobIngestMode (only COPY_VERIFY)")) else
  let digest := blobId req.data
  let ref : BlobRef :=
    { digest, byteCount := UInt64.ofNat req.data.length, space := req.space }
  if (req.space, digest) ∈ state.blobs then (state, .ok ref)
  else
    (appendLocked
      { state with blobs := state.blobs.insert (req.space, digest) { data := req.data, ref } }
      "blob.put" digest (encodeToVec (.blobRef ref)), .ok ref)

def getBlob (req : GetBlobRequest) (state : State) : Except KernelError BlobData :=
  match state.blobs.lookup (req.space, req.digest) with
  | none => .error (.notFound ("blob " ++ req.digest))
  | some slot =>
      if blobId slot.data ≠ slot.ref.digest ∨
          UInt64.ofNat slot.data.length ≠ slot.ref.byteCount then
        .error (.blobIntegrity "stored blob corrupted")
      else .ok { digest := slot.ref.digest, byteCount := slot.ref.byteCount,
                 space := slot.ref.space, data := slot.data }

omit [Sha256] in
def hasBlob (req : GetBlobRequest) (state : State) : HasBlobResponse :=
  match state.blobs.lookup (req.space, req.digest) with
  | some slot => { present := true, byteCount := slot.ref.byteCount }
  | none => { present := false, byteCount := 0 }

end Substrate.Kernel.Store
