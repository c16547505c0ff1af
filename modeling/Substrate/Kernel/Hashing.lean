/- ID: Substrate/Kernel/Hashing
   source: kernel/sdk/rust/src/lib.rs
   digest: Content addresses of blobs, artifacts and contracts, and the hash-chained ledger. -/

import Mathlib.Data.List.Sort
import Substrate.Kernel.Wire
import Substrate.Library.Framing

set_option autoImplicit false
set_option relaxedAutoImplicit false

namespace Substrate.Kernel.Hashing

open Substrate.Kernel.Wire
open Substrate.Library.Framing (beBytes)

/-- The `sha2` crate: some function from byte strings to 32-byte digests. -/
class Sha256 where
  digest : Bytes → Vector UInt8 32

def sep : UInt8 := 0x00

def asBytes (s : String) : Bytes := s.toUTF8.data.toList

def hexDigit (n : Nat) : Char := "0123456789abcdef".toList.getD n '0'

def hex (bytes : Bytes) : String :=
  String.ofList (bytes.flatMap fun b : UInt8 =>
    [hexDigit (b >>> 4).toNat, hexDigit (b &&& 0x0f).toNat])

/-- `uint64_be`. -/
def toBeBytes (n : UInt64) : Bytes := beBytes 8 n.toNat

variable [Sha256]

def sha256Hex (bytes : Bytes) : String := hex (Sha256.digest bytes).toList

/-- `"sha256:" + hex(sha256(data))`. -/
def blobId (data : Bytes) : String := "sha256:" ++ sha256Hex data

omit [Sha256] in
/-- `digest ‖ 0x00 ‖ uint64_be(byte_count) ‖ 0x00 ‖ namespace`. -/
def objectRefBytes (object : ObjectRef) : Bytes :=
  asBytes object.digest ++ sep :: (toBeBytes object.byteCount ++ sep :: asBytes object.space)

omit [Sha256] in
/-- The verified external reference of a trait: an object whose digest is set. -/
def traitExternal (tr : Trait) : Option ObjectRef := tr.object.filter (·.digest ≠ "")

omit [Sha256] in
def traitHasExternal (tr : Trait) : Bool := (traitExternal tr).isSome

omit [Sha256] in
/-- Bytes folded into value identity for one trait. -/
def traitContent (tr : Trait) : Bytes :=
  match traitExternal tr with
  | some object => objectRefBytes object
  | none => tr.body

omit [Sha256] in
/-- For each contract ref in UTF-8 ascending order: `contract_ref ‖ 0x00 ‖ trait_content ‖ 0x00`.
The map already lists its keys in that order, so the sort of the source is the identity. -/
def artifactCanonicalBytes (artifact : Artifact) : Bytes :=
  artifact.traits.entries.flatMap fun (k, f) =>
    asBytes k ++ [sep] ++ traitContent f ++ [sep]

def artifactIdOf (artifact : Artifact) : String :=
  "sha256:" ++ sha256Hex (artifactCanonicalBytes artifact)

omit [Sha256] in
def hasTraits (artifact : Artifact) (required : List String) : Bool :=
  required.all fun r => artifact.traits.containsKey r

omit [Sha256] in
/-- `have ⊇ need` on contract refs. -/
def traitSetCovers (available need : List String) : Bool :=
  need.all fun n => available.any fun h => h == n

def contractDigest (mediaType schema version : String) (compatibleWith : List String) : String :=
  "sha256:" ++ sha256Hex
    (asBytes mediaType ++ [sep] ++ asBytes schema ++ [sep] ++ asBytes version ++ [sep] ++
      compatibleWith.flatMap fun c => asBytes c ++ [sep])

omit [Sha256] in
/-- `Vec<String>::sort`: ascending as raw UTF-8. -/
def sortStrings (l : List String) : List String := l.insertionSort (· ≤ ·)

def contractDigestOf (c : Contract) : String :=
  contractDigest c.mediaType c.schema c.version (sortStrings c.compatibleWith)

omit [Sha256] in
/-- A name-only stub created by `register`. -/
def isContractPlaceholder (c : Contract) : Bool :=
  c.mediaType == "" && c.schema == "" && c.version == "" && c.compatibleWith == []

omit [Sha256] in
/-- The bytes hashed for one ledger entry. -/
def ledgerBytes (seq : UInt64) (kind subject : String) (detail : Bytes) (prevHash : String) :
    Bytes :=
  toBeBytes seq ++ sep :: (asBytes kind ++ sep :: (asBytes subject ++ sep ::
    (detail ++ sep :: asBytes prevHash)))

def ledgerHash (seq : UInt64) (kind subject : String) (detail : Bytes) (prevHash : String) :
    String :=
  sha256Hex (ledgerBytes seq kind subject detail prevHash)

/-- The loop of `verify_chain` from position `i` after an entry whose hash is `prev`. -/
def verifyFrom (i : Nat) (prev : String) : List LedgerEntry → Bool
  | [] => true
  | e :: rest =>
      if e.seq ≠ UInt64.ofNat i ∨ e.prevHash ≠ prev then false
      else if ledgerHash e.seq e.kind e.subject e.detail e.prevHash ≠ e.hash then false
      else verifyFrom (i + 1) e.hash rest

def verifyChain (entries : List LedgerEntry) : Bool := verifyFrom 0 "" entries

/-- The hash the next entry links to; genesis links to `""`. -/
def headHash (entries : List LedgerEntry) : String := (entries.getLast?.map (·.hash)).getD ""

end Substrate.Kernel.Hashing
