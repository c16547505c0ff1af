/- ID: Substrate/Kernel/Memory
   source: kernel/sdk/rust/src/lib.rs
   digest: Everything the kernel owns behind its lock, and the helpers every call shares. -/

import Substrate.Kernel.Hashing

set_option autoImplicit false
set_option relaxedAutoImplicit false

namespace Substrate.Kernel.Memory

open Substrate.Kernel.Wire
open Substrate.Kernel.Hashing
open Substrate.Library.FiniteMap (KeyMap)

inductive KernelError
  | notFound (id : String)
  | invalid (reason : String)
  | conflict (reason : String)
  | runClosed (state : RunState)
  | failedPrecondition (reason : String)
  | blobIntegrity (reason : String)
  | resourceExhausted (reason : String)
  deriving DecidableEq

/-- What one call reads from outside: the clock, once at entry and once under the lock, and the
order in which a hash map hands out its keys. -/
structure Env where
  entryClock : Int64
  now : Int64
  iter : List String → List String
  iter_perm : ∀ keys, (iter keys).Perm keys

structure ModuleSlot where
  manifest : ModuleManifest
  lifecycle : Lifecycle
  deriving DecidableEq

/-- In-flight leased claim. -/
structure ClaimedSlot where
  work : WorkItem
  unitKey : String
  leaseUntilMs : Int64
  attempt : UInt32
  deriving DecidableEq

structure RunSlot where
  run : Run
  /-- In-flight leased work, keyed by `WorkItem.id`. -/
  claimed : KeyMap String ClaimedSlot
  /-- Latest committed derivation per assembly node. -/
  latest : KeyMap String Derivation
  /-- Work-unit keys that are terminally DONE. -/
  doneUnits : Finset String
  /-- How many times each unit key has been claimed. -/
  claimAttempts : KeyMap String UInt32
  /-- Delivery generation per named run input. -/
  inputEpochs : KeyMap String UInt64
  /-- Commit count per node. -/
  nodeCommits : KeyMap String UInt64
  maxInFlight : UInt64
  defaultLeaseMs : UInt64
  maxAttempts : UInt32

structure BlobSlot where
  data : Bytes
  ref : BlobRef
  deriving DecidableEq

inductive IdempotentResult
  | artifactRef (r : ArtifactRef)
  | run (r : Run)
  deriving DecidableEq

/-- Live subscriptions are left out: no call below reads them back. -/
structure State where
  modules : List ModuleSlot := []
  capabilities : List Capability := []
  contracts : KeyMap String Contract := ∅
  artifacts : KeyMap String Artifact := ∅
  /-- Keyed by `(namespace, digest)`. -/
  blobs : KeyMap (String × String) BlobSlot := ∅
  ledger : List LedgerEntry := []
  runs : KeyMap String RunSlot := ∅
  derivations : List Derivation := []
  eventSeq : UInt64 := 0
  idempotency : KeyMap String IdempotentResult := ∅

/-- The `?` operator: a failed check returns with the state as it stands. -/
def orReturn {α β : Type} (checked : Except KernelError α) (state : State)
    (next : α → State × Except KernelError β) : State × Except KernelError β :=
  match checked with
  | .ok a => next a
  | .error e => (state, .error e)

section Ledger

variable [Sha256]

/-- The entry that extends `ledger` by `(kind, subject, detail)`. -/
def nextEntry (ledger : List LedgerEntry) (kind subject : String) (detail : Bytes) : LedgerEntry :=
  let seq := UInt64.ofNat ledger.length
  let prevHash := headHash ledger
  { seq, kind, subject, detail, prevHash, hash := ledgerHash seq kind subject detail prevHash }

/-- The only way entries are ever created. -/
def appendLocked (state : State) (kind subject : String) (detail : Bytes) : State :=
  { state with ledger := state.ledger ++ [nextEntry state.ledger kind subject detail] }

end Ledger

/-- Reject calls whose absolute deadline has already passed. -/
def checkDeadline (env : Env) (ctx : RequestContext) : Except KernelError Unit :=
  if ctx.deadlineUnixMs ≤ 0 then .ok ()
  else if ctx.deadlineUnixMs < env.entryClock then
    .error (.failedPrecondition "deadline exceeded")
  else .ok ()

def idempotencyKey (op : String) (ctx : RequestContext) : Option String :=
  if ctx.requestKey = "" then none
  else some (op ++ "\x00" ++ ctx.caller ++ "\x00" ++ ctx.requestKey)

def idempotentGet (state : State) (op : String) (ctx : RequestContext) :
    Option IdempotentResult :=
  (idempotencyKey op ctx).bind fun key => state.idempotency.lookup key

/-- The first successful response under a key stays. -/
def idempotentPut (state : State) (op : String) (ctx : RequestContext)
    (value : IdempotentResult) : State :=
  match idempotencyKey op ctx with
  | none => state
  | some key =>
      if key ∈ state.idempotency then state
      else { state with idempotency := state.idempotency.insert key value }

/-- Remembering a response touches the cache alone. -/
theorem idempotentPut_eq (state : State) (op : String) (ctx : RequestContext)
    (value : IdempotentResult) :
    ∃ cache, idempotentPut state op ctx value = { state with idempotency := cache } := by
  unfold idempotentPut
  split
  · exact ⟨state.idempotency, rfl⟩
  · split_ifs
    · exact ⟨state.idempotency, rfl⟩
    · exact ⟨_, rfl⟩

@[simp] theorem idempotentPut_runs (state : State) (op : String) (ctx : RequestContext)
    (value : IdempotentResult) : (idempotentPut state op ctx value).runs = state.runs := by
  obtain ⟨cache, same⟩ := idempotentPut_eq state op ctx value
  rw [same]

@[simp] theorem idempotentPut_artifacts (state : State) (op : String) (ctx : RequestContext)
    (value : IdempotentResult) : (idempotentPut state op ctx value).artifacts = state.artifacts := by
  obtain ⟨cache, same⟩ := idempotentPut_eq state op ctx value
  rw [same]

@[simp] theorem idempotentPut_blobs (state : State) (op : String) (ctx : RequestContext)
    (value : IdempotentResult) : (idempotentPut state op ctx value).blobs = state.blobs := by
  obtain ⟨cache, same⟩ := idempotentPut_eq state op ctx value
  rw [same]

/-- `i64::saturating_add`. -/
def saturatingAdd (a b : Int64) : Int64 :=
  let sum := a.toInt + b.toInt
  if sum > Int64.maxValue.toInt then Int64.maxValue
  else if sum < Int64.minValue.toInt then Int64.minValue
  else Int64.ofInt sum

end Substrate.Kernel.Memory
