/- ID: Substrate/Protocol/Mirrors
   digest: A run's slot beside its dictionary in Python, and reaping whatever the order of the claims. -/

import Substrate.Kernel.Go
import Substrate.Kernel.Python
import Substrate.Protocol.Slots

set_option autoImplicit false
set_option relaxedAutoImplicit false

namespace Substrate.Protocol.Mirrors

open Substrate.Kernel
open Substrate.Kernel.Wire
open Substrate.Kernel.Hashing (Sha256)
open Substrate.Kernel.Memory
open Substrate.Kernel.Runs
open Substrate.Kernel.Work
open Substrate.Kernel.Sdks
open Substrate.Protocol.Slots
open Substrate.Library.FiniteMap

def widenClaim (c : ClaimedSlot) : Python.ClaimedSlot :=
  { work := c.work, unitKey := c.unitKey, leaseUntilMs := c.leaseUntilMs.toInt, attempt := c.attempt }

/-- The dictionary that holds what the slot holds. -/
def widenSlot (slot : RunSlot) : Python.RunSlot :=
  { run := slot.run
    claimed := mapValues widenClaim slot.claimed
    latest := slot.latest
    doneUnits := slot.doneUnits
    claimAttempts := slot.claimAttempts
    inputEpochs := mapValues UInt64.toNat slot.inputEpochs
    nodeCommits := mapValues UInt64.toNat slot.nodeCommits
    maxInFlight := slot.maxInFlight
    defaultLeaseMs := slot.defaultLeaseMs
    maxAttempts := slot.maxAttempts }

/-- The Python kernel that holds what the state holds. -/
def widen (state : State) : Python.MemoryKernel :=
  { modules := state.modules
    artifacts := state.artifacts
    ledger := state.ledger
    runs := mapValues widenSlot state.runs
    derivations := state.derivations
    idempotency := state.idempotency }

/-- A result up to the text of its error. -/
def answer {α : Type} (result : Except KernelError α) : Except (Option ErrorClass) α :=
  result.mapError fun e => some (classOf e)

/-- An exception that is none of the kernel's own has no class. -/
def classOfRaised : Python.Raised → Option ErrorClass
  | .kernel e => some (classOf e)
  | _ => none

def pythonAnswer {α : Type} (result : Except Python.Raised α) : Except (Option ErrorClass) α :=
  result.mapError classOfRaised

@[simp] theorem answer_ok {α : Type} (a : α) : answer (.ok a) = .ok a := rfl

@[simp] theorem answer_error {α : Type} (e : KernelError) :
    @answer α (.error e) = .error (some (classOf e)) := rfl

@[simp] theorem pythonAnswer_ok {α : Type} (a : α) : pythonAnswer (.ok a) = .ok a := rfl

@[simp] theorem pythonAnswer_error {α : Type} (e : Python.Raised) :
    @pythonAnswer α (.error e) = .error (classOfRaised e) := rfl

/-- A call gives the same answer in the three kernels and leaves the same slots. -/
structure SameOutcome {α : Type} (rust go : State × Except KernelError α)
    (python : Python.MemoryKernel × Except Python.Raised α) : Prop where
  go_answer : answer go.2 = answer rust.2
  python_answer : pythonAnswer python.2 = answer rust.2
  go_runs : go.1.runs = rust.1.runs
  python_runs : python.1.runs = mapValues widenSlot rust.1.runs

theorem runningSlot_widen (state : State) (runId : String) :
    Python.runningSlot (widen state) runId =
      ((runningSlot state runId).map widenSlot).mapError Python.Raised.kernel := by
  rw [Python.runningSlot, runningSlot, widen, lookup_mapValues]
  cases state.runs.lookup runId with
  | none => rfl
  | some slot =>
      simp only [Option.map_some, widenSlot]
      split_ifs <;> rfl

theorem runningSlot_ok {state : State} {runId : String} {slot : RunSlot}
    (taken : runningSlot state runId = .ok slot) :
    state.runs.lookup runId = some slot ∧ slot.run.state = .running := by
  rw [runningSlot] at taken
  split at taken
  · cases taken
  · split_ifs at taken with running
    cases taken
    exact ⟨‹_›, running⟩

/-- The expired claims as the map stores them. -/
def expiring (now : Int64) (slot : RunSlot) : List (String × ClaimedSlot) :=
  (slot.claimed.entries.filter fun e => leaseExpired now e.2).map fun e => (e.1, e.2)

/-- No two claims have expired. -/
def LoneExpiry (now : Int64) (slot : RunSlot) : Prop :=
  ∀ id id' c c', slot.claimed.lookup id = some c → slot.claimed.lookup id' = some c' →
    leaseExpired now c → leaseExpired now c' → id = id'

theorem mem_expiring {now : Int64} {slot : RunSlot} {e : String × ClaimedSlot} :
    e ∈ expiring now slot ↔ slot.claimed.lookup e.1 = some e.2 ∧ leaseExpired now e.2 := by
  simp only [expiring, List.mem_map, List.mem_filter, lookup_eq_some_iff]
  constructor
  · rintro ⟨entry, ⟨member, expired⟩, rfl⟩
    exact ⟨member, expired⟩
  · rintro ⟨member, expired⟩
    exact ⟨⟨e.1, e.2⟩, ⟨member, expired⟩, rfl⟩

theorem expiring_keys_nodup (now : Int64) (slot : RunSlot) :
    ((expiring now slot).map (·.1)).Nodup := by
  have keys := slot.claimed.nodupKeys
  rw [expiring, List.map_map]
  exact List.Nodup.sublist (List.filter_sublist.map _) keys

/-- Whatever the order of the keys, the same claims are found. -/
theorem expiredClaims_perm (env : Env) (slot : RunSlot) :
    (expiredClaims env slot).Perm (expiring env.now slot) := by
  refine ((env.iter_perm slot.claimed.keys).filterMap _).trans (List.Perm.of_eq ?_)
  have found : ∀ e ∈ slot.claimed.entries, slot.claimed.lookup e.1 = some e.2 := fun e member =>
    (lookup_eq_some_iff _ _ _).mpr member
  rw [expiring, AList.keys, List.keys, List.filterMap_map]
  revert found
  generalize slot.claimed.entries = l
  intro found
  induction l with
  | nil => rfl
  | cons e l ih =>
      have rest := ih fun x member => found x (List.mem_cons_of_mem e member)
      have here := found e List.mem_cons_self
      rw [List.filterMap_cons, Function.comp_apply, here]
      cases expired : leaseExpired env.now e.2 with
      | true =>
          simp only [Option.filter_some, List.filter_cons, expired, if_true, List.map_cons, rest,
            Option.map_some]
      | false =>
          simp only [Option.filter_some, List.filter_cons, expired, Bool.false_eq_true, if_false, rest,
            Option.map_none]

theorem expired_widen (now : Int64) (c : ClaimedSlot) :
    (0 < (widenClaim c).leaseUntilMs && (widenClaim c).leaseUntilMs ≤ now.toInt) =
      leaseExpired now c := by
  rw [leaseExpired, widenClaim]
  simp only [Int64.lt_iff_toInt_lt, Int64.le_iff_toInt_le, Int64.toInt_zero]

theorem expiredClaims_widen (now : Int64) (slot : RunSlot) :
    Python.expiredClaims now (widenSlot slot) =
      (expiring now slot).reverse.map fun e => (e.1, widenClaim e.2) := by
  simp only [Python.expiredClaims, Python.items, widenSlot, mapValues, expiring, ← List.map_reverse,
    List.filter_map, List.map_map, List.filter_reverse]
  refine congrArg (fun l => List.map _ (List.reverse l)) ?_
  exact List.filter_congr fun (e : Sigma fun _ => ClaimedSlot) _ => expired_widen now e.2

private theorem expireClaim_comm (slot : RunSlot) (a b : String × ClaimedSlot) :
    expireClaim (expireClaim slot a) b = expireClaim (expireClaim slot b) a := by
  simp only [expireClaim, RunSlot.mk.injEq, true_and, and_true]
  refine ⟨AList.erase_erase a.1 b.1 slot.claimed, ?_⟩
  by_cases ha : slot.maxAttempts ≤ a.2.attempt <;> by_cases hb : slot.maxAttempts ≤ b.2.attempt
  · simp only [ha, hb, if_true]
    exact Finset.insert_comm _ _ _
  all_goals simp only [ha, hb, if_true, if_false]

theorem reapSlot_eq (env : Env) (slot : RunSlot) :
    reapSlot env slot = (expiring env.now slot).foldl expireClaim slot :=
  (expiredClaims_perm env slot).foldl_eq' (fun a _ b _ s => expireClaim_comm s a b) slot

theorem reapSlot_iter {env env' : Env} (clock : env.now = env'.now) (slot : RunSlot) :
    reapSlot env slot = reapSlot env' slot := by
  rw [reapSlot_eq, reapSlot_eq, clock]

private theorem expireClaim_widen (slot : RunSlot) (e : String × ClaimedSlot) :
    Python.expireClaim (widenSlot slot) (e.1, widenClaim e.2) = widenSlot (expireClaim slot e) := by
  simp only [Python.expireClaim, expireClaim, widenSlot, erase_mapValues]
  rfl

private theorem foldl_expireClaim_widen (l : List (String × ClaimedSlot)) (slot : RunSlot) :
    (l.map fun e => (e.1, widenClaim e.2)).foldl Python.expireClaim (widenSlot slot) =
      widenSlot (l.foldl expireClaim slot) := by
  induction l generalizing slot with
  | nil => rfl
  | cons e l ih => rw [List.map_cons, List.foldl_cons, List.foldl_cons, expireClaim_widen, ih]

theorem reapSlot_widen (env : Env) (slot : RunSlot) :
    Python.reapSlot env.now (widenSlot slot) = widenSlot (reapSlot env slot) := by
  rw [Python.reapSlot, expiredClaims_widen, foldl_expireClaim_widen, reapSlot_eq]
  exact congrArg widenSlot
    ((List.reverse_perm _).foldl_eq' (fun a _ b _ s => expireClaim_comm s a b) slot)

/-- The events of one expired claim. -/
def expiryOf (runId : String) (slot : RunSlot) (e : String × ClaimedSlot) : List LedgerEvent :=
  expiryEvents runId slot.maxAttempts e.1 e.2.unitKey e.2.work e.2.attempt

theorem expiryEvents_mapFree {runId : String} {slot : RunSlot} {e : String × ClaimedSlot} :
    ∀ event ∈ expiryOf runId slot e, mapFree event.2.2 := by
  rw [expiryOf, expiryEvents]
  split_ifs <;> simp [mapFree]

variable [Prost]

theorem expiryRecords_eq (runId : String) (slot : RunSlot) (e : String × ClaimedSlot) :
    expiryRecords runId slot.maxAttempts e = (expiryOf runId slot e).map (detailed encodeToVec) := by
  rw [expiryRecords, expiryOf, expiryEvents]
  split_ifs <;> rfl

theorem detailed_mapFree [Encodings] {events : List LedgerEvent}
    (free : ∀ event ∈ events, mapFree event.2.2) :
    events.map (detailed marshalCanonical) = events.map (detailed encodeToVec) ∧
      events.map (detailed canonical) = events.map (detailed encodeToVec) := by
  constructor
  · refine List.map_congr_left fun event member => ?_
    rw [detailed, Encodings.marshalCanonical_mapFree _ (free event member), detailed]
  · refine List.map_congr_left fun event member => ?_
    rw [detailed, Encodings.canonical_mapFree _ (free event member), detailed]

variable [Sha256] [Encodings]

theorem goRecord_eq (state : State) (runId : String) (slot : RunSlot) (events : List LedgerEvent) :
    Go.record state runId slot events =
      { state with
        runs := state.runs.replace runId slot
        ledger := extend state.ledger (events.map (detailed marshalCanonical)) } :=
  record_eq state runId slot _

omit [Prost] [Encodings] in
private theorem foldl_append (records : List Record) (k : Python.MemoryKernel) :
    records.foldl (fun k r => Python.append k r.1 r.2.1 r.2.2) k =
      { k with ledger := extend k.ledger records } := by
  induction records generalizing k with
  | nil => rfl
  | cons r records ih =>
      rw [List.foldl_cons, ih]
      rfl

theorem pythonRecord_eq (k : Python.MemoryKernel) (runId : String) (slot : Python.RunSlot)
    (events : List LedgerEvent) :
    Python.record k runId slot events =
      { k with
        runs := k.runs.replace runId slot
        ledger := extend k.ledger (events.map (detailed canonical)) } :=
  foldl_append _ _

end Substrate.Protocol.Mirrors
