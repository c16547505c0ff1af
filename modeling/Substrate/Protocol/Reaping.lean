/- ID: Substrate/Protocol/Reaping
   digest: The entries of a reap follow the order in which a hash map lists the claims, unless one claim at most has expired. -/

import Substrate.Kernel.Concrete
import Substrate.Protocol.Mirrors

set_option autoImplicit false
set_option relaxedAutoImplicit false

namespace Substrate.Protocol.Reaping

open Substrate.Kernel
open Substrate.Kernel.Wire
open Substrate.Kernel.Hashing
open Substrate.Kernel.Memory
open Substrate.Kernel.Runs
open Substrate.Kernel.Work
open Substrate.Kernel.Sdks
open Substrate.Kernel.Api
open Substrate.Protocol.Slots
open Substrate.Protocol.Mirrors

section Reaping

variable [Sha256] [Prost] [Encodings]

/-- Reaping a slot at a clock extends one ledger in one way: whatever order the maps of the Rust and
of the Go kernel list the claims in, and in Python. -/
structure ReapsAlike (runId : String) (slot : RunSlot) (now : Int64) : Prop where
  iterations : ∀ (env env' : Env), env.now = now → env'.now = now → ∀ state : State,
    (reapExpiredLocked env runId slot state).ledger = (reapExpiredLocked env' runId slot state).ledger
  go : ∀ (env env' : Env), env.now = now → env'.now = now →
    ∀ state go : State, go.ledger = state.ledger →
      (Go.reapExpiredLocked env' runId slot go).ledger =
        (reapExpiredLocked env runId slot state).ledger
  python : ∀ (env : Env), env.now = now →
    ∀ (state : State) (python : Python.MemoryKernel), python.ledger = state.ledger →
      (Python.reapExpiredLocked now runId (widenSlot slot) python).ledger =
        (reapExpiredLocked env runId slot state).ledger

/-- The details of a reap, in the order of the claims. -/
def reapRecords (runId : String) (slot : RunSlot) (claims : List (String × ClaimedSlot)) :
    List Record :=
  claims.flatMap (expiryRecords runId slot.maxAttempts)

omit [Encodings] in
theorem reap_ledger (env : Env) (runId : String) (slot : RunSlot) (state : State) :
    (reapExpiredLocked env runId slot state).ledger =
      extend state.ledger (reapRecords runId slot (expiredClaims env slot)) := by
  rw [reapExpiredLocked, record_eq, reapRecords]

omit [Sha256] in
theorem expiry_details (runId : String) (slot : RunSlot)
    (claims : List (String × ClaimedSlot)) :
    (claims.flatMap (expiryOf runId slot)).map (detailed marshalCanonical) =
        reapRecords runId slot claims ∧
      (claims.flatMap (expiryOf runId slot)).map (detailed canonical) =
        reapRecords runId slot claims := by
  have free : ∀ event ∈ claims.flatMap (expiryOf runId slot), mapFree event.2.2 := by
    intro event member
    obtain ⟨e, -, inside⟩ := List.mem_flatMap.mp member
    exact expiryEvents_mapFree event inside
  have rust : (claims.flatMap (expiryOf runId slot)).map (detailed encodeToVec) =
      reapRecords runId slot claims := by
    rw [reapRecords, List.map_flatMap]
    exact List.flatMap_congr fun e _ => (expiryRecords_eq runId slot e).symm
  obtain ⟨go, python⟩ := detailed_mapFree free
  exact ⟨go.trans rust, python.trans rust⟩

theorem go_reap_eq (env : Env) (runId : String) (slot : RunSlot) (state : State) :
    Go.reapExpiredLocked env runId slot state =
      { state with
        runs := state.runs.replace runId (reapSlot env slot)
        ledger := extend state.ledger (reapRecords runId slot (expiredClaims env slot)) } := by
  rw [Go.reapExpiredLocked, goRecord_eq]
  exact congrArg (fun records => { state with
    runs := state.runs.replace runId (reapSlot env slot)
    ledger := extend state.ledger records }) (expiry_details runId slot _).1

theorem python_reap_eq (env : Env) (runId : String) (slot : RunSlot) (k : Python.MemoryKernel) :
    Python.reapExpiredLocked env.now runId (widenSlot slot) k =
      { k with
        runs := k.runs.replace runId (widenSlot (reapSlot env slot))
        ledger := extend k.ledger (reapRecords runId slot (expiring env.now slot).reverse) } := by
  rw [Python.reapExpiredLocked, pythonRecord_eq, expiredClaims_widen, List.flatMap_map,
    reapSlot_widen]
  exact congrArg (fun records => { k with
    runs := k.runs.replace runId (widenSlot (reapSlot env slot))
    ledger := extend k.ledger records }) (expiry_details runId slot _).2

omit [Sha256] [Prost] [Encodings] in
theorem expiring_short {now : Int64} {slot : RunSlot} (lone : LoneExpiry now slot) :
    (expiring now slot).length ≤ 1 := by
  have keys := expiring_keys_nodup now slot
  have member : ∀ e ∈ expiring now slot, slot.claimed.lookup e.1 = some e.2 ∧ leaseExpired now e.2 :=
    fun e inside => mem_expiring.mp inside
  match expiring now slot, keys, member with
  | [], _, _ => exact Nat.zero_le _
  | [_], _, _ => exact Nat.le_refl _
  | a :: b :: rest, keys, member =>
      have ha := member a List.mem_cons_self
      have hb := member b (List.mem_cons_of_mem a List.mem_cons_self)
      have same := lone a.1 b.1 a.2 b.2 ha.1 hb.1 ha.2 hb.2
      simp [same] at keys

omit [Sha256] [Prost] [Encodings] in
private theorem perm_short {α : Type} {l m : List α} (perm : l.Perm m) (short : m.length ≤ 1) :
    l = m := by
  match m, short with
  | [], _ => exact perm.eq_nil
  | [_], _ => exact List.perm_singleton.mp perm

omit [Sha256] [Prost] [Encodings] in
theorem expiredClaims_lone {env : Env} {slot : RunSlot} (lone : LoneExpiry env.now slot) :
    expiredClaims env slot = expiring env.now slot :=
  perm_short (expiredClaims_perm env slot) (expiring_short lone)

omit [Sha256] [Prost] [Encodings] in
theorem reverse_short {now : Int64} {slot : RunSlot} (lone : LoneExpiry now slot) :
    (expiring now slot).reverse = expiring now slot :=
  perm_short (List.reverse_perm _) (expiring_short lone)

/-- A map that lists its keys as they are stored, or the other way round. -/
def listed (now : Int64) (backwards : Bool) : Env where
  entryClock := now
  now := now
  iter keys := if backwards then keys.reverse else keys
  iter_perm keys := by
    split_ifs
    · exact List.reverse_perm keys
    · exact .refl keys

omit [Sha256] [Prost] [Encodings] in
private theorem expiredClaims_listed (now : Int64) (slot : RunSlot) :
    expiredClaims (listed now true) slot = (expiredClaims (listed now false) slot).reverse := by
  rw [expiredClaims, expiredClaims]
  exact List.filterMap_reverse

omit [Sha256] [Encodings] in
private theorem reapRecords_head (runId : String) (slot : RunSlot) (e : String × ClaimedSlot)
    (rest : List (String × ClaimedSlot)) :
    (reapRecords runId slot (e :: rest)).head?.map (·.2.1) = some e.1 := rfl

/-- Reaping is a function of the history and the clock exactly when no two claims expire together. -/
theorem reapsAlike_iff (runId : String) (slot : RunSlot) (now : Int64) :
    ReapsAlike runId slot now ↔ LoneExpiry now slot := by
  constructor
  · intro alike
    have same : reapRecords runId slot (expiredClaims (listed now false) slot) =
        reapRecords runId slot (expiredClaims (listed now false) slot).reverse := by
      have ledgers := alike.iterations (listed now false) (listed now true) rfl rfl {}
      rw [reap_ledger, reap_ledger, expiredClaims_listed] at ledgers
      have said := congrArg (List.map recordOf) ledgers
      rwa [map_extend, map_extend, List.append_cancel_left_eq] at said
    have perm := expiredClaims_perm (listed now false) slot
    have keys := (perm.map (·.1)).nodup_iff.mpr (expiring_keys_nodup now slot)
    intro id id' c c' held held' expired expired'
    have there : (id, c) ∈ expiredClaims (listed now false) slot :=
      perm.mem_iff.mpr (mem_expiring.mpr ⟨held, expired⟩)
    have there' : (id', c') ∈ expiredClaims (listed now false) slot :=
      perm.mem_iff.mpr (mem_expiring.mpr ⟨held', expired'⟩)
    revert same keys there there'
    generalize expiredClaims (listed now false) slot = claims
    intro same keys there there'
    cases claims with
    | nil => cases there
    | cons a claims =>
        rcases claims.eq_nil_or_concat with rfl | ⟨middle, b, rfl⟩
        · rw [List.mem_singleton] at there there'
          exact (congrArg Prod.fst there).trans (congrArg Prod.fst there').symm
        · -- the first entry would name the last claim as well
          have heads := congrArg (fun r => r.head?.map (·.2.1)) same
          simp only [List.concat_eq_append, List.reverse_cons, List.reverse_append, List.reverse_nil,
            List.nil_append, List.cons_append, reapRecords_head, Option.some_inj] at heads
          simp [heads] at keys
  · intro lone
    have one : ∀ env : Env, env.now = now → expiredClaims env slot = expiring now slot := by
      rintro env rfl
      exact expiredClaims_lone lone
    refine ⟨?_, ?_, ?_⟩
    · intro env env' clock clock' state
      rw [reap_ledger, reap_ledger, one env clock, one env' clock']
    · intro env env' clock clock' state go ledger
      rw [go_reap_eq, reap_ledger, one env clock, one env' clock', ledger]
    · rintro env rfl state python ledger
      rw [python_reap_eq, reap_ledger, one env rfl, reverse_short lone, ledger]

end Reaping

section Together

open Substrate.Kernel.Concrete

/-- Two nodes that hear the same line. -/
def twins : Assembly :=
  { id := "twins", nodes := [⟨"n", "echo", "1", "say"⟩, ⟨"m", "echo", "1", "say"⟩]
    bindings := [{ toNode := "n", toPort := "heard", input := "line" },
                 { toNode := "m", toPort := "heard", input := "line" }]
    terminal := some ⟨"n", "said"⟩ }

/-- One worker claims both units and goes silent. -/
def bothClaimed : List Call :=
  stocked .once ++
    [callAt 0 (.startRun { id := "r", assembly := some twins, inputs := [given "line" (text "one")] }),
      callAt 0 (.claimReady { runId := "r", maxItems := 2 })]

/-- Of two claims that expire together either is logged first, and the chains part. -/
theorem reap_order_varies :
    Reachable policy (exec policy {} bothClaimed) ∧
      ∃ slot, (exec policy {} bothClaimed).runs.lookup "r" = some slot ∧
        (reapExpiredLocked (listed 60001 false) "r" slot (exec policy {} bothClaimed)).ledger ≠
          (reapExpiredLocked (listed 60001 true) "r" slot (exec policy {} bothClaimed)).ledger := by
  have differs : ((exec policy {} bothClaimed).runs.lookup "r").map (fun slot =>
      (expiredClaims (listed 60001 false) slot).map (·.1)) = some ["work:r/m", "work:r/n"] := by
    decide +kernel
  obtain ⟨slot, found, order⟩ := Option.map_eq_some_iff.mp differs
  refine ⟨⟨bothClaimed, rfl⟩, slot, found, fun same => ?_⟩
  rw [reap_ledger, reap_ledger, expiredClaims_listed] at same
  have said := congrArg (List.map recordOf) same
  rw [map_extend, map_extend, List.append_cancel_left_eq] at said
  match claims : expiredClaims (listed 60001 false) slot, order with
  | [(_, c), (_, c')], rfl =>
      rw [claims] at said
      have heads : some "work:r/m" = some "work:r/n" := congrArg (fun r => r.head?.map (·.2.1)) said
      exact absurd heads (by decide)

end Together

end Substrate.Protocol.Reaping
