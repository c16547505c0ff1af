/- ID: Substrate/Protocol/Heartbeats
   digest: A heartbeat keeps and loses the same claims in the three kernels unless a listed lease is late. -/

import Substrate.Kernel.Marshal
import Substrate.Protocol.Mirrors
import Substrate.Protocol.Reaping
import Substrate.Protocol.Serial

set_option autoImplicit false
set_option relaxedAutoImplicit false

namespace Substrate.Protocol.Heartbeats

open Substrate.Kernel
open Substrate.Kernel.Wire
open Substrate.Kernel.Hashing
open Substrate.Kernel.Memory
open Substrate.Kernel.Runs
open Substrate.Kernel.Work
open Substrate.Kernel.Sdks
open Substrate.Protocol.Slots
open Substrate.Protocol.Serial
open Substrate.Protocol.Mirrors
open Substrate.Protocol.Reaping
open Substrate.Library.FiniteMap

/-- How far a heartbeat extends a lease. -/
def extension (req : HeartbeatRequest) (slot : RunSlot) : UInt64 :=
  orDefault req.extendLeaseMs slot.defaultLeaseMs

/-- The end of the new lease is a number of the clock. -/
def Fits (now : Int64) (extend : UInt64) : Prop :=
  now.toInt + extend.toNat ≤ Int64.maxValue.toInt

/-- Where the new lease ends, as long as it fits. -/
def newLease (now : Int64) (extend : UInt64) : Int64 := Int64.ofInt (now.toInt + extend.toNat)

theorem newLease_toInt {now : Int64} {extend : UInt64} (fits : Fits now extend) :
    (newLease now extend).toInt = now.toInt + extend.toNat := by
  have low := now.le_toInt
  rw [Fits, Int64.toInt_maxValue] at fits
  exact Int64.toInt_ofInt_of_le (by omega) (by omega)

theorem saturatingAdd_fits {now : Int64} {extend : UInt64} (short : extend.toNat < 2 ^ 62)
    (fits : Fits now extend) :
    saturatingAdd now (Int64.ofNat extend.toNat) = newLease now extend := by
  have low := now.le_toInt
  have widened : (Int64.ofNat extend.toNat).toInt = extend.toNat :=
    Int64.toInt_ofNat_of_lt (by omega)
  rw [Fits] at fits
  simp only [saturatingAdd, widened, newLease]
  rw [if_neg (by omega), if_neg (by rw [Int64.toInt_minValue]; omega)]

theorem wrappingAdd_eq (now : Int64) (extend : UInt64) :
    now + extend.toInt64 = newLease now extend := by
  have signed : extend.toInt64 = Int64.ofInt extend.toNat := by
    rw [Int64.ofInt_eq_ofNat, ← UInt64.toInt64_ofNat', UInt64.ofNat_toNat]
  rw [newLease, Int64.ofInt_add, Int64.ofInt_toInt, signed]

/-- A claim that keeps to its lease and is given one that outlives the clock. -/
structure Timely (now : Int64) (extend : UInt64) (c : ClaimedSlot) : Prop where
  live : leaseExpired now c = false
  fits : Fits now extend
  longer : extend ≠ 0 ∨ now ≤ 0

/-- Every listed claim is timely. -/
def ListedTimely (now : Int64) (req : HeartbeatRequest) (slot : RunSlot) : Prop :=
  ∀ id ∈ req.workIds, ∀ c, slot.claimed.lookup id = some c → Timely now (extension req slot) c

theorem leaseExpired_renewed {now : Int64} {extend : UInt64} (fits : Fits now extend)
    (c : ClaimedSlot) :
    leaseExpired now (renewLease (newLease now extend) c) = true ↔ extend = 0 ∧ 0 < now := by
  have ends := newLease_toInt fits
  simp only [leaseExpired, renewLease, Bool.and_eq_true, decide_eq_true_eq, Int64.lt_iff_toInt_lt,
    Int64.le_iff_toInt_le, Int64.toInt_zero, ends, ← UInt64.toNat_inj, UInt64.toNat_zero]
  omega

private theorem expireClaim_renewClaim {slot : RunSlot} {e : String × ClaimedSlot} {id : String}
    (other : e.1 ≠ id) (leaseUntil : Int64) :
    expireClaim (renewClaim leaseUntil slot id) e = renewClaim leaseUntil (expireClaim slot e) id := by
  have same : (slot.claimed.erase e.1).lookup id = slot.claimed.lookup id := by
    rw [lookup_erase_of, if_neg other.symm]
  cases found : slot.claimed.lookup id with
  | none =>
      rw [found] at same
      simp only [renewClaim, expireClaim, found, same]
  | some c =>
      rw [found] at same
      simp only [renewClaim, expireClaim, found, same, erase_replace _ other]

private theorem foldl_expireClaim_renewClaim {claims : List (String × ClaimedSlot)} {id : String}
    (others : ∀ e ∈ claims, e.1 ≠ id) (leaseUntil : Int64) (slot : RunSlot) :
    claims.foldl expireClaim (renewClaim leaseUntil slot id) =
      renewClaim leaseUntil (claims.foldl expireClaim slot) id := by
  induction claims generalizing slot with
  | nil => rfl
  | cons e claims ih =>
      rw [List.foldl_cons, List.foldl_cons, expireClaim_renewClaim (others e List.mem_cons_self),
        ih fun x member => others x (List.mem_cons_of_mem e member)]

theorem expiring_renewClaim {now leaseUntil : Int64} {slot : RunSlot} {id : String}
    (live : ∀ c, slot.claimed.lookup id = some c →
      leaseExpired now c = false ∧ leaseExpired now (renewLease leaseUntil c) = false) :
    expiring now (renewClaim leaseUntil slot id) = expiring now slot := by
  rw [renewClaim]
  split
  case h_1 c found =>
    obtain ⟨before, after⟩ := live c found
    simp only [expiring]
    rw [@filter_replace _ _ _ (fun e => leaseExpired now e.2) _ id c (renewLease leaseUntil c)
      found before after]
  case h_2 => rfl

theorem reapSlot_renewClaim {env : Env} {leaseUntil : Int64} {slot : RunSlot} {id : String}
    (live : ∀ c, slot.claimed.lookup id = some c →
      leaseExpired env.now c = false ∧ leaseExpired env.now (renewLease leaseUntil c) = false) :
    reapSlot env (renewClaim leaseUntil slot id) = renewClaim leaseUntil (reapSlot env slot) id := by
  rw [reapSlot_eq, reapSlot_eq, expiring_renewClaim live]
  refine foldl_expireClaim_renewClaim (fun e member same => ?_) leaseUntil slot
  obtain ⟨found, expired⟩ := mem_expiring.mp member
  rw [same] at found
  rw [(live e.2 found).1] at expired
  cases expired

/-- The listed claims are live and stay live under the new lease. -/
def ListedLive (now leaseUntil : Int64) (ids : List String) (slot : RunSlot) : Prop :=
  ∀ id ∈ ids, ∀ c, slot.claimed.lookup id = some c →
    leaseExpired now c = false ∧ leaseExpired now (renewLease leaseUntil c) = false

private theorem ListedLive.renewed {now leaseUntil : Int64} {id : String} {ids : List String}
    {slot : RunSlot} (live : ListedLive now leaseUntil (id :: ids) slot) :
    ListedLive now leaseUntil ids (renewClaim leaseUntil slot id) := by
  intro other listed c found
  rw [lookup_renewClaim] at found
  split_ifs at found with same
  · obtain ⟨old, there, rfl⟩ := Option.map_eq_some_iff.mp found
    have after := (live id List.mem_cons_self old there).2
    exact ⟨after, after⟩
  · exact live other (List.mem_cons_of_mem id listed) c found

theorem reapSlot_renew {env : Env} {leaseUntil : Int64} {ids : List String} {slot : RunSlot}
    (live : ListedLive env.now leaseUntil ids slot) :
    reapSlot env (ids.foldl (renewClaim leaseUntil) slot) =
        ids.foldl (renewClaim leaseUntil) (reapSlot env slot) ∧
      expiring env.now (ids.foldl (renewClaim leaseUntil) slot) = expiring env.now slot := by
  induction ids generalizing slot with
  | nil => exact ⟨rfl, rfl⟩
  | cons id ids ih =>
      obtain ⟨slots, claims⟩ := ih live.renewed
      have here := live id List.mem_cons_self
      rw [List.foldl_cons, slots, claims, reapSlot_renewClaim here, expiring_renewClaim here]
      exact ⟨rfl, rfl⟩

theorem mem_reapSlot {env : Env} {slot : RunSlot} {id : String} {c : ClaimedSlot}
    (found : slot.claimed.lookup id = some c) :
    id ∈ (reapSlot env slot).claimed ↔ leaseExpired env.now c = false := by
  have erased : ∀ (claims : List (String × ClaimedSlot)) (s : RunSlot),
      (claims.foldl expireClaim s).claimed.lookup id =
        if id ∈ claims.map (·.1) then none else s.claimed.lookup id := by
    intro claims
    induction claims with
    | nil => exact fun s => (if_neg List.not_mem_nil).symm
    | cons e claims ih =>
        intro s
        rw [List.foldl_cons, ih, List.map_cons, expireClaim, lookup_erase_of]
        by_cases later : id ∈ claims.map (·.1) <;> by_cases here : id = e.1 <;>
          simp only [List.mem_cons, later, here, true_or, or_true, or_self, if_true, if_false,
            ite_self]
  rw [← AList.lookup_isSome, reapSlot_eq, erased, found]
  have listed : id ∈ (expiring env.now slot).map (·.1) ↔ leaseExpired env.now c = true := by
    rw [List.mem_map]
    constructor
    · rintro ⟨e, member, rfl⟩
      obtain ⟨there, expired⟩ := mem_expiring.mp member
      rwa [← Option.some.inj (found.symm.trans there)] at expired
    · exact fun expired => ⟨(id, c), mem_expiring.mpr ⟨found, expired⟩, rfl⟩
  cases expired : leaseExpired env.now c with
  | true => simp [listed.mpr expired]
  | false =>
      have absent : id ∉ (expiring env.now slot).map (·.1) := fun member => by
        rw [listed.mp member] at expired
        cases expired
      simp [absent]

theorem renew_absent {ids : List String} {slot : RunSlot}
    (absent : ∀ id ∈ ids, id ∉ slot.claimed) (leaseUntil : Int64) :
    ids.foldl (renewClaim leaseUntil) slot = slot := by
  induction ids with
  | nil => rfl
  | cons id ids ih =>
      have here := AList.lookup_eq_none.mpr (absent id List.mem_cons_self)
      have still : renewClaim leaseUntil slot id = slot := by simp [renewClaim, here]
      rw [List.foldl_cons, still, ih fun other listed => absent other (List.mem_cons_of_mem id listed)]

theorem renew_maxAttempts (leaseUntil : Int64) (ids : List String) (slot : RunSlot) :
    (ids.foldl (renewClaim leaseUntil) slot).maxAttempts = slot.maxAttempts := by
  induction ids generalizing slot with
  | nil => rfl
  | cons id ids ih =>
      rw [List.foldl_cons, ih, renewClaim]
      split <;> rfl

theorem lookup_renew {leaseUntil : Int64} {ids : List String} {slot : RunSlot} {id : String}
    {c : ClaimedSlot} (found : slot.claimed.lookup id = some c) :
    (ids.foldl (renewClaim leaseUntil) slot).claimed.lookup id =
      some (if id ∈ ids then renewLease leaseUntil c else c) := by
  induction ids generalizing slot c with
  | nil => rw [if_neg List.not_mem_nil, List.foldl_nil, found]
  | cons first ids ih =>
      have next := lookup_renewClaim leaseUntil slot first id
      rw [List.foldl_cons]
      by_cases here : id = first
      · subst here
        rw [if_pos rfl, found, Option.map_some] at next
        rw [ih next, if_pos List.mem_cons_self]
        exact congrArg some (ite_self _)
      · rw [if_neg here, found] at next
        rw [ih next]
        simp only [List.mem_cons, here, false_or]

private theorem renewClaim_widen {leaseUntil : Int64} {slot : RunSlot} {id : String} {c : ClaimedSlot}
    (found : slot.claimed.lookup id = some c) :
    widenSlot (renewClaim leaseUntil slot id) =
      { widenSlot slot with
        claimed := (widenSlot slot).claimed.replace id (widenClaim (renewLease leaseUntil c)) } := by
  simp only [renewClaim, found, widenSlot, replace_mapValues]

theorem renewClaims_widen {now : Int64} {extend : UInt64} {ids : List String} {slot : RunSlot}
    (fits : ∀ id ∈ ids, id ∈ slot.claimed → Fits now extend) :
    Python.renewClaims (now.toInt + extend.toNat) (widenSlot slot) ids =
      (widenSlot (ids.foldl (renewClaim (newLease now extend)) slot),
        .ok (ids.filter (· ∈ slot.claimed), ids.filter (· ∉ slot.claimed))) := by
  induction ids generalizing slot with
  | nil => rfl
  | cons id ids ih =>
      have rest := @ih (renewClaim (newLease now extend) slot id) fun other listed claimed =>
        fits other (List.mem_cons_of_mem id listed) (mem_renewClaim.mp claimed)
      simp only [mem_renewClaim] at rest
      cases found : slot.claimed.lookup id with
      | none =>
          have absent : id ∉ slot.claimed := AList.lookup_eq_none.mp found
          have still : renewClaim (newLease now extend) slot id = slot := by simp [renewClaim, found]
          rw [still] at rest
          have missing : (widenSlot slot).claimed.lookup id = none := by simp [widenSlot, found]
          simp [Python.renewClaims, missing, rest, still, absent, Except.map]
      | some c =>
          have member : id ∈ slot.claimed := mem_of_lookup found
          have there : (widenSlot slot).claimed.lookup id = some (widenClaim c) := by
            simp [widenSlot, found]
          have low := now.le_toInt
          have here := fits id List.mem_cons_self member
          have ends := newLease_toInt here
          have inside : Int64.minValue.toInt ≤ now.toInt + extend.toNat ∧
              now.toInt + extend.toNat ≤ Int64.maxValue.toInt :=
            ⟨by rw [Int64.toInt_minValue]; omega, here⟩
          rw [renewClaim_widen found, ← ends] at rest
          rw [← ends] at inside
          rw [Python.renewClaims, there, ← ends]
          simp only [inside, and_self, if_true, Int64.ofInt_toInt]
          simp only [widenClaim, renewLease] at rest ⊢
          rw [rest]
          simp [member, Except.map]

theorem renewClaims_raises {leaseUntil : Int}
    (far : ¬(Int64.minValue.toInt ≤ leaseUntil ∧ leaseUntil ≤ Int64.maxValue.toInt))
    {ids : List String} {slot : Python.RunSlot} {id : String} (listed : id ∈ ids)
    (claimed : id ∈ slot.claimed) :
    (Python.renewClaims leaseUntil slot ids).2 = .error .valueError := by
  induction ids with
  | nil => cases listed
  | cons first ids ih =>
      cases found : slot.claimed.lookup first with
      | none =>
          have other : id ≠ first := by
            rintro rfl
            exact AList.lookup_eq_none.mp found claimed
          have rest := ih ((List.mem_cons.mp listed).resolve_left other)
          simp only [Python.renewClaims, found, rest]
          rfl
      | some c => simp only [Python.renewClaims, found, if_neg far]

section Heartbeats

variable [Sha256] [Prost] [Encodings]

/-- A heartbeat does the same in the three kernels, whatever order the maps list the expired claims
in. -/
structure HeartbeatsAlike (req : HeartbeatRequest) (state : State) (env env' : Env) : Prop where
  same : SameOutcome (heartbeat env req state) (Go.heartbeat env' req {} state)
    (Python.heartbeat env' req {} (widen state))
  entries : ∃ rust go python : List Record, go.Perm rust ∧ python.Perm rust ∧
    (heartbeat env req state).1.ledger = extend state.ledger rust ∧
    (Go.heartbeat env' req {} state).1.ledger = extend state.ledger go ∧
    (Python.heartbeat env' req {} (widen state)).1.ledger = extend state.ledger python

omit [Sha256] [Encodings] in
private theorem reapRecords_perm {runId : String} {a b : RunSlot} {l m : List (String × ClaimedSlot)}
    (limit : a.maxAttempts = b.maxAttempts) (perm : l.Perm m) :
    (reapRecords runId a l).Perm (reapRecords runId b m) := by
  rw [reapRecords, reapRecords, limit]
  exact perm.flatMap_right _

omit [Sha256] [Prost] [Encodings] in
private theorem extension_reaped (env : Env) (req : HeartbeatRequest) (slot : RunSlot) :
    extension req slot =
      if req.extendLeaseMs = 0 then (reapSlot env slot).defaultLeaseMs else req.extendLeaseMs := by
  have kept : ∀ (claims : List (String × ClaimedSlot)) (s : RunSlot),
      (claims.foldl expireClaim s).defaultLeaseMs = s.defaultLeaseMs := by
    intro claims
    induction claims with
    | nil => exact fun _ => rfl
    | cons e claims ih => exact fun s => ih (expireClaim s e)
  rw [extension, orDefault, reapSlot, kept]

omit [Encodings] in
private theorem heartbeat_eq {req : HeartbeatRequest} {state : State} {slot : RunSlot}
    (taken : runningSlot state req.runId = .ok slot) (env : Env) :
    heartbeat env req state =
      ({ state with
          runs := state.runs.replace req.runId (reapSlot env (renewSlot env req slot))
          ledger := extend state.ledger
            (reapRecords req.runId (renewSlot env req slot)
              (expiredClaims env (renewSlot env req slot))) },
        .ok { renewedWorkIds := req.workIds.filter (· ∈ slot.claimed)
              lostWorkIds := req.workIds.filter (· ∉ slot.claimed) }) := by
  simp only [heartbeat, taken, orReturn, reapExpiredLocked, record_eq, replace_replace, extend,
    List.foldl_nil]
  rfl

private theorem go_heartbeat_eq {req : HeartbeatRequest} {state : State} {slot : RunSlot}
    (taken : runningSlot state req.runId = .ok slot) (env : Env) :
    Go.heartbeat env req {} state =
      ({ state with
          runs := state.runs.replace req.runId (req.workIds.foldl
            (renewClaim (newLease env.now (extension req slot))) (reapSlot env slot))
          ledger := extend state.ledger (reapRecords req.runId slot (expiredClaims env slot)) },
        .ok { renewedWorkIds := req.workIds.filter (· ∈ (reapSlot env slot).claimed)
              lostWorkIds := req.workIds.filter (· ∉ (reapSlot env slot).claimed) }) := by
  rw [Go.heartbeat, show checkDeadline env {} = .ok () from rfl, taken]
  simp only [orReturn, go_reap_eq, goRecord_eq, List.map_nil, replace_replace, extend,
    List.foldl_nil, ← wrappingAdd_eq, ite_not, extension_reaped env]

private theorem python_heartbeat_eq {req : HeartbeatRequest} {state : State} {slot : RunSlot}
    (taken : runningSlot state req.runId = .ok slot) (env : Env) :
    Python.heartbeat env req {} (widen state) =
      let after := Python.renewClaims (env.now.toInt + (extension req slot).toNat)
        (widenSlot (reapSlot env slot)) req.workIds
      ({ widen state with
          runs := (widen state).runs.replace req.runId after.1
          ledger := extend state.ledger
            (reapRecords req.runId slot (expiring env.now slot).reverse) },
        after.2.map fun (renewed, lost) => { renewedWorkIds := renewed, lostWorkIds := lost }) := by
  rw [Python.heartbeat, show Python.checkDeadline env {} = .ok () from rfl, runningSlot_widen, taken]
  simp only [Python.orRaise, Python.raising, Except.map, Except.mapError, python_reap_eq, pythonRecord_eq,
    List.map_nil, replace_replace, extend, List.foldl_nil, reapSlot_widen, extension_reaped env]
  rfl

private theorem heartbeatsAlike_refused {req : HeartbeatRequest} {state : State} {e : KernelError}
    (refused : runningSlot state req.runId = .error e) (env env' : Env) :
    HeartbeatsAlike req state env env' := by
  have rust : heartbeat env req state = (state, .error e) := by
    rw [heartbeat, refused]
    rfl
  have go : Go.heartbeat env' req {} state = (state, .error e) := by
    rw [Go.heartbeat, show checkDeadline env' {} = .ok () from rfl, refused]
    rfl
  have python : Python.heartbeat env' req {} (widen state) = (widen state, .error (.kernel e)) := by
    rw [Python.heartbeat, show Python.checkDeadline env' {} = .ok () from rfl, runningSlot_widen,
      refused]
    rfl
  refine ⟨?_, [], [], [], .refl _, .refl _, ?_⟩
  · rw [rust, go, python]
    exact ⟨rfl, rfl, rfl, rfl⟩
  · rw [rust, go, python]
    exact ⟨rfl, rfl, rfl⟩

private theorem timely_of_alike {req : HeartbeatRequest} {state : State} {slot : RunSlot}
    {env env' : Env} (clock : env'.now = env.now)
    (short : (extension req slot).toNat < 2 ^ 62) (taken : runningSlot state req.runId = .ok slot)
    (alike : HeartbeatsAlike req state env env') : ListedTimely env.now req slot := by
  intro id listed c found
  have member : id ∈ slot.claimed := mem_of_lookup found
  have same := alike.same
  have live : leaseExpired env.now c = false := by
    have answers := same.go_answer
    rw [heartbeat_eq taken, go_heartbeat_eq taken, answer_ok, answer_ok, Except.ok.injEq,
      HeartbeatResponse.mk.injEq] at answers
    have kept : id ∈ req.workIds.filter (· ∈ slot.claimed) :=
      List.mem_filter.mpr ⟨listed, decide_eq_true member⟩
    rw [← answers.1, List.mem_filter, decide_eq_true_eq] at kept
    rw [← clock]
    exact (mem_reapSlot found).mp kept.2
  have reaped : id ∈ (reapSlot env' slot).claimed := by
    rw [mem_reapSlot found, clock]
    exact live
  have fits : Fits env.now (extension req slot) := by
    by_contra far
    have answers := same.python_answer
    have raised := @renewClaims_raises (env'.now.toInt + (extension req slot).toNat)
      (fun inside => far (by rw [Fits, ← clock]; exact inside.2)) _
      (widenSlot (reapSlot env' slot)) _ listed ((mem_mapValues widenClaim _ _).mpr reaped)
    rw [heartbeat_eq taken, python_heartbeat_eq taken] at answers
    simp only [raised] at answers
    cases answers
  refine ⟨live, fits, ?_⟩
  by_contra ended
  rw [not_or, not_not, Int64.not_le] at ended
  have slots := congrArg (fun runs => runs.lookup req.runId) same.go_runs
  have stored := (runningSlot_ok taken).1
  rw [heartbeat_eq taken, go_heartbeat_eq taken] at slots
  simp only [lookup_replace stored, if_true, Option.some_inj] at slots
  have renewed : (renewSlot env req slot).claimed.lookup id =
      some (renewLease (newLease env.now (extension req slot)) c) := by
    have until_eq : saturatingAdd env.now (Int64.ofNat (extension req slot).toNat) =
      newLease env.now (extension req slot) := saturatingAdd_fits short fits
    rw [extension] at until_eq
    rw [renewSlot, until_eq, lookup_renew found, if_pos listed]
    rfl
  obtain ⟨kept, there⟩ := lookup_of_mem reaped
  have left : id ∈ (reapSlot env (renewSlot env req slot)).claimed := by
    rw [← slots]
    exact mem_of_lookup (lookup_renew there)
  rw [mem_reapSlot renewed] at left
  rw [(leaseExpired_renewed fits c).mpr ended] at left
  cases left

private theorem alike_of_timely {req : HeartbeatRequest} {state : State} {slot : RunSlot}
    {env env' : Env} (clock : env'.now = env.now)
    (short : (extension req slot).toNat < 2 ^ 62) (taken : runningSlot state req.runId = .ok slot)
    (timely : ListedTimely env.now req slot) : HeartbeatsAlike req state env env' := by
  -- the claims that are listed are kept by either order of renewing and reaping
  have listed : ∀ id ∈ req.workIds, (id ∈ (reapSlot env slot).claimed ↔ id ∈ slot.claimed) := by
    intro id inside
    refine ⟨fun member => ?_, fun member => ?_⟩
    · obtain ⟨c, found⟩ := lookup_of_mem member
      exact mem_of_lookup (reapSlot_lookup found)
    · obtain ⟨c, found⟩ := lookup_of_mem member
      rw [mem_reapSlot found]
      exact (timely id inside c found).live
  have live : ListedLive env.now (newLease env.now (extension req slot)) req.workIds slot := by
    intro id inside c found
    obtain ⟨alive, fits, longer⟩ := timely id inside c found
    refine ⟨alive, Bool.eq_false_iff.mpr fun expired => ?_⟩
    obtain ⟨none, started⟩ := (leaseExpired_renewed fits c).mp expired
    exact longer.elim (absurd none) (Int64.not_le.mpr started)
  have renewed : renewSlot env req slot =
      req.workIds.foldl (renewClaim (newLease env.now (extension req slot))) slot := by
    by_cases claimed : ∃ id ∈ req.workIds, id ∈ slot.claimed
    · obtain ⟨id, inside, member⟩ := claimed
      obtain ⟨c, found⟩ := lookup_of_mem member
      have until_eq := saturatingAdd_fits short (timely id inside c found).fits
      rw [extension] at until_eq
      rw [renewSlot, until_eq]
      rfl
    · have absent : ∀ id ∈ req.workIds, id ∉ slot.claimed := fun id inside member =>
        claimed ⟨id, inside, member⟩
      rw [renewSlot, renew_absent absent, renew_absent absent]
  obtain ⟨slots, claims⟩ := reapSlot_renew live
  have python := @renewClaims_widen env.now (extension req slot) req.workIds (reapSlot env slot)
    fun id inside member => by
      obtain ⟨c, found⟩ := lookup_of_mem member
      exact (timely id inside c (reapSlot_lookup found)).fits
  have kept : req.workIds.filter (· ∈ (reapSlot env slot).claimed) =
      req.workIds.filter (· ∈ slot.claimed) :=
    List.filter_congr fun id inside => decide_eq_decide.mpr (listed id inside)
  have lost : req.workIds.filter (· ∉ (reapSlot env slot).claimed) =
      req.workIds.filter (· ∉ slot.claimed) :=
    List.filter_congr fun id inside => decide_eq_decide.mpr (not_congr (listed id inside))
  have rust := heartbeat_eq taken env
  rw [renewed, slots] at rust
  have go := go_heartbeat_eq taken env'
  rw [clock, reapSlot_iter clock, kept, lost] at go
  have third := python_heartbeat_eq taken env'
  rw [clock, reapSlot_iter clock, python, kept, lost] at third
  refine ⟨?_, _, _, _, ?_, ?_, congrArg (·.1.ledger) rust, congrArg (·.1.ledger) go,
    congrArg (·.1.ledger) third⟩
  · rw [rust, go, third]
    refine ⟨rfl, rfl, rfl, ?_⟩
    exact replace_mapValues widenSlot state.runs req.runId _
  · exact reapRecords_perm (renew_maxAttempts _ _ _).symm
      (((expiredClaims_perm env' slot).trans (by rw [clock, claims])).trans
        (expiredClaims_perm env _).symm)
  · exact reapRecords_perm (renew_maxAttempts _ _ _).symm
      (((List.reverse_perm _).trans (by rw [claims])).trans (expiredClaims_perm env _).symm)

/-- The three heartbeats agree exactly when every listed claim is live, and its new lease is a later
number of the clock. -/
theorem heartbeatsAlike_iff {req : HeartbeatRequest} {state : State} {env env' : Env}
    (clock : env'.now = env.now)
    (short : ∀ slot, state.runs.lookup req.runId = some slot →
      (extension req slot).toNat < 2 ^ 62) :
    HeartbeatsAlike req state env env' ↔
      ∀ slot, state.runs.lookup req.runId = some slot → slot.run.state = .running →
        ListedTimely env.now req slot := by
  constructor
  · intro alike slot stored running
    have taken : runningSlot state req.runId = .ok slot := by
      simp only [runningSlot, stored, if_pos running]
    exact timely_of_alike clock (short slot stored) taken alike
  · intro timely
    cases taken : runningSlot state req.runId with
    | error e => exact heartbeatsAlike_refused taken env env'
    | ok slot =>
        obtain ⟨stored, running⟩ := runningSlot_ok taken
        exact alike_of_timely clock (short slot stored) taken (timely slot stored running)

end Heartbeats

section Late

open Substrate.Kernel.Api
open Substrate.Kernel.Concrete
open scoped Substrate.Kernel.Marshal

/-- A worker claims the only unit and names it in its next heartbeat. -/
def lateBeat : HeartbeatRequest := { runId := "r", workIds := ["work:r/n"] }

def held : State := exec policy {} (opening .once .firstTerminal ++ [claimAt 0])

/-- One millisecond after its lease the claim is renewed in Rust and lost in Go. -/
theorem late_heartbeat_differs :
    Reachable policy held ∧ ¬HeartbeatsAlike lateBeat held (envAt 60001) (envAt 60001) := by
  refine ⟨⟨_, rfl⟩, fun alike => ?_⟩
  have answers := congrArg (fun a => a.toOption.map (·.renewedWorkIds)) alike.same.go_answer
  revert answers
  decide +kernel

/-- A heartbeat within the lease. -/
theorem timely_heartbeat_agrees : HeartbeatsAlike lateBeat held (envAt 5000) (envAt 5000) := by
  have one : (held.runs.lookup "r").all fun slot =>
      (extension lateBeat slot).toNat < 2 ^ 62 ∧
        (slot.claimed.lookup "work:r/n").all fun c =>
          leaseExpired 5000 c = false ∧ (5000 : Int64).toInt + (extension lateBeat slot).toNat ≤
            Int64.maxValue.toInt ∧ extension lateBeat slot ≠ 0 := by decide +kernel
  have each : ∀ slot, held.runs.lookup "r" = some slot →
      (extension lateBeat slot).toNat < 2 ^ 62 ∧ ∀ c, slot.claimed.lookup "work:r/n" = some c →
        Timely 5000 (extension lateBeat slot) c := by
    intro slot found
    rw [found] at one
    simp only [Option.all_some, decide_eq_true_eq] at one
    refine ⟨one.1, fun c claimed => ?_⟩
    have here := one.2
    rw [claimed] at here
    simp only [Option.all_some, decide_eq_true_eq] at here
    exact ⟨here.1, here.2.1, .inl here.2.2⟩
  revert each
  generalize held = state
  intro each
  refine (heartbeatsAlike_iff rfl fun slot found => (each slot found).1).mpr ?_
  intro slot found _ id listed
  obtain rfl := List.mem_singleton.mp listed
  exact (each slot found).2

end Late

end Substrate.Protocol.Heartbeats
