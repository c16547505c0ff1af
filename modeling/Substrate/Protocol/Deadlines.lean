/- ID: Substrate/Protocol/Deadlines
   source: kernel/sdk/rust/src/lib.rs
   digest: Where the leases end that a claim or a heartbeat sets, and for which lengths that is later. -/

import Mathlib.Algebra.Group.Int.Defs
import Mathlib.Data.UInt
import Substrate.Framework.InProcess
import Substrate.Protocol.Claiming
import Substrate.Protocol.Heartbeats

set_option autoImplicit false
set_option relaxedAutoImplicit false

namespace Substrate.Protocol.Deadlines

open Substrate.Kernel.Wire
open Substrate.Kernel.Hashing
open Substrate.Kernel.Memory
open Substrate.Kernel.Runs
open Substrate.Kernel.Schedule
open Substrate.Kernel.Work
open Substrate.Kernel.Api
open Substrate.Protocol.Atoms
open Substrate.Protocol.Slots
open Substrate.Protocol.Serial
open Substrate.Protocol.Refine
open Substrate.Protocol.Claiming (wanted claimReady_reply)
open Substrate.Protocol.Heartbeats (lookup_renew mem_reapSlot)
open Substrate.Library.FiniteMap
open Substrate.Library.Transition

/-- Where a lease of `ms` milliseconds ends that is set at `now`. -/
def leaseEnd (now : Int64) (ms : UInt64) : Int64 := saturatingAdd now (Int64.ofNat ms.toNat)

/-- A clock reading that leaves room for a lease. -/
structure Early (now : Int64) : Prop where
  nonneg : 0 ≤ now.toInt
  small : now.toInt < 2 ^ 62

private theorem ofNat_toInt (ms : UInt64) : (Int64.ofNat ms.toNat).toInt =
    if ms.toNat < 2 ^ 63 then (ms.toNat : Int) else ms.toNat - 2 ^ 64 := by
  have below := ms.toNat_lt
  rw [show (Int64.ofNat ms.toNat).toInt = (BitVec.ofNat 64 ms.toNat).toInt from rfl,
    BitVec.toInt_eq_toNat_cond, BitVec.toNat_ofNat, Nat.mod_eq_of_lt below]
  split_ifs <;> omega

theorem leaseEnd_toInt {now : Int64} (early : Early now) (ms : UInt64) :
    (leaseEnd now ms).toInt = if ms.toNat < 2 ^ 63 then min (now.toInt + ms.toNat) (2 ^ 63 - 1)
      else now.toInt + ms.toNat - 2 ^ 64 := by
  have nonneg := early.nonneg
  have small := early.small
  have below := ms.toNat_lt
  rw [leaseEnd]
  simp only [saturatingAdd, ofNat_toInt, Int64.toInt_maxValue, Int64.toInt_minValue]
  by_cases long : ms.toNat < 2 ^ 63
  · rw [if_pos long, if_pos long]
    split_ifs with past under
    · rw [Int64.toInt_maxValue]
      omega
    · omega
    · rw [Int64.toInt_ofInt_of_le (by omega) (by omega)]
      omega
  · rw [if_neg long, if_neg long, if_neg (by omega), if_neg (by omega)]
    rw [Int64.toInt_ofInt_of_le (by omega) (by omega)]
    omega

theorem leaseEnd_later {now : Int64} (early : Early now) {ms : UInt64} (asked : ms ≠ 0) :
    now < leaseEnd now ms ∧ 0 < leaseEnd now ms ↔ ms.toNat < 2 ^ 63 := by
  have positive : 0 < ms.toNat := Nat.pos_of_ne_zero fun none => asked (UInt64.toNat_inj.mp none)
  have below := ms.toNat_lt
  have nonneg := early.nonneg
  have small := early.small
  rw [Int64.lt_iff_toInt_lt, Int64.lt_iff_toInt_lt, Int64.toInt_zero, leaseEnd_toInt early]
  split_ifs with short
  · exact ⟨fun _ => short, fun _ => by omega⟩
  · exact ⟨fun later => by omega, fun short' => absurd short' short⟩

theorem leaseEnd_mono {before now : Int64} (first : Early before) (early : Early now)
    (order : before ≤ now) {shorter ms : UInt64} (less : shorter ≤ ms) (short : ms.toNat < 2 ^ 63) :
    leaseEnd before shorter ≤ leaseEnd now ms := by
  rw [UInt64.le_iff_toNat_le] at less
  rw [Int64.le_iff_toInt_le] at order
  rw [Int64.le_iff_toInt_le, leaseEnd_toInt first, leaseEnd_toInt early, if_pos short,
    if_pos (by omega)]
  omega

/-- The lease of `ms` milliseconds that is set at `now` under a work id: the unit is claimed, for
longer than now; no reap at the same reading of the clock takes the claim away, and every reap does
that comes after its end; and no shorter lease that was set no later outlasts it. -/
structure Leased (now : Int64) (ms : UInt64) (after : RunSlot) (id : String) (c : ClaimedSlot) :
    Prop where
  claimed : after.claimed.lookup id = some c
  set : c.leaseUntilMs = leaseEnd now ms ∧ c.work.leaseUntilUnixMs = c.leaseUntilMs
  later : now < c.leaseUntilMs ∧ 0 < c.leaseUntilMs
  kept : ∀ (env : Env) (slot : RunSlot), env.now = now → slot.claimed.lookup id = some c →
    (reapSlot env slot).claimed.lookup id = some c
  reaped : ∀ (env : Env) (slot : RunSlot), c.leaseUntilMs ≤ env.now →
    slot.claimed.lookup id = some c → (reapSlot env slot).claimed.lookup id = none
  longest : ∀ before shorter, Early before → before ≤ now → shorter ≤ ms →
    leaseEnd before shorter ≤ c.leaseUntilMs

private theorem leaseExpired_eq (now : Int64) (c : ClaimedSlot) :
    leaseExpired now c = true ↔ 0 < c.leaseUntilMs ∧ c.leaseUntilMs ≤ now := by
  rw [leaseExpired, Bool.and_eq_true, decide_eq_true_iff, decide_eq_true_iff]

theorem lookup_reapSlot {env : Env} {slot : RunSlot} {id : String} {c : ClaimedSlot}
    (found : slot.claimed.lookup id = some c) : (reapSlot env slot).claimed.lookup id =
      if leaseExpired env.now c = true then none else some c := by
  have left := @mem_reapSlot env slot id c found
  split_ifs with expired
  · rw [AList.lookup_eq_none]
    intro member
    rw [left.mp member] at expired
    cases expired
  · obtain ⟨c', there⟩ := lookup_of_mem (left.mpr (Bool.eq_false_iff.mpr expired))
    rw [there, ← found, reapSlot_lookup there]

private theorem leased_of_short {now : Int64} {ms : UInt64} {after : RunSlot} {id : String}
    {c : ClaimedSlot} (early : Early now) (asked : ms ≠ 0) (short : ms.toNat < 2 ^ 63)
    (claimed : after.claimed.lookup id = some c)
    (set : c.leaseUntilMs = leaseEnd now ms ∧ c.work.leaseUntilUnixMs = c.leaseUntilMs) :
    Leased now ms after id c := by
  have later := (leaseEnd_later early asked).mpr short
  rw [← set.1] at later
  refine ⟨claimed, set, later, ?_, ?_, ?_⟩
  · intro env slot same found
    rw [lookup_reapSlot found, if_neg]
    rw [leaseExpired_eq, same, not_and, Int64.not_le]
    exact fun _ => later.1
  · intro env slot past found
    rw [lookup_reapSlot found, if_pos ((leaseExpired_eq _ _).mpr ⟨later.2, past⟩)]
  · intro before shorter first order less
    rw [set.1]
    exact leaseEnd_mono first early order less short

/-- How long a lease a call asks for. -/
def lengthOf (slot : RunSlot) : Op → UInt64
  | .heartbeat req => orDefault req.extendLeaseMs slot.defaultLeaseMs
  | _ => slot.defaultLeaseMs

/-- The work ids whose leases a reply reports as set. -/
def leased : Reply → List String
  | .claim response => response.items.map (·.id)
  | .heartbeat response => response.renewedWorkIds
  | _ => []

section Calls

variable [Sha256]

/-- Whether a call on a RUNNING run has a lease to set: a candidate to claim, or a listed claim. -/
def Sets (modules : List ModuleSlot) (slot : RunSlot) (env : Env) : Op → Prop
  | .claimReady req => (readyCandidates modules (reapSlot env slot) req).take
      (wanted req (reapSlot env slot)) ≠ []
  | .heartbeat req => ∃ id ∈ req.workIds, id ∈ slot.claimed
  | _ => False

omit [Sha256] in
private theorem claimUnits_claimed {env : Env} {runId : String} {slot : RunSlot} {cs : List Candidate}
    {id : String} (mine : id ∈ (claimUnits env runId slot cs).2.map (·.id) ∨
      ∃ c, slot.claimed.lookup id = some c ∧
        c.leaseUntilMs = leaseEnd env.now slot.defaultLeaseMs ∧
        c.work.leaseUntilUnixMs = c.leaseUntilMs) :
    ∃ c, (claimUnits env runId slot cs).1.claimed.lookup id = some c ∧
      c.leaseUntilMs = leaseEnd env.now slot.defaultLeaseMs ∧
      c.work.leaseUntilUnixMs = c.leaseUntilMs := by
  induction cs generalizing slot with
  | nil => exact mine.resolve_left List.not_mem_nil
  | cons c rest ih =>
      refine @ih (claimSlot slot (claimWork env runId slot c)) ?_
      by_cases here : id = (claimWork env runId slot c).id
      · subst here
        exact .inr ⟨_, AList.lookup_insert _, rfl, rfl⟩
      · refine mine.imp (fun listed => (List.mem_cons.mp listed).resolve_left here) ?_
        rintro ⟨old, there, set⟩
        exact ⟨old, (AList.lookup_insert_ne here).trans there, set⟩

variable [Prost]

theorem reachable_defaultLease {policy : ArtifactStorePolicy} {s : State}
    (reached : Reachable policy s) {runId : String} {slot : RunSlot}
    (found : s.runs.lookup runId = some slot) : slot.defaultLeaseMs ≠ 0 := by
  have all : ∀ runId slot, s.runs.lookup runId = some slot → slot.defaultLeaseMs ≠ 0 := by
    refine reachable_invariant (P := fun s => ∀ runId slot, s.runs.lookup runId = some slot →
      slot.defaultLeaseMs ≠ 0) ?_ ?_ reached
    · intro runId slot found
      simp at found
    · intro s a guard _ before
      refine slots_apply (I := fun _ _ slot => slot.defaultLeaseMs ≠ 0) guard (fun _ _ h => h) ?_ ?_
        before
      · rintro slot - ⟨env, req, assembly, maxSteps, rfl, -, -⟩
        simp only [freshSlot, orDefault]
        split_ifs with unset
        · decide
        · exact unset
      · intro runId slot act _ _ _ _ given
        rwa [(apply_terms s.modules slot act).defaultLeaseMs]
  exact all runId slot found

private theorem claimReady_claimed {s : State} {req : ClaimRequest} {slot after : RunSlot} (env : Env)
    (found : s.runs.lookup req.runId = some slot) (running : slot.run.state = .running)
    (there : (claimReady env req s).1.runs.lookup req.runId = some after) :
    after.claimed = (claimUnits env req.runId (reapSlot env slot)
      ((readyCandidates s.modules (reapSlot env slot) req).take
        (wanted req (reapSlot env slot)))).1.claimed := by
  have reaped := lookup_recordAll (reapSlot env slot) []
    ((expiredClaims env slot).flatMap (expiryRecords req.runId slot.maxAttempts)) found req.runId
  rw [if_pos rfl] at reaped
  unfold claimReady at there
  simp only [runningSlot_ok.mpr ⟨found, running⟩, orReturn, reapExpiredLocked,
    record_eq_recordAll, recordAll_modules, recordAll_recordAll] at there
  rw [wanted]
  generalize min _ (inFlightCapacity (reapSlot env slot)) = want at there ⊢
  split_ifs at there
  · simp only [lookup_recordAll _ _ _ found, if_true, Option.some_inj] at there
    rw [← there]
    rfl
  · simp only [lookup_recordAll _ _ _ found, if_true, Option.some_inj] at there
    rw [there]

theorem heartbeat_slot {s : State} {req : HeartbeatRequest} {slot after : RunSlot}
    (env : Env) (found : s.runs.lookup req.runId = some slot) (running : slot.run.state = .running)
    (there : (heartbeat env req s).1.runs.lookup req.runId = some after) :
    after = reapSlot env (renewSlot env req slot) := by
  have renewed := lookup_recordAll (renewSlot env req slot) [] [] found req.runId
  rw [if_pos rfl] at renewed
  unfold heartbeat at there
  simp only [runningSlot_ok.mpr ⟨found, running⟩, orReturn, reapExpiredLocked,
    record_eq_recordAll, recordAll_recordAll, lookup_recordAll _ _ _ found, if_true,
    Option.some_inj] at there
  exact there.symm

/-- The leases that a call reports are as they should be. -/
def Lawful (env : Env) (ms : UInt64) (ids : List String) (after : RunSlot) : Prop :=
  ∀ id ∈ ids, ∃ c, Leased env.now ms after id c

omit [Sha256] [Prost] in
private theorem lawful_iff {env : Env} {ms : UInt64} {ids : List String} {after : RunSlot}
    (early : Early env.now) (asked : ms ≠ 0)
    (claimed : ms.toNat < 2 ^ 63 → ∀ id ∈ ids, ∃ c, after.claimed.lookup id = some c ∧
      c.leaseUntilMs = leaseEnd env.now ms ∧ c.work.leaseUntilUnixMs = c.leaseUntilMs) :
    Lawful env ms ids after ↔ (ids ≠ [] → ms.toNat < 2 ^ 63) := by
  constructor
  · intro lawful some
    obtain ⟨id, listed⟩ := List.exists_mem_of_ne_nil ids some
    obtain ⟨c, leased⟩ := lawful id listed
    have later := leased.later
    rw [leased.set.1] at later
    exact (leaseEnd_later early asked).mp later
  · intro short id listed
    have short := short (List.ne_nil_of_mem listed)
    obtain ⟨c, found, set⟩ := claimed short id listed
    exact ⟨c, leased_of_short early asked short found set⟩

/-- On every reachable RUNNING run, and for every reading of the clock below `2 ^ 62`, the leases that
a claim or a heartbeat sets are as they should be exactly when their length is below `2 ^ 63`, or
there is none to set. -/
theorem leases_iff {policy : ArtifactStorePolicy} {s : State} (reached : Reachable policy s)
    (call : Call) {runId : String} {slot after : RunSlot} (early : Early call.env.now)
    (inTime : checkDeadline call.env call.ctx = .ok ()) (within : scheduledRun call = some runId)
    (found : s.runs.lookup runId = some slot) (running : slot.run.state = .running)
    (there : (step policy s call).1.runs.lookup runId = some after) :
    Lawful call.env (lengthOf slot call.op) (leased (step policy s call).2) after ↔
      (Sets s.modules slot call.env call.op → (lengthOf slot call.op).toNat < 2 ^ 63) := by
  obtain ⟨op, ctx, env⟩ := call
  have given := reachable_defaultLease reached found
  have none : ∀ result : State × Except KernelError Run,
      Lawful env (lengthOf slot op) (leased (reply .run result).2) after ↔
        (False → (lengthOf slot op).toNat < 2 ^ 63) := by
    rintro ⟨-, e | run⟩ <;>
      exact iff_of_true (fun id listed => absurd listed List.not_mem_nil) False.elim
  cases op with
  | claimReady req =>
      obtain rfl : req.runId = runId := Option.some.inj within
      have same : step policy s ⟨.claimReady req, ctx, env⟩ =
          reply .claim (claimReady env req s) := by
        simp only [step, inTime, orReturn]
      rw [same] at there ⊢
      simp only [reply, claimReady_reply env found running, leased, lengthOf] at there ⊢
      rw [@lawful_iff env slot.defaultLeaseMs _ after early given fun _ id listed => ?_]
      · rw [Sets, Ne, List.map_eq_nil_iff, ← List.length_eq_zero_iff,
          Substrate.Framework.InProcess.claimUnits_length, List.length_eq_zero_iff]
      · rw [claimReady_claimed env found running there]
        have length : (reapSlot env slot).defaultLeaseMs = slot.defaultLeaseMs :=
          (reapSlot_terms env slot).defaultLeaseMs
        have units := @claimUnits_claimed env req.runId (reapSlot env slot) _ id (.inl listed)
        rwa [length] at units
  | heartbeat req =>
      obtain rfl : req.runId = runId := Option.some.inj within
      have same : step policy s ⟨.heartbeat req, ctx, env⟩ =
          reply .heartbeat (heartbeat env req s) := by
        simp only [step, inTime, orReturn]
      rw [same] at there ⊢
      have asked : orDefault req.extendLeaseMs slot.defaultLeaseMs ≠ 0 := by
        rw [orDefault]
        split_ifs with unset
        · exact given
        · exact unset
      have ids : leased (reply .heartbeat (heartbeat env req s)).2 =
          req.workIds.filter (· ∈ slot.claimed) := by
        simp only [heartbeat, runningSlot_ok.mpr ⟨found, running⟩, orReturn, reply, leased]
      rw [ids, lengthOf, @lawful_iff env _ _ after early asked fun short id listed => ?_]
      · rw [Sets, Ne, List.filter_eq_nil_iff]
        simp only [decide_eq_true_eq, not_forall, not_not, exists_prop]
      · obtain ⟨asks, member⟩ := List.mem_filter.mp listed
        obtain ⟨c, held⟩ := lookup_of_mem (of_decide_eq_true member)
        rw [heartbeat_slot env found running there]
        refine ⟨renewLease (leaseEnd env.now _) c, ?_, rfl, rfl⟩
        have renewed : (renewSlot env req slot).claimed.lookup id = some (renewLease
            (leaseEnd env.now (orDefault req.extendLeaseMs slot.defaultLeaseMs)) c) := by
          rw [renewSlot, lookup_renew held, if_pos asks]
          rfl
        rw [lookup_reapSlot renewed, if_neg]
        rw [leaseExpired_eq, not_and, Int64.not_le]
        exact fun _ => ((leaseEnd_later early asked).mpr short).1
  | failWork req => exact none _
  | commit submitted => exact none _
  | _ => cases within

end Calls

section Concrete

open Substrate.Kernel.Concrete

/-- A worker claims the only unit and asks for the longest lease there is, five milliseconds later. -/
def longBeat : Call :=
  callAt 5 (.heartbeat { runId := "r", workIds := ["work:r/n"], extendLeaseMs := 2 ^ 64 - 1 })

def shortBeat : Call := callAt 5 (.heartbeat { runId := "r", workIds := ["work:r/n"] })

def held : State := exec policy {} (opening .once .firstTerminal ++ [claimAt 0])

/-- What a call on the run reports as leased, and whether that is no longer claimed. -/
def outcome (s : State) (call : Call) : Option (List String × List Bool) :=
  ((step policy s call).1.runs.lookup "r").map fun after =>
    (leased (step policy s call).2,
      (leased (step policy s call).2).map fun id => (after.claimed.lookup id).isNone)

/-- A claim is reported as renewed, and gone when the call returns. -/
theorem renewed_lost : Reachable policy held ∧
    ∃ after, (step policy held longBeat).1.runs.lookup "r" = some after ∧
      leased (step policy held longBeat).2 = ["work:r/n"] ∧
      after.claimed.lookup "work:r/n" = none ∧
      ¬Lawful longBeat.env (2 ^ 64 - 1) (leased (step policy held longBeat).2) after := by
  have lost : outcome held longBeat = some (["work:r/n"], [true]) := by decide +kernel
  have settled (s : State) (call : Call) (lost : outcome s call = some (["work:r/n"], [true])) :
      ∃ after, (step policy s call).1.runs.lookup "r" = some after ∧
        leased (step policy s call).2 = ["work:r/n"] ∧ after.claimed.lookup "work:r/n" = none ∧
        ¬Lawful call.env (2 ^ 64 - 1) (leased (step policy s call).2) after := by
    obtain ⟨after, there, both⟩ := Option.map_eq_some_iff.mp lost
    obtain ⟨ids, left⟩ := Prod.mk.inj both
    rw [ids] at left
    have gone : after.claimed.lookup "work:r/n" = none :=
      Option.isNone_iff_eq_none.mp (List.cons.inj left).1
    refine ⟨after, there, ids, gone, fun lawful => ?_⟩
    rw [ids] at lawful
    obtain ⟨c, kept⟩ := lawful "work:r/n" (List.mem_singleton.mpr rfl)
    have claimed := kept.claimed
    rw [gone] at claimed
    cases claimed
  exact ⟨⟨_, rfl⟩, settled held longBeat lost⟩

/-- A heartbeat that asks for the default of the run renews the claim. -/
theorem renewed_held : ∃ after, (step policy held shortBeat).1.runs.lookup "r" = some after ∧
    Lawful shortBeat.env 60000 (leased (step policy held shortBeat).2) after := by
  have running : (held.runs.lookup "r").map
      (fun slot => (decide (slot.run.state = .running), slot.defaultLeaseMs)) = some (true, 60000) :=
    by decide +kernel
  have returns : ((step policy held shortBeat).1.runs.lookup "r").isSome = true := by decide +kernel
  have settled (s : State) (reached : Reachable policy s)
      (running : (s.runs.lookup "r").map (fun slot =>
        (decide (slot.run.state = .running), slot.defaultLeaseMs)) = some (true, 60000))
      (returns : ((step policy s shortBeat).1.runs.lookup "r").isSome = true) :
      ∃ after, (step policy s shortBeat).1.runs.lookup "r" = some after ∧
        Lawful shortBeat.env 60000 (leased (step policy s shortBeat).2) after := by
    obtain ⟨slot, found, both⟩ := Option.map_eq_some_iff.mp running
    obtain ⟨open', length⟩ := Prod.mk.inj both
    obtain ⟨after, there⟩ := Option.isSome_iff_exists.mp returns
    have asks : lengthOf slot shortBeat.op = 60000 := length
    have lawful := @leases_iff _ _ policy s reached shortBeat "r" slot after ⟨by decide, by decide⟩
      rfl rfl found (of_decide_eq_true open') there
    rw [asks] at lawful
    exact ⟨after, there, lawful.mpr fun _ => by decide⟩
  exact settled held ⟨_, rfl⟩ running returns

end Concrete

end Substrate.Protocol.Deadlines
