/- ID: Substrate/Protocol/Capacity
   source: kernel/sdk/go/kernel.go
   digest: How many units a claim in the Go kernel hands out, and when that is as many as in Rust. -/

import Mathlib.Algebra.Group.Int.Defs
import Mathlib.Data.UInt
import Substrate.Framework.InProcess
import Substrate.Kernel.Marshal
import Substrate.Protocol.Claiming
import Substrate.Protocol.Readiness

set_option autoImplicit false
set_option relaxedAutoImplicit false

namespace Substrate.Protocol.Capacity

open Substrate.Kernel
open Substrate.Kernel.Wire
open Substrate.Kernel.Hashing
open Substrate.Kernel.Memory
open Substrate.Kernel.Runs
open Substrate.Kernel.Schedule
open Substrate.Kernel.Work
open Substrate.Kernel.Sdks
open Substrate.Protocol.Claiming (wanted claimReady_reply)
open Substrate.Protocol.Mirrors (goRecord_eq runningSlot_ok)
open Substrate.Protocol.Readiness (Declared OneBinding currentUnit_eq)
open Substrate.Protocol.Serial
open Substrate.Library.FiniteMap

/-- A claim asks for one unit when it does not say how many. -/
def asked (req : ClaimRequest) : Nat := if req.maxItems = 0 then 1 else req.maxItems.toNat

/-- So many claims are free that their number is no `int`. -/
def Wraps (slot : RunSlot) : Prop :=
  slot.maxInFlight ≠ 0 ∧ 2 ^ 63 ≤ slot.maxInFlight.toNat - size slot.claimed

/-- No more units are claimed than a limit allows. -/
def Room (slot : RunSlot) : Prop :=
  slot.maxInFlight ≠ 0 → size slot.claimed ≤ slot.maxInFlight.toNat

instance (slot : RunSlot) : Decidable (Wraps slot) := instDecidableAnd

/-- A claim hands out something when a unit it asks for is READY and a claim is free, never more than
it asks for and are free, and as much as in Rust. -/
structure Lawful (slot : RunSlot) (req : ClaimRequest) (ready : List Candidate)
    (go rust : ClaimResponse) : Prop where
  some : ready ≠ [] → slot.maxInFlight = 0 ∨ size slot.claimed < slot.maxInFlight.toNat →
    go.items ≠ []
  bounded : go.items.length ≤ if slot.maxInFlight = 0 then asked req
    else min (asked req) (slot.maxInFlight.toNat - size slot.claimed)
  same : go.items.length = rust.items.length

theorem asked_pos (req : ClaimRequest) : 0 < asked req := by
  unfold asked
  split_ifs with zero
  · exact Nat.one_pos
  · exact Nat.pos_of_ne_zero fun none => zero (UInt32.toNat_inj.mp none)

private theorem asked_lt (req : ClaimRequest) : asked req < 2 ^ 32 := by
  unfold asked
  split_ifs
  · decide
  · exact req.maxItems.toNat_lt

private theorem toInt64_toInt (n : UInt64) :
    n.toInt64.toInt = if n.toNat < 2 ^ 63 then (n.toNat : Int) else n.toNat - 2 ^ 64 := by
  rw [show n.toInt64.toInt = n.toBitVec.toInt from rfl, BitVec.toInt_eq_toNat_cond,
    UInt64.toNat_toBitVec]
  split_ifs <;> omega

private theorem capacity_toInt {slot : RunSlot} (room : Room slot) (limited : slot.maxInFlight ≠ 0) :
    (Go.inFlightCapacity slot).toInt =
      if Wraps slot then ((slot.maxInFlight.toNat - size slot.claimed : Nat) : Int) - 2 ^ 64
      else ((slot.maxInFlight.toNat - size slot.claimed : Nat) : Int) := by
  have bound := room limited
  have size_lt : size slot.claimed < 2 ^ 64 := bound.trans_lt slot.maxInFlight.toNat_lt
  have used : (UInt64.ofNat (size slot.claimed)).toNat = size slot.claimed :=
    UInt64.toNat_ofNat_of_lt' size_lt
  unfold Go.inFlightCapacity
  rw [if_neg limited]
  dsimp only
  split_ifs with full wraps wraps
  · rw [UInt64.le_iff_toNat_le, used] at full
    have := wraps.2
    omega
  · rw [UInt64.le_iff_toNat_le, used] at full
    rw [Int64.toInt_zero]
    omega
  all_goals
    rw [UInt64.le_iff_toNat_le, used] at full
    have free : (slot.maxInFlight - UInt64.ofNat (size slot.claimed)).toNat =
        slot.maxInFlight.toNat - size slot.claimed := by
      rw [UInt64.toNat_sub_of_le _ _ (by rw [UInt64.le_iff_toNat_le, used]; omega), used]
    rw [toInt64_toInt, free]
  · rw [if_neg (by have := wraps.2; omega)]
  · rw [if_pos (by have := not_and.mp wraps limited; omega)]

theorem taken_eq {slot : RunSlot} (room : Room slot) (req : ClaimRequest) (ready : List Candidate) :
    (if 0 < Go.wantedItems slot req then ready.take (Go.wantedItems slot req).toNatClampNeg
      else []) = if Wraps slot then [] else ready.take (wanted req slot) := by
  have items : (Int64.ofNat (asked req)).toInt = asked req :=
    Int64.toInt_ofNat_of_lt ((asked_lt req).trans (by decide))
  have least : (Go.wantedItems slot req).toInt =
      min (Go.inFlightCapacity slot).toInt (asked req) := by
    unfold Go.wantedItems
    dsimp only
    rw [← asked]
    split_ifs with less <;> rw [Int64.lt_iff_toInt_lt, items] at less
    · omega
    · rw [items]
      omega
  have few := asked_lt req
  have some := asked_pos req
  simp only [Int64.lt_iff_toInt_lt, Int64.toInt_zero, Int64.toNatClampNeg, least]
  rw [wanted, ← asked, inFlightCapacity]
  by_cases limited : slot.maxInFlight = 0
  · have none : ¬Wraps slot := fun wraps => wraps.1 limited
    have most : (Go.inFlightCapacity slot).toInt = 2 ^ 63 - 1 := by
      rw [Go.inFlightCapacity, if_pos limited]
      rfl
    rw [if_neg none, if_pos limited, most, if_pos (by omega)]
    congr 1
    omega
  · rw [capacity_toInt room limited, if_neg limited]
    split_ifs with wraps positive positive
    · have := slot.maxInFlight.toNat_lt
      omega
    · rfl
    · congr 1
      omega
    · rw [show min (asked req) (slot.maxInFlight.toNat - size slot.claimed) = 0 by omega,
        List.take_zero]

private theorem Room.fewer {slot after : RunSlot} (room : Room slot)
    (limit : after.maxInFlight = slot.maxInFlight)
    (fewer : size after.claimed ≤ size slot.claimed) : Room after := by
  intro limited
  rw [limit] at limited ⊢
  exact fewer.trans (room limited)

private theorem room_expire {slot : RunSlot} (room : Room slot) (e : String × ClaimedSlot) :
    Room (expireClaim slot e) :=
  room.fewer rfl (size_erase_le _ _)

private theorem room_reap {slot : RunSlot} (room : Room slot) (env : Env) :
    Room (reapSlot env slot) := by
  unfold reapSlot
  generalize expiredClaims env slot = expired
  induction expired generalizing slot with
  | nil => exact room
  | cons e rest ih => exact ih (room_expire room e)

private theorem room_stall {slot : RunSlot} (room : Room slot) : Room (stallSlot slot) :=
  room.fewer rfl le_rfl

private theorem room_renew {slot : RunSlot} (room : Room slot) (leaseUntil : Int64)
    (ids : List String) : Room (ids.foldl (renewClaim leaseUntil) slot) := by
  induction ids generalizing slot with
  | nil => exact room
  | cons id rest ih =>
      refine ih ?_
      unfold renewClaim
      split
      · exact room.fewer rfl (size_replace _ _ _).le
      · exact room

private theorem claimUnits_size {env : Env} {runId : String} {slot : RunSlot} {cs : List Candidate} :
    (Go.claimUnits env runId slot cs).1.maxInFlight = slot.maxInFlight ∧
      size (Go.claimUnits env runId slot cs).1.claimed ≤ size slot.claimed + cs.length ∧
      (Go.claimUnits env runId slot cs).2.length = cs.length := by
  induction cs generalizing slot with
  | nil => exact ⟨rfl, le_rfl, rfl⟩
  | cons c rest ih =>
      obtain ⟨node, inputs, unitKey⟩ := c
      obtain ⟨limit, sizes, items⟩ :=
        @ih (claimSlot slot (Go.claimWork env runId slot node inputs unitKey))
      refine ⟨limit, sizes.trans ?_, congrArg Nat.succ items⟩
      have one := size_insert_le slot.claimed (Go.claimWork env runId slot node inputs unitKey).id
        (Slots.claimOf (Go.claimWork env runId slot node inputs unitKey))
      rw [Slots.claimSlot_claimed, List.length_cons]
      omega

private theorem room_claim {slot : RunSlot} (room : Room slot) (env : Env) (req : ClaimRequest)
    (ready : List Candidate) :
    Room (Go.claimUnits env req.runId slot (if Wraps slot then [] else
      ready.take (wanted req slot))).1 := by
  obtain ⟨limit, sizes, -⟩ := @claimUnits_size env req.runId slot
    (if Wraps slot then [] else ready.take (wanted req slot))
  intro limited
  rw [limit] at limited ⊢
  refine sizes.trans ?_
  have bound := room limited
  split_ifs
  · exact bound
  · rw [List.length_take, wanted, inFlightCapacity, if_neg limited]
    omega

section Calls

variable [Sha256] [Prost] [Encodings]

def AllRoom (s : State) : Prop := ∀ runId slot, s.runs.lookup runId = some slot → Room slot

omit [Sha256] [Prost] [Encodings] in
private theorem AllRoom.same {s t : State} (all : AllRoom s) (runs : t.runs = s.runs) :
    AllRoom t := by
  unfold AllRoom
  rwa [runs]

private theorem lookup_record {s : State} {runId : String} {old : RunSlot}
    (found : s.runs.lookup runId = some old) (slot : RunSlot) (events : List LedgerEvent)
    (other : String) : (Go.record s runId slot events).runs.lookup other =
      if other = runId then some slot else s.runs.lookup other := by
  rw [goRecord_eq]
  exact lookup_replace found slot other

private theorem AllRoom.record {s : State} (all : AllRoom s) {runId : String} {old slot : RunSlot}
    (found : s.runs.lookup runId = some old) (room : Room slot) (events : List LedgerEvent) :
    AllRoom (Go.record s runId slot events) := by
  intro other after there
  rw [lookup_record found] at there
  split_ifs at there
  · obtain rfl := Option.some.inj there
    exact room
  · exact all other after there

private theorem recorded {s : State} {runId : String} {old : RunSlot}
    (found : s.runs.lookup runId = some old) (slot : RunSlot) (events : List LedgerEvent) :
    (Go.record s runId slot events).runs.lookup runId = some slot := by
  rw [lookup_record found, if_pos rfl]

private theorem AllRoom.reap {s : State} (all : AllRoom s) {runId : String} {slot : RunSlot}
    {env : Env} (found : s.runs.lookup runId = some slot) (room : Room (reapSlot env slot)) :
    AllRoom (Go.reapExpiredLocked env runId slot s) ∧
      (Go.reapExpiredLocked env runId slot s).runs.lookup runId = some (reapSlot env slot) :=
  ⟨all.record found room _, recorded found _ _⟩

omit [Sha256] [Prost] [Encodings] in
private theorem AllRoom.orReturn {α β : Type} {checked : Except KernelError α} {s : State}
    {f : α → State × Except KernelError β} (all : AllRoom s)
    (next : ∀ a, checked = .ok a → AllRoom (f a).1) :
    AllRoom (Substrate.Kernel.Memory.orReturn checked s f).1 := by
  cases checked with
  | ok a => exact next a rfl
  | error e => exact all

private theorem allRoom_startRun {s : State} (all : AllRoom s) (env : Env) (req : RunRequest)
    (ctx : RequestContext) : AllRoom (Go.startRun env req ctx s).1 := by
  refine all.orReturn fun _ _ => ?_
  split
  · exact all
  · split_ifs
    · exact all
    · exact all
    · split
      · exact all
      · refine all.orReturn fun a _ => all.orReturn fun _ _ => ?_
        dsimp only
        generalize (if (req.limits.getD {}).maxSteps ≠ 0 then (req.limits.getD {}).maxSteps else
          UInt64.ofNat a.nodes.length) = steps
        split_ifs
        · exact all
        · refine AllRoom.same (fun runId slot found => ?_) (idempotentPut_runs _ _ _ _)
          change (s.runs.insert req.id (freshSlot req a steps)).lookup runId = some slot at found
          rw [lookup_insert_of] at found
          split_ifs at found
          · obtain rfl := Option.some.inj found
            exact fun _ => Nat.zero_le _
          · exact all runId slot found

private theorem allRoom_injectInput {s : State} (all : AllRoom s) (env : Env)
    (req : InjectInputRequest) (ctx : RequestContext) :
    AllRoom (Go.injectInput env req ctx s).1 := by
  refine all.orReturn fun _ _ => all.orReturn fun slot taken => ?_
  obtain ⟨found, -⟩ := runningSlot_ok taken
  split
  · exact all
  · split
    · exact all
    · split
      · exact all
      · split
        · rename_i input _ _ _ _ _ _
          have injected : Room (Go.injectSlot slot input) := Room.fewer (all _ _ found) rfl le_rfl
          exact all.record found injected _
        · exact all

private theorem allRoom_claimReady {s : State} (all : AllRoom s) (env : Env) (req : ClaimRequest)
    (ctx : RequestContext) : AllRoom (Go.claimReady env req ctx s).1 := by
  refine all.orReturn fun _ _ => all.orReturn fun slot taken => ?_
  obtain ⟨found, -⟩ := runningSlot_ok taken
  have room := room_reap (all _ _ found) env
  obtain ⟨reaped, there⟩ := all.reap found room
  generalize Go.reapExpiredLocked env req.runId slot s = t at reaped there ⊢
  dsimp only
  rw [taken_eq room req]
  have claimed := room_claim room env req (Go.readyCandidates t.modules (reapSlot env slot) req)
  generalize Go.claimUnits env req.runId (reapSlot env slot) _ = units at claimed ⊢
  split
  · exact (reaped.record there claimed _).record (recorded there _ _) (room_stall claimed) _
  · exact reaped.record there claimed _

private theorem allRoom_heartbeat {s : State} (all : AllRoom s) (env : Env) (req : HeartbeatRequest)
    (ctx : RequestContext) : AllRoom (Go.heartbeat env req ctx s).1 := by
  refine all.orReturn fun _ _ => all.orReturn fun slot taken => ?_
  obtain ⟨found, -⟩ := runningSlot_ok taken
  have room := room_reap (all _ _ found) env
  exact (all.record found room _).record (recorded found _ _) (room_renew room _ _) _

private theorem allRoom_failWork {s : State} (all : AllRoom s) (env : Env) (req : FailWorkRequest)
    (ctx : RequestContext) : AllRoom (Go.failWork env req ctx s).1 := by
  refine all.orReturn fun _ _ => all.orReturn fun slot taken => ?_
  obtain ⟨found, -⟩ := runningSlot_ok taken
  have room := room_reap (all _ _ found) env
  obtain ⟨reaped, there⟩ := all.reap found room
  generalize Go.reapExpiredLocked env req.runId slot s = t at reaped there ⊢
  dsimp only
  split
  · exact reaped
  · rename_i c held
    have failed : Room (failSlot (reapSlot env slot) req.workId c
        (req.terminal || (reapSlot env slot).maxAttempts ≤ c.attempt)) :=
      room.fewer rfl (size_erase_le _ _)
    generalize (if req.reason = "" then "failed" else req.reason) = reason
    split
    · exact (reaped.record there failed _).record (recorded there _ _) (room_stall failed) _
    · exact reaped.record there failed _

omit [Prost] [Encodings] in
private theorem room_closing {modules : List ModuleSlot} {slot : RunSlot} (room : Room slot)
    (d : Derivation) :
    Room (Go.stallRun modules (Go.exhaustRun (Go.answerRun slot d))).slot := by
  have answered : Room (Go.answerRun slot d).slot := by
    unfold Go.answerRun
    split
    · exact room
    · split_ifs <;> exact room.fewer rfl le_rfl
  have exhausted : Room (Go.exhaustRun (Go.answerRun slot d)).slot := by
    unfold Go.exhaustRun
    split_ifs
    · exact answered.fewer rfl le_rfl
    · exact answered
  unfold Go.stallRun
  split_ifs
  · exact room_stall exhausted
  · exact exhausted

private theorem allRoom_commit {s : State} (all : AllRoom s) (env : Env) (submitted : Derivation)
    (ctx : RequestContext) : AllRoom (Go.commit env submitted ctx s).1 := by
  refine all.orReturn fun _ _ => ?_
  split
  · exact all
  · refine all.orReturn fun slot taken => ?_
    obtain ⟨found, -⟩ := runningSlot_ok taken
    have room := room_reap (all _ _ found) env
    obtain ⟨reaped, there⟩ := all.reap found room
    generalize Go.reapExpiredLocked env submitted.runId slot s = t at reaped there ⊢
    dsimp only
    split
    · exact reaped
    · rename_i c held
      split_ifs
      · exact reaped
      · refine reaped.orReturn fun cap _ => reaped.orReturn fun _ _ => ?_
        refine AllRoom.same ?_ (idempotentPut_runs _ _ _ _)
        have settled : Room (Go.settleClaim (reapSlot env slot) c
            (derivationOf c.work submitted.outputs)) := room.fewer rfl (size_erase_le _ _)
        have derived : AllRoom { t with
            derivations := t.derivations ++ [derivationOf c.work submitted.outputs] } :=
          reaped.same rfl
        exact derived.record there (room_closing settled _) _

private theorem allRoom_cancelRun {s : State} (all : AllRoom s) (env : Env) (ref : RunRef)
    (ctx : RequestContext) : AllRoom (Go.cancelRun ref env ctx s).1 := by
  refine all.orReturn fun _ _ => all.orReturn fun slot taken => ?_
  obtain ⟨found, -⟩ := runningSlot_ok taken
  exact all.record found (fun _ => Nat.zero_le _) _

theorem reachable_room {s : State} (reached : Go.Reachable s) : AllRoom s := by
  induction reached with
  | start =>
      intro runId slot found
      simp at found
  | next _ step all =>
      cases step with
      | startRun env req ctx => exact allRoom_startRun all env req ctx
      | injectInput env req ctx => exact allRoom_injectInput all env req ctx
      | claimReady env req ctx => exact allRoom_claimReady all env req ctx
      | heartbeat env req ctx => exact allRoom_heartbeat all env req ctx
      | failWork env req ctx => exact allRoom_failWork all env req ctx
      | commit env submitted ctx => exact allRoom_commit all env submitted ctx
      | cancelRun env ref ctx => exact allRoom_cancelRun all env ref ctx
      | other same => exact all.same same

private theorem goClaim_reply {s : State} {slot : RunSlot} {env : Env} {req : ClaimRequest}
    {ctx : RequestContext} (inTime : checkDeadline env ctx = .ok ())
    (found : s.runs.lookup req.runId = some slot) (running : slot.run.state = .running)
    (room : Room (reapSlot env slot)) :
    (Go.claimReady env req ctx s).2 = .ok { items := (Go.claimUnits env req.runId (reapSlot env slot)
      (if Wraps (reapSlot env slot) then [] else
        (Go.readyCandidates s.modules (reapSlot env slot) req).take
          (wanted req (reapSlot env slot)))).2 } := by
  have modules : (Go.reapExpiredLocked env req.runId slot s).modules = s.modules := by
    rw [Go.reapExpiredLocked, goRecord_eq]
  unfold Go.claimReady
  simp only [inTime, orReturn, runningSlot, found, if_pos running, modules, taken_eq room]
  generalize Go.claimUnits env req.runId (reapSlot env slot) _ = units
  split <;> rfl

omit [Sha256] [Prost] [Encodings] in
private theorem wanted_pos {slot : RunSlot} (req : ClaimRequest)
    (free : slot.maxInFlight = 0 ∨ size slot.claimed < slot.maxInFlight.toNat) :
    0 < wanted req slot := by
  have some := asked_pos req
  rw [wanted, ← asked, inFlightCapacity]
  split_ifs with limited
  · omega
  · have left := free.resolve_left limited
    omega

omit [Sha256] [Prost] [Encodings] in
private theorem lawful_iff {slot : RunSlot} {req : ClaimRequest} {ready rustReady : List Candidate}
    {go rust : ClaimResponse}
    (goItems : go.items.length = if Wraps slot then 0 else min (wanted req slot) ready.length)
    (rustItems : rust.items.length = min (wanted req slot) rustReady.length) :
    Lawful slot req ready go rust ↔
      (Wraps slot → ready = [] ∧ rustReady = []) ∧
        (¬Wraps slot →
          min (wanted req slot) ready.length = min (wanted req slot) rustReady.length) := by
  by_cases wraps : Wraps slot
  · have free : slot.maxInFlight = 0 ∨ size slot.claimed < slot.maxInFlight.toNat := by
      have := wraps.2
      omega
    have some := wanted_pos req free
    rw [if_pos wraps] at goItems
    have none : go.items = [] := List.length_eq_zero_iff.mp goItems
    constructor
    · rintro ⟨lively, -, same⟩
      refine ⟨fun _ => ⟨?_, ?_⟩, fun fits => absurd wraps fits⟩
      · by_contra ready
        exact lively ready free none
      · rw [goItems, rustItems] at same
        exact List.length_eq_zero_iff.mp (by omega)
    · rintro ⟨idle, -⟩
      obtain ⟨rfl, rfl⟩ := idle wraps
      refine ⟨fun ready => absurd rfl ready, ?_, ?_⟩
      · rw [goItems]
        exact Nat.zero_le _
      · rw [goItems, rustItems, List.length_nil, Nat.min_zero]
  · rw [if_neg wraps] at goItems
    constructor
    · rintro ⟨-, -, same⟩
      rw [goItems, rustItems] at same
      exact ⟨fun wrapped => absurd wrapped wraps, fun _ => same⟩
    · rintro ⟨-, same⟩
      refine ⟨fun ready free none => ?_, ?_, ?_⟩
      · have some := wanted_pos req free
        have first := List.length_pos_iff.mpr ready
        rw [none, List.length_nil] at goItems
        omega
      · rw [goItems, wanted, ← asked, inFlightCapacity]
        split_ifs <;> omega
      · rw [goItems, rustItems]
        exact same wraps

omit [Prost] [Encodings] in
theorem readyCandidates_eq {modules : List ModuleSlot} {slot : RunSlot}
    (declared : Declared modules slot) (one : OneBinding slot.run.assembly) (req : ClaimRequest) :
    Go.readyCandidates modules slot req = readyCandidates modules slot req := by
  have units : Go.readyUnit modules slot = readyUnit modules slot := funext fun node => by
    rw [Go.readyUnit, readyUnit, currentUnit_eq declared one node]
  rw [Go.readyCandidates, readyCandidates, units]

private theorem claim_replies {s : State} {env : Env} {req : ClaimRequest} {ctx : RequestContext}
    {slot : RunSlot} (found : s.runs.lookup req.runId = some slot) (room : Room slot)
    (inTime : checkDeadline env ctx = .ok ()) (running : slot.run.state = .running) :
    let now := reapSlot env slot
    let ready := Go.readyCandidates s.modules now req
    let rustReady := readyCandidates s.modules now req
    ∃ go rust, (Go.claimReady env req ctx s).2 = .ok go ∧ (claimReady env req s).2 = .ok rust ∧
      (Lawful now req ready go rust ↔
        (Wraps now → ready = [] ∧ rustReady = []) ∧
          (¬Wraps now →
            min (wanted req now) ready.length = min (wanted req now) rustReady.length)) := by
  intro now ready rustReady
  refine ⟨_, _, goClaim_reply inTime found running (room_reap room env),
    claimReady_reply env found running, lawful_iff ?_ ?_⟩
  · rw [(@claimUnits_size env req.runId now _).2.2]
    split_ifs
    · rfl
    · exact List.length_take
  · rw [Substrate.Framework.InProcess.claimUnits_length, List.length_take]

/-- In every run of a Go kernel no more units are claimed than its limit allows, and a claim hands out
what it should exactly when the number of free claims is an `int` and the two kernels see as many
units READY as it may take; or no unit is READY that it asks for. -/
theorem capacity_iff {s : State} (reached : Go.Reachable s) (env : Env) (req : ClaimRequest)
    (ctx : RequestContext) {slot : RunSlot} (found : s.runs.lookup req.runId = some slot) :
    Room slot ∧ (checkDeadline env ctx = .ok () → slot.run.state = .running →
      let now := reapSlot env slot
      let ready := Go.readyCandidates s.modules now req
      let rustReady := readyCandidates s.modules now req
      (Declared s.modules now → OneBinding now.run.assembly → ready = rustReady) ∧
        ∃ go rust, (Go.claimReady env req ctx s).2 = .ok go ∧ (claimReady env req s).2 = .ok rust ∧
          (Lawful now req ready go rust ↔
            (Wraps now → ready = [] ∧ rustReady = []) ∧
              (¬Wraps now →
                min (wanted req now) ready.length = min (wanted req now) rustReady.length))) := by
  have room := reachable_room reached req.runId slot found
  refine ⟨room, fun inTime running => ?_⟩
  exact ⟨fun declared one => readyCandidates_eq declared one req,
    claim_replies found room inTime running⟩

/-- Where the free claims do not wrap, firings are declared and no port has two bindings, a claim hands
out what it should. -/
theorem claim_lawful {s : State} (reached : Go.Reachable s) {env : Env} {req : ClaimRequest}
    {ctx : RequestContext} {slot : RunSlot} (found : s.runs.lookup req.runId = some slot)
    (inTime : checkDeadline env ctx = .ok ()) (running : slot.run.state = .running)
    (free : ¬Wraps (reapSlot env slot)) (declared : Declared s.modules (reapSlot env slot))
    (one : OneBinding (reapSlot env slot).run.assembly) :
    ∃ go rust, (Go.claimReady env req ctx s).2 = .ok go ∧ (claimReady env req s).2 = .ok rust ∧
      Lawful (reapSlot env slot) req (Go.readyCandidates s.modules (reapSlot env slot) req)
        go rust := by
  obtain ⟨go, rust, answered, answered', iff⟩ :=
    claim_replies found (reachable_room reached req.runId slot found) inTime running
  refine ⟨go, rust, answered, answered', iff.mpr ⟨fun wraps => absurd wraps free, fun _ => ?_⟩⟩
  rw [readyCandidates_eq declared one req]

end Calls

section Concrete

open Substrate.Kernel.Api
open Substrate.Kernel.Concrete
open scoped Substrate.Kernel.Marshal

/-- A run of `echo@1` with a limit on the units in flight. -/
def limited (limit : UInt64) : RunRequest :=
  { echoRequest .unspecified with limits := some { maxSteps := 9, maxInFlight := limit } }

def opened (limit : UInt64) : State :=
  (Go.startRun (envAt 0) (limited limit) {} (exec policy {} (stocked .once))).1

private theorem opened_reachable (limit : UInt64) : Go.Reachable (opened limit) := by
  have stored : (exec policy {} (stocked .once)).runs.entries = [] := by
    decide +kernel
  exact .next (.next .start (.other (AList.ext stored))) (.startRun _ _ _ _)

/-- Whether the run is RUNNING and its free claims wrap, and how many units are READY in Go and Rust. -/
def seen (s : State) : Option (Bool × Bool × Nat × Nat) :=
  (s.runs.lookup "r").map fun slot =>
    let now := reapSlot (envAt 0) slot
    (decide (slot.run.state = .running), decide (Wraps now),
      (Go.readyCandidates s.modules now { runId := "r" }).length,
      (readyCandidates s.modules now { runId := "r" }).length)

private theorem seen_some {s : State} {running wraps : Bool} {go rust : Nat}
    (sees : seen s = some (running, wraps, go, rust)) :
    ∃ slot, s.runs.lookup "r" = some slot ∧ decide (slot.run.state = .running) = running ∧
      decide (Wraps (reapSlot (envAt 0) slot)) = wraps ∧
      (Go.readyCandidates s.modules (reapSlot (envAt 0) slot) { runId := "r" }).length = go ∧
      (readyCandidates s.modules (reapSlot (envAt 0) slot) { runId := "r" }).length = rust := by
  obtain ⟨slot, found, facts⟩ := Option.map_eq_some_iff.mp sees
  simp only [Prod.mk.injEq] at facts
  exact ⟨slot, found, facts⟩

private theorem opened_seen : seen (opened (2 ^ 63)) = some (true, true, 1, 1) ∧
    seen (opened 1) = some (true, false, 1, 1) := by
  decide +kernel

/-- Under a limit of `2 ^ 63` the one READY unit is handed out in Rust and never in Go. -/
theorem wide_limit_starves : ∃ slot go rust, Go.Reachable (opened (2 ^ 63)) ∧
    (opened (2 ^ 63)).runs.lookup "r" = some slot ∧ slot.run.state = .running ∧
    (Go.claimReady (envAt 0) { runId := "r" } {} (opened (2 ^ 63))).2 = .ok go ∧
    (claimReady (envAt 0) { runId := "r" } (opened (2 ^ 63))).2 = .ok rust ∧
    go.items = [] ∧ rust.items.length = 1 ∧
    ¬Lawful (reapSlot (envAt 0) slot) { runId := "r" }
      (Go.readyCandidates (opened (2 ^ 63)).modules (reapSlot (envAt 0) slot) { runId := "r" })
      go rust := by
  have settled (s : State) (reached : Go.Reachable s) (sees : seen s = some (true, true, 1, 1)) :
      ∃ slot go rust, Go.Reachable s ∧ s.runs.lookup "r" = some slot ∧ slot.run.state = .running ∧
        (Go.claimReady (envAt 0) { runId := "r" } {} s).2 = .ok go ∧
        (claimReady (envAt 0) { runId := "r" } s).2 = .ok rust ∧
        go.items = [] ∧ rust.items.length = 1 ∧
        ¬Lawful (reapSlot (envAt 0) slot) { runId := "r" }
          (Go.readyCandidates s.modules (reapSlot (envAt 0) slot) { runId := "r" }) go rust := by
    obtain ⟨slot, found, running, wraps, ready, rustReady⟩ := seen_some sees
    have running := of_decide_eq_true running
    have wraps := of_decide_eq_true wraps
    have room := room_reap (reachable_room reached _ _ found) (envAt 0)
    refine ⟨slot, _, _, reached, found, running, goClaim_reply rfl found running room,
      claimReady_reply _ found running, ?_, ?_, ?_⟩
    · rw [if_pos wraps]
      rfl
    · rw [Substrate.Framework.InProcess.claimUnits_length, List.length_take, rustReady]
      have free : 0 < wanted { runId := "r" } (reapSlot (envAt 0) slot) :=
        wanted_pos _ (.inr (by have := wraps.2; omega))
      omega
    · rintro ⟨-, -, same⟩
      rw [if_pos wraps, Substrate.Framework.InProcess.claimUnits_length, List.length_take,
        rustReady] at same
      have free : 0 < wanted { runId := "r" } (reapSlot (envAt 0) slot) :=
        wanted_pos _ (.inr (by have := wraps.2; omega))
      exact absurd same (by simp only [Go.claimUnits, List.length_nil]; omega)
  exact settled _ (opened_reachable _) opened_seen.1

/-- Under a limit of one the claim is as in Rust. -/
theorem narrow_limit_lawful : ∃ slot go rust,
    (opened 1).runs.lookup "r" = some slot ∧ Room slot ∧
    (Go.claimReady (envAt 0) { runId := "r" } {} (opened 1)).2 = .ok go ∧
    (claimReady (envAt 0) { runId := "r" } (opened 1)).2 = .ok rust ∧
    Lawful (reapSlot (envAt 0) slot) { runId := "r" }
      (Go.readyCandidates (opened 1).modules (reapSlot (envAt 0) slot) { runId := "r" }) go rust := by
  have settled (s : State) (reached : Go.Reachable s) (sees : seen s = some (true, false, 1, 1)) :
      ∃ slot go rust, s.runs.lookup "r" = some slot ∧ Room slot ∧
        (Go.claimReady (envAt 0) { runId := "r" } {} s).2 = .ok go ∧
        (claimReady (envAt 0) { runId := "r" } s).2 = .ok rust ∧
        Lawful (reapSlot (envAt 0) slot) { runId := "r" }
          (Go.readyCandidates s.modules (reapSlot (envAt 0) slot) { runId := "r" }) go rust := by
    obtain ⟨slot, found, running, wraps, ready, rustReady⟩ := seen_some sees
    obtain ⟨room, claims⟩ := capacity_iff reached (envAt 0) { runId := "r" } {} found
    obtain ⟨-, go, rust, went, rusted, lawful⟩ := claims rfl (of_decide_eq_true running)
    refine ⟨slot, go, rust, found, room, went, rusted, lawful.mpr ⟨fun wrapped => ?_, fun _ => ?_⟩⟩
    · exact absurd wrapped (of_decide_eq_false wraps)
    · rw [ready, rustReady]
  exact settled _ (opened_reachable _) opened_seen.2

end Concrete

end Substrate.Protocol.Capacity
