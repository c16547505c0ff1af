/- ID: Substrate/Protocol/Lease
   digest: What a message of a worker touches: the claims under the work ids it names, and no others. -/

import Substrate.Kernel.Concrete
import Substrate.Protocol.Exclusive

set_option autoImplicit false
set_option relaxedAutoImplicit false

namespace Substrate.Protocol.Lease

open Substrate.Kernel.Wire
open Substrate.Kernel.Hashing
open Substrate.Kernel.Memory
open Substrate.Kernel.Runs
open Substrate.Kernel.Work
open Substrate.Kernel.Api
open Substrate.Protocol.Atoms
open Substrate.Protocol.Slots
open Substrate.Protocol.Delivery
open Substrate.Protocol.Serial
open Substrate.Protocol.Refine
open Substrate.Protocol.Exclusive
open Substrate.Library.FiniteMap
open Substrate.Library.Transition

section Leases

/-- Every claim is the latest attempt of its unit. -/
def Newest (slot : RunSlot) : Prop :=
  ∀ id c, slot.claimed.lookup id = some c → slot.claimAttempts.lookup c.unitKey = some c.attempt

variable [Sha256]

theorem claimAttempts_apply {modules : List ModuleSlot} {slot : RunSlot} {a : SlotAct}
    (noClaim : ∀ work, a ≠ .claim work) :
    (a.apply modules slot).claimAttempts = slot.claimAttempts := by
  cases a with
  | claim work => exact absurd rfl (noClaim work)
  | commit c outputs => rw [SlotAct.apply, settleSlot_claimAttempts, commitSlot]
  | renew id leaseUntil =>
      simp only [SlotAct.apply, renewClaim]
      split <;> rfl
  | _ => rfl

theorem newest_apply {modules : List ModuleSlot} {artifacts : KeyMap String Artifact}
    {runId : String} {slot : RunSlot} {a : SlotAct}
    (guard : a.enabled modules artifacts runId slot) (newest : Newest slot) :
    Newest (a.apply modules slot) := by
  intro id c found
  rcases claimed_apply found with old | ⟨work, rfl, rfl, rfl⟩ | ⟨leaseUntil, old, rfl, there, rfl⟩
  · by_cases claims : ∃ work, a = .claim work
    · obtain ⟨work, rfl⟩ := claims
      obtain ⟨-, env, node, -, inputs, unitKey, ready, rfl⟩ := guard
      have free := unitIsClaimed_eq_false.mp (readyUnit_eq_some.mp ready).2.2 id c old
      show (slot.claimAttempts.insert unitKey _).lookup c.unitKey = some c.attempt
      rw [lookup_insert_of, if_neg free]
      exact newest id c old
    · push Not at claims
      rw [claimAttempts_apply claims]
      exact newest id c old
  · show (slot.claimAttempts.insert work.unitKey work.attempt).lookup work.unitKey = some work.attempt
    rw [lookup_insert_of, if_pos rfl]
  · rw [claimAttempts_apply (by simp)]
    exact newest id old there

variable [Prost]

theorem reachable_newest {policy : ArtifactStorePolicy} {s : State} (reached : Reachable policy s)
    {runId : String} {slot : RunSlot} (found : s.runs.lookup runId = some slot) : Newest slot := by
  have all : ∀ runId slot, s.runs.lookup runId = some slot → Newest slot := by
    refine reachable_invariant (P := fun s => ∀ runId slot, s.runs.lookup runId = some slot →
      Newest slot) ?_ ?_ reached
    · intro runId slot found
      simp at found
    · intro s a guard _ before
      refine slots_apply (I := fun _ _ slot => Newest slot) guard (fun _ _ h => h) ?_ ?_ before
      · rintro slot - ⟨env, req, assembly, maxSteps, rfl, -, -⟩ id c held
        simp [freshSlot] at held
      · intro runId slot act _ _ _ possible newest
        exact newest_apply possible newest
  exact all runId slot found

/-- The work ids a worker's message names. -/
def named (call : Call) : List String :=
  match call.op with
  | .heartbeat req => req.workIds
  | .failWork req => [req.workId]
  | .commit submitted => [submitted.workId]
  | _ => []

/-- What a message may do to a slot: unexpired claims it does not name stay, none is added, named
ones may get another lease, and only named or expired units become done. -/
structure Touched (call : Call) (before after : RunSlot) : Prop where
  kept : ∀ id c, before.claimed.lookup id = some c → id ∉ named call →
    leaseExpired call.env.now c = false → after.claimed.lookup id = some c
  old : ∀ id c', after.claimed.lookup id = some c' → ∃ c, before.claimed.lookup id = some c ∧
    (c' = c ∨ id ∈ named call ∧ ∃ leaseUntil, c' = renewLease leaseUntil c)
  done : ∀ key ∈ after.doneUnits, key ∈ before.doneUnits ∨ ∃ id c,
    before.claimed.lookup id = some c ∧ c.unitKey = key ∧
      (id ∈ named call ∨ leaseExpired call.env.now c)

omit [Sha256] [Prost] in
theorem Touched.refl (call : Call) (slot : RunSlot) : Touched call slot slot :=
  ⟨fun _ _ held _ _ => held, fun _ c held => ⟨c, held, .inl rfl⟩, fun _ done => .inl done⟩

omit [Sha256] [Prost] in
private theorem touched_retire {call : Call} {before slot after : RunSlot} {id : String}
    {c : ClaimedSlot} (touched : Touched call before slot) (held : slot.claimed.lookup id = some c)
    (mine : id ∈ named call ∨ leaseExpired call.env.now c)
    (claimed : after.claimed = slot.claimed.erase id)
    (done : after.doneUnits ⊆ insert c.unitKey slot.doneUnits) : Touched call before after := by
  obtain ⟨c₀, held₀, same⟩ := touched.old id c held
  have unit : c.unitKey = c₀.unitKey := by
    rcases same with rfl | ⟨-, leaseUntil, rfl⟩ <;> rfl
  have mine₀ : id ∈ named call ∨ leaseExpired call.env.now c₀ := by
    rcases same with rfl | ⟨listed, -⟩
    · exact mine
    · exact .inl listed
  refine ⟨?_, ?_, ?_⟩
  · intro other d there unnamed fresh
    rw [claimed, lookup_erase_of, if_neg]
    · exact touched.kept other d there unnamed fresh
    · rintro rfl
      rw [held₀] at there
      obtain rfl := Option.some.inj there
      rcases mine₀ with listed | expired
      · exact unnamed listed
      · rw [fresh] at expired
        cases expired
  · intro other d there
    rw [claimed, lookup_erase_of] at there
    split_ifs at there
    exact touched.old other d there
  · intro key spent
    rcases Finset.mem_insert.mp (done spent) with rfl | before'
    · exact .inr ⟨id, c₀, held₀, unit.symm, mine₀⟩
    · exact touched.done key before'

omit [Prost] in
private theorem touched_apply {s : State} {call : Call} {modules : List ModuleSlot}
    {artifacts : KeyMap String Artifact} {runId : String} {before slot : RunSlot} {act : SlotAct}
    (notClaim : ∀ req, call.op ≠ .claimReady req) (shape : SlotShape runId before)
    (within : scheduledRun call = some runId) (found : s.runs.lookup runId = some before)
    (allowed : ActAllowed s call act) (guard : act.enabled modules artifacts runId slot)
    (touched : Touched call before slot) : Touched call before (act.apply modules slot) := by
  rcases actAllowed_cases allowed with ⟨e, expired, rfl⟩ | ⟨req, op, -⟩ |
    ⟨req, id, leaseUntil, op, listed, rfl⟩ | ⟨req, op, rfl | ⟨old, c, reason, -, -, rfl⟩⟩ |
    ⟨submitted, old, c, op, there, held, rfl⟩
  · exact touched_retire touched guard (.inr (expiring_expired expired)) rfl insert_if_subset
  · exact absurd op (notClaim req)
  · have mine : id ∈ named call := by
      rw [named, op]
      exact listed
    have done : (renewClaim leaseUntil slot id).doneUnits = slot.doneUnits := by
      unfold renewClaim
      split <;> rfl
    refine ⟨?_, ?_, ?_⟩
    · intro other d held unnamed fresh
      rw [SlotAct.apply, lookup_renewClaim, if_neg]
      · exact touched.kept other d held unnamed fresh
      · rintro rfl
        exact unnamed mine
    · intro other d held
      rw [SlotAct.apply, lookup_renewClaim] at held
      split_ifs at held with same
      · obtain ⟨d', there, rfl⟩ := Option.map_eq_some_iff.mp held
        obtain ⟨c, was, lease⟩ := touched.old id d' there
        subst same
        refine ⟨c, was, .inr ⟨mine, leaseUntil, ?_⟩⟩
        rcases lease with rfl | ⟨-, lu, rfl⟩ <;> rfl
      · exact touched.old other d held
    · rw [SlotAct.apply, done]
      exact touched.done
  · exact ⟨touched.kept, touched.old, touched.done⟩
  · refine touched_retire touched guard.1 (.inl ?_) rfl insert_if_subset
    simp [named, op]
  · have run : submitted.runId = runId := by
      rw [scheduledRun, op] at within
      exact Option.some.inj within
    subst run
    obtain rfl : before = old := Option.some.inj (found.symm.trans there)
    refine touched_retire touched guard.1 (.inl ?_) ?_ ?_
    · rw [named, op, (shape.claims _ c held).id]
      exact List.mem_singleton.mpr rfl
    · rw [SlotAct.apply, settleSlot_claimed]
      rfl
    · rw [SlotAct.apply, settleSlot_doneUnits]
      exact Finset.Subset.refl _

/-- What a message adds to the derivations: nothing, or one of the claim it names, as that claim
stands. -/
def Derived (s : State) (call : Call) (before after : RunSlot) (ds : List Derivation) : Prop :=
  ds = s.derivations ∨ ∃ submitted c, call.op = .commit submitted ∧
    before.claimed.lookup submitted.workId = some c ∧
    ds = s.derivations ++ [derivationOf c.work submitted.outputs] ∧
    after.claimed.lookup submitted.workId = none

omit [Prost] in
theorem absent_apply {modules : List ModuleSlot} {slot : RunSlot} {a : SlotAct} {id : String}
    (noClaim : ∀ work, a ≠ .claim work) (absent : slot.claimed.lookup id = none) :
    (a.apply modules slot).claimed.lookup id = none := by
  rw [Option.eq_none_iff_forall_not_mem]
  intro c held
  rcases claimed_apply held with old | ⟨work, claim, -⟩ | ⟨leaseUntil, old, -, there, -⟩
  · rw [absent] at old
    cases old
  · exact noClaim work claim
  · rw [absent] at there
    cases there

omit [Prost] in
private theorem derived_apply {s : State} {call : Call} {modules : List ModuleSlot}
    {artifacts : KeyMap String Artifact} {runId : String} {before slot : RunSlot} {act : SlotAct}
    {ds : List Derivation} (notClaim : ∀ req, call.op ≠ .claimReady req)
    (shape : SlotShape runId before) (within : scheduledRun call = some runId)
    (found : s.runs.lookup runId = some before) (allowed : ActAllowed s call act)
    (guard : act.enabled modules artifacts runId slot) (derived : Derived s call before slot ds) :
    Derived s call before (act.apply modules slot) (ds ++ act.derivation) := by
  have quiet : (∀ work, act ≠ .claim work) → act.derivation = [] →
      Derived s call before (act.apply modules slot) (ds ++ act.derivation) := by
    intro noClaim none
    rw [none, List.append_nil]
    rcases derived with same | ⟨submitted, c, op, held, added, gone⟩
    · exact .inl same
    · exact .inr ⟨submitted, c, op, held, added, absent_apply noClaim gone⟩
  rcases actAllowed_cases allowed with ⟨e, -, rfl⟩ | ⟨req, op, -⟩ |
    ⟨req, id, leaseUntil, -, -, rfl⟩ | ⟨req, -, rfl | ⟨old, c, reason, -, -, rfl⟩⟩ |
    ⟨submitted, old, c, op, there, held, rfl⟩
  · exact quiet (by simp [expireAct]) rfl
  · exact absurd op (notClaim req)
  · exact quiet (by simp) rfl
  · exact quiet (by simp) rfl
  · exact quiet (by simp) rfl
  · have run : submitted.runId = runId := by
      rw [scheduledRun, op] at within
      exact Option.some.inj within
    subst run
    obtain rfl : before = old := Option.some.inj (found.symm.trans there)
    have id := (shape.claims _ c held).id
    rcases derived with rfl | ⟨submitted', c', op', -, -, gone⟩
    · refine .inr ⟨submitted, c, op, held, rfl, ?_⟩
      rw [SlotAct.apply, settleSlot_claimed, commitSlot, ← id]
      exact AList.lookup_erase _ _
    · rw [op] at op'
      cases op'
      rw [← id, guard.1] at gone
      cases gone

/-- A reply that turns a message away. -/
def Refused (call : Call) : Reply → Prop
  | .error _ => True
  | .heartbeat response => response.renewedWorkIds = [] ∧ response.lostWorkIds = named call
  | _ => False

omit [Sha256] [Prost] in
private theorem reaped_absent {env : Env} {slot : RunSlot} {id : String}
    (absent : slot.claimed.lookup id = none) : (reapSlot env slot).claimed.lookup id = none := by
  rw [Option.eq_none_iff_forall_not_mem]
  intro c held
  have before := reapSlot_lookup held
  rw [absent] at before
  cases before

theorem refused_of_unclaimed {policy : ArtifactStorePolicy} {s : State} {call : Call}
    {runId : String} {slot : RunSlot} (notClaim : ∀ req, call.op ≠ .claimReady req)
    (within : scheduledRun call = some runId) (found : s.runs.lookup runId = some slot)
    (keyless : call.ctx.requestKey = "")
    (unclaimed : ∀ id ∈ named call, slot.claimed.lookup id = none) :
    Refused call (step policy s call).2 := by
  obtain ⟨op, ctx, env⟩ := call
  have gone : ∀ id ∈ named ⟨op, ctx, env⟩, (reapSlot env slot).claimed.lookup id = none :=
    fun id listed => reaped_absent (unclaimed id listed)
  have running : ∀ slot', runningSlot s runId = .ok slot' → slot' = slot := by
    intro slot' ok
    exact Option.some.inj ((runningSlot_ok.mp ok).1.symm.trans found)
  cases op with
  | claimReady req => exact absurd rfl (notClaim req)
  | heartbeat req =>
      obtain rfl : req.runId = runId := Option.some.inj within
      simp only [step, heartbeat, orReturn]
      cases checkDeadline env ctx with
      | error e => trivial
      | ok u =>
          cases open' : runningSlot s req.runId with
          | error e => trivial
          | ok slot' =>
              obtain rfl := running slot' open'
              have none : ∀ id ∈ req.workIds, id ∉ slot'.claimed :=
                fun id listed => AList.lookup_eq_none.mp (unclaimed id listed)
              refine ⟨List.filter_eq_nil_iff.mpr ?_, List.filter_eq_self.mpr ?_⟩
              · intro id listed
                simpa using none id listed
              · intro id listed
                simpa using none id listed
  | failWork req =>
      obtain rfl : req.runId = runId := Option.some.inj within
      simp only [step, failWork, orReturn]
      cases checkDeadline env ctx with
      | error e => trivial
      | ok u =>
          cases open' : runningSlot s req.runId with
          | error e => trivial
          | ok slot' =>
              obtain rfl := running slot' open'
              simp only [gone req.workId (List.mem_singleton.mpr rfl)]
              trivial
  | commit submitted =>
      obtain rfl : submitted.runId = runId := Option.some.inj within
      have noKey : idempotencyKey "commit" ctx = none := if_pos keyless
      simp only [step, commitCtx, orReturn, idempotentGet, noKey, Option.bind_none]
      cases checkDeadline env ctx with
      | error e => trivial
      | ok u =>
          cases open' : runningSlot s submitted.runId with
          | error e => trivial
          | ok slot' =>
              obtain rfl := running slot' open'
              simp only [gone submitted.workId (List.mem_singleton.mpr rfl)]
              trivial
  | _ => cases within

/-- A worker's message on a run of a reachable kernel. Every claim it may meet is the newest attempt
of its unit; the message touches the claims under the work ids it names and expired ones, nothing
else; what it commits is the claim it names as that claim stands; and when none of its work ids is
claimed it is turned away. -/
theorem late_message {policy : ArtifactStorePolicy} {s : State} (reached : Reachable policy s)
    {call : Call} {runId : String} {slot : RunSlot} (notClaim : ∀ req, call.op ≠ .claimReady req)
    (within : scheduledRun call = some runId) (found : s.runs.lookup runId = some slot) :
    Newest slot ∧
      (∃ after, (step policy s call).1.runs.lookup runId = some after ∧ Touched call slot after ∧
        Derived s call slot after (step policy s call).1.derivations) ∧
      ((∀ id ∈ named call, slot.claimed.lookup id = none) →
        (step policy s call).1.derivations = s.derivations ∧
          (call.ctx.requestKey = "" → Refused call (step policy s call).2)) := by
  have wf := reachable_wellFormed reached
  obtain ⟨atoms, path, allowed, -⟩ := step_explained policy wf call
  have end' : ∃ after, (step policy s call).1.runs.lookup runId = some after ∧
      Touched call slot after ∧ Derived s call slot after (step policy s call).1.derivations := by
    refine path.invariant (P := fun u => ∃ after, u.runs.lookup runId = some after ∧
      Touched call slot after ∧ Derived s call slot after u.derivations) (Allowed s call) ?_ allowed
      ⟨slot, found, .refl call slot, .inl rfl⟩
    rintro u a ok guard ⟨mid, there, touched, derived⟩
    have added : (kernel.apply u a).derivations = u.derivations ++ a.derivation :=
      derivations_apply guard
    rcases runs_persist guard there with ⟨still, others⟩ | ⟨act, rfl, -, possible, after⟩
    · have silent : a.derivation = [] := by
        cases a with
        | acted other act =>
            exfalso
            rcases allowed_acted ok with ⟨req, input, op, -⟩ | ⟨ref, op, -⟩ | ⟨run, -⟩
            · simp [scheduledRun, op] at within
            · simp [scheduledRun, op] at within
            · rw [within] at run
              obtain rfl := Option.some.inj run
              exact others act rfl
        | _ => rfl
      exact ⟨mid, still, touched, by rw [added, silent, List.append_nil]; exact derived⟩
    · have scheduled : ActAllowed s call act := by
        rcases allowed_acted ok with ⟨req, input, op, -⟩ | ⟨ref, op, -⟩ | ⟨-, act'⟩
        · simp [scheduledRun, op] at within
        · simp [scheduledRun, op] at within
        · exact act'
      have shape := wf runId slot found
      refine ⟨_, after, touched_apply notClaim shape within found scheduled possible touched, ?_⟩
      rw [added]
      exact derived_apply notClaim shape within found scheduled possible derived
  refine ⟨reachable_newest reached found, end', ?_⟩
  intro unclaimed
  refine ⟨?_, fun keyless => refused_of_unclaimed notClaim within found keyless unclaimed⟩
  obtain ⟨after, -, -, same | ⟨submitted, c, op, held, -⟩⟩ := end'
  · exact same
  · rw [unclaimed submitted.workId (by simp [named, op])] at held
    cases held

end Leases

section Reclaimed

open Substrate.Kernel.Concrete

/-- One worker claims the unit and goes silent; another claims it once the lease has run out. -/
def reclaimed : List Call := opening .once .unspecified ++ [claimAt 0, claimAt 60001]

/-- What a call finds and leaves of the run: the attempt in flight and its lease, the units done and
the derivations. -/
def effect (call : Call) : Option (List (UInt32 × Int64) × List (UInt32 × Int64) × Bool × Nat) :=
  let before := exec policy {} reclaimed
  let after := (step policy before call).1
  let claims := fun slot : RunSlot => (values slot.claimed).map fun c => (c.attempt, c.leaseUntilMs)
  (before.runs.lookup "r").bind fun slot => (after.runs.lookup "r").map fun slot' =>
    (claims slot, claims slot', decide ("once:n" ∈ slot'.doneUnits), after.derivations.length)

/-- Both attempts carry one work id, and a failure, a heartbeat or a commit sent on the strength of
the first is applied to the second. -/
theorem late_message_applied :
    (emitted (fun s call => (handedOut (step policy s call).2).map fun w => (w.id, w.attempt))
        (fun s call => (step policy s call).1) {} reclaimed) = [("work:r/n", 1), ("work:r/n", 2)] ∧
      effect (callAt 60002 (.failWork { runId := "r", workId := "work:r/n", terminal := true })) =
        some ([(2, 120001)], [], true, 0) ∧
      effect (callAt 60002 (.heartbeat
        { runId := "r", workIds := ["work:r/n"], extendLeaseMs := 90000 })) =
        some ([(2, 120001)], [(2, 150002)], false, 0) ∧
      effect (commitAt 60002 "work:r/n" (text "one")) = some ([(2, 120001)], [], true, 1) := by
  refine ⟨?_, ?_, ?_, ?_⟩ <;> decide +kernel

def lateFailure : Call := callAt 60002 (.failWork { runId := "r", workId := "work:r/n" })

theorem late_message_fail :
    ∃ slot, (exec policy {} reclaimed).runs.lookup "r" = some slot ∧ Newest slot ∧
      (∃ after, (step policy (exec policy {} reclaimed) lateFailure).1.runs.lookup "r" = some after ∧
        Touched lateFailure slot after ∧ Derived (exec policy {} reclaimed) lateFailure slot after
          (step policy (exec policy {} reclaimed) lateFailure).1.derivations) ∧
      ((∀ id ∈ named lateFailure, slot.claimed.lookup id = none) →
        (step policy (exec policy {} reclaimed) lateFailure).1.derivations =
            (exec policy {} reclaimed).derivations ∧
          (lateFailure.ctx.requestKey = "" →
            Refused lateFailure (step policy (exec policy {} reclaimed) lateFailure).2)) := by
  have running : ((exec policy {} reclaimed).runs.lookup "r").isSome = true := by decide +kernel
  obtain ⟨slot, found⟩ := Option.isSome_iff_exists.mp running
  have message : ∀ req, lateFailure.op ≠ .claimReady req := fun _ => nofun
  exact ⟨slot, found, late_message ⟨reclaimed, rfl⟩ message rfl found⟩

end Reclaimed

end Substrate.Protocol.Lease
