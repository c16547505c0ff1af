/- ID: Substrate/Protocol/Attempts
   source: kernel/sdk/rust/src/lib.rs
   digest: How often a unit is handed out, how its attempts are counted, and what the last one leaves. -/

import Substrate.Protocol.WorkIds
import Substrate.Protocol.Deadlines
import Substrate.Protocol.Lease

set_option autoImplicit false
set_option relaxedAutoImplicit false

namespace Substrate.Protocol.Attempts

open Substrate.Kernel.Wire
open Substrate.Kernel.Hashing
open Substrate.Kernel.Memory
open Substrate.Kernel.Runs
open Substrate.Kernel.Schedule
open Substrate.Kernel.Work
open Substrate.Kernel.Api
open Substrate.Protocol.Atoms
open Substrate.Protocol.Slots
open Substrate.Protocol.Delivery
open Substrate.Protocol.Serial
open Substrate.Protocol.Refine
open Substrate.Protocol.Exclusive
open Substrate.Protocol.WorkIds
open Substrate.Protocol.Provenance (derivations_step)
open Substrate.Protocol.Lease (Newest newest_apply claimAttempts_apply)
open Substrate.Protocol.Typing (pinned_apply)
open Substrate.Protocol.Deadlines (lookup_reapSlot heartbeat_slot)
open Substrate.Library.FiniteMap
open Substrate.Library.Transition

/-- How often a unit of a run was claimed. -/
def attempts (slot : RunSlot) (unitKey : String) : Nat :=
  (slot.claimAttempts.lookup unitKey).elim 0 (·.toNat)

/-- No node is called like a unit key. -/
def PlainIds (slot : RunSlot) : Prop :=
  ∀ node ∈ slot.run.assembly.nodes, ¬ "always:".toList <+: node.id.toList ∧
    ¬ "key:".toList <+: node.id.toList

/-- No unit is claimed more often than it may be, and one that was claimed as often is still claimed
or done, unless the run was cancelled. -/
structure Budgeted (slot : RunSlot) : Prop where
  limit : slot.maxAttempts ≠ 0
  bound : ∀ key, attempts slot key ≤ slot.maxAttempts.toNat
  spent : ∀ key, attempts slot key = slot.maxAttempts.toNat → slot.run.state ≠ .cancelled →
    key ∈ slot.doneUnits ∨ ∃ id c, slot.claimed.lookup id = some c ∧ c.unitKey = key

theorem PlainIds.of_terms {before after : RunSlot} (plain : PlainIds after)
    (terms : SameTerms before after) : PlainIds before := by
  unfold PlainIds
  rw [← terms.assembly]
  exact plain

theorem attempts_eq {slot : RunSlot} (newest : Newest slot) {id : String} {c : ClaimedSlot}
    (held : slot.claimed.lookup id = some c) : attempts slot c.unitKey = c.attempt.toNat := by
  rw [attempts, newest id c held]
  rfl

private theorem budgeted_retire {slot after : RunSlot} {id : String} {c : ClaimedSlot}
    (budget : Budgeted slot) (newest : Newest slot) (live : slot.run.state ≠ .cancelled)
    (held : slot.claimed.lookup id = some c) (claimed : after.claimed = slot.claimed.erase id)
    (counted : after.claimAttempts = slot.claimAttempts)
    (limit : after.maxAttempts = slot.maxAttempts) (kept : slot.doneUnits ⊆ after.doneUnits)
    (done : slot.maxAttempts ≤ c.attempt → c.unitKey ∈ after.doneUnits) : Budgeted after := by
  have same : ∀ key, attempts after key = attempts slot key := fun key => by
    rw [attempts, counted, attempts]
  refine ⟨limit ▸ budget.limit, fun key => ?_, fun key last _ => ?_⟩
  · rw [same, limit]
    exact budget.bound key
  · rw [same, limit] at last
    rcases budget.spent key last live with before | ⟨other, d, there, rfl⟩
    · exact .inl (kept before)
    · by_cases here : other = id
      · subst here
        obtain rfl := Option.some.inj (held.symm.trans there)
        rw [attempts_eq newest held] at last
        exact .inl (done (UInt32.le_iff_toNat_le.mpr last.ge))
      · refine .inr ⟨other, d, ?_, rfl⟩
        rw [claimed, lookup_erase_of, if_neg here]
        exact there

private theorem Budgeted.same {slot after : RunSlot} (budget : Budgeted slot)
    (claimed : after.claimed = slot.claimed) (counted : after.claimAttempts = slot.claimAttempts)
    (limit : after.maxAttempts = slot.maxAttempts) (done : after.doneUnits = slot.doneUnits)
    (live : slot.run.state ≠ .cancelled) : Budgeted after := by
  have same : ∀ key, attempts after key = attempts slot key := fun key => by
    rw [attempts, counted, attempts]
  refine ⟨limit ▸ budget.limit, fun key => ?_, fun key last _ => ?_⟩
  · rw [same, limit]
    exact budget.bound key
  · rw [same, limit] at last
    rw [done, claimed]
    exact budget.spent key last live

section Acts

variable [Sha256]

theorem attempts_left {modules : List ModuleSlot} {slot : RunSlot} {node : AssemblyNode}
    {inputs : List NamedArtifact} {unitKey : String} (budget : Budgeted slot)
    (live : slot.run.state ≠ .cancelled)
    (ready : readyUnit modules slot node = some (inputs, unitKey)) :
    attempts slot unitKey < slot.maxAttempts.toNat := by
  refine lt_of_le_of_ne (budget.bound unitKey) fun last => ?_
  obtain ⟨-, pending, free⟩ := readyUnit_eq_some.mp ready
  rcases budget.spent unitKey last live with done | ⟨id, c, held, same⟩
  · exact pending done
  · exact unitIsClaimed_eq_false.mp free id c held same

theorem claimWork_attempt {modules : List ModuleSlot} {slot : RunSlot} {node : AssemblyNode}
    {inputs : List NamedArtifact} {unitKey : String} (budget : Budgeted slot)
    (live : slot.run.state ≠ .cancelled)
    (ready : readyUnit modules slot node = some (inputs, unitKey)) (env : Env) (runId : String) :
    (claimWork env runId slot (node, inputs, unitKey)).attempt.toNat =
      attempts slot unitKey + 1 := by
  have left := attempts_left budget live ready
  have below := slot.maxAttempts.toNat_lt
  have count : ((slot.claimAttempts.lookup unitKey).getD 0).toNat = attempts slot unitKey := by
    rw [attempts]
    cases slot.claimAttempts.lookup unitKey <;> rfl
  show ((slot.claimAttempts.lookup unitKey).getD 0 + 1).toNat = _
  rw [UInt32.toNat_add, count, UInt32.toNat_one, Nat.mod_eq_of_lt (by omega)]

omit [Sha256] in
theorem attempts_claimSlot (slot : RunSlot) (work : WorkItem) (key : String) :
    attempts (claimSlot slot work) key =
      if key = work.unitKey then work.attempt.toNat else attempts slot key := by
  rw [attempts]
  simp only [claimSlot]
  rw [lookup_insert_of]
  split_ifs <;> rfl

private theorem budgeted_claim {modules : List ModuleSlot} {runId : String} {slot : RunSlot}
    {env : Env} {node : AssemblyNode} {inputs : List NamedArtifact} {unitKey : String}
    (budget : Budgeted slot) (live : slot.run.state ≠ .cancelled) (plain : PlainNames modules slot)
    (named : ClaimsNamed modules runId slot) (member : node ∈ slot.run.assembly.nodes)
    (ready : readyUnit modules slot node = some (inputs, unitKey)) :
    Budgeted (claimSlot slot (claimWork env runId slot (node, inputs, unitKey))) := by
  have left := attempts_left budget live ready
  have next := claimWork_attempt budget live ready env runId
  have fresh := @fresh_id _ runId modules slot env node inputs unitKey plain named member ready
  generalize made : claimWork env runId slot (node, inputs, unitKey) = work at next fresh
  have key_eq : work.unitKey = unitKey := by rw [← made]; rfl
  refine ⟨budget.limit, fun key => ?_, fun key last _ => ?_⟩
  · rw [attempts_claimSlot]
    split_ifs
    · rw [next]
      exact left
    · exact budget.bound key
  · rw [attempts_claimSlot] at last
    split_ifs at last with here
    · exact .inr ⟨work.id, claimOf work, AList.lookup_insert _, here.symm⟩
    · rcases budget.spent key last live with done | ⟨id, c, held, rfl⟩
      · exact .inl done
      · refine .inr ⟨id, c, ?_, rfl⟩
        rw [claimSlot_claimed, lookup_insert_of, if_neg, held]
        rintro rfl
        rw [fresh] at held
        cases held

theorem budgeted_apply {modules : List ModuleSlot} {artifacts : KeyMap String Artifact}
    {runId : String} {slot : RunSlot} {a : SlotAct}
    (guard : a.enabled modules artifacts runId slot) (live : slot.run.state ≠ .cancelled)
    (plain : PlainNames modules slot) (named : ClaimsNamed modules runId slot)
    (newest : Newest slot) (budget : Budgeted slot) : Budgeted (a.apply modules slot) := by
  cases a with
  | inject input => exact budget.same rfl rfl rfl rfl live
  | stall => exact budget.same rfl rfl rfl rfl live
  | cancel => exact ⟨budget.limit, budget.bound, fun key _ live => absurd rfl live⟩
  | claim work =>
      obtain ⟨-, env, node, member, inputs, unitKey, ready, rfl⟩ := guard
      exact budgeted_claim budget live plain named member ready
  | renew id leaseUntil =>
      have counted : (renewClaim leaseUntil slot id).claimAttempts = slot.claimAttempts :=
        @claimAttempts_apply _ modules slot (.renew id leaseUntil) nofun
      have limit := (apply_terms modules slot (.renew id leaseUntil)).maxAttempts
      have done : (renewClaim leaseUntil slot id).doneUnits = slot.doneUnits := by
        unfold renewClaim
        split <;> rfl
      have same : ∀ key, attempts (renewClaim leaseUntil slot id) key = attempts slot key :=
        fun key => by rw [attempts, counted, attempts]
      refine ⟨limit ▸ budget.limit, fun key => ?_, fun key last _ => ?_⟩
      · exact (same key).trans_le (limit ▸ budget.bound key)
      · have last : attempts slot key = slot.maxAttempts.toNat :=
          (same key).symm.trans (last.trans (congrArg UInt32.toNat limit))
        rcases budget.spent key last live with spent | ⟨other, c, held, rfl⟩
        · exact .inl (done.symm ▸ spent)
        · have still := lookup_renewClaim leaseUntil slot id other
          by_cases here : other = id
          · subst here
            rw [if_pos rfl, held] at still
            exact .inr ⟨other, _, still, rfl⟩
          · rw [if_neg here, held] at still
            exact .inr ⟨other, c, still, rfl⟩
  | expire id c =>
      refine budgeted_retire budget newest live guard rfl rfl rfl ?_ fun last => ?_
      · exact doneUnits_apply modules slot (.expire id c)
      · simp only [SlotAct.apply, expireClaim, if_pos last]
        exact Finset.mem_insert_self _ _
  | fail id c reason terminal =>
      refine budgeted_retire budget newest live guard.1 rfl rfl rfl ?_ fun last => ?_
      · exact doneUnits_apply modules slot (.fail id c reason terminal)
      · simp only [SlotAct.apply, failSlot, guard.2 last, if_true]
        exact Finset.mem_insert_self _ _
  | commit c outputs =>
      refine budgeted_retire budget newest live guard.1 ?_ ?_ ?_ ?_ fun _ => ?_
      · rw [SlotAct.apply, settleSlot_claimed]
        rfl
      · rw [SlotAct.apply, settleSlot_claimAttempts]
        rfl
      · exact (apply_terms modules slot (.commit c outputs)).maxAttempts
      · exact doneUnits_apply modules slot (.commit c outputs)
      · exact commit_done modules slot c outputs

end Acts

section Kernel

variable [Sha256] [Prost]

/-- A run whose claims are apart, named and counted, and within its budget. -/
structure Paced (modules : List ModuleSlot) (runId : String) (slot : RunSlot) : Prop where
  apart : Apart slot
  newest : Newest slot
  named : ClaimsNamed modules runId slot
  budget : Budgeted slot

/-- Every run without a node called like a unit key is paced. -/
def AllPaced (s : State) : Prop :=
  ∀ runId slot, s.runs.lookup runId = some slot → PlainIds slot → Paced s.modules runId slot

theorem allPaced_apply {s : State} {a : Atom} (guard : a.enabled s) (before : AllPaced s) :
    AllPaced (a.apply s) := by
  refine slots_apply (I := fun s runId slot => PlainIds slot → Paced s.modules runId slot) guard
    ?_ ?_ ?_ before
  · intro runId slot paced plain
    obtain ⟨apart, newest, named, budget⟩ := paced plain
    exact ⟨apart, newest, fun id c held =>
      (named id c held).frame (fun _ _ known => (pinned_apply s a known).1) (.refl slot), budget⟩
  · rintro slot - ⟨env, req, assembly, maxSteps, rfl, -, -⟩ plain
    have none : ∀ id c, (freshSlot req assembly maxSteps).claimed.lookup id ≠ some c := by
      intro id c held
      simp [freshSlot] at held
    have limit : (freshSlot req assembly maxSteps).maxAttempts ≠ 0 := by
      simp only [freshSlot, orDefault]
      split_ifs with unset
      · decide
      · exact unset
    have zero : ∀ key, attempts (freshSlot req assembly maxSteps) key = 0 := fun key => by
      simp [attempts, freshSlot]
    refine ⟨⟨fun i j c d held => absurd held (none i c), fun id c held => absurd held (none id c)⟩,
      fun id c held => absurd held (none id c), fun id c held => absurd held (none id c),
      limit, fun key => zero key ▸ Nat.zero_le _, fun key last => ?_⟩
    rw [zero] at last
    exact absurd (UInt32.toNat_inj.mp last.symm) limit
  · intro runId slot act _ _ running possible paced plain
    have plain : PlainIds slot := plain.of_terms (apply_terms s.modules slot act)
    obtain ⟨apart, newest, named, budget⟩ := paced plain
    have live : slot.run.state ≠ .cancelled := by
      rw [running]
      decide
    exact ⟨apart_apply possible apart, newest_apply possible newest,
      claimsNamed_apply possible named,
      budgeted_apply possible live (plainNames_of_ids plain) named newest budget⟩

theorem reachable_paced {policy : ArtifactStorePolicy} {s : State} (reached : Reachable policy s) :
    AllPaced s := by
  refine reachable_invariant ?_ (fun s a guard _ before => allPaced_apply guard before) reached
  intro runId slot found
  simp at found

/-- How often a unit was claimed in a run that may not be there yet. -/
def claimsOf (s : State) (runId unitKey : String) : Nat :=
  (s.runs.lookup runId).elim 0 (attempts · unitKey)

def isUnit (runId unitKey : String) (work : WorkItem) : Bool :=
  work.unitKey == unitKey && work.runId == runId

/-- Items that bear the attempts after the first `n`, up to `m`. -/
structure Numbered (n : Nat) (items : List WorkItem) (m : Nat) : Prop where
  least : n ≤ m
  attempts : items.map (·.attempt.toNat) = List.range' (n + 1) (m - n)

omit [Sha256] [Prost] in
theorem Numbered.refl (n : Nat) : Numbered n [] n :=
  ⟨le_rfl, by rw [Nat.sub_self]; rfl⟩

omit [Sha256] [Prost] in
theorem Numbered.append {n m k : Nat} {as bs : List WorkItem} (first : Numbered n as m)
    (second : Numbered m bs k) : Numbered n (as ++ bs) k := by
  obtain ⟨least, numbers⟩ := first
  obtain ⟨least', numbers'⟩ := second
  refine ⟨least.trans least', ?_⟩
  have split : k - n = (m - n) + (k - m) := by omega
  have start : n + 1 + (m - n) = m + 1 := by omega
  rw [List.map_append, numbers, numbers', split, ← List.range'_append_1, start]

omit [Prost] in
private theorem none_elsewhere {s : State} {a : Atom} (guard : a.enabled s) {runId : String}
    (elsewhere : ∀ act, a ≠ .acted runId act) (unitKey : String) :
    a.handsOut.toList.filter (isUnit runId unitKey) = [] := by
  rw [List.filter_eq_nil_iff]
  intro work member mine
  obtain ⟨rid, rfl⟩ := Atom.handsOut_eq_some (Option.mem_toList.mp member)
  obtain ⟨slot, -, -, -, env, node, -, inputs, key, -, rfl⟩ := guard
  rw [isUnit, Bool.and_eq_true] at mine
  exact elsewhere _ (congrArg (Atom.acted · _) (beq_iff_eq.mp mine.2))

omit [Prost] in
private theorem act_numbered {modules : List ModuleSlot} {artifacts : KeyMap String Artifact}
    {runId : String} {slot : RunSlot} {act : SlotAct}
    (possible : act.enabled modules artifacts runId slot) (live : slot.run.state ≠ .cancelled)
    (budget : Budgeted slot) (unitKey : String) : Numbered (attempts slot unitKey)
      (act.handsOut.toList.filter (isUnit runId unitKey))
      (attempts (act.apply modules slot) unitKey) := by
  by_cases claims : ∃ work, act = .claim work
  · obtain ⟨work, rfl⟩ := claims
    obtain ⟨-, env, node, -, inputs, key, ready, rfl⟩ := possible
    have next := claimWork_attempt budget live ready env runId
    have counted : attempts (claimSlot slot (claimWork env runId slot (node, inputs, key))) unitKey =
        if unitKey = key then (claimWork env runId slot (node, inputs, key)).attempt.toNat
        else attempts slot unitKey := attempts_claimSlot slot _ unitKey
    show Numbered _ ([claimWork env runId slot (node, inputs, key)].filter (isUnit runId unitKey)) _
    by_cases mine : unitKey = key
    · subst mine
      have same : isUnit runId unitKey (claimWork env runId slot (node, inputs, unitKey)) = true := by
        rw [isUnit, Bool.and_eq_true, beq_iff_eq, beq_iff_eq]
        exact ⟨rfl, rfl⟩
      rw [if_pos rfl, next] at counted
      rw [List.filter_cons_of_pos same, SlotAct.apply, counted]
      refine ⟨Nat.le_succ _, ?_⟩
      rw [Nat.add_sub_cancel_left]
      simp [next]
    · have other : ¬isUnit runId unitKey (claimWork env runId slot (node, inputs, key)) = true := by
        rw [isUnit, Bool.and_eq_true, beq_iff_eq, beq_iff_eq]
        exact fun both => mine both.1.symm
      rw [if_neg mine] at counted
      rw [List.filter_cons_of_neg other, SlotAct.apply, counted]
      exact .refl _
  · push Not at claims
    have none : act.handsOut = none := by
      cases act with
      | claim work => exact absurd rfl (claims work)
      | _ => rfl
    have same : attempts (act.apply modules slot) unitKey = attempts slot unitKey := by
      rw [attempts, claimAttempts_apply claims, attempts]
    rw [none, same]
    exact .refl _

theorem claims_apply {s : State} {a : Atom} (guard : a.enabled s) (paced : AllPaced s)
    {runId : String} (plain : ∀ slot, s.runs.lookup runId = some slot → PlainIds slot)
    (unitKey : String) : Numbered (claimsOf s runId unitKey)
      (a.handsOut.toList.filter (isUnit runId unitKey)) (claimsOf (a.apply s) runId unitKey) := by
  cases found : s.runs.lookup runId with
  | some slot =>
      rw [claimsOf, found]
      rcases runs_persist guard found with ⟨still, elsewhere⟩ | ⟨act, rfl, running, possible, after⟩
      · rw [none_elsewhere guard elsewhere, claimsOf, still]
        exact .refl _
      · have live : slot.run.state ≠ .cancelled := by
          rw [running]
          decide
        rw [claimsOf, after]
        exact act_numbered possible live (paced runId slot found (plain slot found)).budget unitKey
  | none =>
      have elsewhere : ∀ act, a ≠ .acted runId act := by
        rintro act rfl
        obtain ⟨slot, there, -⟩ := guard
        rw [found] at there
        cases there
      have zero : claimsOf (a.apply s) runId unitKey = 0 := by
        rw [claimsOf]
        cases there : (a.apply s).runs.lookup runId with
        | none => rfl
        | some after =>
            rcases runs_apply guard there with ⟨old, -⟩ | ⟨slot, act, -, old, -⟩ |
              ⟨-, -, -, env, req, assembly, maxSteps, rfl, -, -⟩
            · rw [found] at old
              cases old
            · rw [found] at old
              cases old
            · simp [attempts, freshSlot]
      rw [none_elsewhere guard elsewhere, claimsOf, found, zero]
      exact .refl _

private theorem path_numbered {s t : State} {atoms : List Atom} (path : Path kernel s atoms t)
    (paced : AllPaced s) {runId : String}
    (plain : ∀ slot, t.runs.lookup runId = some slot → PlainIds slot) (unitKey : String) :
    Numbered (claimsOf s runId unitKey)
      ((atoms.filterMap Atom.handsOut).filter (isUnit runId unitKey)) (claimsOf t runId unitKey) := by
  induction path with
  | nil s => exact .refl _
  | @cons s t a atoms guard rest ih =>
      have here := claims_apply guard paced (fun slot found => by
        obtain ⟨after, there, terms⟩ := (persists_path (.cons guard rest)).terms runId slot found
        exact (plain after there).of_terms terms) unitKey
      have later := ih (allPaced_apply guard paced) plain
      have split : (a :: atoms).filterMap Atom.handsOut =
          a.handsOut.toList ++ atoms.filterMap Atom.handsOut := by
        rw [List.filterMap_cons]
        cases a.handsOut <;> rfl
      rw [split, List.filter_append]
      exact here.append later

/-- The items of a unit that a history hands out, oldest first. -/
def handedUnder (policy : ArtifactStorePolicy) (runId unitKey : String) (calls : List Call) :
    List WorkItem :=
  (handedTo policy runId calls).filter (·.unitKey == unitKey)

private theorem emitted_numbered (policy : ArtifactStorePolicy) (calls : List Call) {runId : String}
    (plain : ∀ slot, (exec policy {} calls).runs.lookup runId = some slot → PlainIds slot)
    (unitKey : String) : Numbered 0 ((emitted (fun s call => handedOut (step policy s call).2)
      (fun s call => (step policy s call).1) {} calls).filter (isUnit runId unitKey))
      (claimsOf (exec policy {} calls) runId unitKey) := by
  induction calls using List.reverseRecOn with
  | nil => exact .refl 0
  | append_singleton calls call ih =>
      have reached : Reachable policy (exec policy {} calls) := ⟨calls, rfl⟩
      obtain ⟨atoms, path, -, items⟩ := step_explained policy (reachable_wellFormed reached) call
      rw [exec_snoc] at plain ⊢
      have before := ih fun slot found => by
        obtain ⟨after, there, terms⟩ := (persists_path path).terms runId slot found
        exact (plain after there).of_terms terms
      have here := path_numbered path (reachable_paced reached) plain unitKey
      rw [items] at here
      rw [emitted_snoc, List.filter_append]
      exact before.append here

theorem handedUnder_numbered (policy : ArtifactStorePolicy) (calls : List Call) {runId : String}
    {slot : RunSlot} (found : (exec policy {} calls).runs.lookup runId = some slot)
    (plain : PlainIds slot) (unitKey : String) :
    (handedUnder policy runId unitKey calls).map (·.attempt.toNat) =
      List.range' 1 (attempts slot unitKey) := by
  have numbered := (emitted_numbered policy calls (fun other there =>
    Option.some.inj (found.symm.trans there) ▸ plain) unitKey).attempts
  rw [claimsOf, found, Nat.sub_zero, Nat.zero_add] at numbered
  rw [handedUnder, handedTo, List.filter_filter]
  exact numbered

/-- The claims of a run are reaped by a call: it schedules the run's work, in time, the run is
RUNNING, and it is no commit that was already answered. -/
structure Reaps (s : State) (call : Call) (runId : String) : Prop where
  scheduled : scheduledRun call = some runId
  inTime : checkDeadline call.env call.ctx = .ok ()
  running : ∃ slot, s.runs.lookup runId = some slot ∧ slot.run.state = .running
  unanswered : ∀ submitted, call.op = .commit submitted →
    ∀ r, idempotentGet s "commit" call.ctx ≠ some (.run r)

/-- A call that ends an attempt without a commit: it reaps the run and the lease has expired, or it
fails the work. -/
inductive Ends (policy : ArtifactStorePolicy) (s : State) (call : Call) (runId id : String) :
    ClaimedSlot → Prop
  | expired {c : ClaimedSlot} (reaps : Reaps s call runId) (late : (id, c) ∈ expiring s call) :
      Ends policy s call runId id c
  | failed {c : ClaimedSlot} {req : FailWorkRequest} {run : Run} {slot : RunSlot}
      (fails : call.op = .failWork req) (names : req.runId = runId ∧ req.workId = id)
      (accepted : (step policy s call).2 = .run run) (found : s.runs.lookup runId = some slot)
      (held : slot.claimed.lookup id = some c) : Ends policy s call runId id c

omit [Sha256] [Prost] in
private theorem expire_done {slot : RunSlot} {claims : List (String × ClaimedSlot)}
    {e : String × ClaimedSlot} (member : e ∈ claims) (last : slot.maxAttempts ≤ e.2.attempt) :
    e.2.unitKey ∈ (claims.foldl expireClaim slot).doneUnits := by
  have kept : ∀ (claims : List (String × ClaimedSlot)) (s : RunSlot) (key : String),
      key ∈ s.doneUnits → key ∈ (claims.foldl expireClaim s).doneUnits := by
    intro claims
    induction claims with
    | nil => exact fun _ _ done => done
    | cons first rest ih =>
        intro s key done
        refine ih (expireClaim s first) key ?_
        simp only [expireClaim]
        split_ifs
        · exact Finset.mem_insert_of_mem done
        · exact done
  induction claims generalizing slot with
  | nil => cases member
  | cons first rest ih =>
      rcases List.mem_cons.mp member with rfl | later
      · refine kept rest (expireClaim slot e) _ ?_
        simp only [expireClaim, if_pos last]
        exact Finset.mem_insert_self _ _
      · exact @ih (expireClaim slot first) later last

omit [Sha256] [Prost] in
theorem reapSlot_done {env : Env} {slot : RunSlot} {e : String × ClaimedSlot}
    (member : e ∈ expiredClaims env slot) (last : slot.maxAttempts ≤ e.2.attempt) :
    e.2.unitKey ∈ (reapSlot env slot).doneUnits :=
  expire_done member last

omit [Sha256] [Prost] in
private theorem reaped_expired (env : Env) (slot : RunSlot) :
    expiredClaims env (reapSlot env slot) = [] := by
  rw [List.eq_nil_iff_forall_not_mem]
  rintro ⟨id, c⟩ member
  obtain ⟨held, late⟩ := expiredClaims_lookup member
  rw [lookup_reapSlot (reapSlot_lookup held), if_pos late] at held
  cases held

private theorem reap_again {s : State} {runId : String} {slot : RunSlot} {env : Env}
    (found : s.runs.lookup runId = some slot) :
    (reapExpiredLocked env runId slot s).runs.lookup runId = some (reapSlot env slot) ∧
      reapSlot env (reapSlot env slot) = reapSlot env slot ∧
      reapExpiredLocked env runId (reapSlot env slot) (reapExpiredLocked env runId slot s) =
        reapExpiredLocked env runId slot s := by
  have still : reapSlot env (reapSlot env slot) = reapSlot env slot := by
    rw [reapSlot, reaped_expired]
    rfl
  have there : (reapExpiredLocked env runId slot s).runs.lookup runId = some (reapSlot env slot) := by
    rw [reapExpiredLocked, record_eq_recordAll, lookup_recordAll _ _ _ found, if_pos rfl]
  refine ⟨there, still, ?_⟩
  conv_lhs => rw [reapExpiredLocked, still, reaped_expired, List.flatMap_nil, record_eq_recordAll]
  exact recordAll_self there

private theorem step_reaped {policy : ArtifactStorePolicy} {s : State} {call : Call} {runId : String}
    {slot : RunSlot} (reaps : Reaps s call runId) (found : s.runs.lookup runId = some slot)
    (still : ∀ req, call.op ≠ .heartbeat req) :
    (step policy s call).1 = (step policy (reapExpiredLocked call.env runId slot s) call).1 := by
  obtain ⟨op, ctx, env⟩ := call
  obtain ⟨scheduled, inTime, ⟨slot', found', running⟩, unanswered⟩ := reaps
  obtain rfl := Option.some.inj (found.symm.trans found')
  obtain ⟨there, again, same⟩ := @reap_again _ _ s runId slot env found
  have running' : (reapSlot env slot).run.state = .running := by
    rw [reapSlot_run]
    exact running
  cases op with
  | claimReady req =>
      obtain rfl : req.runId = runId := Option.some.inj scheduled
      simp only [step, inTime, orReturn, reply, claimReady, runningSlot_ok.mpr ⟨found, running⟩,
        runningSlot_ok.mpr ⟨there, running'⟩, again, same]
  | heartbeat req => exact absurd rfl (still req)
  | failWork req =>
      obtain rfl : req.runId = runId := Option.some.inj scheduled
      simp only [step, inTime, orReturn, reply, failWork, runningSlot_ok.mpr ⟨found, running⟩,
        runningSlot_ok.mpr ⟨there, running'⟩, again, same]
  | commit submitted =>
      obtain rfl : submitted.runId = runId := Option.some.inj scheduled
      have none := unanswered submitted rfl
      have none' : ∀ r, idempotentGet (reapExpiredLocked env submitted.runId slot s) "commit" ctx ≠
          some (.run r) := by
        rw [reapExpiredLocked, record_eq]
        exact none
      simp only [step, inTime, orReturn, reply, commitCtx, runningSlot_ok.mpr ⟨found, running⟩,
        runningSlot_ok.mpr ⟨there, running'⟩, again, same]
  | _ => cases scheduled

private theorem path_uncommitted {s t : State} {atoms : List Atom} (path : Path kernel s atoms t)
    (wf : WellFormed s) (paced : AllPaced s) {runId id key : String} {slot after : RunSlot}
    (found : s.runs.lookup runId = some slot) (there : t.runs.lookup runId = some after)
    (plain : PlainIds after) (named : Named s.modules runId slot id key) (done : Done s runId key) :
    ∀ d ∈ t.derivations, d ∈ s.derivations ∨ ¬(d.runId = runId ∧ d.workId = id) := by
  intro d member
  rw [path_derivations path] at member
  refine (List.mem_append.mp member).imp_right fun added => ?_
  rintro ⟨run, work⟩
  obtain ⟨a, here, made⟩ := List.mem_flatMap.mp added
  obtain ⟨pre, post, mid, -, first, guard, rest⟩ := path.split here
  cases a with
  | acted rid act =>
      cases act with
      | commit c outputs =>
          obtain rfl := List.mem_singleton.mp made
          have taken := guard
          obtain ⟨slot', found', -, held, -⟩ := taken
          have wf' : WellFormed mid :=
            first.keeps (P := WellFormed) (fun _ _ guard before => wellFormed_apply guard before) wf
          have paced' : AllPaced mid :=
            first.keeps (P := AllPaced) (fun _ _ guard before => allPaced_apply guard before) paced
          have same : c.work.runId = rid := ((wf' rid slot' found').claims _ c held).runId
          obtain rfl : rid = runId := same.symm.trans run
          obtain rfl : c.work.id = id := work
          have toEnd : Persists mid t := persists_path (.cons guard rest)
          obtain ⟨last, there', terms⟩ := toEnd.terms rid slot' found'
          obtain rfl := Option.some.inj (there.symm.trans there')
          have paced' := paced' rid slot' found' (plain.of_terms terms)
          obtain ⟨mid', found'', terms'⟩ := (persists_path first).terms rid slot found
          obtain rfl := Option.some.inj (found'.symm.trans found'')
          have key_eq : c.unitKey = key := named_inj (plainNames_of_ids (plain.of_terms terms))
            (paced'.named _ c held) (named.frame (persists_path first).pinned terms'.symm)
          obtain ⟨slot'', again, spent⟩ := done_path first done
          obtain rfl := Option.some.inj (found'.symm.trans again)
          exact paced'.apart.pending _ c held (key_eq ▸ spent)
      | _ => cases made
  | _ => cases made

private theorem derivations_still (policy : ArtifactStorePolicy) {s : State} (wf : WellFormed s)
    {call : Call} (other : ∀ submitted, call.op ≠ .commit submitted) :
    (step policy s call).1.derivations = s.derivations := by
  obtain ⟨ds, grown, added⟩ := derivations_step policy wf call
  cases ds with
  | nil => rw [grown, List.append_nil]
  | cons d ds =>
      obtain ⟨submitted, -, -, op, -⟩ := added d List.mem_cons_self
      exact absurd op (other submitted)

omit [Sha256] [Prost] in
private theorem renewed_origin {env : Env} {req : HeartbeatRequest} {slot : RunSlot} {id : String}
    {c : ClaimedSlot} (held : (renewSlot env req slot).claimed.lookup id = some c) :
    ∃ old, slot.claimed.lookup id = some old ∧ old.unitKey = c.unitKey := by
  have each : ∀ (leaseUntil : Int64) (ids : List String) (s : RunSlot),
      (ids.foldl (renewClaim leaseUntil) s).claimed.lookup id = some c →
        ∃ old, s.claimed.lookup id = some old ∧ old.unitKey = c.unitKey := by
    intro leaseUntil ids
    induction ids with
    | nil => exact fun s held => ⟨c, held, rfl⟩
    | cons first ids ih =>
        intro s held
        obtain ⟨mid, there, same⟩ := ih (renewClaim leaseUntil s first) held
        rw [lookup_renewClaim] at there
        split_ifs at there with here
        · obtain ⟨old, was, rfl⟩ := Option.map_eq_some_iff.mp there
          exact ⟨old, here ▸ was, same⟩
        · exact ⟨mid, there, same⟩
  exact each _ _ slot held

private theorem failed_done {policy : ArtifactStorePolicy} {s : State} {call : Call}
    {req : FailWorkRequest} {run : Run} {slot : RunSlot} {c : ClaimedSlot}
    (fails : call.op = .failWork req) (accepted : (step policy s call).2 = .run run)
    (found : s.runs.lookup req.runId = some slot)
    (held : slot.claimed.lookup req.workId = some c) (last : slot.maxAttempts ≤ c.attempt) :
    Done (step policy s call).1 req.runId c.unitKey := by
  obtain ⟨op, ctx, env⟩ := call
  obtain rfl : op = .failWork req := fails
  simp only [step] at accepted ⊢
  cases inTime : checkDeadline env ctx with
  | error e => simp [inTime, orReturn, reply] at accepted
  | ok u =>
      simp only [inTime, orReturn, reply, failWork] at accepted ⊢
      cases running : runningSlot s req.runId with
      | error e => simp [running] at accepted
      | ok slot' =>
          obtain ⟨found', -⟩ := runningSlot_ok.mp running
          obtain rfl := Option.some.inj (found.symm.trans found')
          simp only [running, reapExpiredLocked, record_eq_recordAll] at accepted ⊢
          cases there : (reapSlot env slot).claimed.lookup req.workId with
          | none => simp [there] at accepted
          | some c' =>
              obtain rfl := Option.some.inj (held.symm.trans (reapSlot_lookup there))
              simp only [recordAll_recordAll, recordAll_modules, reapSlot_maxAttempts]
              have spent : c.unitKey ∈ (failSlot (reapSlot env slot) req.workId c
                  (req.terminal || decide (slot.maxAttempts ≤ c.attempt))).doneUnits := by
                simp only [failSlot, decide_eq_true last, Bool.or_true, if_true]
                exact Finset.mem_insert_self _ _
              generalize (if req.reason = "" then "failed" else req.reason) = reason
              split_ifs
              · exact ⟨_, (lookup_recordAll _ _ _ found _).trans (if_pos rfl), spent⟩
              · exact ⟨_, (lookup_recordAll _ _ _ found _).trans (if_pos rfl), spent⟩

omit [Sha256] [Prost] in
private theorem expiring_late {s : State} {call : Call} {runId : String} {slot : RunSlot}
    {e : String × ClaimedSlot} (scheduled : scheduledRun call = some runId)
    (still : ∀ req, call.op ≠ .heartbeat req) (found : s.runs.lookup runId = some slot)
    (late : e ∈ expiring s call) : e ∈ expiredClaims call.env slot := by
  obtain ⟨op, ctx, env⟩ := call
  cases op with
  | claimReady req =>
      obtain rfl : req.runId = runId := Option.some.inj scheduled
      simpa only [expiring, found, Option.elim_some] using late
  | heartbeat req => exact absurd rfl (still req)
  | failWork req =>
      obtain rfl : req.runId = runId := Option.some.inj scheduled
      simpa only [expiring, found, Option.elim_some] using late
  | commit submitted =>
      obtain rfl : submitted.runId = runId := Option.some.inj scheduled
      simpa only [expiring, found, Option.elim_some] using late
  | _ => cases scheduled

private theorem ends_done {policy : ArtifactStorePolicy} {s : State} {call : Call}
    {runId id : String} {slot : RunSlot} {c : ClaimedSlot} (reached : Reachable policy s)
    (found : s.runs.lookup runId = some slot) (plain : PlainIds slot)
    (ends : Ends policy s call runId id c) (last : c.attempt = slot.maxAttempts) :
    (∃ old, slot.claimed.lookup id = some old ∧ old.unitKey = c.unitKey) ∧
      Done (step policy s call).1 runId c.unitKey ∧
      ∀ d ∈ (step policy s call).1.derivations,
        d ∈ s.derivations ∨ ¬(d.runId = runId ∧ d.workId = id) := by
  have wf := reachable_wellFormed reached
  have spent : slot.maxAttempts ≤ c.attempt := last ▸ UInt32.le_refl _
  cases ends with
  | @failed req run slot' fails names accepted found' held =>
      obtain ⟨rfl, rfl⟩ := names
      obtain rfl := Option.some.inj (found.symm.trans found')
      refine ⟨⟨c, held, rfl⟩, failed_done fails accepted found held spent, fun d member => ?_⟩
      rw [derivations_still policy wf fun submitted other => by cases fails.symm.trans other]
        at member
      exact .inl member
  | expired reaps late =>
      obtain ⟨slot', found', running⟩ := reaps.running
      obtain rfl := Option.some.inj (found.symm.trans found')
      by_cases beats : ∃ req, call.op = .heartbeat req
      · obtain ⟨req, beats⟩ := beats
        obtain rfl : req.runId = runId := by
          have scheduled := reaps.scheduled
          rw [scheduledRun, beats] at scheduled
          exact Option.some.inj scheduled
        have late : (id, c) ∈ expiredClaims call.env (renewSlot call.env req slot) := by
          rw [expiring, beats] at late
          simpa only [found, Option.elim_some] using late
        obtain ⟨old, held, same⟩ := renewed_origin (expiredClaims_lookup late).1
        refine ⟨⟨old, held, same⟩, ?_, fun d member => ?_⟩
        · obtain ⟨after, there, -⟩ := (persists_step policy wf call).terms _ _ found
          refine ⟨after, there, ?_⟩
          have reply_eq : (step policy s call).1 = (heartbeat call.env req s).1 := by
            obtain ⟨op, ctx, env⟩ := call
            obtain rfl : op = .heartbeat req := beats
            simp only [step, reaps.inTime, orReturn, reply]
          rw [reply_eq] at there
          rw [heartbeat_slot call.env found running there]
          refine reapSlot_done late ?_
          rw [renewSlot, Heartbeats.renew_maxAttempts]
          exact spent
        · rw [derivations_still policy wf fun submitted other => by cases beats.symm.trans other]
            at member
          exact .inl member
      · push Not at beats
        have late := expiring_late reaps.scheduled beats found late
        have held := (expiredClaims_lookup late).1
        have path := (@reap_trace _ s.modules s.artifacts runId _ slot call.env running).lift found
        have wf' : WellFormed (reapExpiredLocked call.env runId slot s) := by
          rw [reapExpiredLocked, record_eq_recordAll]
          exact path.keeps (P := WellFormed) (fun _ _ guard before => wellFormed_apply guard before) wf
        have paced' : AllPaced (reapExpiredLocked call.env runId slot s) := by
          rw [reapExpiredLocked, record_eq_recordAll]
          exact path.keeps (P := AllPaced) (fun _ _ guard before => allPaced_apply guard before)
            (reachable_paced reached)
        have there := (@reap_again _ _ s runId slot call.env found).1
        have done : Done (reapExpiredLocked call.env runId slot s) runId c.unitKey :=
          ⟨_, there, reapSlot_done late spent⟩
        rw [step_reaped reaps found beats]
        obtain ⟨atoms, later, -⟩ := step_explained policy wf' call
        refine ⟨⟨c, held, rfl⟩, done_path later done, fun d member => ?_⟩
        obtain ⟨after, last', terms⟩ := (persists_path later).terms _ _ there
        have plain' : PlainIds after :=
          plain.of_terms ((reapSlot_terms call.env slot).trans terms).symm
        have named := ((reachable_paced reached) runId slot found plain).named id c held
        have named' : Named (reapExpiredLocked call.env runId slot s).modules runId
            (reapSlot call.env slot) id c.unitKey := by
          rw [reapExpiredLocked, record_eq_recordAll, recordAll_modules]
          exact named.frame (fun _ _ known => known) (reapSlot_terms call.env slot).symm
        have same : (reapExpiredLocked call.env runId slot s).derivations = s.derivations := by
          rw [reapExpiredLocked, record_eq_recordAll, recordAll_eq, List.append_nil]
        rw [← same]
        exact path_uncommitted later wf' paced' there last' plain' named' done d member

/-- The unit of every derivation is done. -/
def Settled (s : State) : Prop :=
  ∀ d ∈ s.derivations, ∃ slot key, s.runs.lookup d.runId = some slot ∧ key ∈ slot.doneUnits ∧
    Named s.modules d.runId slot d.workId key

private theorem settled_exec (policy : ArtifactStorePolicy) (calls : List Call) :
    Settled (exec policy {} calls) := by
  induction calls using List.reverseRecOn with
  | nil => exact fun d member => absurd member List.not_mem_nil
  | append_singleton calls call ih =>
      have reached : Reachable policy (exec policy {} calls) := ⟨calls, rfl⟩
      have apart := keptApart_exec policy calls
      have persists := persists_step policy apart.1 call
      obtain ⟨ds, grown, added⟩ := derivations_step policy apart.1 call
      intro d member
      rw [exec_snoc] at member ⊢
      rw [grown] at member
      have frame : ∀ slot key, (exec policy {} calls).runs.lookup d.runId = some slot →
          Named (exec policy {} calls).modules d.runId slot d.workId key →
          Done (step policy (exec policy {} calls) call).1 d.runId key →
          ∃ slot key, (step policy (exec policy {} calls) call).1.runs.lookup d.runId = some slot ∧
            key ∈ slot.doneUnits ∧
            Named (step policy (exec policy {} calls) call).1.modules d.runId slot d.workId key := by
        rintro slot key found named ⟨after, there, done⟩
        obtain ⟨after', there', terms⟩ := persists.terms _ _ found
        obtain rfl := Option.some.inj (there.symm.trans there')
        exact ⟨after, key, there, done, named.frame persists.pinned terms.symm⟩
      rcases List.mem_append.mp member with old | new
      · obtain ⟨slot, key, found, done, named⟩ := ih d old
        exact frame slot key found named (done_exec apart [call] ⟨slot, found, done⟩)
      · obtain ⟨submitted, slot, c, op, found, held, rfl⟩ := added d new
        have claim := (apart.1 _ slot found).claims _ c held
        have run : (derivationOf c.work submitted.outputs).runId = submitted.runId := claim.runId
        have id : (derivationOf c.work submitted.outputs).workId = submitted.workId := claim.id
        have applied : (submitted.runId, some c.unitKey) ∈
            appliedCommit policy (exec policy {} calls) call := by
          have longer : (exec policy {} calls).derivations.length <
              (step policy (exec policy {} calls) call).1.derivations.length := by
            rw [grown, List.length_append]
            exact Nat.lt_add_of_pos_right (List.length_pos_of_mem new)
          rw [appliedCommit, op]
          simp only [if_pos longer, found, held, Option.bind_some, Option.map_some,
            List.mem_singleton]
        obtain ⟨key, same, -, done⟩ := appliedCommit_spec apart applied
        obtain rfl := Option.some.inj same
        rw [run, id] at frame ⊢
        exact frame slot c.unitKey found (reachable_named reached found _ c held) done

/-- A unit that is done is READY no more, and nothing is committed for it any more. -/
structure Exhausted (s : State) (runId id unitKey : String) : Prop where
  done : Done s runId unitKey
  ready : ∀ slot node inputs, s.runs.lookup runId = some slot →
    readyUnit s.modules slot node ≠ some (inputs, unitKey)
  uncommitted : ∀ d ∈ s.derivations, ¬(d.runId = runId ∧ d.workId = id)

/-- In every run without a node called like a unit key, the items of a unit bear the attempts one, two
and so on, no more than there may be; a claim is the latest of them; and once a call has ended the
last attempt by a failure or an expiry, the unit is done without a derivation and stays so. -/
theorem attempt_budget (policy : ArtifactStorePolicy) (calls : List Call) {runId : String}
    {slot : RunSlot} (found : (exec policy {} calls).runs.lookup runId = some slot)
    (plain : PlainIds slot) :
    (∀ unitKey, let items := handedUnder policy runId unitKey calls
      items.map (·.attempt.toNat) = List.range' 1 items.length ∧
        items.length ≤ slot.maxAttempts.toNat) ∧
    (∀ id c, slot.claimed.lookup id = some c →
      c.attempt.toNat = (handedUnder policy runId c.unitKey calls).length ∧
        c.attempt ≤ slot.maxAttempts) ∧
    ∀ call id c, Ends policy (exec policy {} calls) call runId id c →
      c.attempt = slot.maxAttempts → ∀ later,
        Exhausted (exec policy {} (calls ++ call :: later)) runId id c.unitKey := by
  have reached : Reachable policy (exec policy {} calls) := ⟨calls, rfl⟩
  obtain ⟨apart, newest, named, budget⟩ := reachable_paced reached runId slot found plain
  have count : ∀ unitKey,
      (handedUnder policy runId unitKey calls).length = attempts slot unitKey := by
    intro unitKey
    have numbers := congrArg List.length (handedUnder_numbered policy calls found plain unitKey)
    rwa [List.length_map, List.length_range'] at numbers
  refine ⟨fun unitKey => ?_, fun id c held => ?_, fun call id c ends last later => ?_⟩
  · dsimp only
    rw [count]
    exact ⟨handedUnder_numbered policy calls found plain unitKey, budget.bound unitKey⟩
  · have least := budget.bound c.unitKey
    rw [count, attempts_eq newest held]
    rw [attempts_eq newest held] at least
    exact ⟨rfl, UInt32.le_iff_toNat_le.mpr least⟩
  · obtain ⟨⟨old, held, same⟩, done, quiet⟩ := ends_done reached found plain ends last
    have wf := reachable_wellFormed reached
    obtain ⟨next, there, terms⟩ := (persists_step policy wf call).terms _ _ found
    have reached' : Reachable policy (step policy (exec policy {} calls) call).1 :=
      reachable_step call reached
    obtain ⟨atoms, path⟩ := exec_path policy (reachable_wellFormed reached') later
    obtain ⟨after, last', terms'⟩ := (persists_path path).terms _ _ there
    have plain' : PlainIds after := plain.of_terms (terms.trans terms').symm
    have named' : Named _ runId next id c.unitKey :=
      same ▸ (named id old held).frame (persists_step policy wf call).pinned terms.symm
    rw [exec_append, exec_cons]
    have spent := done_path path done
    refine ⟨spent, fun slot' node inputs found' ready => ?_, fun d member mine => ?_⟩
    · obtain ⟨slot'', again, gone⟩ := spent
      obtain rfl := Option.some.inj (found'.symm.trans again)
      exact (readyUnit_eq_some.mp ready).2.1 gone
    · have early := (path_uncommitted path (reachable_wellFormed reached') (reachable_paced reached')
        there last' plain' named' done d member).resolve_right (not_not.mpr mine)
      obtain ⟨slot', key, found', spent, name⟩ :=
        settled_exec policy calls d ((quiet d early).resolve_right (not_not.mpr mine))
      obtain ⟨rfl, rfl⟩ := mine
      obtain rfl := Option.some.inj (found.symm.trans found')
      have unit := named_inj (plainNames_of_ids plain) name (named _ old held)
      exact apart.pending _ old held (unit ▸ spent)

end Kernel

section Concrete

open Substrate.Kernel.Concrete

/-- A run of `echo@1` whose unit has one attempt, and is claimed. -/
def once : List Call :=
  stocked .once ++ [callAt 0 (.startRun { echoRequest .unspecified with
    limits := some { maxSteps := 9, maxAttempts := 1 } }), claimAt 0]

/-- Whether the run is RUNNING, how many attempts it allows, and whether its names are plain. -/
def seen (calls : List Call) : Option (Bool × UInt32 × Bool) :=
  ((exec policy {} calls).runs.lookup "r").map fun slot =>
    (decide (slot.run.state = .running), slot.maxAttempts, slot.run.assembly.nodes.all fun node =>
      !"always:".toList.isPrefixOf node.id.toList && !"key:".toList.isPrefixOf node.id.toList)

/-- The unit is handed out once, and done without a derivation when the lease has expired. -/
theorem attempt_budget_once :
    (handedUnder policy "r" "once:n" once).map (·.attempt.toNat) = List.range' 1
        (handedUnder policy "r" "once:n" once).length ∧
      ∃ c, Ends policy (exec policy {} once) (claimAt 60000) "r" "work:r/n" c ∧ c.attempt = 1 ∧
        Exhausted (exec policy {} (once ++ [claimAt 60000])) "r" "work:r/n" c.unitKey := by
  have sees : seen once = some (true, 1, true) := by decide +kernel
  have late : (expiring (exec policy {} once) (claimAt 60000)).map (fun e => (e.1, e.2.attempt)) =
      [("work:r/n", 1)] := by decide +kernel
  have settled (calls : List Call) (sees : seen calls = some (true, 1, true))
      (late : (expiring (exec policy {} calls) (claimAt 60000)).map (fun e => (e.1, e.2.attempt)) =
        [("work:r/n", 1)]) :
      (handedUnder policy "r" "once:n" calls).map (·.attempt.toNat) = List.range' 1
          (handedUnder policy "r" "once:n" calls).length ∧
        ∃ c, Ends policy (exec policy {} calls) (claimAt 60000) "r" "work:r/n" c ∧ c.attempt = 1 ∧
          Exhausted (exec policy {} (calls ++ [claimAt 60000])) "r" "work:r/n" c.unitKey := by
    obtain ⟨slot, found, facts⟩ := Option.map_eq_some_iff.mp sees
    simp only [Prod.mk.injEq, decide_eq_true_eq] at facts
    obtain ⟨running, limit, ids⟩ := facts
    have plain : PlainIds slot := fun node member => by
      have names := List.all_eq_true.mp ids node member
      rw [Bool.and_eq_true, Bool.not_eq_true', Bool.not_eq_true'] at names
      rw [← List.isPrefixOf_iff_prefix, ← List.isPrefixOf_iff_prefix, names.1, names.2]
      exact ⟨Bool.false_ne_true, Bool.false_ne_true⟩
    obtain ⟨items, -, exhausted⟩ := attempt_budget policy calls found plain
    obtain ⟨e, listed, ends⟩ := List.map_eq_singleton_iff.mp late
    obtain ⟨id, c⟩ := e
    obtain ⟨rfl, attempt⟩ := Prod.mk.inj ends
    have ended : Ends policy (exec policy {} calls) (claimAt 60000) "r" "work:r/n" c :=
      .expired ⟨rfl, rfl, ⟨slot, found, running⟩, nofun⟩ (listed ▸ List.mem_singleton_self _)
    exact ⟨(items "once:n").1, c, ended, attempt,
      exhausted (claimAt 60000) "work:r/n" c ended (attempt.trans limit.symm) []⟩
  exact settled once sees late

end Concrete

end Substrate.Protocol.Attempts
