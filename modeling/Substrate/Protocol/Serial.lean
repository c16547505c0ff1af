/- ID: Substrate/Protocol/Serial
   digest: Reaping, renewing and batch claims as acts taken one after another on one slot. -/

import Substrate.Protocol.Delivery

set_option autoImplicit false
set_option relaxedAutoImplicit false

namespace Substrate.Protocol.Serial

open Substrate.Kernel.Wire
open Substrate.Kernel.Hashing
open Substrate.Kernel.Memory
open Substrate.Kernel.Registry
open Substrate.Kernel.Schedule
open Substrate.Kernel.Runs
open Substrate.Kernel.Work
open Substrate.Protocol.Atoms
open Substrate.Protocol.Slots
open Substrate.Protocol.Delivery
open Substrate.Library.FiniteMap
open Substrate.Library.Transition

variable [Sha256]

/-- The acts of one run while modules and artifacts stay as they are. -/
def slotMachine (modules : List ModuleSlot) (artifacts : KeyMap String Artifact) (runId : String) :
    Machine RunSlot SlotAct where
  enabled slot a := slot.run.state = .running ∧ a.enabled modules artifacts runId slot
  apply slot a := a.apply modules slot

/-- The ledger entries that a list of acts leaves. -/
def recordsOf [Prost] (modules : List ModuleSlot) (runId : String) : RunSlot → List SlotAct → List Record
  | _, [] => []
  | slot, a :: as =>
      a.records runId slot (a.apply modules slot) ++ recordsOf modules runId (a.apply modules slot) as

theorem lift_path [Prost] {s : State} {runId : String} {slot after : RunSlot} {acts : List SlotAct}
    (path : Path (slotMachine s.modules s.artifacts runId) slot acts after)
    (found : s.runs.lookup runId = some slot) :
    Path kernel s (acts.map (.acted runId))
      (recordAll s runId after (acts.flatMap SlotAct.derivation)
        (recordsOf s.modules runId slot acts)) := by
  have general : ∀ {modules artifacts} {slot after : RunSlot} {acts : List SlotAct},
      Path (slotMachine modules artifacts runId) slot acts after →
      ∀ t : State, t.modules = modules → t.artifacts = artifacts →
        t.runs.lookup runId = some slot →
        Path kernel t (acts.map (.acted runId))
          (recordAll t runId after (acts.flatMap SlotAct.derivation)
            (recordsOf modules runId slot acts)) := by
    intro modules artifacts slot after acts path
    induction path with
    | nil slot =>
        intro t _ _ there
        have same : recordAll t runId slot [] [] = t := recordAll_self there
        rw [recordsOf, List.flatMap_nil, same]
        exact Path.nil t
    | @cons slot after a as guard rest ih =>
        rintro t rfl rfl there
        have applied : kernel.apply t (.acted runId a) =
            recordAll t runId (a.apply t.modules slot) a.derivation
              (a.records runId slot (a.apply t.modules slot)) := by
          show Atom.apply t (.acted runId a) = _
          simp only [Atom.apply, there]
        have next := ih (kernel.apply t (.acted runId a)) (by rw [applied]; simp)
          (by rw [applied]; simp) (by rw [applied, lookup_recordAll _ _ _ there, if_pos rfl]; rfl)
        have joined : recordAll (kernel.apply t (.acted runId a)) runId after
            (as.flatMap SlotAct.derivation)
            (recordsOf t.modules runId (a.apply t.modules slot) as) =
            recordAll t runId after ((a :: as).flatMap SlotAct.derivation)
              (recordsOf t.modules runId slot (a :: as)) := by
          rw [applied, recordAll_recordAll]
          rfl
        rw [← joined]
        exact Path.cons ⟨slot, there, guard⟩ next
  exact general path s rfl rfl found

theorem recordsOf_append [Prost] {modules : List ModuleSlot} {artifacts : KeyMap String Artifact}
    {runId : String} {slot mid : RunSlot} {as : List SlotAct}
    (path : Path (slotMachine modules artifacts runId) slot as mid) (bs : List SlotAct) :
    recordsOf modules runId slot (as ++ bs) =
      recordsOf modules runId slot as ++ recordsOf modules runId mid bs := by
  induction path with
  | nil slot => rfl
  | cons _ _ ih =>
      rw [List.cons_append, recordsOf, recordsOf, List.append_assoc]
      exact congrArg _ ih

/-- Acts taken in order, with the derivations and ledger entries they leave and the work items they
hand out. -/
structure Trace [Prost] (modules : List ModuleSlot) (artifacts : KeyMap String Artifact)
    (runId : String) (slot : RunSlot) (acts : List SlotAct) (after : RunSlot) (ds : List Derivation)
    (rs : List Record) (items : List WorkItem) : Prop where
  path : Path (slotMachine modules artifacts runId) slot acts after
  derivations : acts.flatMap SlotAct.derivation = ds
  records : recordsOf modules runId slot acts = rs
  items : acts.filterMap SlotAct.handsOut = items

namespace Trace

variable [Prost] {modules : List ModuleSlot} {artifacts : KeyMap String Artifact} {runId : String}

theorem append {slot mid after : RunSlot} {as bs : List SlotAct} {ds ds' : List Derivation}
    {rs rs' : List Record} {items items' : List WorkItem}
    (first : Trace modules artifacts runId slot as mid ds rs items)
    (second : Trace modules artifacts runId mid bs after ds' rs' items') :
    Trace modules artifacts runId slot (as ++ bs) after (ds ++ ds') (rs ++ rs') (items ++ items') :=
  ⟨first.path.append second.path,
    by rw [List.flatMap_append, first.derivations, second.derivations],
    by rw [recordsOf_append first.path, first.records, second.records],
    by rw [List.filterMap_append, first.items, second.items]⟩

theorem single {slot : RunSlot} {a : SlotAct} (running : slot.run.state = .running)
    (guard : a.enabled modules artifacts runId slot) :
    Trace modules artifacts runId slot [a] (a.apply modules slot) a.derivation
      (a.records runId slot (a.apply modules slot)) a.handsOut.toList :=
  ⟨Path.single ⟨running, guard⟩, List.append_nil _, List.append_nil _,
    by cases made : a.handsOut <;> simp [made]⟩

theorem lift {s : State} {slot after : RunSlot} {acts : List SlotAct} {ds : List Derivation}
    {rs : List Record} {items : List WorkItem}
    (trace : Trace s.modules s.artifacts runId slot acts after ds rs items)
    (found : s.runs.lookup runId = some slot) :
    Path kernel s (acts.map (.acted runId)) (recordAll s runId after ds rs) := by
  rw [← trace.derivations, ← trace.records]
  exact lift_path trace.path found

theorem shape {slot after : RunSlot} {acts : List SlotAct} {ds : List Derivation}
    {rs : List Record} {items : List WorkItem}
    (trace : Trace modules artifacts runId slot acts after ds rs items)
    (before : SlotShape runId slot) : SlotShape runId after := by
  refine trace.path.keeps (P := SlotShape runId) ?_ before
  intro slot a guard shape
  exact shape_apply guard.2 shape

end Trace

section Paths

variable {modules : List ModuleSlot} {artifacts : KeyMap String Artifact} {runId : String}

/-- Reaping one expired claim. -/
def expireAct (e : String × ClaimedSlot) : SlotAct := .expire e.1 e.2

omit [Sha256] in
theorem expiredClaims_lookup {env : Env} {slot : RunSlot} {e : String × ClaimedSlot}
    (member : e ∈ expiredClaims env slot) :
    slot.claimed.lookup e.1 = some e.2 ∧ leaseExpired env.now e.2 := by
  simp only [expiredClaims, List.mem_filterMap, Option.map_eq_some_iff,
    Option.filter_eq_some_iff] at member
  obtain ⟨id, -, c, ⟨found, expired⟩, rfl⟩ := member
  exact ⟨found, expired⟩

omit [Sha256] in
theorem expiredClaims_nodup (env : Env) (slot : RunSlot) :
    ((expiredClaims env slot).map Prod.fst).Nodup := by
  have keys : (env.iter slot.claimed.keys).Nodup :=
    (env.iter_perm _).nodup_iff.mpr slot.claimed.keys_nodup
  refine List.Sublist.nodup ?_ keys
  unfold expiredClaims
  generalize env.iter slot.claimed.keys = ids
  induction ids with
  | nil => exact List.Sublist.slnil
  | cons id ids ih =>
      rw [List.filterMap_cons]
      cases (slot.claimed.lookup id).filter (leaseExpired env.now) with
      | none => exact ih.cons id
      | some c => exact ih.cons_cons id

private theorem expire_path {slot : RunSlot} (running : slot.run.state = .running) :
    ∀ {expired : List (String × ClaimedSlot)} (_ : (expired.map Prod.fst).Nodup)
      (_ : ∀ e ∈ expired, slot.claimed.lookup e.1 = some e.2),
      Path (slotMachine modules artifacts runId) slot (expired.map expireAct)
        (expired.foldl expireClaim slot) := by
  intro expired
  induction expired generalizing slot with
  | nil => intro _ _; exact Path.nil slot
  | cons e expired ih =>
      intro distinct there
      rw [List.map_cons, List.nodup_cons] at distinct
      refine Path.cons ⟨running, there e List.mem_cons_self⟩ (ih running distinct.2 ?_)
      intro e' member
      have other : e'.1 ≠ e.1 := by
        intro same
        exact distinct.1 (List.mem_map.mpr ⟨e', member, same⟩)
      show (slot.claimed.erase e.1).lookup e'.1 = some e'.2
      rw [lookup_erase_of, if_neg other]
      exact there e' (List.mem_cons_of_mem _ member)

theorem reap_path {slot : RunSlot} (env : Env) (running : slot.run.state = .running) :
    Path (slotMachine modules artifacts runId) slot ((expiredClaims env slot).map expireAct)
      (reapSlot env slot) :=
  expire_path running (expiredClaims_nodup env slot) fun _ member =>
    (expiredClaims_lookup member).1

private theorem recordsOf_expire [Prost] (slot : RunSlot) (expired : List (String × ClaimedSlot)) :
    recordsOf modules runId slot (expired.map expireAct) =
      expired.flatMap (expiryRecords runId slot.maxAttempts) := by
  induction expired generalizing slot with
  | nil => rfl
  | cons e expired ih =>
      rw [List.map_cons, recordsOf, ih, List.flatMap_cons]
      rfl

theorem reap_trace [Prost] {slot : RunSlot} (env : Env) (running : slot.run.state = .running) :
    Trace modules artifacts runId slot ((expiredClaims env slot).map expireAct) (reapSlot env slot)
      [] ((expiredClaims env slot).flatMap (expiryRecords runId slot.maxAttempts)) [] := by
  refine ⟨reap_path env running, List.flatMap_eq_nil_iff.mpr ?_, recordsOf_expire slot _,
    List.filterMap_eq_nil_iff.mpr ?_⟩
  all_goals
    intro a member
    obtain ⟨e, -, rfl⟩ := List.mem_map.mp member
    rfl

omit [Sha256] in
private theorem foldl_expire_lookup {slot : RunSlot} {expired : List (String × ClaimedSlot)}
    {id : String} {c : ClaimedSlot}
    (found : (expired.foldl expireClaim slot).claimed.lookup id = some c) :
    slot.claimed.lookup id = some c := by
  induction expired generalizing slot with
  | nil => exact found
  | cons e expired ih =>
      have before := ih found
      change (slot.claimed.erase e.1).lookup id = some c at before
      rw [lookup_erase_of] at before
      split_ifs at before
      exact before

omit [Sha256] in
/-- What is still claimed after reaping was claimed before it. -/
theorem reapSlot_lookup {env : Env} {slot : RunSlot} {id : String} {c : ClaimedSlot}
    (found : (reapSlot env slot).claimed.lookup id = some c) :
    slot.claimed.lookup id = some c :=
  foldl_expire_lookup found

omit [Sha256] in
private theorem foldl_expire_frame (slot : RunSlot) (expired : List (String × ClaimedSlot)) :
    (expired.foldl expireClaim slot).run = slot.run ∧
      (expired.foldl expireClaim slot).maxAttempts = slot.maxAttempts ∧
      (expired.foldl expireClaim slot).maxInFlight = slot.maxInFlight ∧
      (expired.foldl expireClaim slot).defaultLeaseMs = slot.defaultLeaseMs := by
  induction expired generalizing slot with
  | nil => exact ⟨rfl, rfl, rfl, rfl⟩
  | cons e expired ih => exact ih (expireClaim slot e)

omit [Sha256] in
@[simp] theorem reapSlot_run (env : Env) (slot : RunSlot) : (reapSlot env slot).run = slot.run :=
  (foldl_expire_frame slot _).1

omit [Sha256] in
@[simp] theorem reapSlot_maxAttempts (env : Env) (slot : RunSlot) :
    (reapSlot env slot).maxAttempts = slot.maxAttempts :=
  (foldl_expire_frame slot _).2.1

omit [Sha256] in
theorem reapSlot_terms (env : Env) (slot : RunSlot) : SameTerms slot (reapSlot env slot) := by
  obtain ⟨run, maxAttempts, maxInFlight, defaultLeaseMs⟩ :=
    foldl_expire_frame slot (expiredClaims env slot)
  exact ⟨by rw [reapSlot, run], by rw [reapSlot, run], by rw [reapSlot, run],
    by rw [reapSlot, run], maxInFlight, defaultLeaseMs, maxAttempts⟩

omit [Sha256] in
theorem mem_renewClaim {leaseUntil : Int64} {slot : RunSlot} {id other : String} :
    other ∈ (renewClaim leaseUntil slot id).claimed ↔ other ∈ slot.claimed := by
  rw [← AList.lookup_isSome, ← AList.lookup_isSome, lookup_renewClaim]
  split_ifs with same
  · rw [same, Option.isSome_map]
  · rfl

omit [Sha256] in
@[simp] theorem renewClaim_run (leaseUntil : Int64) (slot : RunSlot) (id : String) :
    (renewClaim leaseUntil slot id).run = slot.run := by
  unfold renewClaim
  split <;> rfl

theorem renew_path {slot : RunSlot} (leaseUntil : Int64) (ids : List String)
    (running : slot.run.state = .running) :
    Path (slotMachine modules artifacts runId) slot
      ((ids.filter (· ∈ slot.claimed)).map (.renew · leaseUntil))
      (ids.foldl (renewClaim leaseUntil) slot) := by
  induction ids generalizing slot with
  | nil => exact Path.nil slot
  | cons id ids ih =>
      have still : (renewClaim leaseUntil slot id).run.state = .running := by
        rw [renewClaim_run]
        exact running
      have next := ih still
      simp only [mem_renewClaim] at next
      by_cases here : id ∈ slot.claimed
      · rw [List.filter_cons_of_pos (by simpa using here), List.map_cons]
        exact Path.cons ⟨running, here⟩ next
      · rw [List.filter_cons_of_neg (by simpa using here), List.foldl_cons]
        have absent : slot.claimed.lookup id = none := AList.lookup_eq_none.mpr here
        have still : renewClaim leaseUntil slot id = slot := by simp [renewClaim, absent]
        rw [still] at next ⊢
        exact next

private theorem recordsOf_renew [Prost] (slot : RunSlot) (leaseUntil : Int64) (ids : List String) :
    recordsOf modules runId slot (ids.map (.renew · leaseUntil)) = [] := by
  induction ids generalizing slot with
  | nil => rfl
  | cons id ids ih =>
      rw [List.map_cons, recordsOf, ih]
      rfl

theorem renew_trace [Prost] {slot : RunSlot} (leaseUntil : Int64) (ids : List String)
    (running : slot.run.state = .running) :
    Trace modules artifacts runId slot ((ids.filter (· ∈ slot.claimed)).map (.renew · leaseUntil))
      (ids.foldl (renewClaim leaseUntil) slot) [] [] [] := by
  refine ⟨renew_path leaseUntil ids running, List.flatMap_eq_nil_iff.mpr ?_,
    recordsOf_renew slot leaseUntil _, List.filterMap_eq_nil_iff.mpr ?_⟩
  all_goals
    intro a member
    obtain ⟨id, -, rfl⟩ := List.mem_map.mp member
    rfl

omit [Sha256] in
theorem foldl_renew_run (leaseUntil : Int64) (slot : RunSlot) (ids : List String) :
    (ids.foldl (renewClaim leaseUntil) slot).run = slot.run := by
  induction ids generalizing slot with
  | nil => rfl
  | cons id ids ih => exact (ih (renewClaim leaseUntil slot id)).trans (renewClaim_run _ _ _)

/-- Candidates that can be claimed one after another: READY, of distinct units, within capacity. -/
structure Claimable (modules : List ModuleSlot) (slot : RunSlot) (cs : List Candidate) : Prop where
  nodes : ∀ c ∈ cs, c.1 ∈ slot.run.assembly.nodes
  ready : ∀ c ∈ cs, readyUnit modules slot c.1 = some c.2
  distinct : (cs.map (·.2.2)).Nodup
  room : slot.maxInFlight ≠ 0 → size slot.claimed + cs.length ≤ slot.maxInFlight.toNat

private theorem readyUnit_claimSlot {slot : RunSlot} {work : WorkItem} {node : AssemblyNode}
    {unit : List NamedArtifact × String} (ready : readyUnit modules slot node = some unit)
    (other : work.unitKey ≠ unit.2) : readyUnit modules (claimSlot slot work) node = some unit := by
  obtain ⟨inputs, unitKey⟩ := unit
  obtain ⟨current, pending, free⟩ := readyUnit_eq_some.mp ready
  refine readyUnit_eq_some.mpr ⟨current, pending, ?_⟩
  rw [unitIsClaimed_eq_false] at free ⊢
  intro id c found
  rw [claimSlot_claimed, lookup_insert_of] at found
  split_ifs at found
  · obtain rfl := Option.some.inj found
    exact other
  · exact free id c found

private theorem claimable_tail {env : Env} {slot : RunSlot} {c : Candidate} {cs : List Candidate}
    (claimable : Claimable modules slot (c :: cs)) :
    Claimable modules (claimSlot slot (claimWork env runId slot c)) cs := by
  have distinct := claimable.distinct
  rw [List.map_cons, List.nodup_cons] at distinct
  refine ⟨fun c' h => claimable.nodes c' (List.mem_cons_of_mem _ h), ?_, distinct.2, ?_⟩
  · intro c' member
    refine readyUnit_claimSlot (claimable.ready c' (List.mem_cons_of_mem _ member)) ?_
    intro same
    exact distinct.1 (List.mem_map.mpr ⟨c', member, same.symm⟩)
  · intro bounded
    have room := claimable.room bounded
    have grown := size_insert_le slot.claimed (claimWork env runId slot c).id
      (claimOf (claimWork env runId slot c))
    rw [List.length_cons] at room
    rw [claimSlot_claimed]
    show _ ≤ slot.maxInFlight.toNat
    omega

theorem claim_path {env : Env} {slot : RunSlot} {cs : List Candidate}
    (running : slot.run.state = .running) (claimable : Claimable modules slot cs) :
    Path (slotMachine modules artifacts runId) slot
      ((claimUnits env runId slot cs).2.map .claim) (claimUnits env runId slot cs).1 := by
  induction cs generalizing slot with
  | nil => exact Path.nil slot
  | cons c cs ih =>
      refine Path.cons ⟨running, ?_, env, c.1, claimable.nodes c List.mem_cons_self, c.2.1, c.2.2,
        claimable.ready c List.mem_cons_self, rfl⟩ (ih running (claimable_tail claimable))
      intro bounded
      have room := claimable.room bounded
      rw [List.length_cons] at room
      omega

private theorem recordsOf_claim [Prost] (slot : RunSlot) (items : List WorkItem) :
    recordsOf modules runId slot (items.map .claim) = items.map claimedRecord := by
  induction items generalizing slot with
  | nil => rfl
  | cons work items ih =>
      rw [List.map_cons, recordsOf, ih]
      rfl

theorem claim_trace [Prost] (env : Env) {slot : RunSlot} {cs : List Candidate}
    (running : slot.run.state = .running) (claimable : Claimable modules slot cs) :
    Trace modules artifacts runId slot ((claimUnits env runId slot cs).2.map .claim)
      (claimUnits env runId slot cs).1 [] ((claimUnits env runId slot cs).2.map claimedRecord)
      (claimUnits env runId slot cs).2 := by
  refine ⟨claim_path running claimable, List.flatMap_eq_nil_iff.mpr ?_, recordsOf_claim slot _, ?_⟩
  · intro a member
    obtain ⟨work, -, rfl⟩ := List.mem_map.mp member
    rfl
  · rw [List.filterMap_map]
    exact List.filterMap_some

omit [Sha256] in
theorem claimUnits_run (env : Env) (runId : String) (slot : RunSlot) (cs : List Candidate) :
    (claimUnits env runId slot cs).1.run = slot.run := by
  induction cs generalizing slot with
  | nil => rfl
  | cons c cs ih => exact ih (claimSlot slot (claimWork env runId slot c))

theorem mem_readyCandidates {slot : RunSlot} {req : ClaimRequest} {c : Candidate} :
    c ∈ readyCandidates modules slot req ↔ c.1 ∈ slot.run.assembly.nodes ∧
      nodeMatchesClaimFilter req c.1 ∧ readyUnit modules slot c.1 = some c.2 := by
  simp only [readyCandidates, List.mem_filterMap, List.mem_filter, Option.map_eq_some_iff]
  constructor
  · rintro ⟨node, ⟨member, matches'⟩, unit, ready, rfl⟩
    exact ⟨member, matches', ready⟩
  · rintro ⟨member, matches', ready⟩
    exact ⟨c.1, ⟨member, matches'⟩, c.2, ready, rfl⟩

private theorem readyCandidates_nodes (modules : List ModuleSlot) (slot : RunSlot) (req : ClaimRequest) :
    ((readyCandidates modules slot req).map (·.1)).Sublist slot.run.assembly.nodes := by
  refine List.Sublist.trans ?_ (List.filter_sublist (p := nodeMatchesClaimFilter req))
  unfold readyCandidates
  generalize slot.run.assembly.nodes.filter (nodeMatchesClaimFilter req) = nodes
  induction nodes with
  | nil => exact List.Sublist.slnil
  | cons node nodes ih =>
      rw [List.filterMap_cons]
      cases readyUnit modules slot node with
      | none => exact ih.cons node
      | some unit => exact ih.cons_cons node

/-- Taking candidates up to capacity is claimable: nodes have distinct ids, hence distinct units. -/
theorem take_claimable {slot : RunSlot} {req : ClaimRequest} {n : Nat}
    (ids : (slot.run.assembly.nodes.map (·.id)).Nodup) (within : n ≤ inFlightCapacity slot)
    (room : slot.maxInFlight ≠ 0 → size slot.claimed ≤ slot.maxInFlight.toNat) :
    Claimable modules slot ((readyCandidates modules slot req).take n) := by
  have member : ∀ c ∈ (readyCandidates modules slot req).take n,
      c ∈ readyCandidates modules slot req := fun c h => List.mem_of_mem_take h
  refine ⟨fun c h => (mem_readyCandidates.mp (member c h)).1,
    fun c h => (mem_readyCandidates.mp (member c h)).2.2, ?_, ?_⟩
  · have nodeIds : (((readyCandidates modules slot req).take n).map (·.1.id)).Nodup := by
      refine List.Nodup.sublist ((List.take_sublist n _).map _) ?_
      have sub := (readyCandidates_nodes modules slot req).map (·.id)
      rw [List.map_map] at sub
      exact List.Nodup.sublist sub ids
    rw [List.Nodup, List.pairwise_map] at nodeIds ⊢
    refine List.Pairwise.imp_of_mem ?_ nodeIds
    intro a b ha hb distinct same
    have unitA := (readyUnit_eq_some.mp (mem_readyCandidates.mp (member a ha)).2.2).1
    have unitB := (readyUnit_eq_some.mp (mem_readyCandidates.mp (member b hb)).2.2).1
    rw [← same] at unitB
    exact distinct (Identity.currentUnit_node unitA unitB)
  · intro bounded
    have length := List.length_take_le n (readyCandidates modules slot req)
    have fits := room bounded
    rw [inFlightCapacity, if_neg bounded] at within
    omega

end Paths

end Substrate.Protocol.Serial
