/- ID: Substrate/Protocol/Claiming
   digest: What a claim hands out: the first due nodes in assembly order, while each resolves. -/

import Substrate.Kernel.Concrete
import Substrate.Protocol.Stalling
import Substrate.Protocol.Typing

set_option autoImplicit false
set_option relaxedAutoImplicit false

namespace Substrate.Protocol.Claiming

open Substrate.Kernel.Wire
open Substrate.Kernel.Hashing
open Substrate.Kernel.Memory
open Substrate.Kernel.Registry
open Substrate.Kernel.Schedule
open Substrate.Kernel.Runs
open Substrate.Kernel.Work
open Substrate.Kernel.Api
open Substrate.Protocol.Atoms
open Substrate.Protocol.Slots
open Substrate.Protocol.Delivery
open Substrate.Protocol.Serial
open Substrate.Protocol.Refine
open Substrate.Protocol.Typing
open Substrate.Protocol.Validation
open Substrate.Library.Checks
open Substrate.Library.FiniteMap

section Claiming

variable [Sha256]

omit [Sha256] in
/-- What a claim asks for; an empty filter admits every node. -/
structure Asked (req : ClaimRequest) (node : AssemblyNode) : Prop where
  module : req.module = "" ∨ node.module = req.module
  modules : req.modules = [] ∨ node.module ∈ req.modules
  nodeIds : req.nodeIds = [] ∨ node.id ∈ req.nodeIds

/-- The key of a node's unit on given inputs, under the capability its run was validated against. -/
def frozenKey (modules : List ModuleSlot) (slot : RunSlot) (node : AssemblyNode)
    (inputs : List NamedArtifact) : Option String :=
  (pinned modules node).bind fun cap =>
    workUnitKey slot node cap (effectiveFiring slot node cap) inputs

omit [Sha256] in
/-- A unit that is neither DONE nor CLAIMED. -/
def Pending (slot : RunSlot) (unitKey : String) : Prop :=
  unitKey ∉ slot.doneUnits ∧ ∀ id c, slot.claimed.lookup id = some c → c.unitKey ≠ unitKey

/-- A node that a claim asks for, with all bindings resolved, whose current unit is pending. -/
def Due (modules : List ModuleSlot) (slot : RunSlot) (req : ClaimRequest) (node : AssemblyNode) :
    Prop :=
  Asked req node ∧ ∃ inputs, resolveInputs slot node = some inputs ∧
    ∀ unitKey, frozenKey modules slot node inputs = some unitKey → Pending slot unitKey

omit [Sha256] in
theorem nodeMatches_iff {req : ClaimRequest} {node : AssemblyNode} :
    nodeMatchesClaimFilter req node = true ↔ Asked req node := by
  simp only [nodeMatchesClaimFilter, Bool.and_eq_true, Bool.or_eq_true, beq_iff_eq, List.any_eq_true,
    exists_eq_right]
  constructor
  · rintro ⟨⟨module, modules⟩, nodeIds⟩
    exact ⟨module, modules, nodeIds⟩
  · rintro ⟨module, modules, nodeIds⟩
    exact ⟨⟨module, modules⟩, nodeIds⟩

omit [Sha256] in
theorem pending_iff {slot : RunSlot} {unitKey : String} :
    Pending slot unitKey ↔ unitKey ∉ slot.doneUnits ∧ unitIsClaimed slot unitKey = false := by
  rw [Pending, unitIsClaimed_eq_false]

omit [Sha256] in
instance (slot : RunSlot) (unitKey : String) : Decidable (Pending slot unitKey) :=
  decidable_of_iff _ pending_iff.symm

instance (modules : List ModuleSlot) (slot : RunSlot) (req : ClaimRequest) (node : AssemblyNode) :
    Decidable (Due modules slot req node) :=
  decidable_of_iff (nodeMatchesClaimFilter req node = true ∧
      ∃ inputs ∈ resolveInputs slot node, ∀ unitKey ∈ frozenKey modules slot node inputs,
        Pending slot unitKey)
    (and_congr nodeMatches_iff Iff.rfl)

/-- The due nodes in assembly order. -/
def dueNodes (modules : List ModuleSlot) (slot : RunSlot) (req : ClaimRequest) :
    List AssemblyNode :=
  slot.run.assembly.nodes.filter fun node => Due modules slot req node

/-- The work handed out for a node: its resolved inputs, its unit and the next attempt of that. -/
def HandedOut (modules : List ModuleSlot) (slot : RunSlot) (env : Env) (runId : String)
    (node : AssemblyNode) (work : WorkItem) : Prop :=
  ∃ inputs unitKey, resolveInputs slot node = some inputs ∧
    frozenKey modules slot node inputs = some unitKey ∧
    work = { id := workId runId node.id unitKey, runId, nodeId := node.id, module := node.module
             moduleVersion := node.moduleVersion, capability := node.capability, inputs, unitKey
             attempt := (slot.claimAttempts.lookup unitKey).getD 0 + 1
             leaseUntilUnixMs := saturatingAdd env.now (Int64.ofNat slot.defaultLeaseMs.toNat) }

omit [Sha256] in
/-- How many units a claim may take. -/
def wanted (req : ClaimRequest) (slot : RunSlot) : Nat :=
  min (if req.maxItems = 0 then 1 else req.maxItems.toNat) (inFlightCapacity slot)

/-- A claim on a reaped slot hands out exactly the first due nodes, and something whenever any unit is
ready, nothing is filtered out and a claim is free. -/
structure HandsOut (modules : List ModuleSlot) (slot : RunSlot) (env : Env) (req : ClaimRequest)
    (reply : Except KernelError ClaimResponse) : Prop where
  items : ∃ resp, reply = .ok resp ∧ List.Forall₂ (HandedOut modules slot env req.runId)
    ((dueNodes modules slot req).take (wanted req slot)) resp.items
  some : req.module = "" → req.modules = [] → req.nodeIds = [] → 0 < inFlightCapacity slot →
    ((∃ resp, reply = .ok resp ∧ resp.items ≠ []) ↔ assemblyAnyReady modules slot = true)

variable {modules : List ModuleSlot} {slot : RunSlot} {req : ClaimRequest} {node : AssemblyNode}

omit [Sha256] in
private theorem toOption_some {ε α : Type} {x : Except ε α} {a : α} :
    x.toOption = some a ↔ x = .ok a := by
  cases x <;> simp [Except.toOption]

theorem readyUnit_iff {inputs : List NamedArtifact} {unitKey : String} :
    readyUnit modules slot node = some (inputs, unitKey) ↔
      (∃ cap, capabilityForNode modules node = .ok cap) ∧ resolveInputs slot node = some inputs ∧
        frozenKey modules slot node inputs = some unitKey ∧ Pending slot unitKey := by
  rw [readyUnit_eq_some, pending_iff]
  simp only [currentUnit, Option.bind_eq_some_iff, Option.map_eq_some_iff, Prod.mk.injEq,
    toOption_some]
  constructor
  · rintro ⟨⟨given, resolves, cap, resolved, key, made, rfl, rfl⟩, pending⟩
    refine ⟨⟨cap, resolved⟩, resolves, ?_, pending⟩
    rw [frozenKey, pinned_of_resolved resolved]
    exact made
  · rintro ⟨⟨cap, resolved⟩, resolves, made, pending⟩
    rw [frozenKey, pinned_of_resolved resolved] at made
    exact ⟨⟨inputs, resolves, cap, resolved, unitKey, made, rfl, rfl⟩, pending⟩

theorem frozenKey_some {cap : Capability} (known : pinned modules node = some cap)
    {inputs : List NamedArtifact} (resolves : resolveInputs slot node = some inputs) :
    ∃ unitKey, frozenKey modules slot node inputs = some unitKey := by
  rw [frozenKey, known, Option.bind_some]
  exact workUnitKey_some resolves cap _

/-- Every node of the assembly has the capability that its run was validated against. -/
def Known (modules : List ModuleSlot) (slot : RunSlot) : Prop :=
  ∀ node ∈ slot.run.assembly.nodes, ∃ cap, pinned modules node = some cap

theorem ready_iff_due (known : Known modules slot) (member : node ∈ slot.run.assembly.nodes)
    (asked : Asked req node) :
    (∃ unit, readyUnit modules slot node = some unit) ↔
      Due modules slot req node ∧ ∃ cap, capabilityForNode modules node = .ok cap := by
  constructor
  · rintro ⟨⟨inputs, unitKey⟩, ready⟩
    obtain ⟨resolved, resolves, made, pending⟩ := readyUnit_iff.mp ready
    refine ⟨⟨asked, inputs, resolves, fun key made' => ?_⟩, resolved⟩
    obtain rfl := Option.some.inj (made.symm.trans made')
    exact pending
  · rintro ⟨⟨-, inputs, resolves, pending⟩, resolved⟩
    obtain ⟨cap, pin⟩ := known node member
    obtain ⟨unitKey, made⟩ := frozenKey_some pin resolves
    exact ⟨⟨inputs, unitKey⟩, readyUnit_iff.mpr ⟨resolved, resolves, made, pending unitKey made⟩⟩

omit [Sha256] in
private theorem map_filterMap_fst {α β : Type} (f : α → Option β) (l : List α) :
    (l.filterMap fun a => (f a).map (a, ·)).map (·.1) = l.filter fun a => (f a).isSome := by
  induction l with
  | nil => rfl
  | cons a l ih =>
      cases found : f a <;> simp [found, ih]

open Classical in
theorem readyCandidates_due (known : Known modules slot) :
    (readyCandidates modules slot req).map (·.1) = (dueNodes modules slot req).filter
      fun node => ∃ cap, capabilityForNode modules node = .ok cap := by
  rw [readyCandidates, map_filterMap_fst, dueNodes, List.filter_filter, List.filter_filter]
  refine List.filter_congr fun node member => ?_
  rw [Bool.eq_iff_iff, Bool.and_eq_true, Bool.and_eq_true, decide_eq_true_iff, decide_eq_true_iff,
    nodeMatches_iff, Option.isSome_iff_exists]
  constructor
  · rintro ⟨ready, asked⟩
    exact ((ready_iff_due known member asked).mp ready).symm
  · rintro ⟨resolved, due⟩
    exact ⟨(ready_iff_due known member due.1).mpr ⟨due, resolved⟩, due.1⟩

omit [Sha256] in
private theorem claimWork_claimSlot {env : Env} {runId : String} {work : WorkItem} {c : Candidate}
    (other : work.unitKey ≠ c.2.2) :
    claimWork env runId (claimSlot slot work) c = claimWork env runId slot c := by
  simp only [claimWork, claimSlot, lookup_insert_of, if_neg (Ne.symm other)]

omit [Sha256] in
theorem claimUnits_items {env : Env} {runId : String} {cs : List Candidate}
    (distinct : (cs.map (·.2.2)).Nodup) :
    (claimUnits env runId slot cs).2 = cs.map (claimWork env runId slot) := by
  induction cs generalizing slot with
  | nil => rfl
  | cons c cs ih =>
      rw [List.map_cons, List.nodup_cons] at distinct
      show claimWork env runId slot c :: (claimUnits env runId _ cs).2 = _
      rw [ih distinct.2, List.map_cons, List.cons.injEq]
      refine ⟨rfl, List.map_congr_left fun c' member => claimWork_claimSlot fun same => ?_⟩
      exact distinct.1 (List.mem_map.mpr ⟨c', member, same.symm⟩)

omit [Sha256] in
private theorem take_filter {α : Type} {p : α → Bool} {l : List α} {n : Nat} :
    (l.filter p).take n = l.take n ↔ ∀ a ∈ l.take n, p a = true := by
  constructor
  · intro same a member
    rw [← same] at member
    exact (List.mem_filter.mp (List.mem_of_mem_take member)).2
  · intro all
    induction l generalizing n with
    | nil => rfl
    | cons a l ih =>
        cases n with
        | zero => rfl
        | succ n =>
            rw [List.take_succ_cons, List.forall_mem_cons] at all
            rw [List.filter_cons_of_pos all.1, List.take_succ_cons, List.take_succ_cons, ih all.2]

private theorem nodeOfWork_handedOut {env : Env} {runId : String} {work : WorkItem}
    (handed : HandedOut modules slot env runId node work) : nodeOfWork work = node := by
  obtain ⟨inputs, unitKey, -, -, rfl⟩ := handed
  rfl

private theorem handedOut_claim {env : Env} {runId : String} {c : Candidate}
    (ready : readyUnit modules slot c.1 = some c.2) :
    HandedOut modules slot env runId c.1 (claimWork env runId slot c) := by
  obtain ⟨-, resolves, made, -⟩ := readyUnit_iff.mp ready
  exact ⟨c.2.1, c.2.2, resolves, made, rfl⟩

private theorem handedOut_nodes {env : Env} {runId : String} {nodes : List AssemblyNode}
    {items : List WorkItem} (handed : List.Forall₂ (HandedOut modules slot env runId) nodes items) :
    items.map nodeOfWork = nodes := by
  induction handed with
  | nil => rfl
  | cons first _ ih => rw [List.map_cons, nodeOfWork_handedOut first, ih]

theorem batch_iff (known : Known modules slot) (env : Env) (runId : String) (n : Nat) :
    List.Forall₂ (HandedOut modules slot env runId) ((dueNodes modules slot req).take n)
        (((readyCandidates modules slot req).take n).map (claimWork env runId slot)) ↔
      ∀ node ∈ (dueNodes modules slot req).take n,
        ∃ cap, capabilityForNode modules node = .ok cap := by
  classical
  have nodes : ((readyCandidates modules slot req).take n).map (·.1) =
      ((dueNodes modules slot req).filter
        fun node => ∃ cap, capabilityForNode modules node = .ok cap).take n := by
    rw [List.map_take, readyCandidates_due known]
  have resolves : (((readyCandidates modules slot req).take n).map (·.1) =
      (dueNodes modules slot req).take n) ↔ ∀ node ∈ (dueNodes modules slot req).take n,
        ∃ cap, capabilityForNode modules node = .ok cap := by
    rw [nodes, take_filter]
    simp only [decide_eq_true_iff]
  rw [← resolves]
  constructor
  · intro handed
    rw [← handedOut_nodes handed, List.map_map]
    rfl
  · intro same
    rw [← same, List.forall₂_map_left_iff, List.forall₂_map_right_iff, List.forall₂_same]
    intro c member
    exact handedOut_claim (mem_readyCandidates.mp (List.mem_of_mem_take member)).2.2

end Claiming

section Kernel

variable [Sha256] [Prost]

/-- A call on a RUNNING run hands out the first candidates of the reaped slot. -/
theorem claimReady_reply {s : State} {req : ClaimRequest} {slot : RunSlot} (env : Env)
    (found : s.runs.lookup req.runId = some slot) (running : slot.run.state = .running) :
    (claimReady env req s).2 = .ok { items := (claimUnits env req.runId (reapSlot env slot)
      ((readyCandidates s.modules (reapSlot env slot) req).take
        (wanted req (reapSlot env slot)))).2 } := by
  unfold claimReady wanted
  simp only [runningSlot_ok.mpr ⟨found, running⟩, orReturn, reapExpiredLocked, record_eq_recordAll,
    recordAll_modules]
  generalize min _ (inFlightCapacity (reapSlot env slot)) = want
  split_ifs <;> rfl

theorem reachable_known {policy : ArtifactStorePolicy} {s : State} (reached : Reachable policy s)
    {runId : String} {slot : RunSlot} (found : s.runs.lookup runId = some slot) :
    Known s.modules slot := by
  have all : ∀ runId slot, s.runs.lookup runId = some slot → Known s.modules slot := by
    refine reachable_invariant (P := fun s => ∀ runId slot, s.runs.lookup runId = some slot →
      Known s.modules slot) ?_ ?_ reached
    · intro runId slot found
      simp at found
    · intro s a guard _ before
      refine slots_apply (I := fun s _ slot => Known s.modules slot) guard ?_ ?_ ?_ before
      · intro runId slot known node member
        obtain ⟨cap, pin⟩ := known node member
        exact ⟨cap, (pinned_apply s a pin).1⟩
      · rintro slot - ⟨env, req, assembly, maxSteps, rfl, -, ok⟩ node member
        obtain ⟨cap, resolved, -⟩ := (validateAssembly_ok ok).typed node member
        exact ⟨cap, pinned_of_resolved resolved⟩
      · intro runId slot act _ _ _ _ known node member
        rw [(apply_terms s.modules slot act).assembly] at member
        exact known node member
  exact all runId slot found

omit [Prost] in
private theorem take_ne_nil {modules : List ModuleSlot} {slot : RunSlot} {req : ClaimRequest}
    (module : req.module = "") (anyModule : req.modules = []) (anyNode : req.nodeIds = [])
    (free : 0 < inFlightCapacity slot) :
    (readyCandidates modules slot req).take (wanted req slot) ≠ [] ↔
      assemblyAnyReady modules slot = true := by
  have positive : wanted req slot ≠ 0 := by
    have asked : 0 < if req.maxItems = 0 then 1 else req.maxItems.toNat := by
      split_ifs with none
      · exact Nat.one_pos
      · exact Nat.pos_of_ne_zero fun zero => none (UInt32.toNat_inj.mp zero)
    exact (lt_min asked free).ne'
  have asked : ∀ node, nodeMatchesClaimFilter req node = true := fun node =>
    nodeMatches_iff.mpr ⟨.inl module, .inl anyModule, .inl anyNode⟩
  rw [Ne, List.take_eq_nil_iff, not_or, and_iff_right positive, assemblyAnyReady, List.any_eq_true]
  constructor
  · intro some
    obtain ⟨c, member⟩ := List.exists_mem_of_ne_nil _ some
    obtain ⟨listed, -, ready⟩ := mem_readyCandidates.mp member
    exact ⟨c.1, listed, by rw [ready]; rfl⟩
  · rintro ⟨node, listed, ready⟩
    obtain ⟨unit, ready⟩ := Option.isSome_iff_exists.mp ready
    exact List.ne_nil_of_mem (a := (node, unit)) (mem_readyCandidates.mpr ⟨listed, asked node, ready⟩)

/-- On every reachable RUNNING run a claim hands out exactly the first due nodes if and only if these
have a capability that is still registered once. -/
theorem handsOut_iff {policy : ArtifactStorePolicy} {s : State} (reached : Reachable policy s)
    (env : Env) (req : ClaimRequest) {slot : RunSlot}
    (found : s.runs.lookup req.runId = some slot) (running : slot.run.state = .running) :
    HandsOut s.modules (reapSlot env slot) env req (claimReady env req s).2 ↔
      ∀ node ∈ (dueNodes s.modules (reapSlot env slot) req).take (wanted req (reapSlot env slot)),
        ∃ cap, capabilityForNode s.modules node = .ok cap := by
  have known : Known s.modules (reapSlot env slot) := by
    rw [Known, reapSlot_run]
    exact reachable_known reached found
  have reaping : Trace s.modules s.artifacts req.runId slot _ _ _ _ _ := reap_trace env running
  have shape := reaping.shape (reachable_wellFormed reached req.runId slot found)
  rw [claimReady_reply env found running, ← batch_iff known env req.runId]
  have claimable : Claimable s.modules (reapSlot env slot)
      ((readyCandidates s.modules (reapSlot env slot) req).take (wanted req (reapSlot env slot))) :=
    take_claimable shape.ids (min_le_right _ _) shape.room
  rw [claimUnits_items claimable.distinct]
  constructor
  · rintro ⟨⟨_, same, items⟩, -⟩
    obtain rfl := Except.ok.inj same
    exact items
  · intro items
    refine ⟨⟨_, rfl, items⟩, fun module anyModule anyNode free => ?_⟩
    rw [← take_ne_nil module anyModule anyNode free]
    constructor
    · rintro ⟨_, same, some⟩ none
      obtain rfl := Except.ok.inj same
      exact some (List.map_eq_nil_iff.mpr none)
    · exact fun some => ⟨_, rfl, fun none => some (List.map_eq_nil_iff.mp none)⟩

end Kernel

section Again

open Substrate.Kernel.Concrete

private theorem exists_running {s : State} (runId : String) (check : RunSlot → Bool)
    (checked : (s.runs.lookup runId).any (fun slot => slot.run.state = .running && check slot)) :
    ∃ slot, s.runs.lookup runId = some slot ∧ slot.run.state = .running ∧ check slot = true := by
  obtain ⟨slot, found, both⟩ := (Option.any_eq_true _ _).mp checked
  rw [Bool.and_eq_true, decide_eq_true_iff] at both
  exact ⟨slot, found, both⟩

/-- The first due nodes of a claim, and whether all of them resolve. -/
private def firstResolve (s : State) (env : Env) (req : ClaimRequest) (slot : RunSlot) : Bool :=
  ((dueNodes s.modules (reapSlot env slot) req).take (wanted req (reapSlot env slot))).all
    fun node => (capabilityForNode s.modules node).toOption.isSome

private theorem resolve_all {s : State} {env : Env} {req : ClaimRequest} {slot : RunSlot}
    (all : firstResolve s env req slot = true) : ∀ node ∈
      (dueNodes s.modules (reapSlot env slot) req).take (wanted req (reapSlot env slot)),
        ∃ cap, capabilityForNode s.modules node = .ok cap := by
  intro node member
  obtain ⟨cap, found⟩ := Option.isSome_iff_exists.mp (List.all_eq_true.mp all node member)
  exact ⟨cap, toOption_some.mp found⟩

def echoing : State := exec policy {} (opening .once .unspecified)

theorem handsOut_echo :
    ∃ slot, echoing.runs.lookup "r" = some slot ∧
      HandsOut echoing.modules (reapSlot (envAt 0) slot) (envAt 0) { runId := "r" }
        (claimReady (envAt 0) { runId := "r" } echoing).2 := by
  obtain ⟨slot, found, running, all⟩ := exists_running (s := echoing) "r"
    (firstResolve echoing (envAt 0) { runId := "r" }) (by decide +kernel)
  exact ⟨slot, found, (handsOut_iff ⟨_, rfl⟩ (envAt 0) { runId := "r" } found running).mpr
    (resolve_all all)⟩

private theorem passed_over {modules : List ModuleSlot} {slot : RunSlot} {env : Env}
    {req : ClaimRequest} {reply : Except KernelError ClaimResponse}
    (nothing : reply.toOption.map (·.items) = some [])
    (due : ((dueNodes modules slot req).take (wanted req slot)).isEmpty = false) :
    ¬ HandsOut modules slot env req reply := by
  rintro ⟨⟨resp, rfl, items⟩, -⟩
  have none : resp.items = [] := Option.some.inj nothing
  rw [none, List.forall₂_nil_right_iff] at items
  rw [items] at due
  cases due

def registeredAgain : State :=
  exec policy {} (opening .once .unspecified ++ [callAt 0 (.register (echo .once))])

/-- The node hears its line and nothing of it is done or claimed, but the claim passes it over. -/
theorem due_passed_over :
    Reachable policy registeredAgain ∧ ∃ slot, registeredAgain.runs.lookup "r" = some slot ∧
      slot.run.state = .running ∧
      ¬ HandsOut registeredAgain.modules (reapSlot (envAt 0) slot) (envAt 0) { runId := "r" }
        (claimReady (envAt 0) { runId := "r" } registeredAgain).2 := by
  refine ⟨⟨_, rfl⟩, ?_⟩
  obtain ⟨slot, found, running, due⟩ := exists_running (s := registeredAgain) "r"
    (fun slot => !((dueNodes registeredAgain.modules (reapSlot (envAt 0) slot)
      { runId := "r" }).take (wanted { runId := "r" } (reapSlot (envAt 0) slot))).isEmpty)
    (by decide +kernel)
  exact ⟨slot, found, running, passed_over (by decide +kernel) (by simpa using due)⟩

end Again

end Substrate.Protocol.Claiming
