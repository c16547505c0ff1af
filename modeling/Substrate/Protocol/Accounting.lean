/- ID: Substrate/Protocol/Accounting
   digest: Steps, commit counts, derivations, closing states and the answer of a run agree. -/

import Substrate.Kernel.Concrete
import Substrate.Protocol.Steady
import Substrate.Protocol.Typing

set_option autoImplicit false
set_option relaxedAutoImplicit false

namespace Substrate.Protocol.Accounting

open Substrate.Kernel.Wire
open Substrate.Kernel.Hashing
open Substrate.Kernel.Memory
open Substrate.Kernel.Registry
open Substrate.Kernel.Schedule
open Substrate.Kernel.Runs
open Substrate.Kernel.Work
open Substrate.Kernel.Api
open Substrate.Protocol.Atoms
open Substrate.Protocol.Slots
open Substrate.Protocol.Delivery
open Substrate.Protocol.Refine
open Substrate.Protocol.Steady
open Substrate.Protocol.Typing
open Substrate.Library.Checks
open Substrate.Library.FiniteMap
open Substrate.Library.Transition

/-- A run's derivations, in commit order. -/
def derivationsOf (s : State) (runId : String) : List Derivation :=
  s.derivations.filter (·.runId == runId)

/-- The commits of all nodes together. -/
def commitTotal (slot : RunSlot) : Nat := ((values slot.nodeCommits).map UInt64.toNat).sum

/-- The last derivation is of the terminal node and delivers a stored artifact on the terminal port,
with every trait that port guarantees. -/
def Concluded (s : State) (runId : String) (assembly : Assembly) (r : ArtifactRef) : Prop :=
  ∃ terminal d artifact p, assembly.terminal = some terminal ∧
    (derivationsOf s runId).getLast? = some d ∧ d.nodeId = terminal.node ∧
    terminalAnswer assembly d = some r ∧ s.artifacts.lookup r.id = some artifact ∧
    PinnedPort s.modules assembly.nodes (·.outputs) terminal.node terminal.port p ∧
    hasTraits artifact p.traits

/-- The books of a run: derivations, steps, node commits, limit, closing state and answer. -/
structure Accounted (s : State) (runId : String) (slot : RunSlot) : Prop where
  steps : slot.run.steps.toNat = (derivationsOf s runId).length
  commits : slot.run.steps.toNat = commitTotal slot
  within : slot.run.steps ≤ slot.run.maxSteps
  running : slot.run.state = .running → slot.run.steps < slot.run.maxSteps
  failed : slot.run.state = .failed → slot.run.steps = slot.run.maxSteps
  answer : slot.run.answer =
    (derivationsOf s runId).reverse.findSome? (terminalAnswer slot.run.assembly)
  completed : slot.run.state = .completed → isOpenClosure slot = false ∧
    ∃ r, slot.run.answer = some r ∧ Concluded s runId slot.run.assembly r

section Kernel

variable [Sha256]

/-- How a commit leaves a RUNNING run: completed by an answer, failed at its limit, or neither. -/
theorem commit_state (modules : List ModuleSlot) {slot : RunSlot} (c : ClaimedSlot)
    (outputs : List NamedArtifact) (running : slot.run.state = .running) :
    let after := (SlotAct.commit c outputs).apply modules slot
    (after.run.state = .completed ∧ isOpenClosure slot = false ∧
        (terminalAnswer slot.run.assembly (derivationOf c.work outputs)).isSome) ∨
      (after.run.state = .failed ∧ slot.run.maxSteps ≤ slot.run.steps + 1) ∨
      ((after.run.state = .running ∨ after.run.state = .stalled) ∧
        slot.run.steps + 1 < slot.run.maxSteps) := by
  intro after
  have settled : after = settleSlot modules (commitSlot slot c (derivationOf c.work outputs)) := rfl
  by_cases answers : (terminalAnswer slot.run.assembly (derivationOf c.work outputs)).isSome &&
      !isOpenClosure slot
  · have completed : (commitSlot slot c (derivationOf c.work outputs)).run.state = .completed := by
      simp [commitSlot, advanceRun, answers]
    rw [Bool.and_eq_true, Bool.not_eq_true'] at answers
    refine .inl ⟨?_, answers.2, answers.1⟩
    rw [settled, settleSlot, if_neg (by simp [completed]), completed]
  by_cases spent : slot.run.maxSteps ≤ slot.run.steps + 1
  · have failed : (commitSlot slot c (derivationOf c.work outputs)).run.state = .failed := by
      simp [commitSlot, advanceRun, answers, spent]
    refine .inr (.inl ⟨?_, spent⟩)
    rw [settled, settleSlot, if_neg (by simp [failed]), failed]
  · refine .inr (.inr ⟨?_, UInt64.not_le.mp spent⟩)
    rw [settled, settleSlot]
    split_ifs
    · exact .inr rfl
    · left
      simp [commitSlot, advanceRun, answers, spent, running]

omit [Sha256] in
private theorem answer_stored {modules : List ModuleSlot} {artifacts : KeyMap String Artifact}
    {slot : RunSlot} {d : Derivation} {node : AssemblyNode} {cap : Capability} {r : ArtifactRef}
    (member : node ∈ slot.run.assembly.nodes) (named : node.id = d.nodeId)
    (resolved : capabilityForNode modules node = .ok cap)
    (valid : ∀ o ∈ d.outputs, validateOutput artifacts cap o = .ok ())
    (answer : terminalAnswer slot.run.assembly d = some r) :
    ∃ terminal artifact p, slot.run.assembly.terminal = some terminal ∧ d.nodeId = terminal.node ∧
      artifacts.lookup r.id = some artifact ∧
      PinnedPort modules slot.run.assembly.nodes (·.outputs) terminal.node terminal.port p ∧
      hasTraits artifact p.traits := by
  simp only [terminalAnswer, Option.bind_eq_some_iff, Option.filter_eq_some_iff, beq_iff_eq] at answer
  obtain ⟨terminal, ⟨declared, last⟩, o, found, carried⟩ := answer
  have output : o.name = terminal.port := by simpa using List.find?_some found
  obtain ⟨p, r', artifact, expected, carried', stored, traits⟩ :=
    validateOutput_ok (valid o (List.mem_of_find?_eq_some found))
  obtain rfl := Option.some.inj (carried.symm.trans carried')
  rw [output] at expected
  exact ⟨terminal, artifact, p, declared, last.symm, stored,
    ⟨node, member, named.trans last.symm, cap, pinned_of_resolved resolved, expected⟩, traits⟩

private theorem closes_apply (modules : List ModuleSlot) {slot : RunSlot} {a : SlotAct}
    (noCommit : ∀ c outputs, a ≠ .commit c outputs) :
    (a.apply modules slot).run.state = slot.run.state ∨
      (a.apply modules slot).run.state = .stalled ∨
      (a.apply modules slot).run.state = .cancelled := by
  cases a with
  | commit c outputs => exact absurd rfl (noCommit c outputs)
  | renew id leaseUntil =>
      simp only [SlotAct.apply, renewClaim]
      split <;> exact .inl rfl
  | stall => exact .inr (.inl rfl)
  | cancel => exact .inr (.inr rfl)
  | _ => exact .inl rfl

variable [Prost]

omit [Sha256] [Prost] in
theorem accounted_fresh {s : State} {req : RunRequest} {assembly : Assembly}
    {maxSteps : UInt64} (positive : maxSteps ≠ 0) (none : derivationsOf s req.id = []) :
    Accounted s req.id (freshSlot req assembly maxSteps) := by
  have above : (0 : UInt64) < maxSteps := UInt64.pos_iff_ne_zero.mpr positive
  refine ⟨by rw [none]; rfl, rfl, UInt64.le_of_lt above, fun _ => above, ?_, by rw [none]; rfl, ?_⟩
  · intro failed
    cases failed
  · intro completed
    cases completed

private theorem concluded_apply {s : State} {a : Atom} (guard : a.enabled s) {runId : String}
    {assembly : Assembly} {r : ArtifactRef}
    (same : derivationsOf (a.apply s) runId = derivationsOf s runId)
    (concluded : Concluded s runId assembly r) : Concluded (a.apply s) runId assembly r := by
  obtain ⟨terminal, d, artifact, p, declared, last, node, answer, stored, pinnedPort, traits⟩ :=
    concluded
  obtain ⟨pin, member, id, cap, known, expected⟩ := pinnedPort
  exact ⟨terminal, d, artifact, p, declared, by rw [same, last], node, answer,
    artifact_persists guard stored, ⟨pin, member, id, cap, (pinned_apply s a known).1, expected⟩,
    traits⟩

theorem accounted_frame {s : State} {a : Atom} (guard : a.enabled s) {runId : String}
    {slot : RunSlot} (same : derivationsOf (a.apply s) runId = derivationsOf s runId)
    (books : Accounted s runId slot) : Accounted (a.apply s) runId slot := by
  refine ⟨by rw [same]; exact books.steps, books.commits, books.within, books.running,
    books.failed, by rw [same]; exact books.answer, fun completed => ?_⟩
  obtain ⟨scope, r, answer, concluded⟩ := books.completed completed
  exact ⟨scope, r, answer, concluded_apply guard same concluded⟩

/-- The derivations of a run after an act on it. -/
theorem derivationsOf_acted {s : State} {runId : String} {act : SlotAct} {slot : RunSlot}
    (guard : (Atom.acted runId act).enabled s) (shape : SlotShape runId slot)
    (possible : act.enabled s.modules s.artifacts runId slot) :
    derivationsOf ((Atom.acted runId act).apply s) runId =
      derivationsOf s runId ++ act.derivation := by
  rw [derivationsOf, derivations_apply guard, List.filter_append,
    show Atom.derivation (.acted runId act) = act.derivation from rfl,
    filter_run (act_runId shape possible).1, if_pos rfl]
  rfl

theorem derivationsOf_other {s : State} {a : Atom} (guard : a.enabled s) (wf : WellFormed s)
    {runId : String} (others : ∀ act, a ≠ .acted runId act) :
    derivationsOf (a.apply s) runId = derivationsOf s runId := by
  rw [derivationsOf, derivations_apply guard, List.filter_append]
  cases a with
  | acted other act =>
      obtain ⟨slot, found, -, possible⟩ := guard
      rw [show Atom.derivation (.acted other act) = act.derivation from rfl,
        filter_run (act_runId (wf other slot found) possible).1, if_neg, List.append_nil]
      · rfl
      · rintro rfl
        exact others act rfl
  | _ => exact List.append_nil _

omit [Prost] in
private theorem commitTotal_commit {modules : List ModuleSlot} {slot : RunSlot} {c : ClaimedSlot}
    {outputs : List NamedArtifact} (balanced : slot.run.steps.toNat = commitTotal slot)
    (within : slot.run.steps < slot.run.maxSteps) :
    commitTotal ((SlotAct.commit c outputs).apply modules slot) = commitTotal slot + 1 := by
  have counted : ((slot.nodeCommits.lookup c.work.nodeId).getD 0).toNat ≤ slot.run.steps.toNat := by
    rw [balanced]
    cases found : slot.nodeCommits.lookup c.work.nodeId with
    | none => exact Nat.zero_le _
    | some n => exact le_sum_values found
  have below := UInt64.lt_iff_toNat_lt.mp within
  have top := slot.run.maxSteps.toNat_lt
  have next : ((slot.nodeCommits.lookup c.work.nodeId).getD 0 + 1).toNat =
      ((slot.nodeCommits.lookup c.work.nodeId).getD 0).toNat + 1 := by
    rw [UInt64.toNat_add]
    exact Nat.mod_eq_of_lt (by simpa using by omega)
  have old : ((slot.nodeCommits.lookup c.work.nodeId).map UInt64.toNat).getD 0 =
      ((slot.nodeCommits.lookup c.work.nodeId).getD 0).toNat := by
    cases slot.nodeCommits.lookup c.work.nodeId <;> rfl
  have total := sum_values_insert UInt64.toNat slot.nodeCommits c.work.nodeId
    ((slot.nodeCommits.lookup c.work.nodeId).getD 0 + 1)
  rw [next] at total
  rw [commitTotal, (commit_run modules slot c outputs).2.2, commitTotal]
  omega

private theorem concluded_commit {s : State} {runId : String} {slot : RunSlot} {c : ClaimedSlot}
    {outputs : List NamedArtifact} {r : ArtifactRef}
    (guard : (Atom.acted runId (.commit c outputs)).enabled s) (shape : SlotShape runId slot)
    (possible : (SlotAct.commit c outputs).enabled s.modules s.artifacts runId slot)
    (answers : terminalAnswer slot.run.assembly (derivationOf c.work outputs) = some r) :
    Concluded ((Atom.acted runId (.commit c outputs)).apply s) runId slot.run.assembly r := by
  have derived := derivationsOf_acted guard shape possible
  obtain ⟨held, -, cap, resolved, valid⟩ := possible
  have checked : ∀ o ∈ (derivationOf c.work outputs).outputs,
      validateOutput s.artifacts cap o = .ok () := by
    obtain ⟨-, -, each⟩ := bind_eq_ok.mp valid
    exact forM_eq_ok.mp each
  obtain ⟨terminal, artifact, p, declared, last, stored, port, traits⟩ :=
    answer_stored (shape.claims _ c held).node rfl resolved checked answers
  obtain ⟨pin, member, id, known, pinnedAs, expected⟩ := port
  refine ⟨terminal, derivationOf c.work outputs, artifact, p, declared, ?_, last, answers,
    artifact_persists guard stored, ⟨pin, member, id, known, (pinned_apply s _ pinnedAs).1, expected⟩,
    traits⟩
  rw [derived, SlotAct.derivation, List.getLast?_append_of_ne_nil _ (by simp)]
  rfl

private theorem accounted_commit {s : State} {runId : String} {slot : RunSlot} {c : ClaimedSlot}
    {outputs : List NamedArtifact} (guard : (Atom.acted runId (.commit c outputs)).enabled s)
    (shape : SlotShape runId slot) (running : slot.run.state = .running)
    (possible : (SlotAct.commit c outputs).enabled s.modules s.artifacts runId slot)
    (books : Accounted s runId slot) :
    Accounted ((Atom.acted runId (.commit c outputs)).apply s) runId
      ((SlotAct.commit c outputs).apply s.modules slot) := by
  have derived := derivationsOf_acted guard shape possible
  obtain ⟨answer, steps, -⟩ := commit_run s.modules slot c outputs
  have terms := apply_terms s.modules slot (.commit c outputs)
  have within : slot.run.steps < slot.run.maxSteps := possible.2.1
  have counted := @steps_commit _ s.modules slot c outputs within
  have below : ((SlotAct.commit c outputs).apply s.modules slot).run.steps ≤ slot.run.maxSteps := by
    rw [UInt64.le_iff_toNat_le, counted]
    exact UInt64.lt_iff_toNat_lt.mp within
  refine ⟨?_, ?_, ?_, ?_, ?_, ?_, ?_⟩
  · rw [counted, derived, books.steps, SlotAct.derivation, List.length_append]
    rfl
  · rw [counted, commitTotal_commit books.commits within, books.commits]
  · rw [terms.maxSteps]
    exact below
  · intro still
    rw [steps, terms.maxSteps]
    rcases commit_state s.modules c outputs running with ⟨completed, -⟩ | ⟨failed, -⟩ | ⟨-, spare⟩
    · rw [completed] at still
      cases still
    · rw [failed] at still
      cases still
    · exact spare
  · intro failed
    rw [steps, terms.maxSteps]
    rcases commit_state s.modules c outputs running with ⟨completed, -⟩ | ⟨-, spent⟩ |
      ⟨still | stalled, -⟩
    · rw [completed] at failed
      cases failed
    · rw [steps] at below
      exact UInt64.le_antisymm below spent
    · rw [still] at failed
      cases failed
    · rw [stalled] at failed
      cases failed
  · rw [answer, derived, terms.assembly, books.answer, SlotAct.derivation,
      List.reverse_append, List.reverse_singleton, List.singleton_append, List.findSome?_cons]
    cases terminalAnswer slot.run.assembly (derivationOf c.work outputs) <;> rfl
  · intro completed
    rcases commit_state s.modules c outputs running with ⟨-, scope, answers⟩ | ⟨failed, -⟩ |
      ⟨still | stalled, -⟩
    · refine ⟨(isOpenClosure_congr terms.policy).trans scope, ?_⟩
      obtain ⟨r, answers⟩ := Option.isSome_iff_exists.mp answers
      refine ⟨r, by rw [answer, answers]; rfl, ?_⟩
      rw [terms.assembly]
      exact concluded_commit guard shape possible answers
    · rw [failed] at completed
      cases completed
    · rw [still] at completed
      cases completed
    · rw [stalled] at completed
      cases completed

theorem accounted_act {s : State} {runId : String} {slot : RunSlot} {act : SlotAct}
    (guard : (Atom.acted runId act).enabled s) (shape : SlotShape runId slot)
    (running : slot.run.state = .running)
    (possible : act.enabled s.modules s.artifacts runId slot) (books : Accounted s runId slot) :
    Accounted ((Atom.acted runId act).apply s) runId (act.apply s.modules slot) := by
  by_cases commits : ∃ c outputs, act = .commit c outputs
  · obtain ⟨c, outputs, rfl⟩ := commits
    exact accounted_commit guard shape running possible books
  push Not at commits
  obtain ⟨steps, answer, -, counts⟩ := apply_books s.modules slot commits
  have state := @closes_apply _ s.modules slot _ commits
  have terms := apply_terms s.modules slot act
  have derived := derivationsOf_acted guard shape possible
  rw [derivation_eq_nil commits, List.append_nil] at derived
  refine ⟨?_, ?_, ?_, ?_, ?_, ?_, ?_⟩
  · rw [steps, derived, books.steps]
  · rw [steps, commitTotal, counts, books.commits]
    rfl
  · rw [steps, terms.maxSteps]
    exact books.within
  · intro _
    rw [steps, terms.maxSteps]
    exact books.running running
  · intro failed
    rcases state with same | stalled | cancelled <;> simp [*] at failed
  · rw [answer, derived, terms.assembly, books.answer]
  · intro completed
    rcases state with same | stalled | cancelled <;> simp [*] at completed

theorem reachable_accounted {policy : ArtifactStorePolicy} {s : State} (reached : Reachable policy s) :
    Owned s ∧ ∀ runId slot, s.runs.lookup runId = some slot → Accounted s runId slot := by
  refine reachable_invariant (P := fun s => Owned s ∧ ∀ runId slot,
    s.runs.lookup runId = some slot → Accounted s runId slot) ⟨fun d member => ?_, ?_⟩ ?_ reached
  · cases member
  · intro runId slot found
    simp at found
  · rintro s a guard wf ⟨owned, before⟩
    refine ⟨owned_apply guard wf owned, fun runId after found => ?_⟩
    rcases runs_apply guard found with ⟨old, others⟩ |
      ⟨slot, act, rfl, there, running, possible, rfl⟩ | ⟨rfl, rfl, absent, fresh⟩
    · exact accounted_frame guard (derivationsOf_other guard wf others) (before runId after old)
    · exact accounted_act guard (wf runId slot there) running possible (before runId slot there)
    · have none : derivationsOf s after.run.id = [] := by
        refine List.filter_eq_nil_iff.mpr fun d member same => absent ?_
        rw [← beq_iff_eq.mp same]
        exact owned d member
      have still : derivationsOf (Atom.apply s (.started after)) after.run.id =
          derivationsOf s after.run.id := derivationsOf_other guard wf fun act h => by cases h
      obtain ⟨-, req, assembly, maxSteps, rfl, positive, -⟩ := fresh
      exact accounted_fresh positive (still.trans none)

/-- Every run of a reachable kernel has its books in order. -/
theorem run_accounting {policy : ArtifactStorePolicy} {s : State} (reached : Reachable policy s)
    {runId : String} {slot : RunSlot} (found : s.runs.lookup runId = some slot) :
    Accounted s runId slot :=
  (reachable_accounted reached).2 runId slot found

end Kernel

section Echo

open Substrate.Kernel.Concrete

theorem run_accounting_echo :
    let s := exec policy {} (opening .once .unspecified ++
      [claimAt 0, commitAt 1 "work:r/n" (text "one")])
    ∃ slot, s.runs.lookup "r" = some slot ∧ slot.run.state = .completed ∧ Accounted s "r" slot := by
  intro s
  have completed : (s.runs.lookup "r").map (·.run.state) = some .completed := by decide +kernel
  obtain ⟨slot, found, state⟩ := Option.map_eq_some_iff.mp completed
  exact ⟨slot, found, state, run_accounting ⟨_, rfl⟩ found⟩

end Echo

end Substrate.Protocol.Accounting
