/- ID: Substrate/Protocol/Closed
   digest: A run that is not RUNNING never changes again, leaves no more entries, and says so. -/

import Substrate.Kernel.Concrete
import Substrate.Protocol.Replay
import Substrate.Protocol.Steady

set_option autoImplicit false
set_option relaxedAutoImplicit false

namespace Substrate.Protocol.Closed

open Substrate.Kernel.Wire
open Substrate.Kernel.Hashing
open Substrate.Kernel.Memory
open Substrate.Kernel.Registry
open Substrate.Kernel.Runs
open Substrate.Kernel.Work
open Substrate.Kernel.Api
open Substrate.Protocol.Atoms
open Substrate.Protocol.Slots
open Substrate.Protocol.Refine
open Substrate.Protocol.Replay (Schema kindTable entriesOf ledger_apply closureKind_kind)
open Substrate.Protocol.Steady (act_runId filter_run)
open Substrate.Library.FiniteMap
open Substrate.Library.Transition

/-- The run that an entry of a subject and a message is about. -/
def recordRun (subject : String) : Message → Option String
  | .run r => some r.id
  | .namedArtifact _ => some subject
  | .workItem w => some w.runId
  | .workFailure f => some f.runId
  | .derivation d => some d.runId
  | _ => none

section Calls

variable [Sha256] [Prost]

/-- A record of the kernel that encodes a message of its kind about `run`, or about none. -/
def RecordOf (run : Option String) (r : Record) : Prop :=
  ∃ message, r.2.2 = encodeToVec message ∧ kindTable.lookup r.1 = some (some (.of message)) ∧
    recordRun r.2.1 message = run

/-- A record of the kernel that is not about a run: another message, or a lifecycle step. -/
def Elsewhere (runId : String) (r : Record) : Prop :=
  (∃ target, r.1 = "module." ++ lifecycleVerb target ∧ r.2.2 = []) ∨
    ∃ run, run ≠ some runId ∧ RecordOf run r

theorem records_run {modules : List ModuleSlot} {artifacts : KeyMap String Artifact}
    {runId : String} {slot : RunSlot} {act : SlotAct} (shape : SlotShape runId slot)
    (guard : act.enabled modules artifacts runId slot) :
    ∀ r ∈ act.records runId slot (act.apply modules slot), RecordOf (some runId) r := by
  have after := shape_apply guard shape
  intro r member
  cases act with
  | inject input =>
      rw [SlotAct.records, List.mem_singleton] at member
      subst member
      exact ⟨.namedArtifact input, rfl, rfl, congrArg some after.id⟩
  | claim work =>
      have mine := (act_runId shape guard).2 work rfl
      rw [SlotAct.records, List.mem_singleton] at member
      subst member
      exact ⟨.workItem (ledgerWorkItem work), rfl, rfl, congrArg some mine⟩
  | renew id leaseUntil => cases member
  | expire id c =>
      have mine := (shape.claims id c guard).runId
      simp only [SlotAct.records, expiryRecords, List.mem_cons] at member
      rcases member with rfl | member
      · exact ⟨.workItem (ledgerWorkItem c.work), rfl, rfl, congrArg some mine⟩
      · split_ifs at member
        · rw [List.mem_singleton] at member
          subst member
          exact ⟨.workFailure _, rfl, rfl, rfl⟩
        · cases member
  | fail id c reason terminal =>
      rw [SlotAct.records, List.mem_singleton] at member
      subst member
      exact ⟨.workFailure _, rfl, rfl, rfl⟩
  | commit c outputs =>
      have mine := (shape.claims _ c guard.1).runId
      simp only [SlotAct.records, commitRecords, List.mem_cons, List.not_mem_nil, or_false] at member
      rcases member with rfl | rfl
      · exact ⟨.derivation (derivationOf c.work outputs), rfl, rfl, congrArg some mine⟩
      · exact ⟨.run _, rfl, (closureKind_kind _).1, congrArg some after.id⟩
  | stall =>
      rw [SlotAct.records, List.mem_singleton] at member
      subst member
      exact ⟨.run _, rfl, rfl, congrArg some after.id⟩
  | cancel =>
      rw [SlotAct.records, List.mem_singleton] at member
      subst member
      exact ⟨.run _, rfl, rfl, congrArg some after.id⟩

theorem entries_elsewhere {s : State} {a : Atom} (guard : a.enabled s) (wf : WellFormed s)
    {runId : String} {slot : RunSlot} (found : s.runs.lookup runId = some slot)
    (closed : slot.run.state ≠ .running) : ∀ r ∈ entriesOf s a,
      Elsewhere runId r ∨ ∃ req, a = .appended req ∧ r = (req.kind, req.subject, req.detail) := by
  intro r member
  cases a with
  | acted other act =>
      obtain ⟨slot', found', running, possible⟩ := guard
      simp only [entriesOf, found'] at member
      refine .inl (.inr ⟨some other, ?_, records_run (wf other slot' found') possible r member⟩)
      rintro same
      obtain rfl := Option.some.inj same
      obtain rfl := Option.some.inj (found.symm.trans found')
      exact closed running
  | started fresh =>
      rw [entriesOf, List.mem_singleton] at member
      subst member
      refine .inl (.inr ⟨some fresh.run.id, ?_, .run fresh.run, rfl, rfl, rfl⟩)
      rintro same
      obtain rfl := Option.some.inj same
      exact guard.1 (mem_of_lookup found)
  | appended req =>
      rw [entriesOf, List.mem_singleton] at member
      exact .inr ⟨req, rfl, member⟩
  | advanced name target =>
      rw [entriesOf, List.mem_singleton] at member
      subst member
      exact .inl (.inl ⟨target, rfl, rfl⟩)
  | remembered key result => cases member
  | registered manifest =>
      rw [entriesOf, List.mem_singleton] at member
      subst member
      exact .inl (.inr ⟨none, by simp, .moduleManifest _, rfl, rfl, rfl⟩)
  | artifactStored artifact =>
      rw [entriesOf, List.mem_singleton] at member
      subst member
      exact .inl (.inr ⟨none, by simp, .artifact _, rfl, rfl, rfl⟩)
  | blobStored blob =>
      rw [entriesOf, List.mem_singleton] at member
      subst member
      exact .inl (.inr ⟨none, by simp, .blobRef _, rfl, rfl, rfl⟩)
  | contractStored contract =>
      rw [entriesOf, List.mem_singleton] at member
      subst member
      exact .inl (.inr ⟨none, by simp, .contract _, rfl, rfl, rfl⟩)
  | published event =>
      rw [entriesOf, List.mem_singleton] at member
      subst member
      exact .inl (.inr ⟨none, by simp, .event _, rfl, rfl, rfl⟩)

/-- A kernel before and after some calls, seen from a run that none of them touched. -/
structure Untouched (runId : String) (slot : RunSlot) (calls : List Call) (s t : State) : Prop where
  slot : t.runs.lookup runId = some slot
  derivations : t.derivations.filter (·.runId == runId) = s.derivations.filter (·.runId == runId)
  ledger : ∃ rs, t.ledger = extend s.ledger rs ∧ ∀ r ∈ rs, Elsewhere runId r ∨
    ∃ call ∈ calls, ∃ req, call.op = .append req ∧ r = (req.kind, req.subject, req.detail)

theorem untouched_apply {s u : State} {a : Atom} {runId : String} {slot : RunSlot}
    {calls : List Call} (guard : a.enabled u) (wf : WellFormed u)
    (closed : slot.run.state ≠ .running)
    (appends : ∀ req, a = .appended req → ∃ call ∈ calls, call.op = .append req)
    (before : Untouched runId slot calls s u) : Untouched runId slot calls s (a.apply u) := by
  obtain ⟨found, derivations, rs, ledger, each⟩ := before
  have acts : ∀ act, a ≠ .acted runId act := by
    rintro act rfl
    obtain ⟨slot', found', running, -⟩ := guard
    obtain rfl := Option.some.inj (found.symm.trans found')
    exact closed running
  refine ⟨?_, ?_, rs ++ entriesOf u a, ?_, ?_⟩
  · rcases runs_persist guard found with ⟨still, -⟩ | ⟨act, same, -⟩
    · exact still
    · exact absurd same (acts act)
  · have others : a.derivation.filter (·.runId == runId) = [] := by
      cases a with
      | acted other act =>
          obtain ⟨slot', found', -, possible⟩ := guard
          rw [show Atom.derivation (.acted other act) = act.derivation from rfl,
            filter_run (act_runId (wf other slot' found') possible).1, if_neg]
          rintro rfl
          exact acts act rfl
      | _ => rfl
    rw [derivations_apply guard, List.filter_append, derivations, others, List.append_nil]
  · rw [ledger_apply, ledger, ← extend_append]
  · intro r member
    rcases List.mem_append.mp member with old | new
    · exact each r old
    · refine (entries_elsewhere guard wf found closed r new).imp_right ?_
      rintro ⟨req, same, rfl⟩
      obtain ⟨call, listed, op⟩ := appends req same
      exact ⟨call, listed, req, op, rfl⟩

theorem untouched_exec (policy : ArtifactStorePolicy) {s : State} {runId : String} {slot : RunSlot}
    (reached : Reachable policy s) (found : s.runs.lookup runId = some slot)
    (closed : slot.run.state ≠ .running) (calls : List Call) :
    Untouched runId slot calls s (exec policy s calls) := by
  have both : WellFormed (exec policy s calls) ∧
      Untouched runId slot calls s (exec policy s calls) := by
    refine run_invariant (P := fun t => WellFormed t ∧ Untouched runId slot calls s t)
      ⟨reachable_wellFormed reached, found, rfl, [], rfl, by simp⟩ ?_
    rintro pre call post split ⟨wf, before⟩
    obtain ⟨atoms, path, allowed, -⟩ := step_explained policy wf call
    refine path.invariant (P := fun t => WellFormed t ∧ Untouched runId slot calls s t)
      (Allowed _ call) ?_ allowed ⟨wf, before⟩
    rintro u a ok guard ⟨shaped, untouched⟩
    refine ⟨wellFormed_apply guard shaped, untouched_apply guard shaped closed ?_ untouched⟩
    rintro req rfl
    exact ⟨call, by simp [split], allowed_appended ok⟩
  exact both.2

/-- A call on a run within its deadline, past every check that comes before the run's state. -/
def Addresses (t : State) (runId : String) (call : Call) : Prop :=
  checkDeadline call.env call.ctx = .ok () ∧
    match call.op with
    | .claimReady req => req.runId = runId
    | .heartbeat req => req.runId = runId
    | .failWork req => req.runId = runId
    | .injectInput req => req.runId = runId ∧ ∃ input r, req.input = some input ∧
        input.name ≠ "" ∧ input.artifact = some r ∧ r.id ∈ t.artifacts
    | .cancelRun ref => ref.id = runId
    | .commit submitted => submitted.runId = runId ∧ idempotentGet t "commit" call.ctx = none
    | _ => False

theorem closed_refuses (policy : ArtifactStorePolicy) {t : State} {runId : String} {slot : RunSlot}
    {call : Call} (found : t.runs.lookup runId = some slot) (closed : slot.run.state ≠ .running)
    (addressed : Addresses t runId call) :
    (step policy t call).2 = .error (.runClosed slot.run.state) := by
  have refused : runningSlot t runId = .error (.runClosed slot.run.state) := by
    simp [runningSlot, found, closed]
  obtain ⟨op, ctx, env⟩ := call
  obtain ⟨timely, addressed⟩ := addressed
  simp only at timely addressed
  cases op with
  | claimReady req =>
      simp only at addressed
      simp [step, timely, orReturn, reply, claimReady, addressed, refused]
  | heartbeat req =>
      simp only at addressed
      simp [step, timely, orReturn, reply, heartbeat, addressed, refused]
  | failWork req =>
      simp only at addressed
      simp [step, timely, orReturn, reply, failWork, addressed, refused]
  | cancelRun ref =>
      simp only at addressed
      simp [step, timely, orReturn, reply, cancelRun, addressed, refused]
  | injectInput req =>
      obtain ⟨here, input, r, given, named, carried, stored⟩ := addressed
      simp [step, timely, orReturn, reply, injectInputCtx, given, named, carried, stored, here,
        refused]
  | commit submitted =>
      obtain ⟨here, fresh⟩ := addressed
      simp [step, timely, orReturn, reply, commitCtx, fresh, here, refused]
  | _ => exact addressed.elim

/-- A run that is not RUNNING keeps its slot and its derivations through every later call, no entry
about it is added but by appends, and calls on it are refused with its state. -/
theorem closed_run_immutable {policy : ArtifactStorePolicy} {s : State} {runId : String}
    {slot : RunSlot} (reached : Reachable policy s) (found : s.runs.lookup runId = some slot)
    (closed : slot.run.state ≠ .running) (later : List Call) :
    Untouched runId slot later s (exec policy s later) ∧
      ∀ call, Addresses (exec policy s later) runId call →
        (step policy (exec policy s later) call).2 = .error (.runClosed slot.run.state) := by
  have untouched := untouched_exec policy reached found closed later
  exact ⟨untouched, fun call addressed => closed_refuses policy untouched.slot closed addressed⟩

end Calls

section Echo

open Substrate.Kernel.Concrete

/-- The run of `echo` after its answer. -/
def finished : List Call :=
  opening .once .unspecified ++ [claimAt 0, commitAt 1 "work:r/n" (text "one")]

theorem closed_run_immutable_echo :
    ∃ slot, (exec policy {} finished).runs.lookup "r" = some slot ∧
      Untouched "r" slot [claimAt 2] (exec policy {} finished)
        (exec policy (exec policy {} finished) [claimAt 2]) ∧
      ∀ call, Addresses (exec policy (exec policy {} finished) [claimAt 2]) "r" call →
        (step policy (exec policy (exec policy {} finished) [claimAt 2]) call).2 =
          .error (.runClosed slot.run.state) := by
  have completed : ((exec policy {} finished).runs.lookup "r").map (·.run.state) =
      some .completed := by decide +kernel
  obtain ⟨slot, found, state⟩ := Option.map_eq_some_iff.mp completed
  have closed : slot.run.state ≠ .running := by simp [state]
  exact ⟨slot, found, closed_run_immutable ⟨finished, rfl⟩ found closed [claimAt 2]⟩

end Echo

end Substrate.Protocol.Closed
