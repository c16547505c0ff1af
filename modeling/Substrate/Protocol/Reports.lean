/- ID: Substrate/Protocol/Reports
   digest: A commit or a failure of claimed work leaves the three kernels with the same run and the same events. -/

import Substrate.Protocol.Accounting
import Substrate.Protocol.Injections
import Substrate.Protocol.Provenance
import Substrate.Protocol.Readiness
import Substrate.Protocol.Reaping
import Substrate.Protocol.Verdicts

set_option autoImplicit false
set_option relaxedAutoImplicit false

namespace Substrate.Protocol.Reports

open Substrate.Kernel
open Substrate.Kernel.Wire
open Substrate.Kernel.Hashing
open Substrate.Kernel.Memory
open Substrate.Kernel.Registry
open Substrate.Kernel.Schedule
open Substrate.Kernel.Runs
open Substrate.Kernel.Work
open Substrate.Kernel.Sdks
open Substrate.Kernel.Api
open Substrate.Protocol.Atoms
open Substrate.Protocol.Slots
open Substrate.Protocol.Validation
open Substrate.Protocol.Accounting (commitTotal commit_state reachable_accounted)
open Substrate.Protocol.Delivery (inputs_apply mem_admitInput)
open Substrate.Protocol.Injections (python_deadline)
open Substrate.Protocol.Mirrors
open Substrate.Protocol.Provenance (reapSlot_deliveries)
open Substrate.Protocol.Readiness
open Substrate.Protocol.Reaping
open Substrate.Protocol.Refine (reachable_invariant reachable_wellFormed)
open Substrate.Protocol.Serial
open Substrate.Protocol.Typing (validateOutput_ok)
open Substrate.Protocol.Verdicts
open Substrate.Library.Checks
open Substrate.Library.FiniteMap

section Grown

variable [Sha256]

omit [Sha256] in
theorem carried_of_outputs {artifacts : KeyMap String Artifact} {cap : Capability}
    {outputs : List NamedArtifact} (checked : validateOutputs artifacts cap outputs = .ok ()) :
    ∀ o ∈ outputs, o.artifact.isSome := by
  obtain ⟨-, -, each⟩ := bind_eq_ok.mp checked
  intro o member
  obtain ⟨-, r, -, -, carried, -⟩ := validateOutput_ok (forM_eq_ok.mp each o member)
  rw [carried]
  rfl

theorem carried_apply {modules : List ModuleSlot} {artifacts : KeyMap String Artifact}
    {runId : String} {slot : RunSlot} {a : SlotAct}
    (guard : a.enabled modules artifacts runId slot) (carried : Carried slot) :
    Carried (a.apply modules slot) := by
  refine ⟨?_, ?_⟩
  · by_cases injects : ∃ input, a = .inject input
    · obtain ⟨input, rfl⟩ := injects
      obtain ⟨⟨r, given, -⟩, -⟩ := guard
      intro i member
      rcases mem_admitInput member with rfl | old
      · rw [given]
        rfl
      · exact carried.inputs i old
    · push Not at injects
      rw [inputs_apply injects]
      exact carried.inputs
  · intro node d found
    rcases latest_origin found with old | ⟨c, outputs, rfl, -, rfl⟩
    · exact carried.outputs node d old
    · obtain ⟨-, -, cap, -, checked⟩ := guard
      exact carried_of_outputs checked

variable [Prost]

theorem reachable_carried {policy : ArtifactStorePolicy} {s : State} (reached : Reachable policy s)
    {runId : String} {slot : RunSlot} (found : s.runs.lookup runId = some slot) :
    Carried slot ∧ slot.run.assembly.terminal.isSome := by
  have all : ∀ runId slot, s.runs.lookup runId = some slot →
      Carried slot ∧ slot.run.assembly.terminal.isSome := by
    refine reachable_invariant (P := fun s => ∀ runId slot, s.runs.lookup runId = some slot →
      Carried slot ∧ slot.run.assembly.terminal.isSome) ?_ ?_ reached
    · intro runId slot found
      simp at found
    · intro s a guard _ before
      refine slots_apply (I := fun _ _ slot => Carried slot ∧ slot.run.assembly.terminal.isSome) guard
        (fun _ _ kept => kept) ?_ ?_ before
      · rintro slot - ⟨env, req, assembly, maxSteps, rfl, -, ok⟩
        have valid := validateAssembly_ok ok
        obtain ⟨terminal, -, -, -, declared, -⟩ := valid.terminal
        refine ⟨⟨fun i member => ?_, fun node d found => ?_⟩, ?_⟩
        · obtain ⟨-, r, given, -⟩ := valid.stored i member
          rw [given]
          rfl
        · simp [freshSlot] at found
        · rw [freshSlot, declared]
          rfl
      · rintro runId slot act - - - possible ⟨carried, terminal⟩
        refine ⟨carried_apply possible carried, ?_⟩
        rw [(apply_terms s.modules slot act).assembly]
        exact terminal
  exact all runId slot found

/-- What the calls since `start_run` have made of a RUNNING slot. -/
structure Grown (runId : String) (slot : RunSlot) : Prop where
  carried : Carried slot
  terminal : slot.run.assembly.terminal.isSome
  claims : ∀ id c, slot.claimed.lookup id = some c → c.work.runId = runId
  running : slot.run.state = .running
  spare : slot.run.steps < slot.run.maxSteps
  counted : slot.run.steps.toNat = commitTotal slot

theorem grown_of_reachable {policy : ArtifactStorePolicy} {s : State} (reached : Reachable policy s)
    {runId : String} {slot : RunSlot} (found : s.runs.lookup runId = some slot)
    (running : slot.run.state = .running) : Grown runId slot := by
  obtain ⟨carried, terminal⟩ := reachable_carried reached found
  have books := (reachable_accounted reached).2 runId slot found
  exact ⟨carried, terminal, fun id c held => ((reachable_wellFormed reached runId slot found).claims
    id c held).runId, running, books.running running, books.commits⟩

omit [Sha256] [Prost] in
theorem Grown.reaped {runId : String} {slot : RunSlot} (grown : Grown runId slot) (env : Env) :
    Grown runId (reapSlot env slot) := by
  have same := reapSlot_deliveries env slot
  have run := reapSlot_run env slot
  refine ⟨⟨?_, ?_⟩, ?_, fun id c held => grown.claims id c (reapSlot_lookup held), ?_, ?_, ?_⟩
  · rw [run]
    exact grown.carried.inputs
  · rw [same.latest]
    exact grown.carried.outputs
  · rw [run]
    exact grown.terminal
  · rw [run]
    exact grown.running
  · rw [run]
    exact grown.spare
  · rw [run, commitTotal, same.nodeCommits]
    exact grown.counted

end Grown

section Lockstep

variable [Sha256] [Prost] [Encodings]

/-- Three ledgers are one ledger extended by the same events, each with its own encoder. -/
def Logged (base rust go python : List LedgerEntry) : Prop :=
  ∃ events : List LedgerEvent, rust = extend base (events.map (detailed encodeToVec)) ∧
    go = extend base (events.map (detailed marshalCanonical)) ∧
    python = extend base (events.map (detailed canonical))

/-- The three kernels hold the same, but for the details of what they have logged since `base`. -/
structure Tracks (base : List LedgerEntry) (rust go : State) (python : Python.MemoryKernel) : Prop where
  go_same : go = { rust with ledger := go.ledger }
  python_same : python = { widen rust with ledger := python.ledger }
  logged : Logged base rust.ledger go.ledger python.ledger

theorem Tracks.refl (state : State) : Tracks state.ledger state state (widen state) :=
  ⟨rfl, rfl, [], rfl, rfl, rfl⟩

variable {base : List LedgerEntry} {rust go : State} {python : Python.MemoryKernel}

theorem Tracks.record (tracks : Tracks base rust go python) (runId : String) (slot : RunSlot)
    (events : List LedgerEvent) :
    Tracks base (Runs.record rust runId slot (events.map (detailed encodeToVec)))
      (Go.record go runId slot events) (Python.record python runId (widenSlot slot) events) := by
  obtain ⟨goSame, pythonSame, past, rustLog, goLog, pythonLog⟩ := tracks
  rw [record_eq, goRecord_eq, pythonRecord_eq]
  refine ⟨?_, ?_, past ++ events, ?_, ?_, ?_⟩
  · rw [goSame]
  · rw [pythonSame]
    simp only [widen, replace_mapValues]
  · rw [List.map_append, extend_append, ← rustLog]
  · rw [List.map_append, extend_append, ← goLog]
  · rw [List.map_append, extend_append, ← pythonLog]

theorem Tracks.derive (tracks : Tracks base rust go python) (d : Derivation) :
    Tracks base { rust with derivations := rust.derivations ++ [d] }
      { go with derivations := go.derivations ++ [d] }
      { python with derivations := python.derivations ++ [d] } := by
  obtain ⟨goSame, pythonSame, logged⟩ := tracks
  refine ⟨?_, ?_, logged⟩
  · rw [goSame]
  · rw [pythonSame]
    rfl

theorem Tracks.reap (tracks : Tracks base rust go python) {env env' : Env}
    (clock : env'.now = env.now) {slot : RunSlot} (lone : LoneExpiry env.now slot) (runId : String) :
    Tracks base (reapExpiredLocked env runId slot rust) (Go.reapExpiredLocked env' runId slot go)
      (Python.reapExpiredLocked env'.now runId (widenSlot slot) python) := by
  have lone' : LoneExpiry env'.now slot := clock ▸ lone
  have next := tracks.record runId (reapSlot env slot)
    ((expiring env.now slot).flatMap (expiryOf runId slot))
  have details : (((expiring env.now slot).flatMap (expiryOf runId slot)).map (detailed encodeToVec)) =
      reapRecords runId slot (expiredClaims env slot) := by
    rw [expiredClaims_lone lone, reapRecords, List.map_flatMap]
    exact List.flatMap_congr fun e _ => (expiryRecords_eq runId slot e).symm
  have back : (expiring env.now slot).reverse = expiring env.now slot := reverse_short lone
  rw [details] at next
  rw [Go.reapExpiredLocked, python_reap_eq, expiredClaims_lone lone', reapSlot_iter clock slot, clock,
    back, ← (expiry_details runId slot _).2, ← pythonRecord_eq]
  exact next

/-- The same run or an error of the same code, out of kernels that hold the same. -/
structure Alike (base : List LedgerEntry) (rust go : State × Except KernelError Run)
    (python : Python.MemoryKernel × Except Python.Raised Run) : Prop where
  go_answer : answer go.2 = answer rust.2
  python_answer : pythonAnswer python.2 = answer rust.2
  tracks : Tracks base rust.1 go.1 python.1

theorem Tracks.same (tracks : Tracks base rust go python) (run : Run) :
    Alike base (rust, .ok run) (go, .ok run) (python, .ok run) := ⟨rfl, rfl, tracks⟩

theorem Tracks.fails (tracks : Tracks base rust go python) {e e' e'' : KernelError}
    (goCode : classOf e' = classOf e) (pythonCode : classOf e'' = classOf e) :
    Alike base (rust, .error e) (go, .error e') (python, .error (.kernel e'')) := by
  refine ⟨?_, ?_, tracks⟩
  · rw [answer_error, answer_error, goCode]
  · rw [answer_error, pythonAnswer_error, classOfRaised, pythonCode]

theorem Tracks.checked {α : Type} (tracks : Tracks base rust go python)
    {check goCheck : Except KernelError α} {pythonCheck : Except KernelError α}
    (goVerdict : classed goCheck = classed check) (pythonVerdict : classed pythonCheck = classed check)
    {next goNext : α → State × Except KernelError Run}
    {pythonNext : α → Python.MemoryKernel × Except Python.Raised Run}
    (passed : ∀ a, check = .ok a → Alike base (next a) (goNext a) (pythonNext a)) :
    Alike base (orReturn check rust next) (orReturn goCheck go goNext)
      (Python.orRaise (Python.raising pythonCheck) python pythonNext) := by
  cases check with
  | error e =>
      cases goCheck with
      | ok a => cases goVerdict
      | error e' =>
          cases pythonCheck with
          | ok a => cases pythonVerdict
          | error e'' =>
              exact tracks.fails (Except.error.inj goVerdict) (Except.error.inj pythonVerdict)
  | ok a =>
      cases goCheck with
      | error e' => cases goVerdict
      | ok a' =>
          cases pythonCheck with
          | error e'' => cases pythonVerdict
          | ok a'' =>
              obtain rfl : a' = a := Except.ok.inj goVerdict
              obtain rfl : a'' = a' := Except.ok.inj pythonVerdict
              exact passed a'' rfl

end Lockstep

section Closing

theorem classed_validateOutputs (dialect : Dialect) (artifacts : KeyMap String Artifact)
    (cap : Capability) (outputs : List NamedArtifact) :
    classed (Sdks.validateOutputs dialect artifacts cap outputs) =
      classed (Work.validateOutputs artifacts cap outputs) := by
  refine classed_bind_congr (classed_forM_congr fun expected _ => rfl) fun _ _ =>
    classed_forM_congr fun output _ => ?_
  rw [Sdks.validateOutput, Work.validateOutput]
  cases port cap.outputs output.name with
  | none => rfl
  | some expected =>
      cases output.artifact with
      | none => rfl
      | some r =>
          simp only
          cases artifacts.lookup r.id with
          | none => rfl
          | some artifact =>
              simp only
              split_ifs <;> rfl

/-- The output that a derivation delivers on the terminal port, when its node is the terminal. -/
def delivered (assembly : Assembly) (d : Derivation) : Option NamedArtifact :=
  (assembly.terminal.filter (·.node == d.nodeId)).bind fun terminal =>
    d.outputs.find? (·.name == terminal.port)

theorem terminalAnswer_eq (assembly : Assembly) (d : Derivation) :
    terminalAnswer assembly d = (delivered assembly d).bind (·.artifact) :=
  (Option.bind_assoc _ _ _).symm

theorem delivered_carries {assembly : Assembly} {d : Derivation} {o : NamedArtifact}
    (carried : ∀ o ∈ d.outputs, o.artifact.isSome) (found : delivered assembly d = some o) :
    ∃ r, o.artifact = some r := by
  obtain ⟨terminal, -, listed⟩ := Option.bind_eq_some_iff.mp found
  exact Option.isSome_iff_exists.mp (carried o (List.mem_of_find?_eq_some listed))

variable {slot : RunSlot} {c : ClaimedSlot} {d : Derivation}

theorem go_exhaust (running : slot.run.state = .running)
    (carried : ∀ o ∈ d.outputs, o.artifact.isSome) :
    Go.exhaustRun (Go.answerRun (Go.settleClaim slot c d) d) =
      { slot := commitSlot slot c d, closed := decide ((commitSlot slot c d).run.state ≠ .running) } := by
  have opened : Go.isOpenClosure (Go.settleClaim slot c d) = isOpenClosure slot :=
    isOpenClosure_eq (Go.settleClaim slot c d)
  have output : ((Go.settleClaim slot c d).run.assembly.terminal.filter (·.node == d.nodeId)).bind
      (fun terminal => d.outputs.find? (·.name == terminal.port)) = delivered slot.run.assembly d := rfl
  rw [Go.answerRun, output, opened, commitSlot, advanceRun, terminalAnswer_eq]
  cases found : delivered slot.run.assembly d with
  | none =>
      simp only [Option.bind_none, Option.isSome_none, Bool.false_and, Bool.false_eq_true, if_false,
        Option.none_or, Go.exhaustRun, Go.settleClaim, true_and]
      split_ifs <;> simp [running]
  | some o =>
      obtain ⟨r, given⟩ := delivered_carries carried found
      cases isOpenClosure slot <;>
        simp only [Option.bind_some, given, Option.isSome_some, Bool.not_true, Bool.not_false,
          Bool.and_true, Bool.and_false, Bool.false_eq_true, if_false, if_true, Option.some_or,
          Go.exhaustRun, Go.settleClaim, true_and, Bool.true_eq_false, false_and]
      · simp
      · split_ifs <;> simp [running]

variable [Sha256] {modules : List ModuleSlot}

theorem go_stall (idle : Go.isIdle modules slot = isIdle modules slot) :
    Go.stallRun modules { slot, closed := decide (slot.run.state ≠ .running) } =
      { slot := settleSlot modules slot
        closed := decide ((settleSlot modules slot).run.state ≠ .running) } := by
  rw [Go.stallRun, settleSlot, idle]
  simp only [ne_eq, decide_eq_false_iff_not, not_not]
  split_ifs
  · simp [stallSlot]
  · rfl

omit [Sha256] in
theorem go_closingKind (open' : slot.run.state ≠ .cancelled) :
    Go.closingKind { slot, closed := decide (slot.run.state ≠ .running) } =
      closureKind slot.run.state := by
  rw [Go.closingKind]
  cases state : slot.run.state <;> simp [closureKind]
  exact open' state

def widenClosing (closing : Go.Closing) : Python.Closing :=
  { slot := widenSlot closing.slot, closed := closing.closed }

omit [Sha256] in
theorem python_settle (room : ((slot.nodeCommits.lookup c.work.nodeId).getD 0).toNat + 1 < 2 ^ 64) :
    Python.countStep (Python.settleClaim (widenSlot slot) (widenClaim c) d) =
      widenSlot (Go.settleClaim slot c d) := by
  have next : ((slot.nodeCommits.lookup c.work.nodeId).getD 0 + 1).toNat =
      ((slot.nodeCommits.lookup c.work.nodeId).getD 0).toNat + 1 := by
    rw [UInt64.toNat_add]
    exact Nat.mod_eq_of_lt room
  have count : ((widenSlot slot).nodeCommits.lookup c.work.nodeId).getD 0 =
      ((slot.nodeCommits.lookup c.work.nodeId).getD 0).toNat := by
    rw [widenSlot, lookup_mapValues]
    cases slot.nodeCommits.lookup c.work.nodeId <;> rfl
  rw [Python.countStep, Python.settleClaim, Go.settleClaim, show (widenClaim c).work = c.work from rfl,
    count, ← next]
  simp only [widenSlot, erase_mapValues, insert_mapValues]
  rfl

omit [Sha256] in
theorem python_answer (declared : slot.run.assembly.terminal.isSome)
    (carried : ∀ o ∈ d.outputs, o.artifact.isSome) :
    Python.answerRun (widenSlot slot) d = widenClosing (Go.answerRun slot d) := by
  obtain ⟨terminal, known⟩ := Option.isSome_iff_exists.mp declared
  have output : (if ((widenSlot slot).run.assembly.terminal.getD ⟨"", ""⟩).node = d.nodeId then
      d.outputs.find? (·.name == ((widenSlot slot).run.assembly.terminal.getD ⟨"", ""⟩).port)
      else none) = delivered slot.run.assembly d := by
    rw [show (widenSlot slot).run = slot.run from rfl, delivered, known, Option.getD_some,
      Option.filter_some]
    simp only [beq_iff_eq]
    split_ifs <;> rfl
  rw [Python.answerRun, output, Go.answerRun, ← delivered]
  cases found : delivered slot.run.assembly d with
  | none => rfl
  | some o =>
      obtain ⟨r, given⟩ := delivered_carries carried found
      have same : ∀ answer, Python.isOpenClosure { widenSlot slot with
          run := { (widenSlot slot).run with answer } } = Go.isOpenClosure slot := fun _ => rfl
      simp only [given, Option.getD_some, same]
      split_ifs <;> rfl

omit [Sha256] in
theorem python_exhaust (closing : Go.Closing) :
    Python.exhaustRun (widenClosing closing) = widenClosing (Go.exhaustRun closing) := by
  rw [Python.exhaustRun, Go.exhaustRun]
  split_ifs with spent spent' spent'
  · rfl
  · exact absurd spent spent'
  · exact absurd spent' spent
  · rfl

theorem python_stall {closing : Go.Closing}
    (ready : Python.assemblyAnyReady modules (widenSlot closing.slot) =
      .ok (Go.assemblyAnyReady modules closing.slot)) :
    Python.stallRun modules (widenClosing closing) = .ok (widenClosing (Go.stallRun modules closing)) := by
  have opened : Python.isOpenClosure (widenClosing closing).slot = Go.isOpenClosure closing.slot := rfl
  have held : size (widenClosing closing).slot.claimed = size closing.slot.claimed :=
    size_mapValues _ _
  have found : Python.assemblyAnyReady modules (widenClosing closing).slot =
      .ok (Go.assemblyAnyReady modules closing.slot) := ready
  rw [Python.stallRun, Go.stallRun, Go.isIdle, opened, held, found,
    show (widenClosing closing).closed = closing.closed from rfl]
  cases closing.closed <;> cases Go.isOpenClosure closing.slot <;>
    cases Go.assemblyAnyReady modules closing.slot <;>
    cases size closing.slot.claimed == 0 <;> rfl

end Closing

section Calls

variable [Sha256] [Prost] [Encodings]

/-- What a worker reports on work it has claimed. -/
inductive Report
  | failed (req : FailWorkRequest)
  | committed (submitted : Derivation)

namespace Report

omit [Sha256] [Prost] [Encodings] in
def runId : Report → String
  | .failed req => req.runId
  | .committed submitted => submitted.runId

omit [Encodings] in
/-- In Rust the deadline of a failure is checked before the call. -/
def rust (env : Env) (ctx : RequestContext) (state : State) : Report → State × Except KernelError Run
  | .failed req => orReturn (checkDeadline env ctx) state fun _ => failWork env req state
  | .committed submitted => commitCtx env submitted ctx state

def go (env : Env) (ctx : RequestContext) (state : State) : Report → State × Except KernelError Run
  | .failed req => Go.failWork env req ctx state
  | .committed submitted => Go.commit env submitted ctx state

def python (env : Env) (ctx : RequestContext) (k : Python.MemoryKernel) :
    Report → Python.MemoryKernel × Except Python.Raised Run
  | .failed req => Python.failWork env req ctx k
  | .committed submitted => Python.commit env submitted ctx k

end Report

omit [Encodings] in
/-- A RUNNING slot that calls since `start_run` have led to, of an assembly with one binding to a
port, under declared enum values and with one expired claim at most. -/
structure Ordinary (now : Int64) (state : State) (runId : String) (slot : RunSlot) : Prop where
  reached : ∃ policy s, Reachable policy s ∧ s.runs.lookup runId = some slot
  one : OneBinding slot.run.assembly
  declared : Declared state.modules slot
  lone : LoneExpiry now slot

variable {base : List LedgerEntry} {rust go : State} {python : Python.MemoryKernel} {slot : RunSlot}

theorem Tracks.modules (tracks : Tracks base rust go python) :
    go.modules = rust.modules ∧ python.modules = rust.modules := by
  rw [tracks.go_same, tracks.python_same]
  exact ⟨rfl, rfl⟩

theorem Tracks.artifacts (tracks : Tracks base rust go python) :
    go.artifacts = rust.artifacts ∧ python.artifacts = rust.artifacts := by
  rw [tracks.go_same, tracks.python_same]
  exact ⟨rfl, rfl⟩

private theorem Tracks.stalls (tracks : Tracks base rust go python)
    (declared : Declared rust.modules slot) (one : OneBinding slot.run.assembly)
    (carried : Carried slot) (runId : String) :
    Alike base
      (if isIdle rust.modules slot then
        (Runs.record rust runId (stallSlot slot) [stalledRecord (stallSlot slot)],
          .ok (stallSlot slot).run)
      else (rust, .ok slot.run))
      (if Go.isIdle go.modules slot then
        (Go.record go runId (stallSlot slot)
          [("run.stalled", (stallSlot slot).run.id, .run (stallSlot slot).run)],
          .ok (stallSlot slot).run)
      else (go, .ok slot.run))
      (if !Python.isOpenClosure (widenSlot slot) && size (widenSlot slot).claimed == 0 then
        Python.orRaise (Python.assemblyAnyReady python.modules (widenSlot slot)) python fun ready =>
        if ready then (python, .ok (widenSlot slot).run)
        else
          (Python.record python runId (Python.stallSlot (widenSlot slot))
            [("run.stalled", (Python.stallSlot (widenSlot slot)).run.id,
              .run (Python.stallSlot (widenSlot slot)).run)],
            .ok (Python.stallSlot (widenSlot slot)).run)
      else (python, .ok (widenSlot slot).run)) := by
  obtain ⟨goModules, pythonModules⟩ := tracks.modules
  have stalled := (tracks.record runId (stallSlot slot)
    [("run.stalled", (stallSlot slot).run.id, .run (stallSlot slot).run)]).same (stallSlot slot).run
  have opened : Python.isOpenClosure (widenSlot slot) = isOpenClosure slot := isOpenClosure_eq slot
  have held : size (widenSlot slot).claimed = size slot.claimed := size_mapValues _ _
  rw [goModules, go_isIdle declared one, pythonModules, python_anyReady declared carried, opened, held,
    isIdle]
  cases isOpenClosure slot <;> cases assemblyAnyReady rust.modules slot <;>
    cases size slot.claimed == 0
  · exact tracks.same slot.run
  · exact stalled
  all_goals exact tracks.same slot.run

variable {env env' : Env} {ctx : RequestContext} {state : State}

private theorem failed_alike (clock : env'.now = env.now) {req : FailWorkRequest}
    (goTimely : checkDeadline env' ctx = .ok ()) (pythonTimely : Python.checkDeadline env' ctx = .ok ())
    (taken : runningSlot state req.runId = .ok slot)
    (ordinary : Ordinary env.now state req.runId slot) :
    Alike state.ledger (failWork env req state) (Go.failWork env' req ctx state)
      (Python.failWork env' req ctx (widen state)) := by
  obtain ⟨⟨policy, s, reached, stored⟩, one, declared, lone⟩ := ordinary
  have grown := (grown_of_reachable reached stored (runningSlot_ok taken).2).reaped env
  have tracks := (Tracks.refl state).reap clock lone req.runId
  have run := reapSlot_run env slot
  have modules : (reapExpiredLocked env req.runId slot state).modules = state.modules := by
    rw [reapExpiredLocked, record_eq]
  rw [failWork, Go.failWork, Python.failWork, goTimely, pythonTimely, runningSlot_widen, taken]
  simp only [orReturn, Python.orRaise, Python.raising, Except.map, Except.mapError, reapSlot_widen,
    reapSlot_iter clock slot]
  revert tracks grown run modules
  generalize reapSlot env slot = reaped
  generalize reapExpiredLocked env req.runId slot state = rust
  generalize Go.reapExpiredLocked env' req.runId slot state = go
  generalize Python.reapExpiredLocked env'.now req.runId (widenSlot slot) (widen state) = python
  intro grown tracks run modules
  have claim : (widenSlot reaped).claimed.lookup req.workId =
      (reaped.claimed.lookup req.workId).map widenClaim := lookup_mapValues widenClaim _ _
  rw [claim]
  cases held : reaped.claimed.lookup req.workId with
  | none => exact tracks.fails rfl rfl
  | some c =>
      have fails : ∀ terminal, Python.failSlot (widenSlot reaped) req.workId (widenClaim c) terminal =
          widenSlot (failSlot reaped req.workId c terminal) := fun terminal => by
        simp only [Python.failSlot, failSlot, widenSlot, erase_mapValues]
        rfl
      have next := tracks.record req.runId
        (failSlot reaped req.workId c (req.terminal || decide (reaped.maxAttempts ≤ c.attempt)))
        [("work.failed", req.workId, .workFailure
          { runId := req.runId, workId := req.workId, unitKey := c.unitKey
            reason := if req.reason = "" then "failed" else req.reason
            terminal := req.terminal || decide (reaped.maxAttempts ≤ c.attempt), attempt := c.attempt })]
      simp only [Option.map_some, fails]
      refine next.stalls ?_ ?_ ?_ req.runId
      · rw [record_eq]
        simp only [modules]
        exact ⟨declared.registry, run ▸ declared.default, run ▸ declared.byNode⟩
      · exact run ▸ one
      · exact ⟨grown.carried.inputs, grown.carried.outputs⟩

omit [Prost] [Encodings] in
private theorem settled_open (modules : List ModuleSlot) (c : ClaimedSlot)
    (outputs : List NamedArtifact) (running : slot.run.state = .running) :
    (settleSlot modules (commitSlot slot c (derivationOf c.work outputs))).run.state ≠ .cancelled := by
  rcases commit_state modules c outputs running with ⟨state, -⟩ | ⟨state, -⟩ | ⟨state | state, -⟩ <;>
    exact fun cancelled => nomatch state.symm.trans cancelled

omit [Sha256] [Prost] [Encodings] in
theorem Grown.room {runId : String} (grown : Grown runId slot) (nodeId : String) :
    slot.run.steps.toNat + 1 < 2 ^ 64 ∧
      ((slot.nodeCommits.lookup nodeId).getD 0).toNat + 1 < 2 ^ 64 := by
  have counted : ((slot.nodeCommits.lookup nodeId).getD 0).toNat ≤ slot.run.steps.toNat := by
    rw [grown.counted]
    cases found : slot.nodeCommits.lookup nodeId with
    | none => exact Nat.zero_le _
    | some n => exact le_sum_values found
  have below := UInt64.lt_iff_toNat_lt.mp grown.spare
  have top := slot.run.maxSteps.toNat_lt
  omega

variable {modules : List ModuleSlot} {c : ClaimedSlot} {d : Derivation}

omit [Sha256] [Prost] [Encodings] in
private theorem committed_ready (declared : Declared modules slot) (one : OneBinding slot.run.assembly)
    (delivered : Carried slot) (carried : ∀ o ∈ d.outputs, o.artifact.isSome) :
    Declared modules (commitSlot slot c d) ∧ OneBinding (commitSlot slot c d).run.assembly ∧
      Carried (commitSlot slot c d) := by
  obtain ⟨-, assembly, policy, -, inputs, -⟩ := advanceRun_terms slot d
  refine ⟨⟨declared.registry, fun p given => declared.default p (policy.symm.trans given),
    fun p given => declared.byNode p (policy.symm.trans given)⟩, ?_, ?_, fun node other found => ?_⟩
  · rw [commitSlot, assembly]
    exact one
  · rw [commitSlot, inputs]
    exact delivered.inputs
  · rw [commitSlot, lookup_insert_of] at found
    split_ifs at found with here
    · obtain rfl := Option.some.inj found
      exact carried
    · exact delivered.outputs node other found

omit [Prost] [Encodings] in
private theorem closings_same (declared : Declared modules slot) (one : OneBinding slot.run.assembly)
    {runId : String} (grown : Grown runId slot) (carried : ∀ o ∈ d.outputs, o.artifact.isSome) :
    let settled := settleSlot modules (commitSlot slot c d)
    let closing : Go.Closing := { slot := settled, closed := decide (settled.run.state ≠ .running) }
    Go.stallRun modules (Go.exhaustRun (Go.answerRun (Go.settleClaim slot c d) d)) = closing ∧
      Python.stallRun modules (Python.exhaustRun (Python.answerRun
        (Python.countStep (Python.settleClaim (widenSlot slot) (widenClaim c) d)) d)) =
          .ok (widenClosing closing) := by
  obtain ⟨declared', one', carried'⟩ := committed_ready (c := c) declared one grown.carried carried
  have exhausted := @go_exhaust slot c d grown.running carried
  have stalled := go_stall (go_isIdle declared' one')
  refine ⟨by rw [exhausted, stalled], ?_⟩
  rw [python_settle (grown.room c.work.nodeId).2,
    @python_answer (Go.settleClaim slot c d) d grown.terminal carried, python_exhaust, exhausted,
    python_stall, stalled]
  rw [python_anyReady declared' carried', go_anyReady declared' one']

omit [Sha256] [Prost] [Encodings] in
private theorem unkeyed (wholly : ctx.requestKey = "") (op : String) : idempotencyKey op ctx = none :=
  if_pos wholly

private theorem Tracks.settles (tracks : Tracks base rust go python)
    (declared : Declared rust.modules slot) (one : OneBinding slot.run.assembly) {runId : String}
    (grown : Grown runId slot) (c : ClaimedSlot) {outputs : List NamedArtifact}
    (carried : ∀ o ∈ outputs, o.artifact.isSome) :
    let d := derivationOf c.work outputs
    let settled := settleSlot rust.modules (commitSlot slot c d)
    let goClosing := Go.stallRun go.modules (Go.exhaustRun (Go.answerRun (Go.settleClaim slot c d) d))
    let counting := Python.settleClaim (widenSlot slot) (widenClaim c) d
    Alike base
      (Runs.record { rust with derivations := rust.derivations ++ [d] } runId settled
        (commitRecords d settled.run), .ok settled.run)
      (Go.record { go with derivations := go.derivations ++ [d] } runId goClosing.slot
        [("derivation.committed", d.id, .derivation d),
          (Go.closingKind goClosing, goClosing.slot.run.id, .run goClosing.slot.run)],
        .ok goClosing.slot.run)
      (if counting.run.steps.toNat + 1 = 2 ^ 64 then
        (Python.record python runId counting [], .error .valueError) else
      let closing := Python.exhaustRun (Python.answerRun (Python.countStep counting) d)
      Python.orRaise (Python.stallRun python.modules closing) (Python.record python runId closing.slot [])
        fun closing =>
        (Python.record { python with derivations := python.derivations ++ [d] } runId closing.slot
          [("derivation.committed", d.id, .derivation d),
            (Python.closingKind closing, closing.slot.run.id, .run closing.slot.run)],
          .ok closing.slot.run)) := by
  intro d settled goClosing counting
  obtain ⟨goModules, pythonModules⟩ := tracks.modules
  obtain ⟨goSame, pythonSame⟩ := closings_same (c := c) (d := d) declared one grown carried
  have kind := go_closingKind (settled_open rust.modules c outputs grown.running)
  have next := (tracks.derive d).record runId settled
    [("derivation.committed", d.id, .derivation d),
      (closureKind settled.run.state, settled.run.id, .run settled.run)]
  have fits : ¬counting.run.steps.toNat + 1 = 2 ^ 64 := Nat.ne_of_lt (grown.room "").1
  have closing : goClosing = { slot := settled, closed := decide (settled.run.state ≠ .running) } := by
    rw [← goSame, ← goModules]
  have finished : Python.stallRun python.modules
      (Python.exhaustRun (Python.answerRun (Python.countStep counting) d)) =
        .ok (widenClosing { slot := settled, closed := decide (settled.run.state ≠ .running) }) := by
    rw [pythonModules]
    exact pythonSame
  have goKind : Go.closingKind { slot := settled, closed := decide (settled.run.state ≠ .running) } =
      closureKind settled.run.state := kind
  have pythonKind : Python.closingKind
      (widenClosing { slot := settled, closed := decide (settled.run.state ≠ .running) }) =
        closureKind settled.run.state := kind
  rw [if_neg fits, closing, goKind]
  simp only [finished, Python.orRaise, pythonKind]
  exact next.same settled.run

private theorem committed_alike (clock : env'.now = env.now) {submitted : Derivation}
    (wholly : ctx.requestKey = "") (timely : checkDeadline env ctx = .ok ())
    (goTimely : checkDeadline env' ctx = .ok ()) (pythonTimely : Python.checkDeadline env' ctx = .ok ())
    (taken : runningSlot state submitted.runId = .ok slot)
    (ordinary : Ordinary env.now state submitted.runId slot) :
    Alike state.ledger (commitCtx env submitted ctx state) (Go.commit env' submitted ctx state)
      (Python.commit env' submitted ctx (widen state)) := by
  obtain ⟨⟨policy, s, reached, stored⟩, one, declared, lone⟩ := ordinary
  have grown := (grown_of_reachable reached stored (runningSlot_ok taken).2).reaped env
  have tracks := (Tracks.refl state).reap clock lone submitted.runId
  have run := reapSlot_run env slot
  have modules : (reapExpiredLocked env submitted.runId slot state).modules = state.modules := by
    rw [reapExpiredLocked, record_eq]
  rw [commitCtx, Go.commit, Python.commit, timely, goTimely, pythonTimely, runningSlot_widen, taken]
  simp only [orReturn, Python.orRaise, Python.raising, Except.map, Except.mapError, idempotentGet,
    idempotentPut, Python.idempotentPut, unkeyed wholly, Option.bind_none, reapSlot_widen,
    reapSlot_iter clock slot]
  revert tracks grown run modules
  generalize reapSlot env slot = reaped
  generalize reapExpiredLocked env submitted.runId slot state = rust
  generalize Go.reapExpiredLocked env' submitted.runId slot state = go
  generalize Python.reapExpiredLocked env'.now submitted.runId (widenSlot slot) (widen state) = python
  intro grown tracks run modules
  have claim : (widenSlot reaped).claimed.lookup submitted.workId =
      (reaped.claimed.lookup submitted.workId).map widenClaim := lookup_mapValues widenClaim _ _
  rw [claim]
  cases held : reaped.claimed.lookup submitted.workId with
  | none => exact tracks.fails rfl rfl
  | some c =>
      obtain ⟨goModules, pythonModules⟩ := tracks.modules
      obtain ⟨goArtifacts, pythonArtifacts⟩ := tracks.artifacts
      have declared' : Declared rust.modules reaped := by
        rw [modules]
        exact ⟨declared.registry, run ▸ declared.default, run ▸ declared.byNode⟩
      have one' : OneBinding reaped.run.assembly := run ▸ one
      rw [Option.map_some]
      by_cases astray : submitted.nodeId ≠ "" ∧ submitted.nodeId ≠ c.work.nodeId
      · have astray' : submitted.nodeId ≠ "" ∧ submitted.nodeId ≠ (widenClaim c).work.nodeId := astray
        simp only [if_pos astray, if_pos astray']
        exact tracks.fails rfl rfl
      have here : ¬(submitted.nodeId ≠ "" ∧ submitted.nodeId ≠ (widenClaim c).work.nodeId) := astray
      simp only [if_neg astray, if_neg here, if_neg (UInt64.not_le.mpr grown.spare)]
      refine tracks.checked (by rw [goModules])
        (congrArg (fun m => classed (capabilityForWork m c.work)) pythonModules) fun cap resolved => ?_
      refine tracks.checked ?_ ?_ fun _ accepted => ?_
      · rw [goArtifacts]
        exact classed_validateOutputs Go.dialect _ _ _
      · rw [pythonArtifacts]
        exact classed_validateOutputs Python.dialect _ _ _
      rw [grown.claims submitted.workId c held]
      exact tracks.settles declared' one' grown c (carried_of_outputs accepted)

omit [Sha256] [Prost] [Encodings] in
/-- A check whose failure is not a missed deadline. -/
def Prompt {α : Type} (x : Except KernelError α) : Prop :=
  ∀ e, x = .error e → classOf e ≠ .failedPrecondition

omit [Sha256] [Prost] [Encodings] in
theorem prompt_ok {α : Type} (a : α) : Prompt (.ok a) := fun _ failed => nomatch failed

omit [Sha256] [Prost] [Encodings] in
theorem prompt_error {α : Type} {e : KernelError} (other : classOf e ≠ .failedPrecondition) :
    Prompt (α := α) (.error e) := by
  rintro _ same
  obtain rfl := Except.error.inj same
  exact other

omit [Sha256] [Prost] [Encodings] in
theorem prompt_bind {α β : Type} {x : Except KernelError α} {f : α → Except KernelError β}
    (first : Prompt x) (rest : ∀ a, Prompt (f a)) : Prompt (x >>= f) := by
  cases x with
  | ok a => exact rest a
  | error e => exact prompt_error (first e rfl)

omit [Sha256] [Prost] [Encodings] in
theorem prompt_forM {α : Type} {f : α → Except KernelError Unit} (each : ∀ a, Prompt (f a))
    (l : List α) : Prompt (l.forM f) := by
  induction l with
  | nil => exact prompt_ok _
  | cons a l ih => exact prompt_bind (each a) fun _ => ih

omit [Sha256] [Prost] [Encodings] in
theorem prompt_orReturn {α β : Type} {check : Except KernelError α}
    {next : α → State × Except KernelError β} (first : Prompt check)
    (rest : ∀ a, Prompt (next a).2) : Prompt (orReturn check state next).2 := by
  cases check with
  | ok a => exact rest a
  | error e => exact prompt_error (first e rfl)

omit [Sha256] [Prost] [Encodings] in
private theorem prompt_running (runId : String) : Prompt (runningSlot state runId) := by
  rw [runningSlot]
  split
  · exact prompt_error (fun same => by cases same)
  · split_ifs
    · exact prompt_ok _
    · exact prompt_error (fun same => by cases same)

omit [Sha256] [Prost] [Encodings] in
private theorem prompt_outputs (artifacts : KeyMap String Artifact) (cap : Capability)
    (outputs : List NamedArtifact) : Prompt (Work.validateOutputs artifacts cap outputs) := by
  refine prompt_bind (prompt_forM (fun expected => ?_) _) fun _ => prompt_forM (fun output => ?_) _
  · simp only [validateOutputCounts]
    split_ifs
    · exact prompt_error (fun same => by cases same)
    · exact prompt_error (fun same => by cases same)
    · exact prompt_ok _
  · unfold Work.validateOutput
    split
    · exact prompt_error (fun same => by cases same)
    · split
      · exact prompt_error (fun same => by cases same)
      · split
        · exact prompt_error (fun same => by cases same)
        · split_ifs
          · exact prompt_ok _
          · exact prompt_error (fun same => by cases same)

omit [Encodings] in
private theorem never_late {report : Report} (timely : checkDeadline env ctx = .ok ())
    (wholly : ctx.requestKey = "") : Prompt (report.rust env ctx state).2 := by
  cases report with
  | failed req =>
      rw [Report.rust, timely, orReturn, failWork]
      refine prompt_orReturn (prompt_running _) fun slot => ?_
      simp only
      split
      · exact prompt_error (fun same => by cases same)
      · split_ifs <;> exact prompt_ok _
  | committed submitted =>
      rw [Report.rust, commitCtx, timely]
      simp only [orReturn, idempotentGet, unkeyed wholly, Option.bind_none]
      refine prompt_orReturn (prompt_running _) fun slot => ?_
      split
      · exact prompt_error (fun same => by cases same)
      · split_ifs
        · exact prompt_error (fun same => by cases same)
        · exact prompt_error (fun same => by cases same)
        · refine prompt_orReturn (fun e failed => ?_) fun cap =>
            prompt_orReturn (prompt_outputs _ _ _) fun _ => prompt_ok _
          rw [onlyInvalid_capability _ _ e failed]
          exact fun same => by cases same

private theorem late_alike {report : Report} {e e' e'' : KernelError}
    (late : checkDeadline env ctx = .error e) (goLate : checkDeadline env' ctx = .error e')
    (pythonLate : Python.checkDeadline env' ctx = .error e'') (goCode : classOf e' = classOf e)
    (pythonCode : classOf e'' = classOf e) :
    Alike state.ledger (report.rust env ctx state) (report.go env' ctx state)
      (report.python env' ctx (widen state)) := by
  have all := (Tracks.refl state).fails goCode pythonCode
  cases report with
  | failed req =>
      rw [Report.rust, Report.go, Report.python, Go.failWork, Python.failWork, late, goLate, pythonLate]
      exact all
  | committed submitted =>
      rw [Report.rust, Report.go, Report.python, commitCtx, Go.commit, Python.commit, late, goLate,
        pythonLate]
      exact all

private theorem closed_alike {report : Report} {e : KernelError} (wholly : ctx.requestKey = "")
    (timely : checkDeadline env ctx = .ok ()) (goTimely : checkDeadline env' ctx = .ok ())
    (pythonTimely : Python.checkDeadline env' ctx = .ok ())
    (refused : runningSlot state report.runId = .error e) :
    Alike state.ledger (report.rust env ctx state) (report.go env' ctx state)
      (report.python env' ctx (widen state)) := by
  have all := (Tracks.refl state).fails (e := e) rfl rfl
  cases report with
  | failed req =>
      rw [Report.runId] at refused
      rw [Report.rust, Report.go, Report.python, Go.failWork, Python.failWork, timely, goTimely,
        pythonTimely, runningSlot_widen, orReturn, failWork, refused]
      exact all
  | committed submitted =>
      rw [Report.runId] at refused
      rw [Report.rust, Report.go, Report.python, commitCtx, Go.commit, Python.commit, timely, goTimely,
        pythonTimely, runningSlot_widen, refused]
      simp only [orReturn, idempotentGet, unkeyed wholly, Option.bind_none]
      exact all

/-- Whatever the kernel holds: a report on claimed work leaves the same behind in the three kernels
exactly when no negative deadline lies before the clock. -/
theorem reportsAlike_iff {report : Report} (wholly : ctx.requestKey = "")
    (entry : env'.entryClock = env.entryClock) (clock : env'.now = env.now)
    (ordinary : ∀ slot, state.runs.lookup report.runId = some slot → slot.run.state = .running →
      Ordinary env.now state report.runId slot) :
    Alike state.ledger (report.rust env ctx state) (report.go env' ctx state)
        (report.python env' ctx (widen state)) ↔
      0 ≤ ctx.deadlineUnixMs ∨ env.entryClock ≤ ctx.deadlineUnixMs := by
  have goDeadline : checkDeadline env' ctx = checkDeadline env ctx := by
    rw [checkDeadline, checkDeadline, entry]
  cases verdict : checkDeadline env ctx with
  | error e =>
      rw [verdict] at goDeadline
      rw [checkDeadline] at verdict
      split_ifs at verdict with none late
      obtain rfl := Except.error.inj verdict
      have positive := Int64.not_le.mp none
      have apart : ctx.deadlineUnixMs ≠ 0 := fun zero => none (zero ▸ Int64.le_refl 0)
      have pythonLate : Python.checkDeadline env' ctx = .error (.failedPrecondition "deadline exceeded") := by
        rw [Python.checkDeadline, if_neg apart, entry, if_pos late]
      refine ⟨fun _ => .inl (Int64.le_of_lt positive), fun _ => ?_⟩
      refine late_alike ?_ goDeadline pythonLate rfl rfl
      rw [checkDeadline, if_neg none, if_pos late]
  | ok _ =>
      have goTimely : checkDeadline env' ctx = .ok () := goDeadline.trans verdict
      have python := python_deadline goTimely
      rw [entry] at python
      constructor
      · intro alike
        by_contra late
        rw [if_neg late] at python
        have raised : (report.python env' ctx (widen state)).2 =
            .error (.kernel (.failedPrecondition "deadline exceeded")) := by
          cases report <;> simp only [Report.python, Python.failWork, Python.commit, python] <;> rfl
        have same := alike.python_answer
        rw [raised] at same
        cases failed : (report.rust env ctx state).2 with
        | ok run =>
            rw [failed] at same
            cases same
        | error e =>
            rw [failed, answer_error, pythonAnswer_error, Except.error.injEq, classOfRaised,
              Option.some_inj] at same
            exact never_late verdict wholly e failed same.symm
      · intro punctual
        rw [if_pos punctual] at python
        cases taken : runningSlot state report.runId with
        | error e => exact closed_alike wholly verdict goTimely python taken
        | ok slot =>
            obtain ⟨stored, running⟩ := runningSlot_ok taken
            have fit := ordinary slot stored running
            cases report with
            | failed req =>
                rw [Report.rust, verdict]
                exact failed_alike clock goTimely python taken fit
            | committed submitted =>
                exact committed_alike clock wholly verdict goTimely python taken fit

end Calls

section Epoch

open Substrate.Kernel.Concrete
open scoped Substrate.Kernel.Marshal

/-- A worker has claimed the only unit. -/
def echoing : State := exec policy {} (opening .once .firstTerminal ++ [claimAt 0])

/-- It says the line it heard. -/
def said : Report :=
  .committed { runId := "r", workId := "work:r/n", outputs := [given "said" (text "one")] }

theorem echoing_ordinary (slot : RunSlot) (stored : echoing.runs.lookup "r" = some slot) :
    Ordinary 1 echoing "r" slot := by
  have facts : (echoing.runs.lookup "r").all fun slot =>
      slot.run.assembly = echoes ∧ slot.run.policy = some { closure := Closure.firstTerminal.asI32 } ∧
        (expiring 1 slot).isEmpty := by decide +kernel
  have modules : echoing.modules = [⟨echo .once, .registered⟩] := by decide +kernel
  rw [stored, Option.all_some, decide_eq_true_eq] at facts
  obtain ⟨assembly, given, none⟩ := facts
  refine ⟨⟨policy, echoing, ⟨_, rfl⟩, stored⟩, ?_, ⟨?_, ?_, ?_⟩, ?_⟩
  · rw [assembly]
    unfold OneBinding
    decide
  · rw [modules]
    decide
  · intro p known
    rw [given] at known
    obtain rfl := Option.some.inj known
    decide
  · intro p known id f found
    rw [given] at known
    obtain rfl := Option.some.inj known
    cases found
  · intro id id' c c' held held' expired expired'
    have member : (id, c) ∈ expiring 1 slot := mem_expiring.mpr ⟨held, expired⟩
    rw [List.isEmpty_iff.mp none] at member
    cases member

/-- Rust takes a negative deadline for none, Python for a missed one. -/
theorem negative_deadline_differs :
    (∀ slot, echoing.runs.lookup "r" = some slot → Ordinary 1 echoing "r" slot) ∧
      ¬Alike echoing.ledger (said.rust (envAt 1) { deadlineUnixMs := -1 } echoing)
        (said.go (envAt 1) { deadlineUnixMs := -1 } echoing)
        (said.python (envAt 1) { deadlineUnixMs := -1 } (widen echoing)) := by
  refine ⟨echoing_ordinary, fun alike => ?_⟩
  have answers := congrArg (fun a => a.toOption.map (·.state)) alike.python_answer
  revert answers
  decide +kernel

/-- A commit without a deadline. -/
theorem open_deadline_agrees :
    Alike echoing.ledger (said.rust (envAt 1) {} echoing) (said.go (envAt 1) {} echoing)
      (said.python (envAt 1) {} (widen echoing)) := by
  have fit := echoing_ordinary
  revert fit
  generalize echoing = state
  intro fit
  have agrees : Alike state.ledger (said.rust (envAt 1) {} state) (said.go (envAt 1) {} state)
      (said.python (envAt 1) {} (widen state)) ↔ _ :=
    reportsAlike_iff rfl rfl rfl fun slot stored _ => fit slot stored
  exact agrees.mpr (.inl (by decide))

end Epoch

end Substrate.Protocol.Reports
