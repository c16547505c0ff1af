/- ID: Substrate/Protocol/Injections
   digest: Injecting an input succeeds or fails alike in the three kernels unless the run and the input are both at fault. -/

import Substrate.Kernel.Marshal
import Substrate.Protocol.Mirrors

set_option autoImplicit false
set_option relaxedAutoImplicit false

namespace Substrate.Protocol.Injections

open Substrate.Kernel
open Substrate.Kernel.Wire
open Substrate.Kernel.Hashing
open Substrate.Kernel.Memory
open Substrate.Kernel.Runs
open Substrate.Kernel.Sdks
open Substrate.Protocol.Slots
open Substrate.Protocol.Mirrors
open Substrate.Library.FiniteMap

/-- The request carries a named input that refers to an artifact. -/
def Formed (req : InjectInputRequest) (input : NamedArtifact) (r : ArtifactRef) : Prop :=
  req.input = some input ∧ input.name ≠ "" ∧ input.artifact = some r

def bound (slot : RunSlot) (input : NamedArtifact) : Bool :=
  slot.run.assembly.bindings.any (·.input == input.name)

/-- The delivery generation of a run input. -/
def generation (slot : RunSlot) (input : NamedArtifact) : UInt64 :=
  (slot.inputEpochs.lookup input.name).getD 0

theorem saturatingSucc_eq_iff (n : UInt64) :
    n + 1 = saturatingSucc n ↔ n.toNat + 1 < 2 ^ 64 := by
  rw [saturatingSucc]
  split_ifs with room
  · exact ⟨fun _ => room, fun _ => rfl⟩
  · refine ⟨fun same => ?_, fun h => absurd h room⟩
    have back := congrArg UInt64.toNat same
    have small := n.toNat_lt
    rw [UInt64.toNat_add] at back
    have one : (1 : UInt64).toNat = 1 := rfl
    omega

theorem go_injectSlot_eq_iff (slot : RunSlot) (input : NamedArtifact) :
    Go.injectSlot slot input = injectSlot slot input ↔ (generation slot input).toNat + 1 < 2 ^ 64 := by
  rw [← saturatingSucc_eq_iff, Go.injectSlot, injectSlot, generation]
  simp only [RunSlot.mk.injEq, true_and, and_true]
  constructor
  · intro same
    have here := congrArg (fun m => AList.lookup input.name m) same
    simpa using here
  · intro same
    rw [same]

theorem python_injectSlot {slot : RunSlot} {input : NamedArtifact}
    (room : (generation slot input).toNat + 1 < 2 ^ 64) :
    Python.injectSlot (widenSlot slot) input = widenSlot (injectSlot slot input) := by
  have next : (saturatingSucc (generation slot input)).toNat = (generation slot input).toNat + 1 := by
    rw [saturatingSucc, if_pos room, UInt64.toNat_add]
    exact Nat.mod_eq_of_lt room
  have count : ((widenSlot slot).inputEpochs.lookup input.name).getD 0 =
      (generation slot input).toNat := by
    rw [widenSlot, lookup_mapValues, generation]
    cases slot.inputEpochs.lookup input.name <;> rfl
  rw [Python.injectSlot, injectSlot, count, ← next]
  simp only [widenSlot, insert_mapValues]
  rfl

section Calls

variable [Sha256] [Prost]

/-- What every kernel logs of an injected input. -/
def injected (slot : RunSlot) (input : NamedArtifact) : Record :=
  ("run.input_injected", slot.run.id, encodeToVec (.namedArtifact input))

variable {env : Env} {req : InjectInputRequest} {ctx : RequestContext} {state : State}
  {slot : RunSlot} {input : NamedArtifact} {r : ArtifactRef} {e : KernelError}

private theorem rust_malformed (timely : checkDeadline env ctx = .ok ())
    (malformed : ∀ input r, ¬Formed req input r) :
    ∃ reason, injectInputCtx env req ctx state = (state, .error (.invalid reason)) := by
  rw [injectInputCtx, timely]
  simp only [orReturn]
  cases given : req.input with
  | none => exact ⟨_, rfl⟩
  | some input =>
      by_cases named : input.name = ""
      · exact ⟨_, if_pos named⟩
      · simp only [if_neg named]
        cases found : input.artifact with
        | none => exact ⟨_, rfl⟩
        | some r => exact absurd ⟨given, named, found⟩ (malformed input r)

private theorem rust_unknown (timely : checkDeadline env ctx = .ok ()) (formed : Formed req input r)
    (absent : r.id ∉ state.artifacts) :
    injectInputCtx env req ctx state = (state, .error (.notFound r.id)) := by
  obtain ⟨given, named, found⟩ := formed
  rw [injectInputCtx, timely]
  simp only [orReturn, given, if_neg named, found, if_pos absent]

private theorem rust_closed (timely : checkDeadline env ctx = .ok ()) (formed : Formed req input r)
    (present : r.id ∈ state.artifacts) (refused : runningSlot state req.runId = .error e) :
    injectInputCtx env req ctx state = (state, .error e) := by
  obtain ⟨given, named, found⟩ := formed
  rw [injectInputCtx, timely]
  simp only [orReturn, given, if_neg named, found, if_neg (not_not.mpr present), refused]

private theorem rust_stored (timely : checkDeadline env ctx = .ok ()) (formed : Formed req input r)
    (present : r.id ∈ state.artifacts) (taken : runningSlot state req.runId = .ok slot) :
    injectInputCtx env req ctx state =
      if bound slot input then
        ({ state with
            runs := state.runs.replace req.runId (injectSlot slot input)
            ledger := extend state.ledger [injected slot input] },
          .ok (injectSlot slot input).run)
      else (state, .error (.invalid
        ("run input " ++ input.name ++ " is not bound in the assembly"))) := by
  obtain ⟨given, named, found⟩ := formed
  rw [injectInputCtx, timely]
  simp only [orReturn, given, if_neg named, found, if_neg (not_not.mpr present), taken, record_eq]
  rfl

variable [Encodings]

private theorem go_closed (timely : checkDeadline env ctx = .ok ())
    (refused : runningSlot state req.runId = .error e) :
    Go.injectInput env req ctx state = (state, .error e) := by
  rw [Go.injectInput, timely, refused]
  rfl

private theorem go_malformed (timely : checkDeadline env ctx = .ok ())
    (taken : runningSlot state req.runId = .ok slot) (malformed : ∀ input r, ¬Formed req input r) :
    ∃ reason, Go.injectInput env req ctx state = (state, .error (.invalid reason)) := by
  rw [Go.injectInput, timely, taken]
  simp only [orReturn]
  cases given : req.input with
  | none => exact ⟨_, rfl⟩
  | some input =>
      by_cases named : input.name = ""
      · exact ⟨"input is required", by simp [Option.filter_some, named]⟩
      · simp only [Option.filter_some, ne_eq, named, not_false_eq_true, decide_true, if_true]
        cases found : input.artifact with
        | none => exact ⟨_, rfl⟩
        | some r => exact absurd ⟨given, named, found⟩ (malformed input r)

private theorem go_unknown (timely : checkDeadline env ctx = .ok ())
    (taken : runningSlot state req.runId = .ok slot) (formed : Formed req input r)
    (absent : r.id ∉ state.artifacts) :
    Go.injectInput env req ctx state = (state, .error (.notFound r.id)) := by
  obtain ⟨given, named, found⟩ := formed
  rw [Go.injectInput, timely, taken]
  simp only [orReturn, given, Option.filter_some, ne_eq, named, not_false_eq_true, decide_true,
    if_true, found, if_pos absent]

private theorem go_stored (timely : checkDeadline env ctx = .ok ())
    (taken : runningSlot state req.runId = .ok slot) (formed : Formed req input r)
    (present : r.id ∈ state.artifacts) :
    Go.injectInput env req ctx state =
      if bound slot input then
        ({ state with
            runs := state.runs.replace req.runId (Go.injectSlot slot input)
            ledger := extend state.ledger [injected slot input] },
          .ok (Go.injectSlot slot input).run)
      else (state, .error (.invalid
        ("run input " ++ input.name ++ " is not bound in the assembly"))) := by
  obtain ⟨given, named, found⟩ := formed
  have details : [("run.input_injected", (Go.injectSlot slot input).run.id,
      Message.namedArtifact input)].map (detailed marshalCanonical) = [injected slot input] := by
    rw [(@detailed_mapFree _ _ [("run.input_injected", _, .namedArtifact input)] (by simp [mapFree])).1]
    rfl
  rw [Go.injectInput, timely, taken]
  simp only [orReturn, given, Option.filter_some, ne_eq, named, not_false_eq_true, decide_true,
    if_true, found, if_neg (not_not.mpr present), goRecord_eq, details]
  rfl

private theorem python_closed (timely : Python.checkDeadline env ctx = .ok ())
    (refused : runningSlot state req.runId = .error e) :
    Python.injectInput env req ctx (widen state) = (widen state, .error (.kernel e)) := by
  rw [Python.injectInput, timely, runningSlot_widen, refused]
  rfl

private theorem python_malformed (timely : Python.checkDeadline env ctx = .ok ())
    (taken : runningSlot state req.runId = .ok slot) (malformed : ∀ input r, ¬Formed req input r) :
    ∃ reason, Python.injectInput env req ctx (widen state) =
      (widen state, .error (.kernel (.invalid reason))) := by
  rw [Python.injectInput, timely, runningSlot_widen, taken]
  simp only [Python.orRaise, Python.raising, Except.map, Except.mapError]
  cases given : req.input with
  | none => exact ⟨_, rfl⟩
  | some input =>
      by_cases named : input.name = ""
      · exact ⟨"input is required", by simp [Option.filter_some, named]⟩
      · simp only [Option.filter_some, ne_eq, named, not_false_eq_true, decide_true, if_true]
        cases found : input.artifact with
        | none => exact ⟨_, rfl⟩
        | some r => exact absurd ⟨given, named, found⟩ (malformed input r)

private theorem python_unknown (timely : Python.checkDeadline env ctx = .ok ())
    (taken : runningSlot state req.runId = .ok slot) (formed : Formed req input r)
    (absent : r.id ∉ state.artifacts) :
    Python.injectInput env req ctx (widen state) =
      (widen state, .error (.kernel (.notFound r.id))) := by
  obtain ⟨given, named, found⟩ := formed
  have missing : r.id ∉ (widen state).artifacts := absent
  rw [Python.injectInput, timely, runningSlot_widen, taken]
  simp only [Python.orRaise, Python.raising, Except.map, Except.mapError, given, Option.filter_some,
    ne_eq, named, not_false_eq_true, decide_true, if_true, found, if_pos missing]

private theorem python_stored (timely : Python.checkDeadline env ctx = .ok ())
    (taken : runningSlot state req.runId = .ok slot) (formed : Formed req input r)
    (present : r.id ∈ state.artifacts) :
    Python.injectInput env req ctx (widen state) =
      if bound slot input then
        ({ widen state with
            runs := (widen state).runs.replace req.runId (Python.injectSlot (widenSlot slot) input)
            ledger := extend state.ledger [injected slot input] },
          .ok (injectSlot slot input).run)
      else (widen state, .error (.kernel (.invalid
        ("run input " ++ input.name ++ " is not bound in the assembly")))) := by
  obtain ⟨given, named, found⟩ := formed
  have there : r.id ∈ (widen state).artifacts := present
  have details : [("run.input_injected", (Python.injectSlot (widenSlot slot) input).run.id,
      Message.namedArtifact input)].map (detailed canonical) = [injected slot input] := by
    rw [(@detailed_mapFree _ _ [("run.input_injected", _, .namedArtifact input)] (by simp [mapFree])).2]
    rfl
  rw [Python.injectInput, timely, runningSlot_widen, taken]
  simp only [Python.orRaise, Python.raising, Except.map, Except.mapError, given, Option.filter_some,
    ne_eq, named, not_false_eq_true, decide_true, if_true, found, if_neg (not_not.mpr there),
    pythonRecord_eq, details]
  rfl

/-- The three kernels inject the same input and log the same entry, or fail with the same one of
three codes and leave everything as it is. -/
structure InjectsAlike (req : InjectInputRequest) (ctx : RequestContext) (state : State)
    (env env' : Env) : Prop where
  same : SameOutcome (injectInputCtx env req ctx state) (Go.injectInput env' req ctx state)
    (Python.injectInput env' req ctx (widen state))
  ledgers : (Go.injectInput env' req ctx state).1.ledger = (injectInputCtx env req ctx state).1.ledger ∧
    (Python.injectInput env' req ctx (widen state)).1.ledger =
      (injectInputCtx env req ctx state).1.ledger
  failures : ∀ e, (injectInputCtx env req ctx state).2 = .error e →
    (classOf e = .invalid ∨ classOf e = .notFound ∨ classOf e = .runClosed) ∧
      (injectInputCtx env req ctx state).1 = state ∧
      (Go.injectInput env' req ctx state).1 = state ∧
      (Python.injectInput env' req ctx (widen state)).1 = widen state

/-- Not both the run and the input are at fault (an unknown run beside an unknown artifact is one
fault), the counter has room, and Python does not take a negative deadline for a past one. -/
structure OneFault (req : InjectInputRequest) (ctx : RequestContext) (state : State) (env : Env) :
    Prop where
  deadline : 0 ≤ ctx.deadlineUnixMs ∨ env.entryClock ≤ ctx.deadlineUnixMs
  unknown : state.runs.lookup req.runId = none → ∃ input r, Formed req input r
  closed : ∀ slot, state.runs.lookup req.runId = some slot → slot.run.state ≠ .running →
    ∃ input r, Formed req input r ∧ r.id ∈ state.artifacts
  room : ∀ slot input r, state.runs.lookup req.runId = some slot → slot.run.state = .running →
    Formed req input r → r.id ∈ state.artifacts → bound slot input →
      (generation slot input).toNat + 1 < 2 ^ 64

omit [Sha256] [Prost] [Encodings] in
theorem python_deadline (timely : checkDeadline env ctx = .ok ()) :
    Python.checkDeadline env ctx =
      if 0 ≤ ctx.deadlineUnixMs ∨ env.entryClock ≤ ctx.deadlineUnixMs then .ok ()
      else .error (.failedPrecondition "deadline exceeded") := by
  rw [checkDeadline] at timely
  rw [Python.checkDeadline]
  simp only [Int64.le_iff_toInt_le, Int64.lt_iff_toInt_lt, Int64.toInt_zero] at timely ⊢
  split_ifs at timely with none late
  · by_cases zero : ctx.deadlineUnixMs = 0
    · simp [zero]
    · have apart : ctx.deadlineUnixMs.toInt ≠ 0 := fun same =>
        zero (Int64.toInt_inj.mp (same.trans Int64.toInt_zero.symm))
      rw [if_neg zero]
      split_ifs <;> first | rfl | omega
  · have apart : ctx.deadlineUnixMs ≠ 0 := by
      rintro zero
      rw [zero, Int64.toInt_zero] at none
      omega
    rw [if_neg apart, if_neg late, if_pos (.inr (Int.not_lt.mp late))]

private theorem alike_of_errors {env' : Env} {e' e'' : KernelError}
    (rust : injectInputCtx env req ctx state = (state, .error e))
    (go : Go.injectInput env' req ctx state = (state, .error e'))
    (python : Python.injectInput env' req ctx (widen state) = (widen state, .error (.kernel e'')))
    (goCode : classOf e' = classOf e) (pythonCode : classOf e'' = classOf e)
    (portable : classOf e = .invalid ∨ classOf e = .notFound ∨ classOf e = .runClosed) :
    InjectsAlike req ctx state env env' := by
  refine ⟨?_, ?_, ?_⟩
  · rw [rust, go, python]
    refine ⟨?_, ?_, rfl, rfl⟩
    · rw [answer_error, answer_error, goCode]
    · rw [answer_error, pythonAnswer_error, classOfRaised, pythonCode]
  · rw [rust, go, python]
    exact ⟨rfl, rfl⟩
  · rw [rust, go, python]
    rintro _ same
    obtain rfl := Except.error.inj same
    exact ⟨portable, rfl, rfl, rfl⟩

private theorem alike_running {env' : Env} (timely : checkDeadline env ctx = .ok ())
    (goTimely : checkDeadline env' ctx = .ok ()) (pythonTimely : Python.checkDeadline env' ctx = .ok ())
    (taken : runningSlot state req.runId = .ok slot)
    (room : ∀ input r, Formed req input r → r.id ∈ state.artifacts → bound slot input →
      (generation slot input).toNat + 1 < 2 ^ 64) : InjectsAlike req ctx state env env' := by
  by_cases formed : ∃ input r, Formed req input r
  case neg =>
    have malformed : ∀ input r, ¬Formed req input r := fun input r given => formed ⟨input, r, given⟩
    obtain ⟨_, rust⟩ := @rust_malformed _ _ env req ctx state timely malformed
    obtain ⟨_, go⟩ := go_malformed goTimely taken malformed
    obtain ⟨_, python⟩ := python_malformed pythonTimely taken malformed
    exact alike_of_errors rust go python rfl rfl (.inl rfl)
  obtain ⟨input, r, given⟩ := formed
  by_cases present : r.id ∈ state.artifacts
  case neg =>
    exact alike_of_errors (rust_unknown timely given present)
      (go_unknown goTimely taken given present) (python_unknown pythonTimely taken given present)
      rfl rfl (.inr (.inl rfl))
  have rust := rust_stored timely given present taken
  have go := go_stored goTimely taken given present
  have python := python_stored pythonTimely taken given present
  cases used : bound slot input with
  | false =>
      rw [used] at rust go python
      exact alike_of_errors rust go python rfl rfl (.inl rfl)
  | true =>
      have enough := room input r given present used
      rw [used, if_pos rfl] at rust go python
      rw [(go_injectSlot_eq_iff slot input).mpr enough] at go
      rw [python_injectSlot enough] at python
      refine ⟨?_, ?_, ?_⟩
      · rw [rust, go, python]
        exact ⟨rfl, rfl, rfl, replace_mapValues widenSlot state.runs req.runId _⟩
      · rw [rust, go, python]
        exact ⟨rfl, rfl⟩
      · rw [rust]
        exact fun _ failed => nomatch failed

private theorem oneFault_of_alike {env' : Env} (timely : checkDeadline env ctx = .ok ())
    (goTimely : checkDeadline env' ctx = .ok ()) (clock : env'.entryClock = env.entryClock)
    (alike : InjectsAlike req ctx state env env') : OneFault req ctx state env := by
  have codes : ∀ {e e' : KernelError}, (injectInputCtx env req ctx state).2 = .error e →
      (Go.injectInput env' req ctx state).2 = .error e' → classOf e' = classOf e := by
    intro e e' rust go
    have same := alike.same.go_answer
    rw [rust, go, answer_error, answer_error, Except.error.injEq, Option.some_inj] at same
    exact same
  refine ⟨?_, ?_, ?_, ?_⟩
  · by_contra late
    have raised : Python.injectInput env' req ctx (widen state) =
        (widen state, .error (.kernel (.failedPrecondition "deadline exceeded"))) := by
      rw [Python.injectInput, python_deadline goTimely, clock, if_neg late]
      rfl
    have same := alike.same.python_answer
    rw [raised] at same
    cases failed : (injectInputCtx env req ctx state).2 with
    | ok run =>
        rw [failed] at same
        cases same
    | error e =>
        obtain ⟨portable, -⟩ := alike.failures e failed
        rw [failed, answer_error, pythonAnswer_error, Except.error.injEq, classOfRaised,
          Option.some_inj] at same
        rw [← same] at portable
        rcases portable with h | h | h <;> cases h
  · intro stored
    by_contra formed
    have refused : runningSlot state req.runId = .error (.notFound req.runId) := by
      rw [runningSlot, stored]
    obtain ⟨_, rust⟩ := @rust_malformed _ _ env req ctx state timely fun input r given =>
      formed ⟨input, r, given⟩
    have same := codes (congrArg Prod.snd rust) (congrArg Prod.snd (go_closed goTimely refused))
    cases same
  · intro slot stored closed
    have refused : runningSlot state req.runId = .error (.runClosed slot.run.state) := by
      simp only [runningSlot, stored, if_neg closed]
    have go := congrArg Prod.snd (go_closed goTimely refused)
    by_cases formed : ∃ input r, Formed req input r
    · obtain ⟨input, r, given⟩ := formed
      refine ⟨input, r, given, ?_⟩
      by_contra absent
      cases codes (congrArg Prod.snd (rust_unknown timely given absent)) go
    · obtain ⟨_, rust⟩ := @rust_malformed _ _ env req ctx state timely fun input r given =>
        formed ⟨input, r, given⟩
      cases codes (congrArg Prod.snd rust) go
  · intro slot input r stored running given present used
    have taken : runningSlot state req.runId = .ok slot := by
      simp only [runningSlot, stored, if_pos running]
    have slots := congrArg (fun runs => runs.lookup req.runId) alike.same.go_runs
    rw [rust_stored timely given present taken, go_stored goTimely taken given present, if_pos used,
      if_pos used] at slots
    simp only [lookup_replace stored, if_true, Option.some_inj] at slots
    exact (go_injectSlot_eq_iff slot input).mp slots

/-- Injecting an input agrees exactly when not both the run and the input are at fault. -/
theorem injectsAlike_iff {env' : Env} (timely : checkDeadline env ctx = .ok ())
    (clock : env'.entryClock = env.entryClock) :
    InjectsAlike req ctx state env env' ↔ OneFault req ctx state env := by
  have goTimely : checkDeadline env' ctx = .ok () := by
    rw [checkDeadline, clock]
    exact timely
  constructor
  · intro alike
    exact oneFault_of_alike timely goTimely clock alike
  · intro one
    have pythonTimely : Python.checkDeadline env' ctx = .ok () := by
      rw [python_deadline goTimely, clock, if_pos one.deadline]
    cases stored : state.runs.lookup req.runId with
    | none =>
        have refused : runningSlot state req.runId = .error (.notFound req.runId) := by
          rw [runningSlot, stored]
        obtain ⟨input, r, given⟩ := one.unknown stored
        have go := go_closed goTimely refused
        have python := python_closed pythonTimely refused
        by_cases present : r.id ∈ state.artifacts
        · exact alike_of_errors (rust_closed timely given present refused) go python rfl rfl
            (.inr (.inl rfl))
        · exact alike_of_errors (rust_unknown timely given present) go python rfl rfl
            (.inr (.inl rfl))
    | some slot =>
        by_cases running : slot.run.state = .running
        · have taken : runningSlot state req.runId = .ok slot := by
            simp only [runningSlot, stored, if_pos running]
          exact alike_running timely goTimely pythonTimely taken fun input r given present used =>
            one.room slot input r stored running given present used
        · have refused : runningSlot state req.runId = .error (.runClosed slot.run.state) := by
            simp only [runningSlot, stored, if_neg running]
          obtain ⟨input, r, given, present⟩ := one.closed slot stored running
          exact alike_of_errors (rust_closed timely given present refused)
            (go_closed goTimely refused) (python_closed pythonTimely refused) rfl rfl
            (.inr (.inr rfl))

end Calls

section Closed

open Substrate.Kernel.Api
open Substrate.Kernel.Concrete
open scoped Substrate.Kernel.Marshal

/-- The run is cancelled. -/
def cancelledEcho : State :=
  exec policy {} (opening .once .firstTerminal ++ [callAt 0 (.cancelRun ⟨"r"⟩)])

/-- Of an input that is missing and a run that is closed, Rust names the one and Go the other. -/
theorem closed_run_first :
    Reachable policy cancelledEcho ∧
      ¬InjectsAlike { runId := "r", input := none } {} cancelledEcho (envAt 0) (envAt 0) := by
  refine ⟨⟨_, rfl⟩, fun alike => ?_⟩
  have codes := congrArg (fun a => match a with | .ok _ => none | .error code => code)
    alike.same.go_answer
  revert codes
  decide +kernel

/-- The first line again, for a run that is still open. -/
def sameLine : InjectInputRequest := { runId := "r", input := some (given "line" (text "one")) }

def openEcho : State := exec policy {} (opening .once .firstTerminal)

/-- A second line for an open run. -/
theorem open_run_injects : InjectsAlike sameLine {} openEcho (envAt 0) (envAt 0) := by
  have one : (openEcho.runs.lookup "r").any fun slot =>
      slot.run.state = .running ∧ (generation slot (given "line" (text "one"))).toNat = 0 := by
    decide +kernel
  revert one
  generalize openEcho = state
  intro one
  refine (injectsAlike_iff rfl rfl).mpr ⟨.inl (by decide), ?_, ?_, ?_⟩
  · intro missing
    rw [show sameLine.runId = "r" from rfl] at missing
    rw [missing] at one
    cases one
  · intro slot stored closed
    rw [show sameLine.runId = "r" from rfl] at stored
    rw [stored, Option.any_some, decide_eq_true_eq] at one
    exact absurd one.1 closed
  · intro slot input r stored _ formed _ _
    rw [show sameLine.runId = "r" from rfl] at stored
    rw [stored, Option.any_some, decide_eq_true_eq] at one
    obtain rfl := Option.some.inj formed.1
    rw [one.2]
    decide

end Closed

end Substrate.Protocol.Injections
