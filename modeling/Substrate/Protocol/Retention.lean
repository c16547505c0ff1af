/- ID: Substrate/Protocol/Retention
   digest: When the end of a run reaches its own tables: the calls that drop them, and those that do not. -/

import Substrate.Protocol.Orphans
import Substrate.Protocol.Starting

set_option autoImplicit false
set_option relaxedAutoImplicit false

namespace Substrate.Protocol.Retention

open Substrate.Kernel.Wire
open Substrate.Kernel.Hashing
open Substrate.Kernel.Memory
open Substrate.Framework.Steps
open Substrate.Framework.Storage
open Substrate.Framework.Policy
open Substrate.Framework.Calls
open Substrate.Framework.Drive
open Substrate.Framework.Pipeline
open Substrate.Framework.InProcess
open Substrate.Framework.Sessions
open Substrate.Protocol.Asking
open Substrate.Protocol.Orphans (Told handed refuses isFailure Outcome driveWith_finishes)
open Substrate.Library.FiniteMap
open Substrate.Library.Resumption
open Substrate.Library.Resumption.Act
open Substrate.Library.Resumption.Prog (Environment Runs exec transcript exec_keeps runs_exec)

/-- A storage backend, as far as its tables go: they are made when they are asked for, and gone once
they are dropped. -/
structure Backend {S : Type} (outside : Environment S Query Answer) (has : String → S → Prop) :
    Prop where
  made : ∀ q s name, has name (outside q s).1 → has name s ∨
    ∃ table, q = .ensureTable table ∧ table.physicalName = name
  dropped : ∀ name s, ¬ has name (outside (.dropTable name) s).1

theorem inMemory_backend {S : Type} (outside : Environment S Query Answer) :
    Backend (inMemory outside) fun name (s : Stores S) => name ∈ s.tables where
  made q s name member := by
    by_cases about : tableOf q = some name
    · cases q with
      | ensureTable table => exact .inr ⟨table, rfl, Option.some.inj about⟩
      | writeRows table mode rows primaryKey runId =>
          refine .inl ?_
          obtain rfl := Option.some.inj about
          change _ ∈ (s.tables.writeRows table mode rows primaryKey runId).1 at member
          unfold MemoryStorage.writeRows at member
          split at member
          · exact member
          · exact mem_of_lookup (by assumption)
      | dropTable table =>
          obtain rfl := Option.some.inj about
          change table ∈ s.tables.erase table at member
          simp at member
      | _ => cases about
    · refine .inl ?_
      rw [← AList.lookup_isSome] at member ⊢
      rwa [Tables.inMemory_frame about] at member
  dropped name s := by
    show name ∉ s.tables.erase name
    simp

/-- The kernel has the run, and it is no longer RUNNING. -/
def Closed (runId : String) (state : State) : Prop :=
  ∃ slot, state.runs.lookup runId = some slot ∧ slot.run.state ≠ .running

/-- An error, or the failure of a unit: the call goes no further. -/
def declines : Exchange Query Answer → Bool
  | ⟨.injectInput _ _, answer⟩ => !Except.isOk answer
  | ⟨.cancelRun _ _, answer⟩ => !Except.isOk answer
  | e => refuses e || isFailure e

/-- A call that stops on an answer that it gets, or on a unit that its host has no plugin for. -/
def BrokenOff (host : Host) (told : Told) : Prop :=
  (∃ before last, told = before ++ [last] ∧ declines last = true) ∨
    ∃ work ∈ handed told, work.module ∉ host.plugins

/-- Whether the kernel has taken a start. -/
def accepts : Exchange Query Answer → Bool
  | ⟨.startRun _ _, answer⟩ => Except.isOk answer
  | _ => false

/-- A plan for tables of a run that go with it. -/
structure GoesWithRun (plan : StoragePlan) : Prop where
  mode : plan.mode = .perRun
  retention : plan.retention = .dropOnEnd

section Runs

variable [Sha256] {host : Host} {W : Type}

/-- The storage plan of a run, after a call and given what it was before: that of the last start that
the kernel has taken. -/
def planAfter (env : Environment W Query Answer) (runId : String) (session : Session host W)
    (call : HostCall) (plan : Option StoragePlan) : Option StoragePlan :=
  match startsUnder call with
  | some policy =>
      if call.runId = runId ∧ (session.told env call).any accepts then some policy.storage else plan
  | none => plan

/-- The plan of a run after a history of calls. -/
def planOf (env : Environment W Query Answer) (runId : String) :
    Option StoragePlan → Session host W → List HostCall → Option StoragePlan
  | plan, _, [] => plan
  | plan, session, call :: calls =>
      planOf env runId (planAfter env runId session call plan) (session.after env call) calls

/-- A call that gives the run all tables of its plan if it starts it, and once the run has been
finished makes no table called as one of its own for another run. -/
structure Orderly (env : Environment W Query Answer) (runId : String) (plan : Option StoragePlan)
    (session : Session host W) (call : HostCall) : Prop where
  given : call.runId = runId → startsUnder call ≠ none → ∀ table e,
    (⟨.ensureTable table, .error e⟩ : Exchange Query Answer) ∉ session.told env call
  apart : call.runId ≠ runId → session.books.runPolicies.lookup runId = none →
    ∀ p, plan = some p → ∀ e ∈ session.told env call, ∀ table, e.1 = .ensureTable table →
      table.physicalName ∉ neededNames host p runId

/-- A history of such calls. -/
def OrderlyRun (env : Environment W Query Answer) (runId : String) :
    Option StoragePlan → Session host W → List HostCall → Prop
  | _, _, [] => True
  | plan, session, call :: calls => Orderly env runId plan session call ∧
      OrderlyRun env runId (planAfter env runId session call plan) (session.after env call) calls

/-- The calls that are to finish a run that has ended. -/
def Settles : HostCall → Prop
  | .drive _ _ | .driveWith _ _ _ | .cancel _ => True
  | .inject _ _ _ after => after ≠ .no
  | _ => False

/-- The loop of a call comes to its end within its fuel. -/
def Returns (env : Environment W Query Answer) (session : Session host W) : HostCall → Prop
  | .drive fuel runId =>
      (exec env (start (drive fuel runId) session.books) session.world).2.1 ≠ .ok none
  | .driveWith fuel runId plan =>
      (exec env (start (driveWith fuel runId plan) session.books) session.world).2.1 ≠ .ok none
  | .inject fuel runId input after =>
      (exec env (start (inject fuel runId input after) session.books) session.world).2.1 ≠ .ok none
  | _ => True

end Runs

section General

variable {host : Host} {S : Type} {runId : String}

/-- The books list this policy and these tables for the run. -/
structure Held (runId : String) (policy : Option (Backed host)) (tables : Option (List String))
    (books : Books host) : Prop where
  policy : books.runPolicies.lookup runId = policy
  tables : books.runTables.lookup runId = tables

/-- Nothing is listed for the run, and its tables are gone if they were to go with it. -/
structure Gone (has : String → S → Prop) (runId : String) (policy : Option (Backed host))
    (tables : Option (List String)) (books : Books host) (w : World S) : Prop where
  forgotten : Held runId none none books
  dropped : ∀ p, policy = some p → GoesWithRun p.1.storage →
    ∀ name ∈ tables.getD [], ¬ has name w.rest

variable {policy : Option (Backed host)} {tables : Option (List String)}

theorem held_allows {other : String} : Allows host other (fun _ => True)
    (Held runId policy tables) (fun _ => True) fun _ => True where
  policy _ _ _ _ := trivial
  noted _ _ _ _ held := ⟨held.policy, held.tables⟩
  quiet _ _ _ := trivial
  commits _ _ _ := trivial
  fails _ _ _ := trivial
  writes _ _ _ _ _ _ _ _ _ _ := trivial
  logs _ _ _ := ⟨fun _ => trivial, fun _ _ => trivial⟩

section Acts

variable [Sha256] [Prost] {store : ArtifactStorePolicy} {clock : Nat → Env}
  {outside : Environment S Query Answer} {has : String → S → Prop}

private theorem dropTables_drops (backend : Backend outside has) {I : Books host → Prop}
    (rest done : List String) :
    Meets (inProcess store clock outside)
      (fun b (w : World S) => I b ∧ ∀ name ∈ done, ¬ has name w.rest)
      (dropTables rest : HostAct host PUnit) fun _ r b w =>
        r = .ok ⟨⟩ ∧ I b ∧ ∀ name ∈ done ++ rest, ¬ has name w.rest := by
  induction rest generalizing done with
  | nil =>
      refine .pure fun b w so => ⟨rfl, so.1, ?_⟩
      rw [List.append_nil]
      exact so.2
  | cons table rest ih =>
      refine Meets.bind (P := fun b (w : World S) => I b ∧ ∀ name ∈ done, ¬ has name w.rest)
        (R := fun _ r b w => r = .ok ⟨⟩ ∧ I b ∧ ∀ name ∈ done ++ [table], ¬ has name w.rest)
        ?_ (fun _ told => ?_) fun e told b w so => nomatch so.1
      · refine .asked fun answer => .pure ?_
        rintro b v ⟨w, ⟨known, absent⟩, answered⟩
        obtain ⟨rfl, -⟩ := Prod.mk.inj answered
        refine ⟨rfl, known, List.forall_mem_append.mpr ⟨fun name member present => ?_, ?_⟩⟩
        · rcases backend.made _ _ _ present with before | ⟨_, same, -⟩
          · exact absent name member before
          · cases same
        · exact List.forall_mem_singleton.mpr (backend.dropped table w.rest)
      · refine ((ih (done ++ [table])).pre fun b w so => so.2).mono fun more r b w so => ?_
        rwa [List.append_assoc] at so

theorem finishRunStorage_settles (backend : Backend outside has) :
    Meets (inProcess store clock outside) (fun b _ => Held runId policy tables b)
      (finishRunStorage runId : HostAct host Unit) fun _ r b w =>
        r = .ok () ∧ Gone has runId policy tables b w := by
  refine .read fun books => ?_
  refine Meets.bind (R := fun _ r b _ => r = .ok ⟨⟩ ∧ Held runId policy tables books ∧
    Held runId policy none b) (.modify ?_) (fun _ told => ?_) fun e told b w so => nomatch so.1
  · rintro b w ⟨rfl, held⟩
    exact ⟨rfl, held, held.policy, (lookup_erase_of _ _ _).trans (if_pos rfl)⟩
  · refine Meets.bind ((dropTables_drops backend (I := fun b => Held runId policy tables books ∧
      Held runId policy none b) _ []).pre fun b w so => ⟨so.2, List.forall_mem_nil _⟩)
      (fun _ told => .modify ?_) fun e told b w so => nomatch so.1
    rintro b w ⟨-, ⟨listed, held⟩, absent⟩
    refine ⟨rfl, ⟨(lookup_erase_of _ _ _).trans (if_pos rfl), held.tables⟩, fun p known goes => ?_⟩
    rw [listed.policy, listed.tables, known, List.nil_append, if_pos] at absent
    · exact absent
    · refine ⟨goes.retention, goes.mode, p.2 ?_⟩
      rw [StoragePlan.enabled, goes.mode]
      rfl

/-- A run as the kernel has it. -/
def Current (runId : String) (run : Run) (state : State) : Prop :=
  ∃ slot, state.runs.lookup runId = some slot ∧ run = slot.run

omit [Sha256] [Prost] in
private theorem Current.open {run : Run} {state : State} (current : Current runId run state)
    (running : run.state = .running) : ¬ Closed runId state := by
  rintro ⟨slot, found, closed⟩
  obtain ⟨slot', found', rfl⟩ := current
  obtain rfl := Option.some.inj (found.symm.trans found')
  exact closed running

private theorem getRun_current :
    Meets (inProcess store clock outside) (fun _ _ => True) (getRun runId : HostAct host Run)
      fun _ r _ w => ∀ run, r = .ok run → Current runId run w.kernel := by
  intro b w _
  obtain ⟨-, -, same, given⟩ :=
    (Starting.getRun_reads (s := w.kernel) : Meets (inProcess store clock outside) _ _ _)
      b w ⟨rfl, rfl⟩
  rw [same]
  exact given

private theorem untilIdle_current (fuel : Nat) :
    Meets (inProcess store clock outside) (fun _ _ => True)
      (driveUntilIdle runId fuel : HostAct host (Option Run))
      fun _ r _ w => ∀ run, r = .ok (some run) → Current runId run w.kernel := by
  have last : Meets (inProcess store clock outside) (fun _ _ => True)
      (do return some (← getRun runId) : HostAct host (Option Run))
      fun _ r _ w => ∀ run, r = .ok (some run) → Current runId run w.kernel := by
    refine Meets.bind getRun_current (fun run _ => .pure fun b w current => ?_)
      fun _ _ _ _ _ _ => nofun
    rintro _ ⟨⟩
    exact current run rfl
  induction fuel with
  | zero => exact .pure fun _ _ _ => nofun
  | succ fuel ih =>
      refine Meets.bind getRun_current (fun run _ => ?_) fun _ _ _ _ _ _ => nofun
      split
      · refine .pure fun b w current => ?_
        rintro _ ⟨⟩
        exact current run rfl
      · refine Meets.bind (R := fun _ _ _ _ => True) (fun _ _ _ => trivial) (fun found _ => ?_)
          fun _ _ _ _ _ _ => nofun
        split
        · exact ih
        · exact last

private theorem onePass_current :
    Meets (inProcess store clock outside) (fun _ _ => True)
      (driveOnePass runId : HostAct host (Option Run))
      fun _ r _ w => ∀ run, r = .ok (some run) → Current runId run w.kernel := by
  refine Meets.bind getRun_current (fun run _ => ?_) fun _ _ _ _ _ _ => nofun
  split
  · refine .pure fun b w current => ?_
    rintro _ ⟨⟩
    exact current run rfl
  · refine Meets.bind (R := fun _ _ _ _ => True) (fun _ _ _ => trivial) (fun found _ => ?_)
      fun _ _ _ _ _ _ => nofun
    refine Meets.bind (getRun_current.pre fun _ _ _ => trivial)
      (fun run _ => .pure fun b w current => ?_) fun _ _ _ _ _ _ => nofun
    rintro _ ⟨⟩
    exact current run rfl

/-- What a call that is to finish a run leaves behind: what the books held, with the run RUNNING if
it returns one; or nothing of the run. -/
def Settled (has : String → S → Prop) (runId : String) (policy : Option (Backed host))
    (tables : Option (List String)) (told : Told) (r : Except FrameworkError (Option Run))
    (books : Books host) (w : World S) : Prop :=
  (Held runId policy tables books ∧ match r with
    | .ok (some _) => ¬ Closed runId w.kernel
    | .ok none => True
    | .error _ => BrokenOff host told) ∨
  Gone has runId policy tables books w

omit [Sha256] [Prost] in
private theorem declines_of_refuses {e : Exchange Query Answer} (refused : refuses e = true) :
    declines e = true := by
  obtain ⟨q, answer⟩ := e
  cases q <;> simp_all [declines, refuses]

omit [Sha256] [Prost] in
private theorem Outcome.brokenOff {told : Told} (outcome : Outcome host 0 told false) :
    BrokenOff host told := by
  rcases outcome.stopped rfl with
    ⟨-, ⟨before, last, same, refused⟩ | ⟨work, member, missing⟩⟩ | ⟨before, last, same, failed, -⟩
  · exact .inl ⟨before, last, same, declines_of_refuses refused⟩
  · exact .inr ⟨work, by rwa [zero_add] at member, missing⟩
  · refine .inl ⟨before, last, same, ?_⟩
    obtain ⟨q, answer⟩ := last
    cases q <;> cases failed
    exact Bool.or_true _

omit [Prost] in
private theorem driveWith_brokenOff (fuel : Nat) (plan : DrivePlan) :
    Upholds (fun told r => r.isOk = false → BrokenOff host told)
      (driveWith fuel runId plan : HostAct host (Option Run)) := by
  refine (driveWith_finishes fuel runId plan).mono fun told r outcome failed => ?_
  rw [failed] at outcome
  exact Outcome.brokenOff outcome

private theorem held_current {x : HostAct host (Option Run)}
    (keeps : Keeps (Held runId policy tables) (fun _ => True) x)
    (reads : Meets (inProcess store clock outside) (fun _ _ => True) x
      fun _ r _ w => ∀ run, r = .ok (some run) → Current runId run w.kernel) :
    Meets (inProcess store clock outside) (fun b _ => Held runId policy tables b) x
      fun _ r b w => Held runId policy tables b ∧
        ∀ run, r = .ok (some run) → Current runId run w.kernel := by
  have kept : Meets (inProcess store clock outside) (fun b _ => Held runId policy tables b ∧ True) x
      fun _ _ b _ => Held runId policy tables b ∧ True :=
    Meets.of_keeps (T := fun _ _ => True) keeps fun _ _ _ _ _ => trivial
  refine ((kept.pre fun b w held => ⟨held, trivial⟩).and (reads.pre fun b w _ => trivial)).mono ?_
  rintro told r b w ⟨⟨held, -⟩, current⟩
  exact ⟨held, current⟩

theorem driveWith_settles (backend : Backend outside has) (fuel : Nat) (plan : DrivePlan) :
    Meets (inProcess store clock outside) (fun b _ => Held runId policy tables b)
      (driveWith fuel runId plan : HostAct host (Option Run))
      (Settled has runId policy tables) := by
  have reads : Meets (inProcess store clock outside) (fun _ _ => True)
      (driveWaves fuel runId plan : HostAct host (Option Run))
      fun _ r _ w => ∀ run, r = .ok (some run) → Current runId run w.kernel := by
    cases plan with
    | onePass => exact onePass_current
    | untilIdle => exact untilIdle_current fuel
    | untilIdleThenWait => exact untilIdle_current fuel
  have ends : Meets (inProcess store clock outside) (fun b _ => Held runId policy tables b)
      (driveWith fuel runId plan : HostAct host (Option Run))
      fun _ r b w => (Held runId policy tables b ∧
          ∀ run, r = .ok (some run) → ¬ Closed runId w.kernel) ∨
            Gone has runId policy tables b w := by
    rw [driveWith_eq]
    refine Meets.bind (held_current (driveWaves_keeps held_allows (fun _ => trivial)
      (fun _ _ _ _ => trivial) fuel plan) reads) (fun run told => ?_)
      fun e told b w so => .inl ⟨so.1, fun run same => by cases same⟩
    cases run with
    | none => exact .pure fun b w so => .inl ⟨so.1, fun run same => by cases same⟩
    | some run =>
        rw [closeRun]
        split
        · exact Meets.bind ((finishRunStorage_settles backend).pre fun b w so => so.1)
            (fun _ _ => .pure fun b w so => .inr so.2) fun e told b w so => by cases so.1
        · rename_i running
          refine .pure fun b w so => .inl ⟨so.1, ?_⟩
          rintro _ ⟨⟩
          exact (so.2 run rfl).open (not_not.mp running)
  refine (ends.and (.of_upholds (driveWith_brokenOff fuel plan))).mono ?_
  rintro told r b w ⟨⟨held, current⟩ | gone, broken⟩
  · refine .inl ⟨held, ?_⟩
    cases r with
    | ok run =>
        cases run with
        | none => trivial
        | some run => exact current run rfl
    | error e => exact broken rfl
  · exact .inr gone

theorem drive_settles (backend : Backend outside has) (fuel : Nat) :
    Meets (inProcess store clock outside) (fun b _ => Held runId policy tables b)
      (drive fuel runId : HostAct host (Option Run)) (Settled has runId policy tables) := by
  rw [drive, policyOf, bind_assoc]
  refine .read fun books => ?_
  rw [pure_bind]
  exact (driveWith_settles backend fuel _).pre fun b w so => so.2

omit [Sha256] [Prost] in
private theorem BrokenOff.after {told : Told} (broken : BrokenOff host told) (first : Told) :
    BrokenOff host (first ++ told) := by
  rcases broken with ⟨before, last, rfl, declined⟩ | ⟨work, member, missing⟩
  · exact .inl ⟨first ++ before, last, (List.append_assoc ..).symm, declined⟩
  · refine .inr ⟨work, ?_, missing⟩
    rw [Orphans.handed_append]
    exact Multiset.mem_add.mpr (.inr member)

omit [Sha256] [Prost] in
private theorem Settled.after {told : Told} {r : Except FrameworkError (Option Run)}
    {books : Books host} {w : World S} (settled : Settled has runId policy tables told r books w)
    (first : Told) : Settled has runId policy tables (first ++ told) r books w := by
  refine settled.imp_left fun so => ⟨so.1, ?_⟩
  rcases r with e | _ | run
  · exact so.2.after first
  · trivial
  · exact so.2

private theorem called_held (q : Query) (read : Answer q → Except KernelError Run)
    (declined : ∀ answer e, read answer = .error e → declines ⟨q, answer⟩ = true) :
    Meets (inProcess store clock outside) (fun b _ => Held runId policy tables b)
      (ask q >>= fun answer => fromKernel (read answer) : HostAct host Run)
      fun told r b _ => Held runId policy tables b ∧ (r.isOk = false → BrokenOff host told) := by
  refine .asked fun answer => ?_
  cases result : read answer with
  | ok run =>
      refine .pure ?_
      rintro b v ⟨w, held, -⟩
      exact ⟨held, nofun⟩
  | error e =>
      refine .throw ?_
      rintro b v ⟨w, held, -⟩
      exact ⟨held, fun _ => .inl ⟨[], _, rfl, declined answer e result⟩⟩

theorem inject_settles (backend : Backend outside has) (fuel : Nat) (input : NamedArtifact)
    {after : DriveAfter} (drives : after ≠ .no) :
    Meets (inProcess store clock outside) (fun b _ => Held runId policy tables b)
      (inject fuel runId input after : HostAct host (Option Run))
      (Settled has runId policy tables) := by
  have injected : Meets (inProcess store clock outside) (fun b _ => Held runId policy tables b)
      (injectInput { runId, input := some input } : HostAct host Run)
      fun told r b _ => Held runId policy tables b ∧ (r.isOk = false → BrokenOff host told) := by
    refine called_held (.injectInput _ _) id ?_
    rintro _ e rfl
    rfl
  refine Meets.bind injected (fun run told => ?_) fun e told b w so => .inl ⟨so.1, so.2 rfl⟩
  · have driven (plan : DrivePlan) : Meets (inProcess store clock outside)
        (fun b _ => Held runId policy tables b) (driveWith fuel runId plan : HostAct host _)
        fun rest => Settled has runId policy tables (told ++ rest) :=
      (driveWith_settles backend fuel plan).mono fun rest r b w settled => settled.after told
    cases after with
    | no => exact absurd rfl drives
    | untilIdle => exact (driven .untilIdle).pre fun b w so => so.1
    | onePass => exact (driven .onePass).pre fun b w so => so.1

theorem cancel_settles (backend : Backend outside has) :
    Meets (inProcess store clock outside) (fun b _ => Held runId policy tables b)
      (do return some (← cancel runId) : HostAct host (Option Run))
      (Settled has runId policy tables) := by
  have cancelled : Meets (inProcess store clock outside) (fun b _ => Held runId policy tables b)
      (cancelRun runId : HostAct host Run)
      fun told r b _ => Held runId policy tables b ∧ (r.isOk = false → BrokenOff host told) := by
    refine called_held (.cancelRun _ _) id ?_
    rintro _ e rfl
    rfl
  rw [cancel]
  simp only [bind_assoc, pure_bind]
  refine Meets.bind cancelled (fun run told => ?_) fun e told b w so => .inl ⟨so.1, so.2 rfl⟩
  exact Meets.bind ((finishRunStorage_settles backend).pre fun b w so => so.1)
    (fun _ _ => .pure fun b w so => .inr so.2) fun e more b w so => nomatch so.1

end Acts

/-- An exchange that neither starts a run nor asks for a table. -/
def Calm (e : Exchange Query Answer) : Prop :=
  accepts e = false ∧ ∀ table, e.1 ≠ .ensureTable table

/-- What the start of a run leaves behind. -/
inductive Begun (host : Host) (runId : String) (plan : StoragePlan) (policy : Option (Backed host))
    (tables : Option (List String)) (told : Told) (books : Books host) : Prop
  | refused (held : Held runId policy tables books) (calm : ∀ e ∈ told, Calm e)
  | begun (fresh : policy = none) (accepted : told.any accepts = true) (p : Backed host)
      (same : p.1.storage = plan) (registered : books.runPolicies.lookup runId = some p)
      (listed : (books.runTables.lookup runId).getD [] = neededNames host plan runId)
  | short (table : QualifiedTable) (e : FrameworkError)
      (member : (⟨.ensureTable table, .error e⟩ : Exchange Query Answer) ∈ told)

theorem Begun.after {plan : StoragePlan} {rest : Told} {books : Books host}
    (begun : Begun host runId plan policy tables rest books) {first : Told}
    (calm : ∀ e ∈ first, Calm e) : Begun host runId plan policy tables (first ++ rest) books := by
  cases begun with
  | refused held quiet => exact .refused held (List.forall_mem_append.mpr ⟨calm, quiet⟩)
  | begun fresh accepted p same registered listed =>
      refine .begun fresh ?_ p same registered listed
      rw [List.any_append, accepted, Bool.or_true]
  | short table e member => exact .short table e (List.mem_append_right _ member)

theorem calm_plain {q : Query} (quiet : plain q = true) (answer : Answer q) : Calm ⟨q, answer⟩ := by
  cases q <;> first | (cases quiet; done) | exact ⟨rfl, nofun⟩

theorem calm_allows : Allows host runId (fun _ => True) (Held runId none none)
    (fun _ => False) Calm where
  policy books held p found := by
    rw [held.policy] at found
    cases found
  noted _ _ _ _ held := ⟨held.policy, held.tables⟩
  quiet _ quiet answer := calm_plain quiet answer
  commits _ _ _ := ⟨rfl, nofun⟩
  fails _ _ _ := ⟨rfl, nofun⟩
  writes _ known := known.elim
  logs _ known := known.elim

section Starts

variable {W α β : Type} {env : Environment W Query Answer} {plan : StoragePlan}

private theorem calmly {x : HostAct host α} {f : α → HostAct host β}
    (first : Keeps (Held runId policy tables) Calm x)
    (second : ∀ a, Meets env (fun b _ => Held runId policy tables b) (f a)
      fun told _ b _ => Begun host runId plan policy tables told b) :
    Meets env (fun b _ => Held runId policy tables b) (x >>= f)
      fun told _ b _ => Begun host runId plan policy tables told b := by
  have quiet : Meets env (fun b _ => Held runId policy tables b ∧ ∀ e ∈ [], Calm e) x
      fun told _ b _ => Held runId policy tables b ∧ ∀ e ∈ told, Calm e :=
    Meets.of_keeps (T := fun told _ => ∀ e ∈ told, Calm e) first fun told q w calm so =>
      List.forall_mem_append.mpr ⟨so, List.forall_mem_singleton.mpr calm⟩
  refine Meets.bind (quiet.pre fun b w held => ⟨held, List.forall_mem_nil _⟩) (fun a told => ?_)
    fun e told b w so => .refused so.1 so.2
  intro b w so
  exact (second a b w so.1).after so.2

private theorem ensureTables_meets (rest : List QualifiedTable) :
    Meets env (fun b _ => Held runId none none b) (rest.forM ensureTable : HostAct host PUnit)
      fun told r b _ => match r with
        | .ok _ => Held runId none none b
        | .error _ => ∃ table e, (⟨.ensureTable table, .error e⟩ : Exchange Query Answer) ∈ told := by
  induction rest with
  | nil => exact .pure fun b w held => held
  | cons table rest ih =>
      refine Meets.bind (R := fun told r b _ => match r with
        | .ok _ => Held runId none none b
        | .error _ => ∃ table e, (⟨.ensureTable table, .error e⟩ : Exchange Query Answer) ∈ told)
        (.asked fun answer => ?_) (fun _ told => ih.mono fun more r b w so => ?_)
        fun e told b w so => so
      · cases answer with
        | ok u =>
            refine .pure ?_
            rintro b v ⟨w, held, -⟩
            exact held
        | error e => exact .throw fun b v so => ⟨table, e, List.mem_singleton.mpr rfl⟩
      · cases r with
        | ok u => exact so
        | error e =>
            obtain ⟨table, e, member⟩ := so
            exact ⟨table, e, List.mem_append_right _ member⟩

private theorem ensureRunStorage_meets (backed : plan.enabled = true → host.storage = true) :
    Meets env (fun b _ => Held runId none none b)
      (ensureRunStorage runId plan : HostAct host Unit) fun told r b _ => match r with
        | .ok _ => (b.runTables.lookup runId).getD [] = neededNames host plan runId
        | .error _ => ∃ table e, (⟨.ensureTable table, .error e⟩ : Exchange Query Answer) ∈ told := by
  unfold ensureRunStorage
  split
  · rename_i disabled
    refine .pure fun b w held => ?_
    show (b.runTables.lookup runId).getD [] = _
    rw [held.tables, neededNames, Starting.neededTables_disabled disabled]
    rfl
  · rename_i enabled
    rw [requireStorage, if_pos (backed (not_not.mp enabled)), pure_bind]
    refine Meets.bind (ensureTables_meets _) (fun _ told => ?_) fun e told b w so => so
    dsimp only
    split
    · rename_i none
      refine .pure fun b w held => ?_
      show (b.runTables.lookup runId).getD [] = _
      rw [held.tables, neededNames, none]
      rfl
    · exact .modify fun b w held => by
        show ((b.runTables.insert runId _).lookup runId).getD [] = _
        rw [AList.lookup_insert]
        rfl

private theorem startRun_begins {p : Backed host} (req : RunRequest) :
    Meets env (fun b _ => Held runId none none b)
      (do
        let run ← startRun req
        ensureRunStorage runId p.1.storage
        modify fun books => { books with runPolicies := books.runPolicies.insert runId p }
        return run : HostAct host Run)
      fun told _ b _ => Begun host runId p.1.storage none none told b := by
  refine .asked fun answer => ?_
  cases answer with
  | error e =>
      refine .throw ?_
      rintro b v ⟨w, held, -⟩
      exact .refused held (List.forall_mem_singleton.mpr ⟨rfl, nofun⟩)
  | ok run =>
      refine Meets.bind ((ensureRunStorage_meets p.2).pre ?_) (fun _ told => ?_)
        fun e told b w so => ?_
      · rintro b v ⟨w, held, -⟩
        exact held
      · refine Meets.bind (R := fun _ r b _ => r = .ok ⟨⟩ ∧ b.runPolicies.lookup runId = some p ∧
          (b.runTables.lookup runId).getD [] = neededNames host p.1.storage runId)
          (.modify fun b w listed => ⟨rfl, AList.lookup_insert _, listed⟩)
          (fun _ more => .pure fun b w so => ?_) fun e more b w so => nomatch so.1
        exact .begun rfl rfl p rfl so.2.1 so.2.2
      · obtain ⟨table, e', member⟩ := so
        exact .short table e' (List.mem_cons_of_mem _ member)

private theorem startBacked_begins (assembly : Assembly) (inputs : List NamedArtifact)
    (p : Backed host) :
    Meets env (fun b _ => Held runId none none b)
      (startBacked runId assembly inputs p : HostAct host Run)
      fun told _ b _ => Begun host runId p.1.storage none none told b :=
  calmly (fromFramework_keeps _) fun _ => calmly (fromFramework_keeps _) fun _ =>
    calmly (.forM fun _ _ => emitPresentation_keeps calm_allows _ _) fun _ => startRun_begins _

theorem startPipeline_begins (unlisted : policy = none → tables = none) (assembly : Assembly)
    (inputs : List NamedArtifact) (framework : FrameworkPolicy) :
    Meets env (fun b _ => Held runId policy tables b)
      (startPipeline runId assembly inputs framework : HostAct host Run)
      fun told _ b _ => Begun host runId framework.storage policy tables told b := by
  have refused (e : FrameworkError) : Meets env (fun b _ => Held runId policy tables b)
      (throw e : HostAct host Run)
      fun told _ b _ => Begun host runId framework.storage policy tables told b :=
    .throw fun b w held => .refused held (List.forall_mem_nil _)
  unfold startPipeline
  split
  · exact refused _
  · split
    · exact refused _
    · rw [policyOf, bind_assoc]
      refine .read fun books => ?_
      rw [pure_bind]
      split
      · exact (refused _).pre fun b w so => so.2
      · split
        · rename_i fresh backed
          split
          · exact (refused _).pre fun b w so => so.2
          · rintro b w ⟨rfl, held⟩
            obtain rfl : policy = none := by
              rw [← held.policy]
              simpa using fresh
            obtain rfl := unlisted rfl
            exact startBacked_begins assembly inputs ⟨framework, backed⟩ b w held
        · exact (refused _).pre fun b w so => so.2

theorem resumeAfter_begins (unlisted : policy = none → tables = none) (prior afterNode : String)
    (framework : FrameworkPolicy) :
    Meets env (fun b _ => Held runId policy tables b)
      (resumeAfter runId prior afterNode framework : HostAct host Run)
      fun told _ b _ => Begun host runId framework.storage policy tables told b := by
  have asked {q : Query} (quiet : plain q = true) :
      Keeps (Held runId policy tables) Calm (ask q : HostAct host (Answer q)) :=
    .ask fun answer => calm_plain quiet answer
  refine calmly ((asked rfl).bind fun _ => fromKernel_keeps _) fun _ =>
    calmly (fromFramework_keeps _) fun _ => calmly (Keeps.bind ((asked rfl).bind fun _ =>
      fromKernel_keeps _) fun _ => fromFramework_keeps _) fun _ => ?_
  exact startPipeline_begins unlisted _ _ _

end Starts

section Calls

variable [Sha256] [Prost] {store : ArtifactStorePolicy} {clock : Nat → Env}
  {outside : Environment S Query Answer} {has : String → S → Prop}

omit [Prost] in
theorem elsewhere_keeps {call : HostCall} (elsewhere : call.runId ≠ runId) :
    Keeps (Held runId policy tables) (fun _ => True) (call.perform : HostAct host Unit) := by
  have closes : Closes call.runId (@Held host runId policy tables) fun _ => True := by
    refine ⟨fun b held => ⟨held.policy, ?_⟩, fun b held => ⟨?_, held.tables⟩,
      fun _ _ _ _ _ _ _ _ _ => trivial⟩
    · exact ((lookup_erase_of _ _ _).trans (if_neg elsewhere.symm)).trans held.tables
    · exact ((lookup_erase_of _ _ _).trans (if_neg elsewhere.symm)).trans held.policy
  refine perform_keeps held_allows closes rfl (fun _ => trivial)
    ⟨fun _ _ _ => trivial, fun _ _ _ => trivial, fun _ _ _ => trivial, fun _ => trivial⟩
    fun p _ => ⟨fun _ _ _ _ => trivial, fun b held _ => ⟨held.policy, ?_⟩,
      fun b held => ⟨?_, held.tables⟩⟩
  · exact ((lookup_insert_of _ _ _ _).trans (if_neg elsewhere.symm)).trans held.tables
  · exact ((lookup_insert_of _ _ _ _).trans (if_neg elsewhere.symm)).trans held.policy

omit [Prost] in
theorem unlisted_keeps {call : HostCall} (here : call.runId = runId)
    (goes : startsUnder call = none) :
    Keeps (Held runId none none) (fun e => ∀ table, e.1 ≠ .ensureTable table)
      (call.perform : HostAct host Unit) := by
  have closes : Closes runId (@Held host runId none none)
      fun e => ∀ table, e.1 ≠ .ensureTable table := by
    refine ⟨fun b held => ⟨held.policy, ?_⟩, fun b held => ⟨?_, held.tables⟩, ?_⟩
    · exact (lookup_erase_of _ _ _).trans (if_pos rfl)
    · exact (lookup_erase_of _ _ _).trans (if_pos rfl)
    · intro b held p found
      rw [held.policy] at found
      cases found
  refine perform_keeps (calm_allows.mono fun e calm => calm.2) closes here (fun _ => trivial)
    ⟨fun _ _ _ => nofun, fun _ _ _ => nofun, fun _ _ _ => nofun, fun _ => nofun⟩ fun p starts => ?_
  rw [goes] at starts
  cases starts

omit [Sha256] [Prost] in
private theorem ignore_exec {W α : Type} (env : Environment W Query Answer) (x : HostAct host α)
    (b : Books host) (w : W) :
    transcript env (start (ignore x) b) w = transcript env (start x b) w ∧
      (exec env (start (ignore x) b) w).1 = (exec env (start x b) w).1 ∧
      (exec env (start (ignore x) b) w).2.2 = (exec env (start x b) w).2.2 := by
  rw [ignore, start_bind, Prog.transcript_bind, Prog.exec_bind]
  generalize exec env (start x b) w = result
  obtain ⟨v, e | a, b'⟩ := result
  · exact ⟨List.append_nil _, rfl, rfl⟩
  · exact ⟨List.append_nil _, rfl, rfl⟩

omit [Sha256] [Prost] in
private theorem ignore_meets {W α : Type} {env : Environment W Query Answer}
    {P : Books host → W → Prop} {x : HostAct host α} {R : Told → Books host → W → Prop}
    (meets : Meets env P x fun told _ b w => R told b w) :
    Meets env P (ignore x) fun told _ b w => R told b w := by
  intro b w before
  obtain ⟨told, world, books⟩ := ignore_exec env x b w
  rw [told, world, books]
  exact meets b w before

omit [Prost] in
private theorem perform_cancel (id : String) : ((HostCall.cancel id).perform : HostAct host Unit) =
    ignore (do return some (← cancel id) : HostAct host (Option Run)) := by
  simp only [HostCall.perform, ignore, bind_assoc, pure_bind]

theorem perform_settles (backend : Backend outside has) {call : HostCall}
    (here : call.runId = runId) (goes : startsUnder call = none) :
    Meets (inProcess store clock outside) (fun b _ => Held runId policy tables b)
      (call.perform : HostAct host Unit) fun _ _ b w =>
        Held runId policy tables b ∨ Gone has runId policy tables b w := by
  subst here
  have kept {α : Type} {x : HostAct host α} {id : String}
      (keeps : Keeps (Held id policy tables) (fun _ => True) x) :
      Meets (inProcess store clock outside) (fun b _ => Held id policy tables b) (ignore x)
        fun _ _ b w => Held id policy tables b ∨ Gone has id policy tables b w := by
    have kept : Meets (inProcess store clock outside) (fun b _ => Held id policy tables b ∧ True) x
        fun _ _ b _ => Held id policy tables b ∧ True :=
      Meets.of_keeps (T := fun _ _ => True) keeps fun _ _ _ _ _ => trivial
    exact ignore_meets ((kept.pre fun b w held => ⟨held, trivial⟩).mono
      fun told r b w so => .inl so.1)
  cases call with
  | startPipeline _ _ _ _ => cases goes
  | resumeAfter _ _ _ _ => cases goes
  | drive fuel id =>
      exact ignore_meets ((drive_settles backend fuel).mono fun _ _ _ _ so => so.imp_left And.left)
  | driveWith fuel id plan =>
      exact ignore_meets ((driveWith_settles backend fuel plan).mono
        fun _ _ _ _ so => so.imp_left And.left)
  | inject fuel id input after =>
      by_cases drives : after = .no
      · subst drives
        exact kept (called_keeps (fun _ => trivial) |>.bind fun _ => .pure _)
      · exact ignore_meets ((inject_settles backend fuel input drives).mono
          fun _ _ _ _ so => so.imp_left And.left)
  | tryStep id m =>
      exact kept (tryStep_keeps held_allows (fun _ => trivial) (fun _ _ _ => trivial) m)
  | cancel id =>
      rw [perform_cancel]
      exact ignore_meets ((cancel_settles backend).mono fun _ _ _ _ so => so.imp_left And.left)

/-- What a host has kept of a run between two calls, given its plan. -/
structure Kept (has : String → S → Prop) (runId : String) (plan : Option StoragePlan)
    (session : Session host (World S)) : Prop where
  listed : ∀ p, session.books.runPolicies.lookup runId = some p → plan = some p.1.storage ∧
    (session.books.runTables.lookup runId).getD [] = neededNames host p.1.storage runId
  unlisted : session.books.runPolicies.lookup runId = none →
    session.books.runTables.lookup runId = none
  gone : session.books.runPolicies.lookup runId = none → ∀ p, plan = some p → GoesWithRun p →
    ∀ name ∈ neededNames host p runId, ¬ has name session.world.rest

private theorem inProcess_made (backend : Backend outside has) {q : Query} {w : World S}
    {name : String} (present : has name (inProcess store clock outside q w).1.rest) :
    has name w.rest ∨ ∃ table, q = .ensureTable table ∧ table.physicalName = name := by
  cases q <;> first | exact .inl present | exact backend.made _ _ _ present

private theorem after_absent (backend : Backend outside has) {session : Session host (World S)}
    {call : HostCall} {name : String} (absent : ¬ has name session.world.rest)
    (unasked : ∀ e ∈ session.told (inProcess store clock outside) call, ∀ table,
      e.1 = .ensureTable table → table.physicalName ≠ name) :
    ¬ has name (session.after (inProcess store clock outside) call).world.rest := by
  refine exec_keeps (inProcess store clock outside) (P := fun w => ¬ has name w.rest)
    (fun q w within before present => ?_) _ session.world unasked absent
  rcases inProcess_made backend present with old | ⟨table, rfl, same⟩
  · exact before old
  · exact within table rfl same

variable {session : Session host (World S)} {call : HostCall} {plan : Option StoragePlan}

private theorem kept_elsewhere (backend : Backend outside has)
    (kept : Kept has runId plan session) (elsewhere : call.runId ≠ runId)
    (orderly : Orderly (inProcess store clock outside) runId plan session call) :
    Kept has runId (planAfter (inProcess store clock outside) runId session call plan)
      (session.after (inProcess store clock outside) call) := by
  have same : planAfter (inProcess store clock outside) runId session call plan = plan := by
    unfold planAfter
    split
    · exact if_neg fun so => elsewhere so.1
    · rfl
  have held := (elsewhere_keeps elsewhere session.books _ _ _ ⟨rfl, rfl⟩
    (runs_exec (inProcess store clock outside)
      (start (call.perform : HostAct host Unit) session.books) session.world)).2
  rw [same]
  refine ⟨fun p found => ?_, fun none => ?_, fun none p known goes name needed => ?_⟩
  · obtain ⟨known, listed⟩ := kept.listed p (held.policy.symm.trans found)
    exact ⟨known, (congrArg (·.getD []) held.tables).trans listed⟩
  · exact held.tables.trans (kept.unlisted (held.policy.symm.trans none))
  · have none := held.policy.symm.trans none
    refine after_absent backend (kept.gone none p known goes name needed) ?_
    rintro e member table asked rfl
    exact orderly.apart elsewhere none p known e member table asked needed

private theorem kept_start (backend : Backend outside has) (kept : Kept has runId plan session)
    {framework : FrameworkPolicy} (starts : startsUnder call = some framework)
    (given : ∀ table e, (⟨.ensureTable table, .error e⟩ : Exchange Query Answer) ∉
      session.told (inProcess store clock outside) call)
    (here : call.runId = runId)
    (begun : Begun host runId framework.storage (session.books.runPolicies.lookup runId)
      (session.books.runTables.lookup runId) (session.told (inProcess store clock outside) call)
      (session.after (inProcess store clock outside) call).books) :
    Kept has runId (planAfter (inProcess store clock outside) runId session call plan)
      (session.after (inProcess store clock outside) call) := by
  cases begun with
  | refused held calm =>
      have same : planAfter (inProcess store clock outside) runId session call plan = plan := by
        rw [planAfter, starts]
        refine if_neg fun so => ?_
        obtain ⟨e, member, accepted⟩ := List.any_eq_true.mp so.2
        rw [(calm e member).1] at accepted
        cases accepted
      rw [same]
      refine ⟨fun p found => ?_, fun none => ?_, fun none p known goes name needed => ?_⟩
      · obtain ⟨known, listed⟩ := kept.listed p (held.policy.symm.trans found)
        exact ⟨known, (congrArg (·.getD []) held.tables).trans listed⟩
      · exact held.tables.trans (kept.unlisted (held.policy.symm.trans none))
      · refine after_absent backend (kept.gone (held.policy.symm.trans none) p known goes name
          needed) ?_
        exact fun e member table asked => absurd asked ((calm e member).2 table)
  | begun fresh accepted p same registered listed =>
      have now : planAfter (inProcess store clock outside) runId session call plan =
          some framework.storage := by
        rw [planAfter, starts]
        exact if_pos ⟨here, accepted⟩
      rw [now]
      refine ⟨fun p' found => ?_, fun none => ?_, fun none => ?_⟩
      · obtain rfl := Option.some.inj (registered.symm.trans found)
        exact ⟨congrArg some same.symm, same ▸ listed⟩
      · rw [registered] at none
        cases none
      · rw [registered] at none
        cases none
  | short table e member => exact absurd member (given table e)

private theorem kept_here (backend : Backend outside has) (kept : Kept has runId plan session)
    (here : call.runId = runId) (goes : startsUnder call = none) :
    Kept has runId (planAfter (inProcess store clock outside) runId session call plan)
      (session.after (inProcess store clock outside) call) := by
  have same : planAfter (inProcess store clock outside) runId session call plan = plan := by
    rw [planAfter, goes]
  rw [same]
  cases found : session.books.runPolicies.lookup runId with
  | none =>
      obtain ⟨quiet, held⟩ := unlisted_keeps here goes session.books _ _ _
        ⟨found, kept.unlisted found⟩ (runs_exec (inProcess store clock outside)
          (start (call.perform : HostAct host Unit) session.books) session.world)
      refine ⟨fun p listed => ?_, fun _ => held.tables, fun _ p known goes name needed => ?_⟩
      · cases held.policy.symm.trans listed
      · refine after_absent backend (kept.gone found p known goes name needed) ?_
        exact fun e member table asked => absurd asked (quiet e member table)
  | some p =>
      obtain ⟨known, listed⟩ := kept.listed p found
      rcases @perform_settles _ _ _ _ _ _ _ store clock _ _ backend _ here goes session.books
        session.world ⟨found, rfl⟩ with held | gone
      · refine ⟨fun p' found' => ?_, fun none => ?_, fun none => ?_⟩
        · obtain rfl := Option.some.inj (held.policy.symm.trans found')
          exact ⟨known, (congrArg (·.getD []) held.tables).trans listed⟩
        · cases held.policy.symm.trans none
        · cases held.policy.symm.trans none
      · refine ⟨fun p' found' => ?_, fun _ => gone.forgotten.tables,
          fun _ p' known' goes name needed => ?_⟩
        · cases gone.forgotten.policy.symm.trans found'
        · obtain rfl := Option.some.inj (known.symm.trans known')
          rw [← listed] at needed
          exact gone.dropped p rfl goes name needed

theorem kept_step (backend : Backend outside has) (kept : Kept has runId plan session)
    (orderly : Orderly (inProcess store clock outside) runId plan session call) :
    Kept has runId (planAfter (inProcess store clock outside) runId session call plan)
      (session.after (inProcess store clock outside) call) := by
  by_cases here : call.runId = runId
  · cases starts : startsUnder call with
    | none => exact kept_here backend kept here starts
    | some framework =>
        have given := orderly.given here (by rw [starts]; exact nofun)
        refine kept_start backend kept starts given here ?_
        cases call with
        | startPipeline id assembly inputs policy =>
            obtain rfl : id = runId := here
            obtain rfl := Option.some.inj starts
            exact ignore_meets (startPipeline_begins kept.unlisted assembly inputs policy) _ _
              ⟨rfl, rfl⟩
        | resumeAfter id prior afterNode policy =>
            obtain rfl : id = runId := here
            obtain rfl := Option.some.inj starts
            exact ignore_meets (resumeAfter_begins kept.unlisted prior afterNode policy) _ _
              ⟨rfl, rfl⟩
        | _ => cases starts
  · exact kept_elsewhere backend kept here orderly

theorem kept_run (backend : Backend outside has) (calls : List HostCall)
    (kept : Kept has runId plan session)
    (orderly : OrderlyRun (inProcess store clock outside) runId plan session calls) :
    Kept has runId (planOf (inProcess store clock outside) runId plan session calls)
      (session.run (inProcess store clock outside) calls) := by
  induction calls generalizing session plan with
  | nil => exact kept
  | cons call calls ih => exact ih (kept_step backend kept orderly.1) orderly.2

private theorem settled_after {x : HostAct host (Option Run)}
    (settles : Meets (inProcess store clock outside) (fun b _ => Held runId policy tables b) x
      (Settled has runId policy tables)) (held : Held runId policy tables session.books)
    (returns : (exec (inProcess store clock outside) (start x session.books) session.world).2.1 ≠
      .ok none) (same : call.perform = ignore x) :
    (Held runId policy tables (session.after (inProcess store clock outside) call).books ∧
      (Closed runId (session.after (inProcess store clock outside) call).world.kernel →
        BrokenOff host (session.told (inProcess store clock outside) call))) ∨
      Gone has runId policy tables (session.after (inProcess store clock outside) call).books
        (session.after (inProcess store clock outside) call).world := by
  have settled := settles session.books session.world held
  obtain ⟨told, world, books⟩ :=
    ignore_exec (inProcess store clock outside) x session.books session.world
  rw [← same] at told world books
  rw [← told, ← world, ← books] at settled
  refine settled.imp_left fun so => ⟨so.1, fun closed => ?_⟩
  have kind := so.2
  generalize (exec (inProcess store clock outside) (start x session.books) session.world).2.1 =
    result at kind returns
  rcases result with e | _ | run
  · exact kind
  · exact absurd rfl returns
  · exact absurd closed kind

theorem call_settles (backend : Backend outside has) (here : call.runId = runId)
    (settles : Settles call) (returns : Returns (inProcess store clock outside) session call)
    (held : Held runId policy tables session.books) :
    (Held runId policy tables (session.after (inProcess store clock outside) call).books ∧
      (Closed runId (session.after (inProcess store clock outside) call).world.kernel →
        BrokenOff host (session.told (inProcess store clock outside) call))) ∨
      Gone has runId policy tables (session.after (inProcess store clock outside) call).books
        (session.after (inProcess store clock outside) call).world := by
  subst here
  cases call with
  | drive fuel id => exact settled_after (drive_settles backend fuel) held returns rfl
  | driveWith fuel id plan => exact settled_after (driveWith_settles backend fuel plan) held returns rfl
  | inject fuel id input after =>
      exact settled_after (inject_settles backend fuel input settles) held returns rfl
  | cancel id =>
      have some : Upholds (fun _ r => r ≠ .ok none)
          (do return some (← cancel id) : HostAct host (Option Run)) :=
        .last (fun run => .pure nofun) fun e => nofun
      exact settled_after (cancel_settles backend) held
        (some _ _ _ _ (runs_exec (inProcess store clock outside) _ session.world))
        (perform_cancel id)
  | _ => exact settles.elim

/-- In every history in which a run is given all the tables of its plan when it is started, and no
other run is given one of that name once it is finished: a call that is to finish the run, and is not
broken off when the run is no longer RUNNING, leaves no table and no policy of a run that is no longer
RUNNING, if its tables are to go with it. -/
theorem tables_dropped (store : ArtifactStorePolicy) (clock : Nat → Env)
    (backend : Backend outside has) (host : Host) (world : World S) (runId : String)
    (calls : List HostCall) :
    let env := inProcess store clock outside
    let fresh : Session host (World S) := ⟨{}, world⟩
    let session := fresh.run env calls
    OrderlyRun env runId none fresh calls →
    ∀ call, call.runId = runId → Settles call → Returns env session call →
      (session.books.runPolicies.lookup runId ≠ none → BrokenOff host (session.told env call) →
        ¬ Closed runId (session.after env call).world.kernel) →
      Closed runId (session.after env call).world.kernel →
      ∀ plan, planOf env runId none fresh calls = some plan → GoesWithRun plan →
        (session.after env call).books.runPolicies.lookup runId = none ∧
          ∀ name ∈ neededNames host plan runId, ¬ has name (session.after env call).world.rest := by
  intro env fresh session orderly call here settles returns unbroken closed plan planned goes
  have empty : Kept has runId none fresh := ⟨fun _ => nofun, fun _ => rfl, fun _ _ => nofun⟩
  have kept := kept_run backend calls empty orderly
  have goesOn : startsUnder call = none := by
    cases call <;> first | rfl | exact settles.elim
  have orderly' : Orderly env runId (planOf env runId none fresh calls) session call :=
    ⟨fun _ starts => absurd goesOn starts, fun elsewhere => absurd here elsewhere⟩
  have kept' := kept_step backend kept orderly'
  rw [planAfter, goesOn] at kept'
  have forgotten : (session.after env call).books.runPolicies.lookup runId = none := by
    rcases call_settles backend here settles returns ⟨rfl, rfl⟩ with ⟨held, broken⟩ | gone
    · by_contra listed
      exact unbroken (fun none => listed (held.policy.trans none)) (broken closed) closed
    · exact gone.forgotten.policy
  exact ⟨forgotten, kept'.gone forgotten plan planned goes⟩

end Calls

end General

section Sibling

open Substrate.Kernel.Concrete
open Substrate.Protocol.Tables (scribe storingHost)

/-- The kernel in process, the stores in memory. -/
def storedEnv : Environment (World (Stores Unit)) Query Answer :=
  inProcess policy (fun _ => envAt 0) (inMemory scribe)

/-- A kernel with the module and the line, and empty stores. -/
def stockedWorld : World (Stores Unit) :=
  ⟨Substrate.Kernel.Api.exec policy {} (stocked .once), 0, ⟨∅, ∅, ()⟩⟩

/-- The terminal node and another one, which hears the same line. -/
def siblings : Assembly :=
  { id := "siblings", nodes := [⟨"m", "echo", "1", "say"⟩, ⟨"n", "echo", "1", "say"⟩]
    bindings := [{ toNode := "m", toPort := "heard", input := "line" },
      { toNode := "n", toPort := "heard", input := "line" }]
    terminal := some ⟨"m", "said"⟩ }

def ownPlan : StoragePlan := { mode := .perRun }

/-- A run with tables of its own. -/
def startStored (assembly : Assembly) : HostCall :=
  .startPipeline "r" assembly [given "line" (text "one")]
    { FrameworkPolicy.converge with storage := ownPlan }

abbrev EchoSession := Session (storingHost ["echo"]) (World (Stores Unit))

def fresh (w : World (Stores Unit)) : EchoSession := ⟨{}, w⟩

def started (w : World (Stores Unit)) (assembly : Assembly) : EchoSession :=
  (fresh w).run storedEnv [startStored assembly]

def driven (w : World (Stores Unit)) (assembly : Assembly) : EchoSession :=
  (started w assembly).after storedEnv (.drive 9 "r")

/-- Whether the run is closed, listed by the host, and has its table. -/
def leftOf (session : EchoSession) :
    Option RunState × Bool × Bool :=
  ((session.world.kernel.runs.lookup "r").map (·.run.state),
    (session.books.runPolicies.lookup "r").isSome,
    (session.world.rest.tables.lookup "r__echo__t").isSome)

/-- Whether a drive of a run comes to its end. -/
def ends (w : World (Stores Unit)) (assembly : Assembly) : Bool :=
  match (exec storedEnv (start (drive 9 "r") (started w assembly).books)
    (started w assembly).world).2.1 with
  | .ok none => false
  | _ => true

private theorem returns_of {w : World (Stores Unit)} {assembly : Assembly}
    (ended : ends w assembly = true) :
    Returns storedEnv (started w assembly) (.drive 9 "r") := by
  intro none
  unfold ends at ended
  rw [none] at ended
  cases ended

private theorem leftOf_closed {session : EchoSession} {state : RunState} {listed stored : Bool}
    (left : leftOf session = (some state, listed, stored)) (closed : state ≠ .running) :
    Closed "r" session.world.kernel := by
  obtain ⟨slot, found, same⟩ := Option.map_eq_some_iff.mp (Prod.mk.inj left).1
  exact ⟨slot, found, same ▸ closed⟩

private theorem siblings_left :
    leftOf (driven stockedWorld siblings) = (some .completed, true, true) ∧ ends stockedWorld siblings = true ∧
      planOf storedEnv "r" none (fresh stockedWorld) [startStored siblings] =
        some ownPlan ∧ neededNames (storingHost ["echo"]) ownPlan "r" = ["r__echo__t"] := by
  decide +kernel

/-- The terminal unit's commit completes the run, its sibling's is then refused, and the run's table
and policy stay. -/
theorem drive_leaves_table :
    Settles (.drive 9 "r") ∧ Returns storedEnv (started stockedWorld siblings) (.drive 9 "r") ∧
      planOf storedEnv "r" none (fresh stockedWorld) [startStored siblings] =
        some ownPlan ∧ GoesWithRun ownPlan ∧ Closed "r" (driven stockedWorld siblings).world.kernel ∧
      ¬ ((driven stockedWorld siblings).books.runPolicies.lookup "r" = none) ∧
      ¬ ∀ name ∈ neededNames (storingHost ["echo"]) ownPlan "r",
        name ∉ (driven stockedWorld siblings).world.rest.tables := by
  obtain ⟨left, ended, planned, names⟩ := siblings_left
  obtain ⟨-, rest⟩ := Prod.mk.inj left
  obtain ⟨listed, stored⟩ := Prod.mk.inj rest
  refine ⟨trivial, returns_of ended, planned, ⟨rfl, rfl⟩, leftOf_closed left nofun, fun none => ?_,
    fun dropped => ?_⟩
  · rw [none] at listed
    cases listed
  · rw [names] at dropped
    exact dropped _ (List.mem_singleton.mpr rfl) (AList.lookup_isSome.mp stored)

/-- Every unit has a plugin, and the last answer is no error. -/
def unbroken (told : Told) : Bool :=
  (told.getLast?.all fun e => !declines e) &&
    decide (∀ work ∈ handed told, work.module ∈ (storingHost ["echo"]).plugins)

private theorem not_brokenOff {told : Told} (whole : unbroken told = true) :
    ¬ BrokenOff (storingHost ["echo"]) told := by
  obtain ⟨last, plugged⟩ := (Bool.and_eq_true _ _).mp whole |>.imp id of_decide_eq_true
  rintro (⟨before, e, rfl, declined⟩ | ⟨work, member, missing⟩)
  · rw [List.getLast?_append, List.getLast?_singleton] at last
    simp [declined] at last
  · exact missing (plugged work member)

/-- Whether an exchange is the refusal of a table. -/
def shortOf : Exchange Query Answer → Bool
  | ⟨.ensureTable _, .error _⟩ => true
  | _ => false

private theorem echo_run :
    leftOf (driven stockedWorld echoes) = (some .completed, false, false) ∧ ends stockedWorld echoes = true ∧
      planOf storedEnv "r" none (fresh stockedWorld) [startStored echoes] =
        some ownPlan ∧ unbroken ((started stockedWorld echoes).told storedEnv (.drive 9 "r")) = true ∧
      ((fresh stockedWorld).told storedEnv (startStored echoes)).any shortOf = false := by
  decide +kernel

/-- Whether a session has neither policy nor table of the run. -/
def DroppedIn (session : EchoSession) : Prop :=
  session.books.runPolicies.lookup "r" = none ∧
    ∀ name ∈ neededNames (storingHost ["echo"]) ownPlan "r", name ∉ session.world.rest.tables

/-- A run of one node is finished with its table. -/
theorem drive_drops_table : DroppedIn (driven stockedWorld echoes) := by
  have settled (w : World (Stores Unit)) (state : RunState) (closed : state ≠ .running)
      (left : leftOf (driven w echoes) = (some state, false, false))
      (ended : ends w echoes = true)
      (planned : planOf storedEnv "r" none (fresh w) [startStored echoes] = some ownPlan)
      (whole : unbroken ((started w echoes).told storedEnv (.drive 9 "r")) = true)
      (full : ((fresh w).told storedEnv (startStored echoes)).any shortOf = false) :
      DroppedIn (driven w echoes) := by
    have orderly : OrderlyRun storedEnv "r" none (fresh w) [startStored echoes] := by
      refine ⟨⟨fun _ _ table e member => ?_, fun elsewhere => absurd rfl elsewhere⟩, trivial⟩
      exact absurd rfl (List.any_eq_false.mp full _ member)
    have returns := returns_of ended
    have whole := not_brokenOff whole
    have closed := leftOf_closed left closed
    unfold DroppedIn
    unfold driven started fresh storedEnv at *
    exact tables_dropped policy (fun _ => envAt 0) (inMemory_backend scribe) (storingHost ["echo"]) w
      "r" [startStored echoes] orderly (.drive 9 "r") rfl trivial returns
      (fun _ broken => absurd broken whole) closed ownPlan planned ⟨rfl, rfl⟩
  obtain ⟨left, ended, planned, whole, full⟩ := echo_run
  exact settled stockedWorld .completed nofun left ended planned whole full

end Sibling

end Substrate.Protocol.Retention
