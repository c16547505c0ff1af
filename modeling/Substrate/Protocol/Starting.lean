/- ID: Substrate/Protocol/Starting
   digest: What the start of a pipeline leaves behind when it fails, and what it sets up when not. -/

import Substrate.Protocol.Failures
import Substrate.Protocol.Tables

set_option autoImplicit false
set_option relaxedAutoImplicit false

namespace Substrate.Protocol.Starting

open Substrate.Kernel.Wire
open Substrate.Kernel.Hashing
open Substrate.Kernel.Memory
open Substrate.Kernel.Store (putArtifactCtx)
open Substrate.Kernel.Runs (startRunCtx)
open Substrate.Kernel.Api (readOnly)
open Substrate.Protocol.Failures (startRunCtx_failsAt)
open Substrate.Framework.Steps
open Substrate.Framework.Storage
open Substrate.Framework.Policy
open Substrate.Framework.Cut
open Substrate.Framework.Calls
open Substrate.Framework.Drive
open Substrate.Framework.Pipeline
open Substrate.Framework.InProcess
open Substrate.Protocol.Asking (tableOf)
open Substrate.Protocol.Tables (moduleTables_enabled stepLog_enabled)
open Substrate.Library.FiniteMap
open Substrate.Library.Resumption
open Substrate.Library.Resumption.Act
open Substrate.Library.Resumption.Prog (Environment exec transcript)

/-- A backend that also fails for reasons of its own. -/
def refusing {W : Type} (refuses : QualifiedTable → W → Option FrameworkError)
    (env : Environment W Query Answer) : Environment W Query Answer
  | .ensureTable table, w =>
      match refuses table w with
      | some e => (w, .error e)
      | none => env (.ensureTable table) w
  | query, w => env query w

theorem refusing_none {W : Type} (env : Environment W Query Answer) :
    refusing (fun _ _ => none) env = env := by
  funext q w
  cases q <;> rfl

/-- Some table that a plan needs has been refused. -/
def Refused (host : Host) (plan : StoragePlan) (runId : String)
    (told : List (Exchange Query Answer)) : Prop :=
  ∃ table ∈ neededTables host plan runId, ∃ e : FrameworkError,
    (⟨.ensureTable table, .error e⟩ : Exchange Query Answer) ∈ told

/-- The kernel has the run, and it is RUNNING. -/
def Running (runId : String) (state : State) : Prop :=
  ∃ slot, state.runs.lookup runId = some slot ∧ slot.run.state = .running

variable {host : Host} {S : Type}

/-- What a start that fails has left behind. -/
structure Failed (host : Host) (runId : String) (assembly : Assembly) (inputs : List NamedArtifact)
    (policy : FrameworkPolicy) (books : Books host) (w : Stores (World S))
    (told : List (Exchange Query Answer)) (books' : Books host) (w' : Stores (World S)) : Prop where
  policies : books'.runPolicies = books.runPolicies
  lists : books'.runTables = books.runTables
  untouched : ¬ Refused host policy.storage runId told →
    w'.rest.kernel.runs = w.rest.kernel.runs ∧ w'.tables = w.tables
  refused : Refused host policy.storage runId told → Running runId w'.rest.kernel ∧
    ∀ name ∈ w'.tables, name ∈ w.tables ∨ ∃ table ∈ neededTables host policy.storage runId,
      table.physicalName = name
  events : books'.stepEvents = books.stepEvents ∨
    ∃ cut, materializeCut assembly policy.nodes = .ok cut ∧
      validateSeedsPresent cut inputs = .ok () ∧
      ∃ shown, shown <+: cut.skipped.map (skipPresentation runId cut) ∧
        books'.stepEvents.map (·.presentation) = books.stepEvents.map (·.presentation) ++ shown

/-- What a start that succeeds has set up. -/
structure Started (host : Host) (runId : String) (policy : FrameworkPolicy) (books' : Books host)
    (w' : Stores (World S)) : Prop where
  running : Running runId w'.rest.kernel
  registered : ∃ p, p.1 = policy ∧ books'.runPolicies.lookup runId = some p
  ensured : ∀ table ∈ neededTables host policy.storage runId, table.physicalName ∈ w'.tables

section Kernel

variable [Sha256] [Prost]

theorem putArtifactCtx_runs (policy : ArtifactStorePolicy) (env : Env) (artifact : Artifact)
    (ctx : RequestContext) (state : State) :
    (putArtifactCtx policy env artifact ctx state).1.runs = state.runs := by
  unfold putArtifactCtx orReturn
  split
  · split
    · split
      · rfl
      · dsimp only
        split
        · rw [idempotentPut_runs]
          split <;> rfl
        · rfl
    · rfl
  · rfl

theorem startRunCtx_running {env : Env} {req : RunRequest} {ctx : RequestContext} {state : State}
    (bare : ctx.requestKey = "") {run : Run}
    (accepted : (startRunCtx env req ctx state).2 = .ok run) :
    Running req.id (startRunCtx env req ctx state).1 := by
  have missed (op : String) : idempotentGet state op ctx = none := by
    rw [idempotentGet, idempotencyKey, if_pos bare]
    rfl
  revert accepted
  unfold startRunCtx orReturn
  rw [missed]
  split
  · dsimp only
    split_ifs
    · exact nofun
    · exact nofun
    · split
      · exact nofun
      · split
        · split
          · split_ifs
            · exact nofun
            · intro _
              rw [Running, idempotentPut_runs]
              exact ⟨_, AList.lookup_insert _, rfl⟩
          · exact nofun
        · exact nofun
  · exact nofun

end Kernel

section Acts

variable [Sha256] [Prost] {store : ArtifactStorePolicy} {clock : Nat → Env}
  {plugins : Environment S Query Answer}
  {refuses : QualifiedTable → Stores (World S) → Option FrameworkError}

theorem getRun_reads {outside : Environment S Query Answer} {runId : String} {books : Books host}
    {s : State} :
    Meets (inProcess store clock outside) (fun b w => b = books ∧ w.kernel = s)
      (getRun runId : HostAct host Run) fun told r b w =>
        (∃ answer, told = [⟨.getRun ⟨runId⟩ host.ctx, answer⟩]) ∧ b = books ∧ w.kernel = s ∧
          ∀ run, r = .ok run → ∃ slot, s.runs.lookup runId = some slot ∧ run = slot.run := by
  have read (s : State) (env : Env) (ctx : RequestContext) (answer : Except KernelError Run) :
      (orReturn (checkDeadline env ctx) s fun _ => readOnly s answer) =
        (s, (checkDeadline env ctx).bind fun _ => answer) := by
    cases checkDeadline env ctx <;> rfl
  refine .asked fun answer => ?_
  have kept {w v : World S} (same : w.kernel = s)
      (answered : inProcess store clock outside (.getRun ⟨runId⟩ host.ctx) w = (v, answer)) :
      v.kernel = s ∧ ∀ run, answer = .ok run →
        ∃ slot, s.runs.lookup runId = some slot ∧ run = slot.run := by
    change onKernel clock w (fun env state => orReturn (checkDeadline env host.ctx) state fun _ =>
      readOnly state (Substrate.Kernel.Runs.getRun ⟨runId⟩ state)) = (v, answer) at answered
    simp only [onKernel, read, same] at answered
    obtain ⟨rfl, given⟩ := Prod.mk.inj answered
    refine ⟨rfl, ?_⟩
    rintro run rfl
    cases late : checkDeadline (clock w.calls) host.ctx with
    | error e =>
        rw [late] at given
        cases given
    | ok _ =>
        rw [late, Substrate.Kernel.Runs.getRun] at given
        cases found : s.runs.lookup runId with
        | none =>
            rw [found] at given
            cases given
        | some slot =>
            rw [found] at given
            exact ⟨slot, rfl, (Except.ok.inj given).symm⟩
  cases answer with
  | error e =>
      refine .throw ?_
      rintro b v ⟨w, ⟨rfl, same⟩, answered⟩
      exact ⟨⟨_, rfl⟩, rfl, (kept same answered).1, nofun⟩
  | ok run =>
      refine .pure ?_
      rintro b v ⟨w, ⟨rfl, same⟩, answered⟩
      obtain ⟨after, given⟩ := kept same answered
      refine ⟨⟨_, rfl⟩, rfl, after, ?_⟩
      rintro _ ⟨⟩
      exact given run rfl

/-- The kernel in process, the stores in memory, and a backend that may refuse any table. -/
abbrev hostEnv (store : ArtifactStorePolicy) (clock : Nat → Env)
    (plugins : Environment S Query Answer)
    (refuses : QualifiedTable → Stores (World S) → Option FrameworkError) :
    Environment (Stores (World S)) Query Answer :=
  refusing refuses (inMemory (inProcess store clock plugins))

/-- So far only step events with these presentations have been added. -/
structure Shown (books : Books host) (w : Stores (World S)) (shown : List Presentation)
    (books' : Books host) (w' : Stores (World S)) : Prop where
  policies : books'.runPolicies = books.runPolicies
  lists : books'.runTables = books.runTables
  events : books'.stepEvents.map (·.presentation) =
    books.stepEvents.map (·.presentation) ++ shown
  runs : w'.rest.kernel.runs = w.rest.kernel.runs
  tables : w'.tables = w.tables

section Rules

variable {env : Environment (Stores (World S)) Query Answer}
  {P : Books host → Stores (World S) → Prop} {α β : Type}

/-- An act about no table that keeps what is known. -/
def Stays (env : Environment (Stores (World S)) Query Answer)
    (P : Books host → Stores (World S) → Prop) (x : HostAct host α) : Prop :=
  Meets env P x fun told _ b v => (∀ e ∈ told, tableOf e.1 = none) ∧ P b v

omit [Sha256] [Prost]

private theorem Stays.pure (a : α) : Stays env P (pure a : HostAct host α) :=
  Meets.pure fun _ _ so => ⟨List.forall_mem_nil _, so⟩

private theorem Stays.throw (e : FrameworkError) : Stays env P (throw e : HostAct host α) :=
  Meets.throw fun _ _ so => ⟨List.forall_mem_nil _, so⟩

private theorem Stays.bind {x : HostAct host α} {f : α → HostAct host β} (first : Stays env P x)
    (second : ∀ a, Stays env P (f a)) : Stays env P (x >>= f) := by
  refine Meets.bind first (fun a told => ?_) fun _ _ _ _ so => so
  intro b v so
  obtain ⟨quiet, kept⟩ := second a b v so.2
  exact ⟨List.forall_mem_append.mpr ⟨so.1, quiet⟩, kept⟩

private theorem Stays.ask {q : Query} (quiet : tableOf q = none)
    (kept : ∀ b v, P b v → P b (env q v).1) : Stays env P (ask q : HostAct host (Answer q)) :=
  Meets.ask fun b v so => ⟨List.forall_mem_singleton.mpr quiet, kept b v so⟩

private theorem fromKernel_stays (answer : Except KernelError α) :
    Stays env P (fromKernel answer : HostAct host α) := by
  cases answer with
  | ok a => exact .pure a
  | error e => exact .throw _

private theorem fromSerde_stays (answer : Except String Bytes) :
    Stays env P (fromSerde answer : HostAct host Bytes) := by
  cases answer with
  | ok body => exact .pure body
  | error e => exact .throw _

end Rules

variable {books : Books host} {w : Stores (World S)} {shown : List Presentation}

private theorem maybePutUi_stays (module contract : String) (view : Presentation) :
    Stays (hostEnv store clock plugins refuses) (Shown books w shown)
      (maybePutUi module contract view : HostAct host String) := by
  unfold maybePutUi
  split
  · exact .pure _
  · refine .bind (.bind (.ask rfl fun b v so => ?_) fun answer => fromSerde_stays answer) fun body =>
      .bind (.bind (.ask rfl fun b v so => ?_) fun answer => fromKernel_stays answer) fun r => .pure _
    · exact ⟨so.policies, so.lists, so.events, so.runs, so.tables⟩
    · exact ⟨so.policies, so.lists, so.events, (putArtifactCtx_runs _ _ _ _ _).trans so.runs,
        so.tables⟩

private theorem emitPresentation_meets (module : String) (p : Presentation) :
    Meets (hostEnv store clock plugins refuses) (Shown books w shown)
      (emitPresentation module p : HostAct host Unit) fun told r b v =>
        (∀ e ∈ told, tableOf e.1 = none) ∧
          match r with
          | .ok _ => Shown books w (shown ++ [p]) b v
          | .error _ => Shown books w shown b v := by
  refine Meets.bind (maybePutUi_stays module _ p) (fun id told => .modify fun b v so => ?_)
    fun e told b v so => so
  obtain ⟨quiet, so⟩ := so
  refine ⟨by rwa [List.append_nil], so.policies, so.lists, ?_, so.runs, so.tables⟩
  rw [List.map_append, so.events, List.append_assoc]
  rfl

private theorem emitSkipEvents_meets (runId : String) (cut : AssemblyCut) :
    Meets (hostEnv store clock plugins refuses) (Shown books w [])
      (emitSkipEvents runId cut : HostAct host Unit) fun told _ b v =>
        (∀ e ∈ told, tableOf e.1 = none) ∧
          ∃ shown, shown <+: cut.skipped.map (skipPresentation runId cut) ∧
            Shown books w shown b v := by
  have each (rest : List SkippedNode) (shown : List Presentation) :
      Meets (hostEnv store clock plugins refuses) (Shown books w shown)
        (rest.forM fun node => emitPresentation node.module (skipPresentation runId cut node) :
          HostAct host Unit) fun told _ b v =>
          (∀ e ∈ told, tableOf e.1 = none) ∧
            ∃ more, more <+: rest.map (skipPresentation runId cut) ∧
              Shown books w (shown ++ more) b v := by
    induction rest generalizing shown with
    | nil =>
        refine .pure fun b v so => ⟨List.forall_mem_nil _, [], List.nil_prefix, ?_⟩
        rwa [List.append_nil]
    | cons node rest ih =>
        refine Meets.bind (emitPresentation_meets node.module _) (fun _ told b v so => ?_)
          fun e told b v so => ⟨so.1, [], List.nil_prefix, by rw [List.append_nil]; exact so.2⟩
        obtain ⟨quiet, more, first, after⟩ := ih _ b v so.2
        rw [List.append_assoc] at after
        exact ⟨List.forall_mem_append.mpr ⟨so.1, quiet⟩, _,
          (List.prefix_cons_inj _).mpr first, after⟩
  exact (each cut.skipped []).mono fun told r b v so => so

/-- The run is there and RUNNING, and only tables of its plan have been made. -/
structure Opened (runId : String) (plan : StoragePlan) (books : Books host)
    (w : Stores (World S)) (shown : List Presentation) (books' : Books host)
    (w' : Stores (World S)) : Prop where
  policies : books'.runPolicies = books.runPolicies
  lists : books'.runTables = books.runTables
  events : books'.stepEvents.map (·.presentation) =
    books.stepEvents.map (·.presentation) ++ shown
  running : Running runId w'.rest.kernel
  tables : ∀ name ∈ w'.tables, name ∈ w.tables ∨ ∃ table ∈ neededTables host plan runId,
    table.physicalName = name

private theorem startRun_meets (bare : host.ctx.requestKey = "") (plan : StoragePlan)
    (req : RunRequest) :
    Meets (hostEnv store clock plugins refuses) (Shown books w shown)
      (startRun req : HostAct host Run) fun told r b v =>
        (∀ e ∈ told, tableOf e.1 = none) ∧
          match r with
          | .ok _ => Opened req.id plan books w shown b v
          | .error _ => Shown books w shown b v := by
  refine .asked fun answer => ?_
  cases answer with
  | ok run =>
      refine .pure ?_
      rintro b v ⟨u, so, answered⟩
      obtain ⟨rfl, accepted⟩ := Prod.mk.inj answered
      refine ⟨List.forall_mem_singleton.mpr rfl, so.policies, so.lists, so.events,
        startRunCtx_running bare accepted, fun name member => .inl ?_⟩
      rw [← so.tables]
      exact member
  | error e =>
      refine .throw ?_
      rintro b v ⟨u, so, answered⟩
      obtain ⟨rfl, refused⟩ := Prod.mk.inj answered
      have kept := startRunCtx_failsAt _ req host.ctx _ _ refused
      refine ⟨List.forall_mem_singleton.mpr rfl, so.policies, so.lists, so.events, ?_, so.tables⟩
      exact (congrArg State.runs kept).trans so.runs

omit [Sha256] [Prost] in
private theorem ensureTable_mem (table : QualifiedTable) (tables : MemoryStorage) :
    (∀ name ∈ tables, name ∈ (tables.ensureTable table).1) ∧
      (∀ name ∈ (tables.ensureTable table).1, name ∈ tables ∨ name = table.physicalName) ∧
      ((tables.ensureTable table).2 = .ok () →
        table.physicalName ∈ (tables.ensureTable table).1) := by
  unfold MemoryStorage.ensureTable
  split
  · rename_i existing found
    split
    · exact ⟨fun _ member => member, fun _ member => .inl member, nofun⟩
    · exact ⟨fun _ member => member, fun _ member => .inl member, fun _ => mem_of_lookup found⟩
  · refine ⟨fun name member => AList.mem_insert _ |>.mpr (.inr member), fun name member => ?_,
      fun _ => AList.mem_insert _ |>.mpr (.inl rfl)⟩
    exact (AList.mem_insert _ |>.mp member).symm

private theorem hostEnv_ensureTable {table : QualifiedTable} {u v : Stores (World S)}
    {answer : Except FrameworkError Unit}
    (answered : hostEnv store clock plugins refuses (.ensureTable table) u = (v, answer)) :
    v.rest = u.rest ∧ (∀ name ∈ u.tables, name ∈ v.tables) ∧
      (∀ name ∈ v.tables, name ∈ u.tables ∨ name = table.physicalName) ∧
      (answer = .ok () → table.physicalName ∈ v.tables) := by
  rw [hostEnv, refusing] at answered
  cases refused : refuses table u with
  | some e =>
      rw [refused] at answered
      obtain ⟨rfl, rfl⟩ := Prod.mk.inj answered
      exact ⟨rfl, fun _ member => member, fun _ member => .inl member, nofun⟩
  | none =>
      rw [refused] at answered
      obtain ⟨rfl, rfl⟩ := Prod.mk.inj answered
      exact ⟨rfl, ensureTable_mem table u.tables⟩

section Tables

variable {runId : String} {plan : StoragePlan}

private theorem ensureTable_meets {table : QualifiedTable}
    (needed : table ∈ neededTables host plan runId) (done : List QualifiedTable) :
    Meets (hostEnv store clock plugins refuses)
      (fun b v => Opened runId plan books w shown b v ∧ ∀ t ∈ done, t.physicalName ∈ v.tables)
      (ensureTable table : HostAct host Unit) fun told r b v =>
        Opened runId plan books w shown b v ∧
          match r with
          | .ok _ => ∀ t ∈ done ++ [table], t.physicalName ∈ v.tables
          | .error e => (⟨.ensureTable table, .error e⟩ : Exchange Query Answer) ∈ told := by
  have opened {b : Books host} {u v : Stores (World S)} {answer : Except FrameworkError Unit}
      (so : Opened runId plan books w shown b u)
      (answered : hostEnv store clock plugins refuses (.ensureTable table) u = (v, answer)) :
      Opened runId plan books w shown b v := by
    obtain ⟨same, -, only, -⟩ := hostEnv_ensureTable answered
    refine ⟨so.policies, so.lists, so.events, same ▸ so.running, fun name member => ?_⟩
    rcases only name member with old | rfl
    · exact so.tables name old
    · exact .inr ⟨table, needed, rfl⟩
  refine .asked fun answer => ?_
  cases answer with
  | ok u =>
      refine .pure ?_
      rintro b v ⟨u, ⟨so, known⟩, answered⟩
      obtain ⟨-, kept, -, ensured⟩ := hostEnv_ensureTable answered
      refine ⟨opened so answered, List.forall_mem_append.mpr ⟨fun t member => ?_, ?_⟩⟩
      · exact kept _ (known t member)
      · exact List.forall_mem_singleton.mpr (ensured rfl)
  | error e =>
      refine .throw ?_
      rintro b v ⟨u, ⟨so, -⟩, answered⟩
      exact ⟨opened so answered, List.mem_singleton.mpr rfl⟩

private theorem ensureTables_meets (rest done : List QualifiedTable)
    (needed : ∀ table ∈ rest, table ∈ neededTables host plan runId) :
    Meets (hostEnv store clock plugins refuses)
      (fun b v => Opened runId plan books w shown b v ∧ ∀ t ∈ done, t.physicalName ∈ v.tables)
      (rest.forM ensureTable : HostAct host PUnit) fun told r b v =>
        Opened runId plan books w shown b v ∧
          match r with
          | .ok _ => ∀ t ∈ done ++ rest, t.physicalName ∈ v.tables
          | .error _ => Refused host plan runId told := by
  induction rest generalizing done with
  | nil =>
      refine .pure fun b v so => ?_
      rwa [List.append_nil]
  | cons table rest ih =>
      obtain ⟨first, others⟩ := List.forall_mem_cons.mp needed
      refine Meets.bind (ensureTable_meets first done) (fun _ told => ?_)
        fun e told b v so => ⟨so.1, table, first, e, so.2⟩
      refine (ih (done ++ [table]) others).mono fun more r b v so => ⟨so.1, ?_⟩
      cases r with
      | ok _ => simpa using so.2
      | error e =>
          obtain ⟨t, member, e', refused⟩ := so.2
          exact ⟨t, member, e', List.mem_append_right _ refused⟩

omit [Sha256] [Prost] in
theorem neededTables_disabled (disabled : ¬ plan.enabled = true) :
    neededTables host plan runId = [] := by
  rw [neededTables, if_neg (mt moduleTables_enabled disabled), if_neg (mt stepLog_enabled disabled)]
  rfl

private theorem ensureRunStorage_meets (backed : plan.enabled = true → host.storage = true) :
    Meets (hostEnv store clock plugins refuses) (Opened runId plan books w shown)
      (ensureRunStorage runId plan : HostAct host Unit) fun told r b v =>
        match r with
        | .ok _ => Running runId v.rest.kernel ∧
            ∀ t ∈ neededTables host plan runId, t.physicalName ∈ v.tables
        | .error _ => Opened runId plan books w shown b v ∧ Refused host plan runId told := by
  unfold ensureRunStorage
  split
  · rename_i disabled
    refine .pure fun b v so => ⟨so.running, ?_⟩
    rw [neededTables_disabled disabled]
    exact List.forall_mem_nil _
  · rename_i enabled
    rw [requireStorage, if_pos (backed (not_not.mp enabled)), pure_bind]
    refine Meets.bind (P := Opened runId plan books w shown) (((ensureTables_meets _ []
      fun _ member => member).pre fun b v so => ⟨so, List.forall_mem_nil _⟩)) (fun _ told => ?_)
      fun e told b v so => so
    dsimp only
    split
    · exact .pure fun b v so => ⟨so.1.running, so.2⟩
    · exact .modify fun b v so => ⟨so.1.running, so.2⟩

end Tables

omit [Sha256] [Prost] in
private theorem fromFramework_meets {α : Type} {env : Environment (Stores (World S)) Query Answer}
    {P : Books host → Stores (World S) → Prop} (answer : Except FrameworkError α) :
    Meets env P (fromFramework answer : HostAct host α) fun told r b v =>
      told = [] ∧ r = answer ∧ P b v := by
  cases answer with
  | ok a => exact .pure fun b v so => ⟨rfl, rfl, so⟩
  | error e => exact .throw fun b v so => ⟨rfl, rfl, so⟩

/-- What a start leaves behind or sets up. -/
def Settled (host : Host) (runId : String) (assembly : Assembly) (inputs : List NamedArtifact)
    (policy : FrameworkPolicy) (books : Books host) (w : Stores (World S))
    (told : List (Exchange Query Answer)) (r : Except FrameworkError Run) (books' : Books host)
    (w' : Stores (World S)) : Prop :=
  match r with
  | .ok _ => Started host runId policy books' w'
  | .error _ => Failed host runId assembly inputs policy books w told books' w'

variable {runId : String} {assembly : Assembly} {inputs : List NamedArtifact}
  {policy : FrameworkPolicy}

omit [Sha256] [Prost] in
private theorem not_refused {plan : StoragePlan} {told : List (Exchange Query Answer)}
    (quiet : ∀ e ∈ told, tableOf e.1 = none) : ¬ Refused host plan runId told := by
  rintro ⟨table, -, e, member⟩
  cases quiet _ member

omit [Sha256] [Prost] in
private theorem failed_check {e : FrameworkError} :
    Settled host runId assembly inputs policy books w [] (.error e) books w where
  policies := rfl
  lists := rfl
  untouched _ := ⟨rfl, rfl⟩
  refused asked := absurd asked (not_refused (List.forall_mem_nil _))
  events := .inl rfl

omit [Sha256] [Prost] in
private theorem failed_shown {e : FrameworkError} {cut : AssemblyCut}
    (cuts : materializeCut assembly policy.nodes = .ok cut)
    (seeded : validateSeedsPresent cut inputs = .ok ()) {told : List (Exchange Query Answer)}
    (quiet : ∀ e ∈ told, tableOf e.1 = none)
    (first : shown <+: cut.skipped.map (skipPresentation runId cut)) {b : Books host}
    {v : Stores (World S)} (so : Shown books w shown b v) :
    Settled host runId assembly inputs policy books w told (.error e) b v where
  policies := so.policies
  lists := so.lists
  untouched _ := ⟨so.runs, so.tables⟩
  refused asked := absurd asked (not_refused quiet)
  events := .inr ⟨cut, cuts, seeded, shown, first, so.events⟩

omit [Sha256] [Prost] in
private theorem failed_opened {e : FrameworkError} {cut : AssemblyCut}
    (cuts : materializeCut assembly policy.nodes = .ok cut)
    (seeded : validateSeedsPresent cut inputs = .ok ()) {told : List (Exchange Query Answer)}
    (refused : Refused host policy.storage runId told)
    (first : shown <+: cut.skipped.map (skipPresentation runId cut)) {b : Books host}
    {v : Stores (World S)} (so : Opened runId policy.storage books w shown b v) :
    Settled host runId assembly inputs policy books w told (.error e) b v where
  policies := so.policies
  lists := so.lists
  untouched kept := absurd refused kept
  refused _ := ⟨so.running, so.tables⟩
  events := .inr ⟨cut, cuts, seeded, shown, first, so.events⟩

omit [Sha256] [Prost] in
private theorem refused_append {plan : StoragePlan} {first second : List (Exchange Query Answer)}
    (refused : Refused host plan runId second) : Refused host plan runId (first ++ second) := by
  obtain ⟨table, needed, e, member⟩ := refused
  exact ⟨table, needed, e, List.mem_append_right _ member⟩

private theorem startShown_meets (bare : host.ctx.requestKey = "") (p : Backed host)
    {cut : AssemblyCut} (cuts : materializeCut assembly p.1.nodes = .ok cut)
    (seeded : validateSeedsPresent cut inputs = .ok ())
    {told : List (Exchange Query Answer)} (quiet : ∀ e ∈ told, tableOf e.1 = none)
    (first : shown <+: cut.skipped.map (skipPresentation runId cut)) :
    Meets (hostEnv store clock plugins refuses) (Shown books w shown)
      (do
        let run ← startRun (pipelineRequest runId cut.assembly inputs p.1)
        ensureRunStorage runId p.1.storage
        modify fun books => { books with runPolicies := books.runPolicies.insert runId p }
        return run : HostAct host Run)
      fun rest => Settled host runId assembly inputs p.1 books w (told ++ rest) := by
  refine Meets.bind (startRun_meets bare p.1.storage _) (fun run more b v so => ?_)
    fun e more b v so => failed_shown cuts seeded
      (List.forall_mem_append.mpr ⟨quiet, so.1⟩) first so.2
  have opened : Opened runId p.1.storage books w shown b v := so.2
  refine Meets.bind (T := fun rest => Settled host runId assembly inputs p.1 books w
    (told ++ (more ++ rest))) (ensureRunStorage_meets p.2) (fun _ rest => ?_) ?_ b v opened
  · refine Meets.bind (R := fun _ r b v => ∃ u, r = .ok u ∧ Started host runId p.1 b v)
      (.modify fun b v so => ?_) (fun _ _ => .pure fun b v so => ?_) fun e _ b v so => ?_
    · exact ⟨⟨⟩, rfl, so.1, ⟨p, rfl, AList.lookup_insert _⟩, so.2⟩
    · obtain ⟨-, -, started⟩ := so
      exact started
    · obtain ⟨_, failed, -⟩ := so
      cases failed
  · intro e rest b v so
    exact failed_opened cuts seeded (refused_append (refused_append so.2)) first so.1

private theorem startBacked_meets (bare : host.ctx.requestKey = "") (p : Backed host) :
    Meets (hostEnv store clock plugins refuses) (fun b v => b = books ∧ v = w)
      (startBacked runId assembly inputs p : HostAct host Run)
      (Settled host runId assembly inputs p.1 books w) := by
  unfold startBacked
  refine Meets.bind (fromFramework_meets _) (fun cut told => ?_) ?_
  case refine_2 =>
    rintro e _ b v ⟨rfl, -, rfl, rfl⟩
    exact failed_check
  refine Meets.bind (fromFramework_meets _) (fun _ told' => ?_) ?_
  case refine_2 =>
    rintro e _ b v ⟨rfl, -, rfl, -, rfl, rfl⟩
    exact failed_check
  rintro b v ⟨rfl, seeded, rfl, cuts, rfl, rfl⟩
  have shown : Shown b v [] b v := ⟨rfl, rfl, (List.append_nil _).symm, rfl, rfl⟩
  refine Meets.bind (T := Settled host runId assembly inputs p.1 b v)
    (emitSkipEvents_meets runId cut) (fun _ told => ?_) ?_ b v shown
  · rintro b' v' ⟨quiet, shown, first, so⟩
    exact startShown_meets bare p cuts.symm seeded.symm quiet first b' v' so
  · rintro e told b' v' ⟨quiet, shown, first, so⟩
    exact failed_shown cuts.symm seeded.symm quiet first so

/-- A start without a request key that fails registers nothing for its run; unless the backend has
refused a table it leaves every run and table as they were, and it shows nodes as skipped only when
the cut was accepted. One that succeeds has set up the run, its policy and its tables. -/
theorem startPipeline_settles (host : Host) (bare : host.ctx.requestKey = "")
    (store : ArtifactStorePolicy) (clock : Nat → Env) (plugins : Environment S Query Answer)
    (refuses : QualifiedTable → Stores (World S) → Option FrameworkError) (books : Books host)
    (w : Stores (World S)) (runId : String) (assembly : Assembly) (inputs : List NamedArtifact)
    (policy : FrameworkPolicy) :
    let call := start (startPipeline runId assembly inputs policy) books
    let env := hostEnv store clock plugins refuses
    Settled host runId assembly inputs policy books w (transcript env call w)
      (exec env call w).2.1 (exec env call w).2.2 (exec env call w).1 := by
  have checks : Meets (hostEnv store clock plugins refuses) (fun b v => b = books ∧ v = w)
      (startPipeline runId assembly inputs policy : HostAct host Run)
      (Settled host runId assembly inputs policy books w) := by
    have refused {e : FrameworkError} : Meets (hostEnv store clock plugins refuses)
        (fun b v => b = books ∧ v = w) (throw e : HostAct host Run)
        (Settled host runId assembly inputs policy books w) := by
      refine .throw ?_
      rintro b v ⟨rfl, rfl⟩
      exact failed_check
    unfold startPipeline
    split
    · exact refused
    · split
      · exact refused
      · unfold policyOf
        rw [bind_assoc]
        refine .read fun found => Meets.pre (P := fun b v => b = books ∧ v = w) ?_ fun b v so => so.2
        rw [pure_bind]
        split
        · exact refused
        · split
          · split
            · exact refused
            · exact startBacked_meets bare _
          · exact refused
  exact checks books w ⟨rfl, rfl⟩

end Acts

section Shapes

open Substrate.Kernel.Concrete
open Substrate.Protocol.Tables

/-- Stores of a host of two modules, in which one table is there with other columns. -/
def misshapen : Stores (World Unit) :=
  { stockedStores ["c", "d"] with
    tables := (∅ : MemoryStorage).insert "r__c__t"
      { schema := { lineSchema with columns := [.required "line" .text] }, mode := .perRun
        rows := [] } }

/-- Two nodes that hear the same line. -/
def heardTwice : Assembly :=
  { id := "pair", nodes := [⟨"m", "d", "1", "say"⟩, ⟨"n", "c", "1", "say"⟩]
    bindings := [{ toNode := "m", toPort := "heard", input := "line" },
      { toNode := "n", toPort := "heard", input := "line" }]
    terminal := some ⟨"n", "said"⟩ }

def onlyLast : FrameworkPolicy :=
  { FrameworkPolicy.converge with
    mode := .manual .open, nodes := .only ["n"], storage := { mode := .perRun } }

/-- Start a pipeline of the second node alone. -/
def startLast : HostAct (storingHost ["c", "d"]) Run :=
  startPipeline "r" heardTwice [given "line" (text "one")] onlyLast

def startedFrom (w : Stores (World Unit)) :
    Stores (World Unit) × Except FrameworkError Run × Books (storingHost ["c", "d"]) :=
  exec memoryEnv (start startLast {}) w

private theorem Settled.started {policy : FrameworkPolicy} {runId : String} {assembly : Assembly}
    {inputs : List NamedArtifact} {books books' : Books host} {w w' : Stores (World S)}
    {told : List (Exchange Query Answer)} {r : Except FrameworkError Run}
    (settled : Settled host runId assembly inputs policy books w told r books' w')
    (accepted : Except.isOk r = true) : Started host runId policy books' w' := by
  cases r with
  | ok run => exact settled
  | error e => cases accepted

/-- With room for both tables the pipeline is set up. -/
theorem startLast_sets_up :
    Started (storingHost ["c", "d"]) "r" onlyLast (startedFrom (stockedStores ["c", "d"])).2.2
      (startedFrom (stockedStores ["c", "d"])).1 := by
  have accepted : Except.isOk (startedFrom (stockedStores ["c", "d"])).2.1 = true := by
    decide +kernel
  have bare : (storingHost ["c", "d"]).ctx.requestKey = "" := rfl
  have settled (w : Stores (World Unit)) := startPipeline_settles (storingHost ["c", "d"]) bare
    policy (fun _ => envAt 0) scribe (fun _ _ => none) {} w "r" heardTwice
    [given "line" (text "one")] onlyLast
  simp only [hostEnv, refusing_none] at settled
  have started (w : Stores (World Unit)) (accepted : Except.isOk (startedFrom w).2.1 = true) :
      Started (storingHost ["c", "d"]) "r" onlyLast (startedFrom w).2.2 (startedFrom w).1 :=
    Settled.started (settled w) accepted
  exact started (stockedStores ["c", "d"]) accepted

/-- The state of the run `r`. -/
def stateOf (w : Stores (World Unit)) : Option RunState :=
  (w.rest.kernel.runs.lookup "r").map (·.run.state)

/-- A start that fails at the second table leaves its run RUNNING, its first table and the event of
the skipped node. -/
theorem mismatch_leaves_run :
    Except.isOk (startedFrom misshapen).2.1 = false ∧
      stateOf misshapen = none ∧ stateOf (startedFrom misshapen).1 = some .running ∧
      "r__d__t" ∉ misshapen.tables ∧ "r__d__t" ∈ (startedFrom misshapen).1.tables ∧
      (startedFrom misshapen).2.2.stepEvents.map (·.stage) = [.skipped] := by
  decide +kernel

end Shapes

end Substrate.Protocol.Starting
