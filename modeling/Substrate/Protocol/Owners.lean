/- ID: Substrate/Protocol/Owners
   digest: Which run has written each row of a shared table, and what a replacement leaves of them. -/

import Substrate.Kernel.Concrete
import Substrate.Framework.Drive
import Substrate.Framework.InProcess
import Substrate.Protocol.Rows

set_option autoImplicit false
set_option relaxedAutoImplicit false

namespace Substrate.Protocol.Owners

open Substrate.Kernel.Wire
open Substrate.Framework.Steps
open Substrate.Framework.Storage
open Substrate.Framework.Storage.MemoryStorage (ofRun sameKey)
open Substrate.Framework.Policy
open Substrate.Framework.Calls
open Substrate.Framework.Drive
open Substrate.Framework.InProcess
open Substrate.Protocol.Rows
open Substrate.Library.FiniteMap
open Substrate.Library.Upsert
open Substrate.Library.Resumption
open Substrate.Library.Resumption.Act
open Substrate.Library.Resumption.Prog (Environment exec transcript exec_follows runs_exec)

/-- A row and the run that has written it. -/
abbrev Owned := String × StoreRow

/-- The rows of a write. -/
def ofWrite (w : Write) : List Owned := w.rows.map fun row => (w.runId, row)

/-- What a write leaves of a shared table. -/
def leavesOwned (w : Write) (old : List Owned) : List Owned :=
  match w.mode with
  | .append => old ++ ofWrite w
  | .replace => old.filter (fun e => !ofRun w.runId e.2) ++ ofWrite w
  | .upsert =>
      if w.primaryKey = [] then old
      else putAllBy (fun stored e => sameKey w.primaryKey stored.2 e.2) (ofWrite w) old

/-- The rows of a shared table after a sequence of writes, when it began empty. -/
def owned (name : String) (history : List Write) : List Owned :=
  history.foldl (fun old w => if name = w.table then leavesOwned w old else old) []

theorem owned_snoc (name : String) (history : List Write) (w : Write) :
    owned name (history ++ [w]) =
      if name = w.table then leavesOwned w (owned name history) else owned name history := by
  simp [owned]

private theorem ofWrite_rows (w : Write) : (ofWrite w).map Prod.snd = w.rows := by
  simp [ofWrite]

private theorem leavesOwned_rows (w : Write) (old : List Owned) :
    (leavesOwned w old).map Prod.snd = w.leaves .shared (old.map Prod.snd) := by
  unfold leavesOwned Write.leaves
  cases w.mode with
  | append => rw [List.map_append, ofWrite_rows]
  | replace =>
      rw [List.map_append, ofWrite_rows]
      refine congrArg (· ++ w.rows) ?_
      rw [List.filter_map]
      rfl
  | upsert =>
      dsimp only
      split_ifs
      · rfl
      · rw [upserted_putAllBy, map_putAllBy Prod.snd, ofWrite_rows]

theorem rowsOf_owned {name : String} {tables : MemoryStorage} {t : MemTable}
    (found : tables.lookup name = some t) (shared : t.mode = .shared) (empty : t.rows = [])
    (history : List Write) :
    rowsOf name (written history tables) = (owned name history).map Prod.snd := by
  induction history using List.reverseRecOn with
  | nil => simp [written, rowsOf, found, empty, owned]
  | append_singleton history w ih =>
      rw [rowsOf_snoc found, owned_snoc, ih, shared]
      split_ifs
      · exact (leavesOwned_rows w _).symm
      · rfl

private theorem mem_leavesOwned {w : Write} {old : List Owned} {e : Owned}
    (member : e ∈ leavesOwned w old) : e ∈ old ∨ e ∈ ofWrite w := by
  unfold leavesOwned at member
  cases same : w.mode with
  | append =>
      rw [same] at member
      exact List.mem_append.mp member
  | replace =>
      rw [same] at member
      exact (List.mem_append.mp member).imp_left fun kept => (List.mem_filter.mp kept).1
  | upsert =>
      rw [same] at member
      dsimp only at member
      split_ifs at member
      · exact .inl member
      · exact mem_putAllBy member

private theorem mem_owned {name : String} {history : List Write} {e : Owned}
    (member : e ∈ owned name history) : ∃ w ∈ history, name = w.table ∧ e ∈ ofWrite w := by
  induction history using List.reverseRecOn with
  | nil => cases member
  | append_singleton history w ih =>
      rw [owned_snoc] at member
      have earlier (stored : e ∈ owned name history) :
          ∃ w' ∈ history ++ [w], name = w'.table ∧ e ∈ ofWrite w' := by
        obtain ⟨w', before, about, among⟩ := ih stored
        exact ⟨w', List.mem_append_left _ before, about, among⟩
      split_ifs at member with mine
      · rcases mem_leavesOwned member with stored | new
        · exact earlier stored
        · exact ⟨w, by simp, mine, new⟩
      · exact earlier member

/-- A row whose own cells tell whether a run has written it. -/
def Tells (runId : String) (e : Owned) : Prop := ofRun runId e.2 = true ↔ e.1 = runId

variable {name runId : String}

private theorem replaced_rows {w : Write} (mode : w.mode = .replace) {old : List Owned}
    (tell : ∀ e ∈ old, Tells w.runId e) :
    (leavesOwned w old).filter (·.1 ≠ w.runId) = old.filter (·.1 ≠ w.runId) ∧
      (leavesOwned w old).filter (·.1 = w.runId) = ofWrite w := by
  have mine : ∀ e ∈ ofWrite w, e.1 = w.runId := by
    intro e member
    obtain ⟨row, -, rfl⟩ := List.mem_map.mp member
    rfl
  have kept : old.filter (fun e => !ofRun w.runId e.2) = old.filter (·.1 ≠ w.runId) := by
    refine List.filter_congr fun e member => ?_
    rw [Bool.eq_iff_iff, Bool.not_eq_true', ← Bool.not_eq_true, decide_eq_true_iff]
    exact not_congr (tell e member)
  have none : (ofWrite w).filter (·.1 ≠ w.runId) = [] :=
    List.filter_eq_nil_iff.mpr fun e member => by simp [mine e member]
  have all : (ofWrite w).filter (·.1 = w.runId) = ofWrite w :=
    List.filter_eq_self.mpr fun e member => by simp [mine e member]
  have rest : (old.filter (·.1 ≠ w.runId)).filter (·.1 = w.runId) = [] :=
    List.filter_eq_nil_iff.mpr fun e member => by simpa using (List.mem_filter.mp member).2
  unfold leavesOwned
  rw [mode]
  dsimp only
  rw [kept, List.filter_append, List.filter_append, none, all, rest, List.filter_filter]
  simp

private theorem replace_twice {w : Write} (mode : w.mode = .replace)
    (own : ∀ row ∈ w.rows, ofRun w.runId row = true) (old : List StoreRow) :
    w.leaves .shared (w.leaves .shared old) = w.leaves .shared old := by
  have gone : w.rows.filter (!ofRun w.runId ·) = [] :=
    List.filter_eq_nil_iff.mpr fun row member => by simp [own row member]
  unfold Write.leaves
  rw [mode]
  dsimp only
  rw [List.filter_append, List.filter_filter, gone, List.append_nil]
  simp only [Bool.and_self]

section Applications

variable {host : Host} {S : Type} {outside : Environment S Query Answer}

/-- The write that the backend is asked for, if it is asked for one. -/
def writeOf : Exchange Query Answer → Option Write
  | ⟨.writeRows table mode rows primaryKey runId, _⟩ =>
      some { table, mode, rows, primaryKey, runId }
  | _ => none

def writesOf (told : List (Exchange Query Answer)) : List Write := told.filterMap writeOf

theorem writesOf_append (told rest : List (Exchange Query Answer)) :
    writesOf (told ++ rest) = writesOf told ++ writesOf rest :=
  List.filterMap_append

theorem written_append (before after : List Write) (tables : MemoryStorage) :
    written (before ++ after) tables = written after (written before tables) :=
  List.foldl_append

theorem written_agree {tables tables' : MemoryStorage} {t : MemTable}
    (found : tables.lookup name = some t) (found' : tables'.lookup name = some t)
    (history : List Write) :
    (written history tables).lookup name = (written history tables').lookup name := by
  induction history using List.reverseRecOn with
  | nil => exact found.trans found'.symm
  | append_singleton history w ih =>
      have before := written_lookup found history
      rw [written_snoc, written_snoc, Write.apply_lookup w before,
        Write.apply_lookup w (ih.symm.trans before)]

theorem exec_written {α : Type} {s : Stores S} {t : MemTable}
    (found : s.tables.lookup name = some t) (x : Prog Query Answer α)
    (keeps : ∀ e ∈ transcript (inMemory outside) x s, ∀ table, e.1 ≠ .dropTable table) :
    (exec (inMemory outside) x s).1.tables.lookup name =
      (written (writesOf (transcript (inMemory outside) x s)) s.tables).lookup name := by
  refine exec_follows (inMemory outside) (E := fun e => ∀ table, e.1 ≠ .dropTable table)
    (T := fun told (w : Stores S) =>
      w.tables.lookup name = (written (writesOf told) s.tables).lookup name) ?_ x s keeps [] rfl
  intro told q w kept same
  have there := same.trans (written_lookup found (writesOf told))
  rw [writesOf_append]
  cases q with
  | writeRows table mode rows primaryKey runId =>
      rw [show writesOf [⟨.writeRows table mode rows primaryKey runId,
        (inMemory outside (.writeRows table mode rows primaryKey runId) w).2⟩] =
          [⟨table, mode, rows, primaryKey, runId⟩] from rfl, written_snoc,
        Write.apply_lookup _ (same.symm.trans there)]
      exact Write.apply_lookup ⟨table, mode, rows, primaryKey, runId⟩ there
  | ensureTable table =>
      refine .trans ?_ (same.trans (congrArg (fun l => (written l s.tables).lookup name)
        (List.append_nil _).symm))
      show (w.tables.ensureTable table).1.lookup name = _
      unfold MemoryStorage.ensureTable
      split
      · split <;> rfl
      · rename_i absent
        rw [lookup_insert_of, if_neg]
        rintro rfl
        exact nomatch absent.symm.trans there
  | dropTable table => exact absurd rfl (kept table)
  | _ => exact same.trans (congrArg (fun l => (written l s.tables).lookup name)
      (List.append_nil _).symm)

/-- The write that the backend is asked for when a plugin has returned one. -/
def storedWrite (plan : StoragePlan) (runId module : String) (schema : TableSchema)
    (step : StepContext) (write : StoreWrite) : Write :=
  { table := (qualifyTable plan.mode runId module schema).physicalName
    mode := write.mode.getD schema.writeMode
    rows := write.rows.map (injectIdentity runId step.work.id step.work.nodeId module)
    primaryKey := schema.primaryKey, runId }

/-- Nothing is dropped, and what is written is as `W` says. -/
def Writing (W : Write → Prop) (e : Exchange Query Answer) : Prop :=
  (∀ table, e.1 ≠ .dropTable table) ∧ ∀ w, writeOf e = some w → W w

/-- An act that keeps to such exchanges. -/
abbrev Writes {α : Type} (W : Write → Prop) (x : HostAct host α) : Prop :=
  Keeps (fun _ => True) (Writing W) x

variable {W : Write → Prop}

private theorem fromFramework_writes {α : Type} (r : Except FrameworkError α) :
    Writes W (fromFramework r : HostAct host α) := by
  cases r with
  | error e => exact .throw e
  | ok a => exact .pure a

private theorem requireStorage_writes (reason : String) :
    Writes W (requireStorage reason : HostAct host Unit) := by
  unfold requireStorage
  split
  · exact .pure _
  · exact .throw _

private theorem writeStore_writes (plan : StoragePlan) (runId module : String)
    (schema : TableSchema) (step : StepContext) (write : Option StoreWrite) :
    Writes (fun w => ∃ given, write = some given ∧
        w = storedWrite plan runId module schema step given)
      (writeStore plan runId module schema step write : HostAct host Unit) := by
  cases write with
  | none => exact .pure _
  | some given =>
      rw [writeStore]
      split
      · exact .pure _
      · refine (requireStorage_writes _).bind fun _ => Keeps.bind (.ask fun answer => ?_) fun _ =>
          fromFramework_writes _
        exact ⟨fun _ => nofun, fun w same => ⟨given, rfl, (Option.some.inj same).symm⟩⟩

private theorem writeStepLog_writes (plan : StoragePlan) (runId module : String)
    (step : StepContext) (result : StepResult) :
    Writes (fun w => w.runId = runId ∧ w.rows = [stepLogRow runId module step result])
      (writeStepLog plan runId module step result : HostAct host Unit) := by
  unfold writeStepLog
  split
  · exact .pure _
  · refine (requireStorage_writes _).bind fun _ => ?_
    refine (Keeps.bind (.ask fun answer => ⟨fun _ => nofun, fun _ => nofun⟩) fun _ =>
      fromFramework_writes _).bind fun _ => ?_
    refine Keeps.bind (.ask fun answer => ⟨fun _ => nofun, fun w same => ?_⟩) fun _ =>
      fromFramework_writes _
    obtain rfl := Option.some.inj same
    exact ⟨rfl, rfl⟩

/-- A call of `apply_step_storage`, and the host's books at that moment. -/
structure Application (host : Host) where
  books : Books host
  runId : String
  module : String
  step : StepContext
  result : StepResult

namespace Application

def program (a : Application host) : Prog Query Answer (Except FrameworkError Unit × Books host) :=
  start (applyStepStorage a.runId a.module a.step a.result) a.books

/-- A write that the plugin has returned for a table. -/
def Returned (a : Application host) (told : List (Exchange Query Answer)) (name : String)
    (write : StoreWrite) : Prop :=
  ∃ policy schema, a.books.runPolicies.lookup a.runId = some policy ∧
    host.storageSchemas.lookup a.module = some schema ∧
    (qualifyTable policy.1.storage.mode a.runId a.module schema).physicalName = name ∧
    (⟨.onStore a.module a.step a.result, some write⟩ : Exchange Query Answer) ∈ told

/-- The write of returned rows, or that of the step log. -/
def Own (a : Application host) (told : List (Exchange Query Answer)) (w : Write) : Prop :=
  w.runId = a.runId ∧
    ((∃ write, a.Returned told w.table write ∧ w.rows = write.rows.map
      (injectIdentity a.runId a.step.work.id a.step.work.nodeId a.module)) ∨
    w.rows = [stepLogRow a.runId a.module a.step a.result])

private theorem writeModuleRows_own {a : Application host} {policy : Backed host}
    (known : a.books.runPolicies.lookup a.runId = some policy) :
    Upholds (fun told _ => ∀ e ∈ told, Writing (a.Own told) e)
      (writeModuleRows policy.1.storage a.runId a.module a.step a.result : HostAct host Unit) := by
  unfold writeModuleRows
  split
  · exact .pure fun _ member => absurd member List.not_mem_nil
  · cases declared : host.storageSchemas.lookup a.module with
    | none => exact .pure fun _ member => absurd member List.not_mem_nil
    | some schema =>
        have plugin : Upholds (fun told _ => told = [])
            (requirePlugin a.module : HostAct host Unit) := by
          unfold requirePlugin
          split
          · exact .pure rfl
          · exact .throw rfl
        refine Upholds.bind plugin (R := fun _ told _ => ∀ e ∈ told, Writing (a.Own told) e)
          (fun _ _ _ => Upholds.asked fun write => ?_) ?_ ?_
        · intro s told r t run e member
          rcases List.mem_cons.mp member with rfl | later
          · exact ⟨fun _ => nofun, fun _ => nofun⟩
          · obtain ⟨quiet, writes⟩ :=
              (writeStore_writes _ _ _ _ _ _ s told r t trivial run).1 e later
            refine ⟨quiet, fun w same => ?_⟩
            obtain ⟨given, rfl, rfl⟩ := writes w same
            exact ⟨rfl, .inl ⟨given, ⟨policy, schema, known, declared, rfl, List.mem_cons_self⟩, rfl⟩⟩
        · rintro _ _ rfl
          exact fun _ member => absurd member List.not_mem_nil
        · rintro _ _ rest r rfl held
          exact held

private theorem rows_then_log {a : Application host} {policy : Backed host}
    (known : a.books.runPolicies.lookup a.runId = some policy) :
    Upholds (fun told _ => ∀ e ∈ told, Writing (a.Own told) e) (do
      writeModuleRows policy.1.storage a.runId a.module a.step a.result
      writeStepLog policy.1.storage a.runId a.module a.step a.result : HostAct host Unit) := by
  refine Upholds.bind (R := fun _ told _ => ∀ e ∈ told, Writing
      (fun w => w.runId = a.runId ∧ w.rows = [stepLogRow a.runId a.module a.step a.result]) e)
    (writeModuleRows_own known) (fun _ _ _ s told r t run =>
      (writeStepLog_writes _ _ _ _ _ s told r t trivial run).1) (fun _ _ held => held) ?_
  intro _ told rest r first second e member
  rcases List.mem_append.mp member with before | after
  · obtain ⟨kept, writes⟩ := first e before
    refine ⟨kept, fun w same => ?_⟩
    obtain ⟨mine, ⟨write, ⟨p, schema, has, declared, named, returned⟩, rows⟩ | log⟩ := writes w same
    · exact ⟨mine, .inl ⟨write, ⟨p, schema, has, declared, named,
        List.mem_append_left _ returned⟩, rows⟩⟩
    · exact ⟨mine, .inr log⟩
  · obtain ⟨kept, writes⟩ := second e after
    exact ⟨kept, fun w same => ⟨(writes w same).1, .inr (writes w same).2⟩⟩

theorem program_own (a : Application host) {told : List (Exchange Query Answer)}
    {result : Except FrameworkError Unit × Books host} (run : Prog.Runs a.program told result) :
    ∀ e ∈ told, Writing (a.Own told) e := by
  have quiet {told : List (Exchange Query Answer)} (none : told = []) :
      ∀ e ∈ told, Writing (a.Own told) e := by
    subst none
    exact fun _ member => absurd member List.not_mem_nil
  unfold program applyStepStorage at run
  rw [start_bind] at run
  change Prog.Runs (start _ a.books) told result at run
  cases known : a.books.runPolicies.lookup a.runId with
  | none =>
      rw [known] at run
      exact quiet (Prog.runs_done.mp run).1
  | some policy =>
      rw [known] at run
      dsimp only at run
      split at run
      · exact quiet (Prog.runs_done.mp run).1
      · exact rows_then_log known a.books told result.1 result.2 run

end Application

/-- The stores after a sequence of steps. -/
def applied (env : Environment (Stores S) Query Answer) : List (Application host) → Stores S → Stores S
  | [], s => s
  | a :: rest, s => applied env rest (exec env a.program s).1

/-- What the steps write. -/
def allWrites (env : Environment (Stores S) Query Answer) :
    List (Application host) → Stores S → List Write
  | [], _ => []
  | a :: rest, s =>
      writesOf (transcript env a.program s) ++ allWrites env rest (exec env a.program s).1

/-- A returned row that leaves it to the host to say which run it is of, or says whether that is
`runId` as it is. -/
def Honest (runId writer : String) (row : StoreRow) : Prop :=
  if writer = runId then row.get? "_run_id" = none ∨ row.get? "_run_id" = some (.text runId)
  else row.get? "_run_id" ≠ some (.text runId)

/-- Steps whose plugins return only such rows for a table. -/
def HonestSteps (env : Environment (Stores S) Query Answer) (runId name : String) :
    List (Application host) → Stores S → Prop
  | [], _ => True
  | a :: rest, s =>
      (∀ write, a.Returned (transcript env a.program s) name write →
        ∀ row ∈ write.rows, Honest runId a.runId row) ∧
      HonestSteps env runId name rest (exec env a.program s).1

theorem injected_runId (runId workId nodeId module : String) (row : StoreRow) :
    (injectIdentity runId workId nodeId module row).get? "_run_id" =
      some ((row.get? "_run_id").getD (.text runId)) := by
  simp [injectIdentity, OrderedMap.get?_orInsert]

private theorem ofRun_injected {writer workId nodeId module : String} {row : StoreRow}
    (honest : Honest runId writer row) :
    ofRun runId (injectIdentity writer workId nodeId module row) = true ↔ writer = runId := by
  unfold ofRun
  rw [injected_runId]
  unfold Honest at honest
  cases said : row.get? "_run_id" with
  | none => exact beq_iff_eq
  | some v =>
      rw [said] at honest
      split_ifs at honest with mine
      · rcases honest with none | own
        · cases none
        · obtain rfl := Option.some.inj own
          exact ⟨fun _ => mine, fun _ => beq_self_eq_true runId⟩
      · refine ⟨fun told => absurd ?_ honest, fun same => absurd same mine⟩
        cases v with
        | text id => rw [beq_iff_eq.mp (show (id == runId) = true from told)]
        | _ => cases told

private theorem ofRun_stepLog {writer module : String} {step : StepContext} {result : StepResult} :
    ofRun runId (stepLogRow writer module step result) = true ↔ writer = runId := by
  unfold stepLogRow
  set columns : List (String × StoreValue) :=
    [("run_id", .text writer), ("work_id", .text step.work.id), ("node_id", .text step.work.nodeId),
      ("module", .text module), ("capability", .text step.work.capability),
      ("ok", .boolean result.ok)] ++
    result.error.toList.map (fun err => ("error", .text err)) ++
    [("output_ports", .json (.array (result.outputs.map fun o => .string o.name)))] with named
  have names : ∀ column ∈ columns, column.1 ≠ "_run_id" ∧
      (column.1 = "run_id" → column.2 = .text writer) := by
    intro column member
    rcases List.mem_append.mp member with member | last
    · rcases List.mem_append.mp member with first | error
      · simp only [List.mem_cons, List.not_mem_nil, or_false] at first
        rcases first with rfl | rfl | rfl | rfl | rfl | rfl <;> simp
      · obtain ⟨err, -, rfl⟩ := List.mem_map.mp error
        simp
    · obtain rfl := List.mem_singleton.mp last
      simp
  have absent := @OrderedMap.get?_foldl_insert_of_ne _ _ _ _ _ _ Prod.snd _ _
    (fun column member => (names column member).1) (.empty : StoreRow)
  have there := OrderedMap.get?_foldl_insert (fun column member => (names column member).2)
    ⟨("run_id", .text writer), by simp [named], rfl⟩ (.empty : StoreRow)
  unfold ofRun
  rw [absent, there]
  exact beq_iff_eq

theorem applied_lookup (apps : List (Application host)) {s : Stores S} {t : MemTable}
    (found : s.tables.lookup name = some t) :
    (applied (inMemory outside) apps s).tables.lookup name =
      (written (allWrites (inMemory outside) apps s) s.tables).lookup name := by
  induction apps generalizing s t with
  | nil => rfl
  | cons a rest ih =>
      have own := a.program_own (runs_exec (inMemory outside) a.program s)
      have first := exec_written found a.program fun e member => (own e member).1
      have there := written_lookup found (writesOf (transcript (inMemory outside) a.program s))
      rw [applied, ih (first.trans there), allWrites, written_append]
      exact written_agree (first.trans there) there _

theorem honest_tell {apps : List (Application host)} {s : Stores S}
    (honest : HonestSteps (inMemory outside) runId name apps s) :
    ∀ w ∈ allWrites (inMemory outside) apps s, name = w.table → ∀ e ∈ ofWrite w, Tells runId e := by
  induction apps generalizing s with
  | nil => exact fun _ member => absurd member List.not_mem_nil
  | cons a rest ih =>
      obtain ⟨first, later⟩ := honest
      intro w member about e among
      rcases List.mem_append.mp member with mine | after
      · obtain ⟨exchange, told, same⟩ := List.mem_filterMap.mp mine
        have own := a.program_own (runs_exec (inMemory outside) a.program s) exchange told
        obtain ⟨writer, origin⟩ := own.2 w same
        obtain ⟨row, written, rfl⟩ := List.mem_map.mp among
        unfold Tells
        rw [writer]
        rcases origin with ⟨write, returned, rows⟩ | rows
        · rw [rows] at written
          obtain ⟨plain, given, rfl⟩ := List.mem_map.mp written
          exact ofRun_injected (first write (about ▸ returned) plain given)
        · rw [rows] at written
          rw [List.mem_singleton.mp written]
          exact ofRun_stepLog
      · exact ih later w after about e among

/-- What a plugin has returned in a step of a run, to be written as `apply_step_storage` does. -/
structure Returning (host : Host) where
  books : Books host
  plan : StoragePlan
  runId : String
  module : String
  schema : TableSchema
  step : StepContext
  write : StoreWrite

namespace Returning

def program (r : Returning host) : Prog Query Answer (Except FrameworkError Unit × Books host) :=
  start (writeStore r.plan r.runId r.module r.schema r.step (some r.write)) r.books

def stored (r : Returning host) : Write :=
  storedWrite r.plan r.runId r.module r.schema r.step r.write

/-- A non-empty write in Replace mode. -/
structure IsReplace (r : Returning host) : Prop where
  some : r.write.rows ≠ []
  mode : r.write.mode.getD r.schema.writeMode = .replace

private theorem program_eq (backed : host.storage = true) {r : Returning host}
    (some : r.write.rows ≠ []) :
    r.program = .ask (.writeRows r.stored.table r.stored.mode r.stored.rows r.stored.primaryKey
      r.stored.runId) fun answer => start (fromFramework answer : HostAct host Unit) r.books := by
  unfold program writeStore
  dsimp only
  rw [if_neg some, requireStorage, if_pos backed]
  rfl

private theorem program_writes (backed : host.storage = true) {r : Returning host}
    (some : r.write.rows ≠ []) (s : Stores S) :
    writesOf (transcript (inMemory outside) r.program s) = [r.stored] ∧
      (exec (inMemory outside) r.program s).1.tables = r.stored.apply s.tables := by
  have ends (answer : Except FrameworkError Unit) (t : Stores S) :
      transcript (inMemory outside) (start (fromFramework answer : HostAct host Unit) r.books) t = [] ∧
        (exec (inMemory outside) (start (fromFramework answer : HostAct host Unit) r.books) t).1 =
          t := by
    cases answer <;> exact ⟨rfl, rfl⟩
  rw [program_eq backed some, transcript, exec, (ends _ _).1, (ends _ _).2]
  exact ⟨rfl, rfl⟩

end Returning

/-- Whatever runs have written the rows of a shared table, a replacement leaves the rows of other runs
as they are, makes the new rows those of its run, and once more changes nothing. -/
structure TouchesOwn (outside : Environment S Query Answer) (apps : List (Application host))
    (s : Stores S) (r : Returning host) : Prop where
  before : rowsOf r.stored.table (applied (inMemory outside) apps s).tables =
    (owned r.stored.table (allWrites (inMemory outside) apps s)).map Prod.snd
  after : rowsOf r.stored.table (exec (inMemory outside) r.program
      (applied (inMemory outside) apps s)).1.tables =
    (owned r.stored.table (allWrites (inMemory outside) apps s ++ [r.stored])).map Prod.snd
  others : (owned r.stored.table (allWrites (inMemory outside) apps s ++ [r.stored])).filter
      (·.1 ≠ r.runId) =
    (owned r.stored.table (allWrites (inMemory outside) apps s)).filter (·.1 ≠ r.runId)
  own : (owned r.stored.table (allWrites (inMemory outside) apps s ++ [r.stored])).filter
      (·.1 = r.runId) = r.stored.rows.map fun row => (r.runId, row)
  twice : (exec (inMemory outside) r.program (exec (inMemory outside) r.program
      (applied (inMemory outside) apps s)).1).1.tables =
    (exec (inMemory outside) r.program (applied (inMemory outside) apps s)).1.tables

/-- In a shared table whose plugins leave it to the host to name their runs, or name them as they
are, a replacement touches the rows of its own run only. -/
theorem replace_touches_own {apps : List (Application host)} {s : Stores S} {r : Returning host}
    {t : MemTable} (found : s.tables.lookup r.stored.table = some t) (shared : t.mode = .shared)
    (empty : t.rows = []) (backed : host.storage = true) (replace : r.IsReplace)
    (honest : HonestSteps (inMemory outside) r.runId r.stored.table apps s)
    (own : ∀ row ∈ r.write.rows, Honest r.runId r.runId row) : TouchesOwn outside apps s r := by
  have tell : ∀ e ∈ owned r.stored.table (allWrites (inMemory outside) apps s),
      Tells r.stored.runId e := by
    intro e member
    obtain ⟨w, wrote, about, among⟩ := mem_owned member
    exact honest_tell honest w wrote about e among
  have mine : ∀ row ∈ r.stored.rows, ofRun r.stored.runId row = true := by
    intro row member
    obtain ⟨plain, given, rfl⟩ := List.mem_map.mp member
    exact (ofRun_injected (own plain given)).mpr rfl
  have prior : (applied (inMemory outside) apps s).tables.lookup r.stored.table = _ :=
    applied_lookup apps found
  have there := prior.trans (written_lookup found _)
  obtain ⟨kept, placed⟩ := replaced_rows replace.mode tell
  have next : owned r.stored.table (allWrites (inMemory outside) apps s ++ [r.stored]) =
      leavesOwned r.stored (owned r.stored.table (allWrites (inMemory outside) apps s)) := by
    rw [owned_snoc, if_pos rfl]
  have once := Write.apply_lookup r.stored there
  rw [if_pos rfl] at once
  refine ⟨?_, ?_, ?_, ?_, ?_⟩
  · rw [← rowsOf_owned found shared empty, rowsOf, prior, rowsOf]
  · rw [(Returning.program_writes backed replace.some _).2, rowsOf, once, next, leavesOwned_rows,
      ← rowsOf_owned found shared empty, ← shared]
    rfl
  · rw [next]
    exact kept
  · rw [next]
    exact placed
  · rw [(Returning.program_writes backed replace.some _).2, (Returning.program_writes backed replace.some _).2]
    refine Write.apply_self once ?_
    simp only [shared]
    exact replace_twice replace.mode mine _

end Applications

def lineTable : TableSchema := { name := "t", columns := [], primaryKey := [], writeMode := .append }

/-- A host whose one module has a table. -/
def tableHost : Host :=
  { plugins := ["m"], ctx := {}, uiPersist := .localOnly, storage := true, memo := false
    storageSchemas := (∅ : KeyMap String TableSchema).insert "m" lineTable }

/-- A plugin that appends the same row at every step. -/
def storing (row : StoreRow) : Environment Unit Query Answer
  | .onStore _ _ _, _ => ((), some { mode := some .append, rows := [row] })
  | query, s => plainPlugins (fun _ => .error (.invalid "")) query s

def sharedPlan : StoragePlan := { mode := .shared }

def tableBooks (runId : String) : Books tableHost :=
  { runPolicies := (∅ : KeyMap String (Backed tableHost)).insert runId
      ⟨{ FrameworkPolicy.converge with storage := sharedPlan }, fun _ => rfl⟩ }

def stepOf (runId : String) : StepContext :=
  { runId, inputs := ∅, progressBuf := []
    work :=
      { id := "work", runId, nodeId := "n", module := "m", moduleVersion := "1", capability := "c"
        inputs := [], unitKey := "", attempt := 1, leaseUntilUnixMs := 0 } }

/-- The plugin's step in a run. -/
def stepIn (runId : String) : Application tableHost :=
  { books := tableBooks runId, runId, module := "m", step := stepOf runId
    result := { ok := true, outputs := [], error := none } }

/-- A replacement by one empty row. -/
def replacing (runId : String) : Returning tableHost :=
  { books := tableBooks runId, plan := sharedPlan, runId, module := "m", schema := lineTable
    step := stepOf runId, write := { mode := some .replace, rows := [.empty] } }

def emptyStores : Stores Unit :=
  { tables := (∅ : MemoryStorage).insert "m__t"
      { schema := withIdentityColumns lineTable, mode := .shared, rows := [] }
    memo := ∅, rest := () }

/-- A plugin's answer without a row that names its run. -/
def Unnamed : Exchange Query Answer → Prop
  | ⟨.onStore _ _ _, (answer : Option StoreWrite)⟩ =>
      ∀ write, answer = some write → ∀ row ∈ write.rows, row.get? "_run_id" = none
  | _ => True

private theorem unnamed_honest (apps : List (Application tableHost)) (s : Stores Unit) :
    HonestSteps (inMemory (storing .empty)) "r" "m__t" apps s := by
  induction apps generalizing s with
  | nil => trivial
  | cons a rest ih =>
      refine ⟨fun write returned row member => ?_, ih _⟩
      obtain ⟨_, _, _, _, _, told⟩ := returned
      have unnamed : ∀ q s, Unnamed ⟨q, (inMemory (storing .empty) q s).2⟩ := by
        intro q s
        cases q with
        | onStore module step result =>
            rintro _ ⟨⟩ row member
            rw [List.mem_singleton.mp member]
            rfl
        | _ => trivial
      have none := Prog.transcript_all _ unnamed a.program s _ told write rfl row member
      unfold Honest
      split_ifs
      · exact .inl none
      · rw [none]
        rintro ⟨⟩

/-- The row of one run stays when another run replaces its own. -/
theorem silent_row_kept :
    TouchesOwn (storing .empty) [stepIn "q", stepIn "r"] emptyStores (replacing "r") := by
  refine replace_touches_own (t := ⟨withIdentityColumns lineTable, .shared, []⟩) rfl rfl rfl rfl
    ⟨List.cons_ne_nil _ _, rfl⟩ (unnamed_honest _ _) fun row member => ?_
  rw [List.mem_singleton.mp member]
  exact .inl rfl

/-- A plugin that names run `r` in every row. -/
def forger : Environment Unit Query Answer := storing (OrderedMap.empty.insert "_run_id" (.text "r"))

/-- A row that a plugin has written in run `q` with the name of run `r` goes when `r` replaces its
own rows. -/
theorem forged_deleted :
    (owned "m__t" (allWrites (inMemory forger) [stepIn "q"] emptyStores)).map (·.1) = ["q"] ∧
    (owned "m__t" (allWrites (inMemory forger) [stepIn "q"] emptyStores ++
      [(replacing "r").stored])).map (·.1) = ["r"] ∧
    ¬ TouchesOwn forger [stepIn "q"] emptyStores (replacing "r") := by
  refine ⟨by decide +kernel, by decide +kernel, fun touches => ?_⟩
  have before : ((owned "m__t" (allWrites (inMemory forger) [stepIn "q"] emptyStores)).filter
      (·.1 ≠ "r")).length = 1 := by decide +kernel
  have after : ((owned "m__t" (allWrites (inMemory forger) [stepIn "q"] emptyStores ++
      [(replacing "r").stored])).filter (·.1 ≠ "r")).length = 0 := by decide +kernel
  exact absurd ((congrArg List.length touches.others).symm.trans after)
    (ne_of_eq_of_ne before Nat.one_ne_zero)

end Substrate.Protocol.Owners
