/- ID: Substrate/Protocol/Tables
   digest: Runs keep to their own physical tables unless two names are one text cut in two ways. -/

import Substrate.Library.Joining
import Substrate.Kernel.Concrete
import Substrate.Framework.InProcess
import Substrate.Protocol.Asking

set_option autoImplicit false
set_option relaxedAutoImplicit false

namespace Substrate.Protocol.Tables

open Substrate.Kernel.Wire
open Substrate.Kernel.Hashing
open Substrate.Framework.Steps
open Substrate.Framework.Storage
open Substrate.Framework.Policy
open Substrate.Framework.Calls
open Substrate.Framework.Drive
open Substrate.Framework.InProcess
open Substrate.Framework.Sessions
open Substrate.Protocol.Asking
open Substrate.Library.Joining
open Substrate.Library.FiniteMap
open Substrate.Library.Resumption
open Substrate.Library.Resumption.Act
open Substrate.Library.Resumption.Prog (Environment exec exec_keeps runs_exec)

/-- What a qualified table is made for: a module's schema or the step log, under a mode and a run. -/
inductive Origin
  | table (mode : StorageMode) (runId module : String) (schema : TableSchema)
  | stepLog (mode : StorageMode) (runId : String)

namespace Origin

def runId : Origin → String
  | table _ runId _ _ => runId
  | stepLog _ runId => runId

def qualified : Origin → QualifiedTable
  | table mode runId module schema => qualifyTable mode runId module schema
  | stepLog mode runId => stepLogQualified mode runId

def name (o : Origin) : String := o.qualified.physicalName

/-- Mode, run if the mode is PerRun, module and logical name. -/
def key (o : Origin) : StorageMode × Option String × String × String :=
  (o.qualified.mode, if o.qualified.mode = .perRun then some o.runId else none, o.qualified.module,
    o.qualified.logicalName)

/-- The strings that a physical name joins. -/
def strings : Origin → List String
  | table .off _ _ schema => [schema.name]
  | table .perRun runId module schema => [runId, module, schema.name]
  | table .shared _ module schema => [module, schema.name]
  | stepLog .perRun runId => [runId, stepLogTable]
  | stepLog _ _ => [stepLogTable]

def parts (o : Origin) : List (List Char) := o.strings.map String.toList

theorem parts_ne_nil (o : Origin) : o.parts ≠ [] := by
  cases o with
  | table mode runId module schema => cases mode <;> exact List.cons_ne_nil _ _
  | stepLog mode runId => cases mode <;> exact List.cons_ne_nil _ _

theorem name_toList (o : Origin) : o.name.toList = glue '_' o.parts := by
  cases o with
  | table mode runId module schema =>
      cases mode <;> simp [name, qualified, qualifyTable, parts, strings, glue]
  | stepLog mode runId =>
      cases mode <;> simp [name, qualified, stepLogQualified, parts, strings, glue]

end Origin

/-- Two tables whose names are one text cut at its separators in two ways. -/
def Confused (a b : Origin) : Prop := Recut '_' a.parts b.parts

theorem name_eq_iff (a b : Origin) : a.name = b.name ↔ Confused a b := by
  rw [← String.toList_inj, a.name_toList, b.name_toList,
    glue_eq_iff a.parts_ne_nil b.parts_ne_nil]
  rfl

/-- Strings that a name can be cut back into, of a module's own or shared table or of a step log. -/
structure PlainName (o : Origin) : Prop where
  plain : Plain '_' o.parts
  module : ∀ mode runId module schema, o = .table mode runId module schema →
    mode ≠ .off ∧ schema.name ≠ stepLogTable

private theorem key_of_strings {a b : Origin} (same : a.strings = b.strings) (plain : PlainName a)
    (plain' : PlainName b) : a.key = b.key := by
  cases a with
  | table mode runId module schema =>
      obtain ⟨some, other⟩ := plain.module _ _ _ _ rfl
      cases b with
      | table mode' runId' module' schema' =>
          obtain ⟨some', -⟩ := plain'.module _ _ _ _ rfl
          cases mode <;> cases mode' <;>
            simp_all [Origin.strings, Origin.key, Origin.qualified, qualifyTable, Origin.runId]
      | stepLog mode' runId' =>
          cases mode <;> cases mode' <;> simp_all [Origin.strings]
  | stepLog mode runId =>
      cases b with
      | table mode' runId' module' schema' =>
          obtain ⟨some', other'⟩ := plain'.module _ _ _ _ rfl
          cases mode <;> cases mode' <;> simp_all [Origin.strings]
      | stepLog mode' runId' =>
          cases mode <;> cases mode' <;>
            simp_all [Origin.strings, Origin.key, Origin.qualified, stepLogQualified, Origin.runId]

theorem not_confused {a b : Origin} (apart : a.key ≠ b.key) (plain : PlainName a)
    (plain' : PlainName b) : ¬ Confused a b := by
  intro confused
  have same := confused.eq_of_plain plain.plain plain'.plain
  have strings : a.strings = b.strings :=
    List.map_injective_iff.mpr (fun _ _ => String.toList_inj.mp) same
  exact apart (key_of_strings strings plain plain')

/-- The tables that a PerRun plan gives a run on a host. -/
inductive OfRun (host : Host) (runId : String) : Origin → Prop
  | table {module : String} {schema : TableSchema}
      (declared : host.storageSchemas.lookup module = some schema) :
      OfRun host runId (.table .perRun runId module schema)
  | stepLog : OfRun host runId (.stepLog .perRun runId)

/-- Those that a step of one module writes. -/
def OfModule (host : Host) (runId module : String) (o : Origin) : Prop :=
  OfRun host runId o ∧ ∀ mode runId m schema, o = .table mode runId m schema → m = module

variable {host : Host} {S : Type} {outside : Environment S Query Answer}

/-- A table that no name of `mine` could be taken for. -/
def Apart (mine : Origin → Prop) (other : Origin) : Prop :=
  ∀ o, mine o → o.key ≠ other.key ∧ ¬ Confused o other

theorem inMemory_frame {q : Query} {s : Stores S} {name : String} (other : tableOf q ≠ some name) :
    (inMemory outside q s).1.tables.lookup name = s.tables.lookup name := by
  cases q with
  | ensureTable table =>
      have elsewhere : name ≠ table.physicalName := fun same => other (congrArg some same.symm)
      show (s.tables.ensureTable table).1.lookup name = _
      unfold MemoryStorage.ensureTable
      split
      · split <;> rfl
      · rw [lookup_insert_of, if_neg elsewhere]
  | writeRows table mode rows primaryKey runId =>
      have elsewhere : name ≠ table := fun same => other (congrArg some same.symm)
      show (s.tables.writeRows table mode rows primaryKey runId).1.lookup name = _
      unfold MemoryStorage.writeRows
      split
      · rfl
      · rename_i t found
        have replaced (after : MemTable) :
            (s.tables.replace table after).lookup name = s.tables.lookup name := by
          rw [lookup_replace found, if_neg elsewhere]
        cases mode with
        | append => exact replaced _
        | replace => exact replaced _
        | upsert =>
            dsimp only
            split
            · rfl
            · exact replaced _
  | dropTable table =>
      have elsewhere : name ≠ table := fun same => other (congrArg some same.symm)
      show (s.tables.erase table).lookup name = _
      rw [lookup_erase_of, if_neg elsewhere]
  | _ => rfl

/-- A plan whose tables, if any, are the run's own. -/
def OwnTables (plan : StoragePlan) : Prop := plan.enabled = true → plan.mode = .perRun

/-- Books in which every plan has tables of its own run only. -/
structure OwnBooks (books : Books host) : Prop where
  plans : ∀ runId p, books.runPolicies.lookup runId = some p → OwnTables p.1.storage
  tables : ∀ runId tables, books.runTables.lookup runId = some tables →
    ∀ table ∈ tables, ∃ o, OfRun host runId o ∧ o.name = table

/-- An exchange about one of `mine`, if about a table at all. -/
def About (mine : Origin → Prop) (e : Exchange Query Answer) : Prop :=
  ∀ table, tableOf e.1 = some table → ∃ o, mine o ∧ o.name = table

theorem moduleTables_enabled {plan : StoragePlan} (tables : plan.moduleTables = true) :
    plan.enabled = true := by
  obtain ⟨mode, stepLog, retention⟩ := plan
  cases mode <;> first | rfl | cases tables

theorem stepLog_enabled {plan : StoragePlan} (logged : plan.stepLog = true) :
    plan.enabled = true := by
  rw [StoragePlan.enabled, logged, Bool.or_true]

theorem about_allows {runId : String} {module : String → Prop} {mine : Origin → Prop}
    (every : ∀ m, module m → ∀ o, OfModule host runId m o → mine o)
    (log : mine (.stepLog .perRun runId)) :
    Allows host runId module OwnBooks (fun p => OwnTables p.1.storage) (About mine) where
  policy books known p found := known.plans runId p found
  noted books _ _ _ known := ⟨known.plans, known.tables⟩
  quiet q asked answer table about := by
    rw [tableOf_plain asked] at about
    cases about
  commits _ _ _ _ about := nomatch about
  fails _ _ _ _ about := nomatch about
  writes p own tables m written schema declared mode rows answer table about := by
    obtain rfl := Option.some.inj about
    rw [own (moduleTables_enabled tables)]
    refine ⟨.table .perRun runId m schema, every m written _ ⟨.table declared, ?_⟩, rfl⟩
    rintro _ _ _ _ ⟨⟩
    rfl
  logs p own logged := by
    rw [own (stepLog_enabled logged)]
    constructor
    · rintro answer _ ⟨⟩
      exact ⟨_, log, rfl⟩
    · rintro rows answer _ ⟨⟩
      exact ⟨_, log, rfl⟩

theorem about_manages (host : Host) (runId : String) (mine : Origin → Prop) :
    Manages host runId (About mine) where
  claims _ _ _ _ about := nomatch about
  starts _ _ _ _ about := nomatch about
  injects _ _ _ _ about := nomatch about
  cancels _ _ about := nomatch about

theorem about_closes (runId : String) :
    Closes runId (@OwnBooks host) (About (OfRun host runId)) where
  emptied books known := by
    refine ⟨known.plans, fun other tables found => ?_⟩
    change (books.runTables.erase runId).lookup other = some tables at found
    rw [lookup_erase_of] at found
    split_ifs at found
    exact known.tables other tables found
  forgot books known := by
    refine ⟨fun other p found => ?_, known.tables⟩
    change (books.runPolicies.erase runId).lookup other = some p at found
    rw [lookup_erase_of] at found
    split_ifs at found
    exact known.plans other p found
  drops books known p _ _ _ table listed answer := by
    rintro _ ⟨⟩
    cases found : books.runTables.lookup runId with
    | none =>
        rw [found] at listed
        cases listed
    | some tables =>
        rw [found] at listed
        exact known.tables runId tables found table listed

private theorem needed_own {plan : StoragePlan} (own : OwnTables plan)
    (enabled : plan.enabled = true) {runId : String} {table : QualifiedTable}
    (needed : table ∈ neededTables host plan runId) :
    ∃ o, OfRun host runId o ∧ o.name = table.physicalName := by
  unfold neededTables at needed
  rw [own enabled] at needed
  rcases List.mem_append.mp needed with module | log
  · split_ifs at module
    · obtain ⟨e, listed, rfl⟩ := List.mem_map.mp module
      exact ⟨.table .perRun runId e.1 e.2, .table ((lookup_eq_some_iff _ _ _).mpr listed), rfl⟩
    · cases module
  · split_ifs at log
    · rw [List.mem_singleton.mp log]
      exact ⟨_, .stepLog, rfl⟩
    · cases log

theorem about_registers (runId : String) {p : Backed host} (own : OwnTables p.1.storage) :
    Registers runId p OwnBooks (About (OfRun host runId)) where
  ensured enabled table needed answer := by
    rintro _ ⟨⟩
    exact needed_own own enabled needed
  listed books known enabled := by
    refine ⟨known.plans, fun other tables found table member => ?_⟩
    change (books.runTables.insert runId _).lookup other = some tables at found
    rw [lookup_insert_of] at found
    split_ifs at found with same
    · subst same
      obtain rfl := Option.some.inj found
      obtain ⟨q, needed, rfl⟩ := List.mem_map.mp member
      exact needed_own own enabled needed
    · exact known.tables other tables found table member
  registered books known := by
    refine ⟨fun other p' found => ?_, known.tables⟩
    change (books.runPolicies.insert runId p).lookup other = some p' at found
    rw [lookup_insert_of] at found
    split_ifs at found
    · obtain rfl := Option.some.inj found
      exact own
    · exact known.plans other p' found

theorem exec_apart {α : Type} {mine : Origin → Prop} {x : HostAct host α}
    (keeps : Keeps OwnBooks (About mine) x) {books : Books host} (known : OwnBooks books)
    {other : Origin} (apart : Apart mine other) (s : Stores S) :
    (exec (inMemory outside) (start x books) s).1.tables.lookup other.name =
      s.tables.lookup other.name := by
  obtain ⟨about, -⟩ := keeps books _ _ _ known (runs_exec (inMemory outside) (start x books) s)
  refine exec_keeps (inMemory outside) (P := fun t => t.tables.lookup other.name =
    s.tables.lookup other.name) (E := About mine) ?_ _ s about rfl
  intro q t within before
  refine (inMemory_frame fun same => ?_).trans before
  obtain ⟨o, ours, name⟩ := within other.name same
  exact (apart o ours).2 ((name_eq_iff o other).mp name)

section Calls

variable [Sha256]

/-- A call that gives its run, if it starts one, tables of its own only. -/
def OwnCall (call : HostCall) : Prop :=
  ∀ policy, startsUnder call = some policy → OwnTables policy.storage

theorem perform_about {call : HostCall} (own : OwnCall call) :
    Keeps OwnBooks (About (OfRun host call.runId)) (call.perform : HostAct host Unit) := by
  have allows : Allows host call.runId (fun _ => True) OwnBooks (fun p => OwnTables p.1.storage)
      (About (OfRun host call.runId)) := about_allows (fun _ _ _ ours => ours.1) .stepLog
  exact perform_keeps allows (about_closes _) rfl (fun _ => trivial)
    (about_manages _ _ _) fun p same => about_registers _ (own _ same)

theorem run_own (calls : List HostCall) (own : ∀ call ∈ calls, OwnCall call)
    {session : Session host (Stores S)} (known : OwnBooks session.books) :
    OwnBooks (session.run (inMemory outside) calls).books := by
  induction calls generalizing session with
  | nil => exact known
  | cons call calls ih =>
      obtain ⟨first, rest⟩ := List.forall_mem_cons.mp own
      refine ih rest ?_
      exact (perform_about first session.books _ _ _ known
        (runs_exec (inMemory outside) (start (call.perform : HostAct host Unit) session.books)
          session.world)).2

/-- Tables made for different things have different names unless these are one text cut in two ways;
so a call leaves alone every table apart from those of its run, and a step every table apart from its
module's and the step log. -/
theorem tables_isolated :
    (∀ a b : Origin, a.key ≠ b.key → (a.name ≠ b.name ↔ ¬ Confused a b)) ∧
    ∀ (host : Host) (S : Type) (outside : Environment S Query Answer) (world : Stores S)
      (calls : List HostCall), (∀ call ∈ calls, OwnCall call) →
      let session : Session host (Stores S) := Session.run (inMemory outside) ⟨{}, world⟩ calls
      (∀ call, OwnCall call → ∀ other, Apart (OfRun host call.runId) other →
        (session.after (inMemory outside) call).world.tables.lookup other.name =
          session.world.tables.lookup other.name) ∧
      ∀ runId module step result other, Apart (OfModule host runId module) other →
        (exec (inMemory outside) (start (applyStepStorage runId module step result) session.books)
          session.world).1.tables.lookup other.name = session.world.tables.lookup other.name := by
  refine ⟨fun a b _ => not_congr (name_eq_iff a b), ?_⟩
  intro host S outside world calls own session
  have empty : OwnBooks ({} : Books host) := by
    refine ⟨fun runId p found => ?_, fun runId tables found => ?_⟩ <;> simp at found
  have known : OwnBooks session.books := run_own calls own empty
  refine ⟨fun call ownCall other apart => ?_, fun runId module step result other apart => ?_⟩
  · exact exec_apart (perform_about ownCall) known apart session.world
  · have allows : Allows host runId (· = module) OwnBooks (fun p => OwnTables p.1.storage)
        (About (OfModule host runId module)) :=
      about_allows (fun m same o ours => same ▸ ours) ⟨.stepLog, nofun⟩
    exact exec_apart (applyStepStorage_keeps allows rfl step result) known apart session.world

end Calls

section Runs

open Substrate.Kernel.Concrete
open Substrate.Kernel.Api (Call)

/-- `echo` under another name. -/
private def namedEcho (module : String) : ModuleManifest := { echo .once with name := module }

private def moduleAssembly (module : String) : Assembly :=
  { echoes with nodes := [⟨"n", module, "1", "say"⟩] }

def lineSchema : TableSchema := { name := "t", columns := [], primaryKey := [], writeMode := .append }

/-- A plugin that repeats its line and stores an empty row. -/
def scribe : Environment Unit Query Answer
  | .onStore _ _ _, _ => ((), some { mode := none, rows := [.empty] })
  | query, s =>
      plainPlugins (fun _ => .ok ⟨[{ port := "said", traits := .singleton "text" (asBytes "one") }]⟩)
        query s

def kernelEnv : Environment (World Unit) Query Answer := inProcess policy (fun _ => envAt 0) scribe

def memoryEnv : Environment (Stores (World Unit)) Query Answer := inMemory kernelEnv

def storingHost (modules : List String) : Host :=
  { plugins := modules, ctx := {}, uiPersist := .localOnly, storage := true, memo := false
    storageSchemas := modules.foldl (fun schemas m => schemas.insert m lineSchema) ∅ }

/-- A kernel that knows the modules of a host, and empty stores. -/
def stockedStores (modules : List String) : Stores (World Unit) :=
  { tables := ∅, memo := ∅
    rest := ⟨Substrate.Kernel.Api.exec policy {}
      (modules.map (fun m => callAt 0 (.register (namedEcho m))) ++
        [callAt 0 (.putArtifact (text "one"))]), 0, ()⟩ }

/-- An open run of one module with tables of its own. -/
def startOwn (runId module : String) : HostCall :=
  .startPipeline runId (moduleAssembly module) [given "line" (text "one")]
    { FrameworkPolicy.converge with mode := .manual .open, storage := { mode := .perRun } }

def storedSession (modules : List String) (calls : List HostCall) :
    Session (storingHost modules) (Stores (World Unit)) :=
  Session.run memoryEnv ⟨{}, stockedStores modules⟩ calls

private theorem startOwn_own (runId module : String) : OwnCall (startOwn runId module) := by
  rintro _ ⟨⟩ -
  rfl

def twoStarted : Session (storingHost ["c"]) (Stores (World Unit)) :=
  storedSession ["c"] [startOwn "one" "c", startOwn "two" "c", .drive 9 "two"]

/-- The table of a run of `c`. -/
def tableOfC (runId : String) : Origin := .table .perRun runId "c" lineSchema

private theorem plainName_c {runId : String} (plain : Plain '_' (tableOfC runId).parts) :
    PlainName (tableOfC runId) := by
  refine ⟨plain, ?_⟩
  rintro _ _ _ _ ⟨⟩
  exact ⟨nofun, by decide⟩

private theorem apart_two :
    Apart (OfRun (storingHost ["c"]) "one") (tableOfC "two") := by
  have plain : PlainName (tableOfC "two") := plainName_c ⟨by decide, by decide⟩
  rintro o (⟨declared⟩ | _)
  · rename_i module schema
    change ((∅ : KeyMap String TableSchema).insert "c" lineSchema).lookup module = some schema
      at declared
    rw [lookup_insert_of] at declared
    split_ifs at declared with same
    · subst same
      obtain rfl := Option.some.inj declared
      have apart : (tableOfC "one").key ≠ (tableOfC "two").key := by decide
      exact ⟨apart, not_confused apart (plainName_c ⟨by decide, by decide⟩) plain⟩
    · simp at declared
  · have apart : (Origin.stepLog .perRun "one").key ≠ (tableOfC "two").key := by decide
    exact ⟨apart, not_confused apart ⟨⟨by decide, by decide⟩, nofun⟩ plain⟩

private theorem row_written :
    (twoStarted.world.tables.lookup (tableOfC "two").name).map (·.rows.length) = some 1 := by
  decide +kernel

/-- Of two runs of one module, cancelling one leaves the other's table, with a row in it, as it is. -/
theorem cancel_keeps_two :
    (tableOfC "one").name ≠ (tableOfC "two").name ∧
      (twoStarted.world.tables.lookup (tableOfC "two").name).map (·.rows.length) = some 1 ∧
      (twoStarted.after memoryEnv (.cancel "one")).world.tables.lookup (tableOfC "two").name =
        twoStarted.world.tables.lookup (tableOfC "two").name := by
  have apart := apart_two (tableOfC "one") (.table rfl)
  refine ⟨(tables_isolated.1 _ _ apart.1).mpr apart.2, row_written, ?_⟩
  have drives : OwnCall (.drive 9 "two") := fun _ starts => absurd starts (by simp [startsUnder])
  have starts : ∀ call ∈ [startOwn "one" "c", startOwn "two" "c", .drive 9 "two"], OwnCall call :=
    List.forall_mem_cons.mpr ⟨startOwn_own _ _, List.forall_mem_cons.mpr ⟨startOwn_own _ _,
      List.forall_mem_singleton.mpr drives⟩⟩
  have quiet : OwnCall (.cancel "one") := fun _ starts => absurd starts (by simp [startsUnder])
  have started := (tables_isolated.2 (storingHost ["c"]) (World Unit) kernelEnv
    (stockedStores ["c"]) _ starts).1
  unfold twoStarted storedSession memoryEnv
  exact started (.cancel "one") quiet (tableOfC "two") apart_two

/-- The table of module `c` in the run `a__b`. -/
def theirs : Origin := .table .perRun "a__b" "c" lineSchema

/-- That of module `b__c` in the run `a`. -/
def ours : Origin := .table .perRun "a" "b__c" lineSchema

def bothStarted : Session (storingHost ["b__c", "c"]) (Stores (World Unit)) :=
  storedSession ["b__c", "c"] [startOwn "a__b" "c", .drive 9 "a__b", startOwn "a" "b__c"]

private theorem rows_dropped :
    (bothStarted.world.tables.lookup theirs.name).map (·.rows.length) = some 1 ∧
      ((bothStarted.after memoryEnv (.cancel "a")).world.tables.lookup theirs.name).isNone := by
  decide +kernel

/-- Cancelling the run `a` drops the table, with a row in it, of the run `a__b`. -/
theorem cancel_drops_theirs :
    ours.key ≠ theirs.key ∧ ours.name = theirs.name ∧
      (bothStarted.world.tables.lookup theirs.name).map (·.rows.length) = some 1 ∧
      (bothStarted.after memoryEnv (.cancel "a")).world.tables.lookup theirs.name = none :=
  ⟨by decide, by decide, rows_dropped.1, Option.isNone_iff_eq_none.mp rows_dropped.2⟩

end Runs

end Substrate.Protocol.Tables
