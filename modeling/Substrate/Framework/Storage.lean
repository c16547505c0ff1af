/- ID: Substrate/Framework/Storage
   source: framework/sdk/rust/src/storage.rs
   digest: Storage plans, table schemas, rows, and the physical tables of a run. -/

import Substrate.Framework.Steps

set_option autoImplicit false
set_option relaxedAutoImplicit false

namespace Substrate.Framework.Storage

open Substrate.Kernel.Wire
open Substrate.Framework.Steps (FrameworkError)
open Substrate.Library.FiniteMap (KeyMap)

def stepLogTable : String := "_srcport_step_log"

inductive StorageMode
  | off | perRun | shared
  deriving DecidableEq

inductive StorageRetention
  | dropOnEnd | keep
  deriving DecidableEq

structure StoragePlan where
  mode : StorageMode := .off
  stepLog : Bool := false
  retention : StorageRetention := .dropOnEnd
  deriving DecidableEq

/-- Whether the host opens any table for a plan. -/
def StoragePlan.enabled (plan : StoragePlan) : Bool := plan.mode ≠ .off || plan.stepLog

/-- Whether modules' own tables take part. -/
def StoragePlan.moduleTables (plan : StoragePlan) : Bool :=
  match plan.mode with
  | .perRun | .shared => true
  | .off => false

inductive ColumnType
  | text | integer | real | boolean | json | bytes
  deriving DecidableEq

structure ColumnDef where
  name : String
  ty : ColumnType
  nullable : Bool
  deriving DecidableEq

def ColumnDef.required (name : String) (ty : ColumnType) : ColumnDef :=
  { name, ty, nullable := false }

def ColumnDef.optional (name : String) (ty : ColumnType) : ColumnDef :=
  { name, ty, nullable := true }

inductive WriteMode
  | append | upsert | replace
  deriving DecidableEq

structure TableSchema where
  name : String
  columns : List ColumnDef
  primaryKey : List String
  writeMode : WriteMode
  deriving DecidableEq

/-- Numbers are told apart by their digits, so -0.0 from 0.0, which are equal floats in `serde_json`. -/
inductive Json
  | null
  | bool (b : Bool)
  | number (digits : String)
  | string (s : String)
  | array (items : List Json)
  | object (fields : List (String × Json))

inductive StoreValue
  | null
  | boolean (b : Bool)
  | integer (n : Int64)
  /-- An `f64`, as its bits. -/
  | real (bits : UInt64)
  | text (s : String)
  | json (value : Json)
  | bytes (data : Bytes)

mutual

def Json.same : Json → Json → Bool
  | .null, .null => true
  | .bool a, .bool b => a == b
  | .number a, .number b => a == b
  | .string a, .string b => a == b
  | .array as, .array bs => Json.sameItems as bs
  | .object as, .object bs => Json.sameFields as bs
  | _, _ => false

def Json.sameItems : List Json → List Json → Bool
  | [], [] => true
  | a :: as, b :: bs => a.same b && Json.sameItems as bs
  | _, _ => false

def Json.sameFields : List (String × Json) → List (String × Json) → Bool
  | [], [] => true
  | (x, a) :: as, (y, b) :: bs => x == y && a.same b && Json.sameFields as bs
  | _, _ => false

end

/-- Equality of two `f64`, given as bits: zeros are equal whatever their sign, and NaN equals
nothing. -/
def sameF64 (a b : UInt64) : Bool :=
  let magnitude (bits : UInt64) : UInt64 := bits &&& 0x7FFFFFFFFFFFFFFF
  let nan (bits : UInt64) : Bool := magnitude bits > 0x7FF0000000000000
  !nan a && !nan b && (a == b || magnitude a == 0 && magnitude b == 0)

def StoreValue.same : StoreValue → StoreValue → Bool
  | .null, .null => true
  | .boolean a, .boolean b => a == b
  | .integer a, .integer b => a == b
  | .real a, .real b => sameF64 a b
  | .text a, .text b => a == b
  | .json a, .json b => a.same b
  | .bytes a, .bytes b => a == b
  | _, _ => false

abbrev StoreRow := BTreeMap StoreValue

structure StoreWrite where
  mode : Option WriteMode
  rows : List StoreRow

/-- Physical table identity after policy qualification. -/
structure QualifiedTable where
  physicalName : String
  module : String
  logicalName : String
  schema : TableSchema
  mode : StorageMode
  deriving DecidableEq

def identityColumns : List ColumnDef :=
  ["_run_id", "_work_id", "_node_id", "_module"].map fun name => .required name .text

/-- Identity columns first; a declared column of the same name is left out. -/
def withIdentityColumns (schema : TableSchema) : TableSchema :=
  { schema with
    columns := schema.columns.foldl
      (fun columns c => if columns.any (·.name == c.name) then columns else columns ++ [c])
      identityColumns }

def qualifyTable (mode : StorageMode) (runId module : String) (schema : TableSchema) :
    QualifiedTable :=
  { physicalName :=
      match mode with
      | .off => schema.name
      | .perRun => runId ++ "__" ++ module ++ "__" ++ schema.name
      | .shared => module ++ "__" ++ schema.name
    module, logicalName := schema.name, schema := withIdentityColumns schema, mode }

def stepLogSchema : TableSchema :=
  { name := stepLogTable
    columns := [.required "run_id" .text, .required "work_id" .text, .required "node_id" .text,
      .required "module" .text, .required "capability" .text, .required "ok" .boolean,
      .optional "error" .text, .optional "output_ports" .json]
    primaryKey := [], writeMode := .append }

/-- The framework's own table; without module tables it is the shared one. -/
def stepLogQualified (mode : StorageMode) (runId : String) : QualifiedTable :=
  { physicalName :=
      match mode with
      | .off | .shared => stepLogTable
      | .perRun => runId ++ "__" ++ stepLogTable
    module := "", logicalName := stepLogTable, schema := stepLogSchema
    mode := if mode = .off then .shared else mode }

/-- Identity fields of a row, where it does not set them. -/
def injectIdentity (runId workId nodeId module : String) (row : StoreRow) : StoreRow :=
  (((row.orInsert "_run_id" (.text runId)).orInsert "_work_id" (.text workId)).orInsert
    "_node_id" (.text nodeId)).orInsert "_module" (.text module)

structure MemTable where
  schema : TableSchema
  mode : StorageMode
  rows : List StoreRow

abbrev MemoryStorage := KeyMap String MemTable

namespace MemoryStorage

/-- Create a table that is missing; one with other columns is an error. -/
def ensureTable (table : QualifiedTable) (tables : MemoryStorage) :
    MemoryStorage × Except FrameworkError Unit :=
  match tables.lookup table.physicalName with
  | some existing =>
      if existing.schema.columns ≠ table.schema.columns then
        (tables, .error (.invalid ("storage schema mismatch for table " ++ table.physicalName)))
      else (tables, .ok ())
  | none =>
      (tables.insert table.physicalName { schema := table.schema, mode := table.mode, rows := [] },
        .ok ())

/-- The row that a replacement of a shared table leaves out. -/
def ofRun (runId : String) (row : StoreRow) : Bool :=
  match (row.get? "_run_id").orElse fun _ => row.get? "run_id" with
  | some (.text id) => id == runId
  | _ => false

def sameCell : Option StoreValue → Option StoreValue → Bool
  | none, none => true
  | some a, some b => a.same b
  | _, _ => false

/-- Whether two rows have the same primary key; a missing cell is a value of its own. -/
def sameKey (primaryKey : List String) (existing row : StoreRow) : Bool :=
  primaryKey.all fun k => sameCell (existing.get? k) (row.get? k)

/-- Put a row in the place of the first one with its key, or last. -/
def upsertRow (primaryKey : List String) (row : StoreRow) : List StoreRow → List StoreRow
  | [] => [row]
  | existing :: rest =>
      if sameKey primaryKey existing row then row :: rest
      else existing :: upsertRow primaryKey row rest

def writeRows (table : String) (mode : WriteMode) (rows : List StoreRow)
    (primaryKey : List String) (runId : String) (tables : MemoryStorage) :
    MemoryStorage × Except FrameworkError Unit :=
  match tables.lookup table with
  | none => (tables, .error (.invalid ("storage table not ensured: " ++ table)))
  | some t =>
      match mode with
      | .append => (tables.replace table { t with rows := t.rows ++ rows }, .ok ())
      | .replace =>
          let kept :=
            match t.mode with
            | .perRun | .off => []
            | .shared => t.rows.filter (!ofRun runId ·)
          (tables.replace table { t with rows := kept ++ rows }, .ok ())
      | .upsert =>
          if primaryKey = [] then
            (tables, .error (.invalid ("upsert on " ++ table ++
              " requires primary_key on TableSchema")))
          else
            (tables.replace table
              { t with rows := rows.foldl (fun stored row => upsertRow primaryKey row stored) t.rows },
              .ok ())

def dropTable (table : String) (tables : MemoryStorage) :
    MemoryStorage × Except FrameworkError Unit :=
  (tables.erase table, .ok ())

end MemoryStorage

end Substrate.Framework.Storage
