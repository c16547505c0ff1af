/- ID: Substrate/Protocol/Rows
   digest: What the three write modes leave of a table, and when an upsert leaves one row for a key. -/

import Substrate.Library.Upsert
import Substrate.Framework.Storage

set_option autoImplicit false
set_option relaxedAutoImplicit false

namespace Substrate.Protocol.Rows

open Substrate.Framework.Storage
open Substrate.Framework.Storage.MemoryStorage
open Substrate.Library.FiniteMap
open Substrate.Library.Upsert

mutual

theorem json_same_iff : ∀ a b : Json, a.same b = true ↔ a = b
  | .null, b => by cases b <;> simp [Json.same]
  | .bool _, b => by cases b <;> simp [Json.same]
  | .number _, b => by cases b <;> simp [Json.same]
  | .string _, b => by cases b <;> simp [Json.same]
  | .array as, b => by cases b <;> simp [Json.same, sameItems_iff as]
  | .object as, b => by cases b <;> simp [Json.same, sameFields_iff as]

theorem sameItems_iff : ∀ as bs : List Json, Json.sameItems as bs = true ↔ as = bs
  | [], bs => by cases bs <;> simp [Json.sameItems]
  | a :: as, bs => by cases bs <;> simp [Json.sameItems, json_same_iff a, sameItems_iff as]

theorem sameFields_iff : ∀ as bs : List (String × Json), Json.sameFields as bs = true ↔ as = bs
  | [], bs => by cases bs <;> simp [Json.sameFields]
  | (x, a) :: as, bs => by
      rcases bs with _ | ⟨⟨y, b⟩, bs⟩ <;>
        simp [Json.sameFields, json_same_iff a, sameFields_iff as]

end

/-- A cell without a floating-point number in it. -/
def Exact (cell : Option StoreValue) : Prop := ∀ bits, cell ≠ some (.real bits)

theorem sameCell_iff (cell : Option StoreValue) {other : Option StoreValue} (exact : Exact other) :
    sameCell cell other = true ↔ cell = other := by
  cases cell with
  | none => cases other <;> simp [sameCell]
  | some a =>
      cases other with
      | none => simp [sameCell]
      | some b =>
          cases b with
          | real bits => exact absurd rfl (exact bits)
          | _ => cases a <;> simp [sameCell, StoreValue.same, json_same_iff]

/-- The cells of a primary key. -/
def keyOf (primaryKey : List String) (row : StoreRow) : List (Option StoreValue) :=
  primaryKey.map row.get?

/-- A row whose key cells are exact. -/
def ExactKey (primaryKey : List String) (row : StoreRow) : Prop :=
  ∀ k ∈ primaryKey, Exact (row.get? k)

theorem sameKey_iff {primaryKey : List String} (stored : StoreRow) {row : StoreRow}
    (exact : ExactKey primaryKey row) :
    sameKey primaryKey stored row = true ↔ keyOf primaryKey stored = keyOf primaryKey row := by
  unfold sameKey keyOf
  rw [List.all_eq_true, List.map_inj_left]
  exact forall₂_congr fun k member => sameCell_iff _ (exact k member)

private theorem upsertRow_putBy (primaryKey : List String) (row : StoreRow) (old : List StoreRow) :
    upsertRow primaryKey row old = putBy (sameKey primaryKey) row old := by
  induction old with
  | nil => rfl
  | cons existing rest ih =>
      unfold upsertRow putBy
      rw [ih]

theorem upserted_putAllBy (primaryKey : List String) (rows old : List StoreRow) :
    rows.foldl (fun stored row => upsertRow primaryKey row stored) old =
      putAllBy (sameKey primaryKey) rows old := by
  simp only [upsertRow_putBy]
  rfl

/-- A call of `write_rows`. -/
structure Write where
  table : String
  mode : WriteMode
  rows : List StoreRow
  primaryKey : List String
  runId : String

namespace Write

def apply (w : Write) (tables : MemoryStorage) : MemoryStorage :=
  (tables.writeRows w.table w.mode w.rows w.primaryKey w.runId).1

/-- The rows of a table of the given mode after the write. -/
def leaves (w : Write) (mode : StorageMode) (old : List StoreRow) : List StoreRow :=
  match w.mode with
  | .append => old ++ w.rows
  | .replace =>
      match mode with
      | .perRun | .off => w.rows
      | .shared => old.filter (!ofRun w.runId ·) ++ w.rows
  | .upsert =>
      if w.primaryKey = [] then old
      else w.rows.foldl (fun stored row => upsertRow w.primaryKey row stored) old

theorem apply_lookup (w : Write) {tables : MemoryStorage} {name : String} {t : MemTable}
    (found : tables.lookup name = some t) :
    (w.apply tables).lookup name =
      some (if name = w.table then { t with rows := w.leaves t.mode t.rows } else t) := by
  unfold apply writeRows
  by_cases mine : name = w.table
  · subst mine
    rw [found, if_pos rfl]
    unfold leaves
    have replaced (after : MemTable) :
        (tables.replace w.table after).lookup w.table = some after := by
      rw [lookup_replace found, if_pos rfl]
    cases w.mode with
    | append => exact replaced _
    | replace => cases same : t.mode <;> simp [same, replaced]
    | upsert =>
        dsimp only
        split_ifs
        · exact found
        · exact replaced _
  · rw [if_neg mine]
    cases there : tables.lookup w.table with
    | none => exact found
    | some other =>
        have replaced (after : MemTable) : (tables.replace w.table after).lookup name = some t := by
          rw [lookup_replace there, if_neg mine, found]
        cases w.mode with
        | append => exact replaced _
        | replace => exact replaced _
        | upsert =>
            dsimp only
            split_ifs
            · exact found
            · exact replaced _

theorem apply_self {w : Write} {tables : MemoryStorage} {t : MemTable}
    (found : tables.lookup w.table = some t) (same : w.leaves t.mode t.rows = t.rows) :
    w.apply tables = tables := by
  unfold apply writeRows
  rw [found]
  unfold leaves at same
  have replaced {rows : List StoreRow} (as : rows = t.rows) :
      tables.replace w.table { t with rows } = tables := by
    subst as
    exact replace_self found
  cases mode : w.mode with
  | append =>
      rw [mode] at same
      exact replaced same
  | replace =>
      rw [mode] at same
      refine replaced (.trans ?_ same)
      cases t.mode <;> rfl
  | upsert =>
      rw [mode] at same
      dsimp only at same ⊢
      split_ifs at same ⊢
      · rfl
      · exact replaced same

end Write

/-- The tables after a sequence of writes. -/
def written (history : List Write) (tables : MemoryStorage) : MemoryStorage :=
  history.foldl (fun tables w => w.apply tables) tables

/-- The rows of a table; none when there is no such table. -/
def rowsOf (name : String) (tables : MemoryStorage) : List StoreRow :=
  ((tables.lookup name).map (·.rows)).getD []

theorem written_snoc (history : List Write) (w : Write) (tables : MemoryStorage) :
    written (history ++ [w]) tables = w.apply (written history tables) := by
  simp [written]

theorem written_lookup {name : String} {tables : MemoryStorage} {t : MemTable}
    (found : tables.lookup name = some t) (history : List Write) :
    (written history tables).lookup name =
      some { t with rows := rowsOf name (written history tables) } := by
  induction history using List.reverseRecOn with
  | nil => simp [written, rowsOf, found]
  | append_singleton history w ih =>
      rw [written_snoc, rowsOf, Write.apply_lookup w ih]
      split_ifs <;> rfl

theorem rowsOf_snoc {name : String} {tables : MemoryStorage} {t : MemTable}
    (found : tables.lookup name = some t) (history : List Write) (w : Write) :
    rowsOf name (written (history ++ [w]) tables) =
      if name = w.table then w.leaves t.mode (rowsOf name (written history tables))
      else rowsOf name (written history tables) := by
  rw [written_snoc, rowsOf, Write.apply_lookup w (written_lookup found history)]
  split_ifs <;> rfl

theorem mem_leaves {w : Write} {mode : StorageMode} {old : List StoreRow} {row : StoreRow}
    (member : row ∈ w.leaves mode old) : row ∈ old ∨ row ∈ w.rows := by
  unfold Write.leaves at member
  cases same : w.mode with
  | append =>
      rw [same] at member
      exact List.mem_append.mp member
  | replace =>
      rw [same] at member
      cases mode with
      | shared =>
          exact (List.mem_append.mp member).imp_left fun kept => (List.mem_filter.mp kept).1
      | _ => exact .inr member
  | upsert =>
      rw [same] at member
      dsimp only at member
      split_ifs at member
      · exact .inl member
      · exact mem_putAllBy (upserted_putAllBy w.primaryKey w.rows old ▸ member)

theorem rows_written {name : String} {tables : MemoryStorage} {t : MemTable}
    (found : tables.lookup name = some t) (empty : t.rows = []) (history : List Write) :
    ∀ row ∈ rowsOf name (written history tables), ∃ w ∈ history, w.table = name ∧ row ∈ w.rows := by
  induction history using List.reverseRecOn with
  | nil => simp [written, rowsOf, found, empty]
  | append_singleton history w ih =>
      intro row member
      rw [rowsOf_snoc found] at member
      have earlier (stored : row ∈ rowsOf name (written history tables)) :
          ∃ w' ∈ history ++ [w], w'.table = name ∧ row ∈ w'.rows := by
        obtain ⟨w', before, about, among⟩ := ih row stored
        exact ⟨w', List.mem_append_left _ before, about, among⟩
      split_ifs at member with mine
      · rcases mem_leaves member with stored | new
        · exact earlier stored
        · exact ⟨w, by simp, mine.symm, new⟩
      · exact earlier member

/-- The rows with the key of a row. -/
def sharing (primaryKey : List String) (row : StoreRow) (rows : List StoreRow) : List StoreRow :=
  rows.filter (sameKey primaryKey · row)

/-- An upsert of rows as `write_rows` is called for it. -/
def upsertOf (name : String) (primaryKey : List String) (rows : List StoreRow) (runId : String) :
    Write :=
  { table := name, mode := .upsert, rows, primaryKey, runId }

/-- After an upsert that follows a history of writes, each key in it has one row, the last one written
with it, the rows with other keys are what and where they were, a table with upserts only has no key
twice, and a second time changes nothing. -/
structure Restores (name : String) (tables : MemoryStorage) (history : List Write)
    (primaryKey : List String) (rows : List StoreRow) (runId : String) : Prop where
  unique : ∀ row ∈ rows, ∃ last, (sharing primaryKey row rows).getLast? = some last ∧
    sharing primaryKey row (rowsOf name
      (written (history ++ [upsertOf name primaryKey rows runId]) tables)) = [last]
  others : (rowsOf name (written (history ++ [upsertOf name primaryKey rows runId]) tables)).filter
      (fun stored => !rows.any (sameKey primaryKey stored ·)) =
    (rowsOf name (written history tables)).filter
      fun stored => !rows.any (sameKey primaryKey stored ·)
  distinct : (∀ w ∈ history, w.table = name → w.mode = .upsert ∧ w.primaryKey = primaryKey) →
    (rowsOf name (written (history ++ [upsertOf name primaryKey rows runId]) tables)).Pairwise
      fun a b => sameKey primaryKey a b = false
  twice : written (history ++ [upsertOf name primaryKey rows runId,
      upsertOf name primaryKey rows runId]) tables =
    written (history ++ [upsertOf name primaryKey rows runId]) tables

/-- No key of the new rows has more than one row stored. -/
def AtMostOne (primaryKey : List String) (rows old : List StoreRow) : Prop :=
  ∀ row ∈ rows, (sharing primaryKey row old).length ≤ 1

instance (primaryKey : List String) (rows old : List StoreRow) :
    Decidable (AtMostOne primaryKey rows old) :=
  inferInstanceAs (Decidable (∀ row ∈ rows, (sharing primaryKey row old).length ≤ 1))

section Upserts

open scoped Classical

variable {primaryKey : List String} {rows : List StoreRow}

private theorem upserted_putAll (exact : ∀ row ∈ rows, ExactKey primaryKey row)
    (old : List StoreRow) :
    rows.foldl (fun stored row => upsertRow primaryKey row stored) old =
      putAll (keyOf primaryKey) rows old := by
  rw [upserted_putAllBy]
  exact putAllBy_eq (fun row given stored => sameKey_iff stored (exact row given)) old

private theorem sharing_having {row : StoreRow} (exact : ExactKey primaryKey row)
    (l : List StoreRow) :
    sharing primaryKey row l = having (keyOf primaryKey) (keyOf primaryKey row) l := by
  refine List.filter_congr fun stored _ => ?_
  rw [Bool.eq_iff_iff, sameKey_iff stored exact, decide_eq_true_iff]

private theorem unique_iff (exact : ∀ row ∈ rows, ExactKey primaryKey row) (old : List StoreRow) :
    (∀ row ∈ rows, ∃ last, (sharing primaryKey row rows).getLast? = some last ∧
      sharing primaryKey row (putAll (keyOf primaryKey) rows old) = [last]) ↔
        AtMostOne primaryKey rows old := by
  refine forall₂_congr fun row given => ?_
  simp only [sharing_having (exact row given), having_putAll]
  have listed : row ∈ having (keyOf primaryKey) (keyOf primaryKey row) rows :=
    mem_having.mpr ⟨given, rfl⟩
  obtain ⟨last, found⟩ := Option.isSome_iff_exists.mp
    (List.getLast?_isSome.mpr (List.ne_nil_of_mem listed))
  simp only [found]
  cases having (keyOf primaryKey) (keyOf primaryKey row) old with
  | nil => simp
  | cons stored rest => simp

private theorem others_kept (exact : ∀ row ∈ rows, ExactKey primaryKey row) (old : List StoreRow) :
    (putAll (keyOf primaryKey) rows old).filter
        (fun stored => !rows.any (sameKey primaryKey stored ·)) =
      old.filter fun stored => !rows.any (sameKey primaryKey stored ·) := by
  refine filter_putAll (fun a b same => ?_) (fun row given => ?_) old
  · congr 1
    rw [Bool.eq_iff_iff, List.any_eq_true, List.any_eq_true]
    refine exists_congr fun row => and_congr_right fun given => ?_
    rw [sameKey_iff a (exact row given), sameKey_iff b (exact row given), same]
  · have own : sameKey primaryKey row row = true := (sameKey_iff row (exact row given)).mpr rfl
    simp only [Bool.not_eq_false', List.any_eq_true]
    exact ⟨row, given, own⟩

private theorem pairwise_of_nodup {l : List StoreRow} (exact : ∀ row ∈ l, ExactKey primaryKey row)
    (distinct : (l.map (keyOf primaryKey)).Nodup) :
    l.Pairwise fun a b => sameKey primaryKey a b = false := by
  rw [List.Nodup, List.pairwise_map] at distinct
  refine List.Pairwise.imp_of_mem ?_ distinct
  intro a b _ there apart
  rw [← Bool.not_eq_true, sameKey_iff a (exact b there)]
  exact apart

theorem leaves_upsert (keyed : primaryKey ≠ []) (exact : ∀ row ∈ rows, ExactKey primaryKey row)
    {w : Write} (mode : w.mode = .upsert) (keys : w.primaryKey = primaryKey)
    (given : w.rows = rows) (table : StorageMode) (old : List StoreRow) :
    w.leaves table old = putAll (keyOf primaryKey) rows old := by
  unfold Write.leaves
  rw [mode]
  dsimp only
  rw [keys, given, if_neg keyed, upserted_putAll exact]

private theorem nodup_upserts {name : String} {tables : MemoryStorage} {t : MemTable}
    (found : tables.lookup name = some t) (empty : t.rows = []) (keyed : primaryKey ≠ [])
    {history : List Write}
    (exact : ∀ w ∈ history, w.table = name → ∀ row ∈ w.rows, ExactKey primaryKey row)
    (upserts : ∀ w ∈ history, w.table = name → w.mode = .upsert ∧ w.primaryKey = primaryKey) :
    ((rowsOf name (written history tables)).map (keyOf primaryKey)).Nodup := by
  induction history using List.reverseRecOn with
  | nil => simp [written, rowsOf, found, empty]
  | append_singleton history w ih =>
      have before := ih (fun w' member => exact w' (List.mem_append_left _ member))
        fun w' member => upserts w' (List.mem_append_left _ member)
      rw [rowsOf_snoc found]
      split_ifs with mine
      · obtain ⟨mode, keys⟩ := upserts w (by simp) mine.symm
        rw [leaves_upsert keyed (exact w (by simp) mine.symm) mode keys rfl]
        exact nodup_putAll before _
      · exact before

variable {name : String} {tables : MemoryStorage} {t : MemTable}

private theorem rowsOf_upsert (found : tables.lookup name = some t) (keyed : primaryKey ≠ [])
    (exact : ∀ row ∈ rows, ExactKey primaryKey row) (history : List Write) (runId : String) :
    rowsOf name (written (history ++ [upsertOf name primaryKey rows runId]) tables) =
      putAll (keyOf primaryKey) rows (rowsOf name (written history tables)) := by
  rw [rowsOf_snoc found, if_pos (by rfl), leaves_upsert keyed exact rfl rfl rfl]

private theorem upsert_twice (found : tables.lookup name = some t) (keyed : primaryKey ≠ [])
    (exact : ∀ row ∈ rows, ExactKey primaryKey row) (history : List Write) (runId : String) :
    written (history ++ [upsertOf name primaryKey rows runId, upsertOf name primaryKey rows runId])
        tables =
      written (history ++ [upsertOf name primaryKey rows runId]) tables := by
  have once := written_lookup found (history ++ [upsertOf name primaryKey rows runId])
  rw [List.append_cons, written_snoc]
  refine Write.apply_self once ?_
  rw [leaves_upsert keyed exact rfl rfl rfl, rowsOf_upsert found keyed exact, putAll_twice]

/-- An upsert restores the uniqueness of its keys exactly when none of them has more than one row
before it. -/
theorem upsert_restores_iff (found : tables.lookup name = some t) (empty : t.rows = [])
    (keyed : primaryKey ≠ []) (history : List Write) (rows : List StoreRow) (runId : String)
    (exact : ∀ w ∈ history, w.table = name → ∀ row ∈ w.rows, ExactKey primaryKey row)
    (new : ∀ row ∈ rows, ExactKey primaryKey row) :
    Restores name tables history primaryKey rows runId ↔
      AtMostOne primaryKey rows (rowsOf name (written history tables)) := by
  rw [← unique_iff new]
  constructor
  · intro restores
    simpa only [rowsOf_upsert found keyed new] using restores.unique
  · intro unique
    refine ⟨?_, ?_, fun upserts => ?_, upsert_twice found keyed new history runId⟩
    · simpa only [rowsOf_upsert found keyed new] using unique
    · rw [rowsOf_upsert found keyed new, others_kept new]
    · have all : ∀ w ∈ history ++ [upsertOf name primaryKey rows runId], w.table = name →
          ∀ row ∈ w.rows, ExactKey primaryKey row := by
        intro w member about
        rcases List.mem_append.mp member with before | last
        · exact exact w before about
        · rw [List.mem_singleton.mp last]
          exact new
      refine pairwise_of_nodup (fun row member => ?_) ?_
      · obtain ⟨w, before, about, among⟩ := rows_written found empty _ row member
        exact all w before about row among
      · refine nodup_upserts found empty keyed all fun w member about => ?_
        rcases List.mem_append.mp member with before | last
        · exact upserts w before about
        · rw [List.mem_singleton.mp last]
          exact ⟨rfl, rfl⟩

end Upserts

/-- A row with a number in its one column. -/
def numbered (n : Int64) : StoreRow := OrderedMap.empty.insert "k" (.integer n)

/-- An empty shared table. -/
def emptyTable : MemoryStorage :=
  (∅ : MemoryStorage).insert "t"
    { schema := { name := "t", columns := [.required "k" .integer], primaryKey := ["k"]
                  writeMode := .append }
      mode := .shared, rows := [] }

/-- An append of rows that are numbered so. -/
def appendOf (ns : List Int64) : Write :=
  { table := "t", mode := .append, rows := ns.map numbered, primaryKey := ["k"], runId := "r" }

private theorem numbered_exact (ns : List Int64) : ∀ row ∈ ns.map numbered, ExactKey ["k"] row := by
  intro row member k key bits
  obtain ⟨n, -, rfl⟩ := List.mem_map.mp member
  rw [List.mem_singleton.mp key]
  exact fun same => nomatch same

private theorem appends_exact (nss : List (List Int64)) :
    ∀ w ∈ nss.map appendOf, w.table = "t" → ∀ row ∈ w.rows, ExactKey ["k"] row := by
  intro w member _
  obtain ⟨ns, -, rfl⟩ := List.mem_map.mp member
  exact numbered_exact ns

/-- With one row for each number, an upsert leaves one row for each of its numbers. -/
theorem appended_restored :
    Restores "t" emptyTable [appendOf [1, 2]] ["k"] ([2, 3].map numbered) "r" :=
  (upsert_restores_iff (t := ⟨_, .shared, []⟩) rfl rfl (List.cons_ne_nil _ _) [appendOf [1, 2]] _ "r"
    (appends_exact [[1, 2]]) (numbered_exact [2, 3])).mpr (by decide +kernel)

/-- Of two rows appended with one key, an upsert with this key replaces the first only. -/
theorem leftover_kept :
    (∀ w ∈ [appendOf [1, 1]], w.table = "t" → ∀ row ∈ w.rows, ExactKey ["k"] row) ∧
      (∀ row ∈ [1].map numbered, ExactKey ["k"] row) ∧
      (sharing ["k"] (numbered 1) (rowsOf "t"
        (written ([appendOf [1, 1]] ++ [upsertOf "t" ["k"] ([1].map numbered) "r"])
          emptyTable))).length = 2 ∧
      ¬ Restores "t" emptyTable [appendOf [1, 1]] ["k"] ([1].map numbered) "r" := by
  have two : (sharing ["k"] (numbered 1) (rowsOf "t"
      (written ([appendOf [1, 1]] ++ [upsertOf "t" ["k"] ([1].map numbered) "r"])
        emptyTable))).length = 2 := by decide +kernel
  refine ⟨appends_exact [[1, 1]], numbered_exact [1], two, fun restores => ?_⟩
  obtain ⟨last, -, only⟩ := restores.unique (numbered 1) (List.mem_singleton.mpr rfl)
  rw [only] at two
  cases two

end Substrate.Protocol.Rows
