/- ID: Substrate/Library/FiniteMap
   digest: Hash maps as association lists with unique keys, and maps listed in ascending key order. -/

import Mathlib.Algebra.GroupWithZero.Nat
import Mathlib.Data.List.AList
import Mathlib.Order.Lattice

set_option autoImplicit false
set_option relaxedAutoImplicit false

namespace Substrate.Library.FiniteMap

universe u v w

/-- A finite map whose keys occur once; the order of its entries carries no meaning. -/
abbrev KeyMap (K : Type u) (V : Type v) := AList (fun _ : K => V)

variable {K : Type u} {V : Type v} [DecidableEq K]

/-- The stored values, one for each key. -/
def values (m : KeyMap K V) : List V := m.entries.map Sigma.snd

/-- The number of keys. -/
def size (m : KeyMap K V) : Nat := m.entries.length

theorem lookup_eq_some_iff (m : KeyMap K V) (k : K) (v : V) :
    m.lookup k = some v ↔ (⟨k, v⟩ : Sigma fun _ : K => V) ∈ m.entries := by
  simpa using AList.mem_lookup_iff (a := k) (b := v) (s := m)

theorem mem_of_lookup {m : KeyMap K V} {k : K} {v : V} (found : m.lookup k = some v) : k ∈ m :=
  AList.lookup_isSome.mp (by simp [found])

theorem lookup_of_mem {m : KeyMap K V} {k : K} (member : k ∈ m) :
    ∃ v, m.lookup k = some v :=
  Option.isSome_iff_exists.mp (AList.lookup_isSome.mpr member)

theorem mem_values {m : KeyMap K V} {v : V} : v ∈ values m ↔ ∃ k, m.lookup k = some v := by
  simp only [values, List.mem_map, lookup_eq_some_iff]
  constructor
  · rintro ⟨⟨k, w⟩, member, rfl⟩
    exact ⟨k, member⟩
  · rintro ⟨k, member⟩
    exact ⟨⟨k, v⟩, member, rfl⟩

/-- Two keys never share a value whose image under `f` is the same. -/
def InjectiveOn {β : Type w} (f : V → β) (m : KeyMap K V) : Prop :=
  ∀ ⦃i j : K⦄ ⦃a b : V⦄, m.lookup i = some a → m.lookup j = some b → f a = f b → i = j

theorem nodup_map_values {β : Type w} {f : V → β} {m : KeyMap K V} (inj : InjectiveOn f m) :
    ((values m).map f).Nodup := by
  have keys : m.entries.Pairwise fun x y => x.1 ≠ y.1 :=
    (List.pairwise_map.mp m.nodupKeys)
  rw [values, List.map_map, List.Nodup, List.pairwise_map]
  refine List.Pairwise.imp_of_mem ?_ keys
  intro x y hx hy distinct same
  exact distinct (inj ((lookup_eq_some_iff m x.1 x.2).mpr hx)
    ((lookup_eq_some_iff m y.1 y.2).mpr hy) same)

theorem lookup_insert_of (m : KeyMap K V) (k j : K) (v : V) :
    (m.insert k v).lookup j = if j = k then some v else m.lookup j := by
  split
  · rename_i same
    subst same
    exact AList.lookup_insert m
  · rename_i other
    exact AList.lookup_insert_ne other

theorem lookup_erase_of (m : KeyMap K V) (k j : K) :
    (m.erase k).lookup j = if j = k then none else m.lookup j := by
  split
  · rename_i same
    subst same
    exact AList.lookup_erase j m
  · rename_i other
    exact AList.lookup_erase_ne other

theorem InjectiveOn.erase {β : Type w} {f : V → β} {m : KeyMap K V} (inj : InjectiveOn f m)
    (k : K) : InjectiveOn f (m.erase k) := by
  intro i j a b hi hj same
  rw [lookup_erase_of] at hi hj
  split_ifs at hi hj
  exact inj hi hj same

/-- A value whose image is new keeps the images apart. -/
theorem InjectiveOn.insert {β : Type w} {f : V → β} {m : KeyMap K V} (inj : InjectiveOn f m)
    {k : K} {v : V} (fresh : ∀ j b, m.lookup j = some b → f b ≠ f v) :
    InjectiveOn f (m.insert k v) := by
  intro i j a b hi hj same
  rw [lookup_insert_of] at hi hj
  split_ifs at hi hj with ik jk jk
  · exact ik.trans jk.symm
  · obtain rfl := Option.some.inj hi
    exact absurd same.symm (fresh j b hj)
  · obtain rfl := Option.some.inj hj
    exact absurd same (fresh i a hi)
  · exact inj hi hj same

private theorem kreplace_cons_self (k : K) (v b : V) (l : List (Sigma fun _ : K => V)) :
    List.kreplace k v (⟨k, b⟩ :: l) = ⟨k, v⟩ :: l :=
  List.lookmap_cons_some _ _ (by simp)

private theorem kreplace_cons_ne {k a : K} (other : k ≠ a) (v b : V)
    (l : List (Sigma fun _ : K => V)) :
    List.kreplace k v (⟨a, b⟩ :: l) = ⟨a, b⟩ :: List.kreplace k v l :=
  List.lookmap_cons_none _ _ (by simp [other])

private theorem dlookup_kreplace {l : List (Sigma fun _ : K => V)} {k : K}
    (member : k ∈ l.keys) (j : K) (v : V) :
    List.dlookup j (List.kreplace k v l) = if j = k then some v else List.dlookup j l := by
  induction l with
  | nil => simp at member
  | cons e l ih =>
      obtain ⟨a, b⟩ := e
      by_cases hit : k = a
      · subst hit
        rw [kreplace_cons_self]
        by_cases same : j = k
        · subst same
          simp
        · rw [List.dlookup_cons_ne l ⟨k, v⟩ same, List.dlookup_cons_ne l ⟨k, b⟩ same, if_neg same]
      · have later : k ∈ l.keys := by simpa [hit] using member
        rw [kreplace_cons_ne hit]
        by_cases there : j = a
        · subst there
          simp [Ne.symm hit]
        · have skip : ∀ l' : List (Sigma fun _ : K => V),
              List.dlookup j (⟨a, b⟩ :: l') = List.dlookup j l' :=
            fun l' => List.dlookup_cons_ne l' ⟨a, b⟩ there
          rw [skip, skip, ih later]

theorem lookup_replace {m : KeyMap K V} {k : K} {old : V} (found : m.lookup k = some old) (v : V)
    (j : K) : (m.replace k v).lookup j = if j = k then some v else m.lookup j :=
  dlookup_kreplace (AList.mem_keys.mp (mem_of_lookup found)) j v

/-- Replacing a value by one with the same image keeps the images apart. -/
theorem InjectiveOn.replace {β : Type w} {f : V → β} {m : KeyMap K V} (inj : InjectiveOn f m)
    {k : K} {old v : V} (found : m.lookup k = some old) (image : f v = f old) :
    InjectiveOn f (m.replace k v) := by
  have back : ∀ i a, (m.replace k v).lookup i = some a → ∃ b, m.lookup i = some b ∧ f a = f b := by
    intro i a hi
    rw [lookup_replace found] at hi
    split_ifs at hi with ik
    · obtain rfl := Option.some.inj hi
      exact ⟨old, by rw [ik, found], image⟩
    · exact ⟨a, hi, rfl⟩
  intro i j a b hi hj same
  obtain ⟨a', hi', ha⟩ := back i a hi
  obtain ⟨b', hj', hb⟩ := back j b hj
  exact inj hi' hj' (by rw [← ha, ← hb, same])

theorem replace_self {m : KeyMap K V} {k : K} {v : V} (found : m.lookup k = some v) :
    m.replace k v = m :=
  AList.ext (List.kreplace_self m.nodupKeys ((lookup_eq_some_iff m k v).mp found))

private theorem kreplace_kreplace (l : List (Sigma fun _ : K => V)) (k : K) (v w : V) :
    List.kreplace k w (List.kreplace k v l) = List.kreplace k w l := by
  induction l with
  | nil => rfl
  | cons e l ih =>
      obtain ⟨a, b⟩ := e
      by_cases hit : k = a
      · subst hit
        simp only [kreplace_cons_self]
      · simp only [kreplace_cons_ne hit, ih]

theorem replace_replace (m : KeyMap K V) (k : K) (v w : V) :
    (m.replace k v).replace k w = m.replace k w :=
  AList.ext (kreplace_kreplace m.entries k v w)

private theorem kerase_kreplace (l : List (Sigma fun _ : K => V)) {k j : K} (other : j ≠ k) (v : V) :
    List.kerase j (List.kreplace k v l) = List.kreplace k v (List.kerase j l) := by
  induction l with
  | nil => rfl
  | cons e l ih =>
      obtain ⟨a, b⟩ := e
      by_cases hit : k = a
      · subst hit
        rw [kreplace_cons_self, List.kerase_cons_ne other, List.kerase_cons_ne other,
          kreplace_cons_self]
      · rw [kreplace_cons_ne hit]
        by_cases gone : j = a
        · subst gone
          simp
        · rw [List.kerase_cons_ne gone, List.kerase_cons_ne gone, kreplace_cons_ne hit, ih]

theorem erase_replace (m : KeyMap K V) {k j : K} (other : j ≠ k) (v : V) :
    (m.replace k v).erase j = (m.erase j).replace k v :=
  AList.ext (kerase_kreplace m.entries other v)

private theorem filter_kreplace {p : (Sigma fun _ : K => V) → Bool} {k : K} {v : V}
    (after : p ⟨k, v⟩ = false) {l : List (Sigma fun _ : K => V)}
    (before : ∀ b, (⟨k, b⟩ : Sigma fun _ : K => V) ∈ l → p ⟨k, b⟩ = false) :
    (List.kreplace k v l).filter p = l.filter p := by
  induction l with
  | nil => rfl
  | cons e l ih =>
      obtain ⟨a, b⟩ := e
      by_cases hit : k = a
      · subst hit
        rw [kreplace_cons_self, List.filter_cons, List.filter_cons, after,
          before b List.mem_cons_self]
        rfl
      · rw [kreplace_cons_ne hit, List.filter_cons, List.filter_cons,
          ih fun c member => before c (List.mem_cons_of_mem _ member)]

theorem filter_replace {p : (Sigma fun _ : K => V) → Bool} {m : KeyMap K V} {k : K} {old v : V}
    (found : m.lookup k = some old) (before : p ⟨k, old⟩ = false) (after : p ⟨k, v⟩ = false) :
    (m.replace k v).entries.filter p = m.entries.filter p := by
  refine filter_kreplace after fun b member => ?_
  rw [← lookup_eq_some_iff, found] at member
  rwa [← Option.some.inj member]

theorem size_insert_le (m : KeyMap K V) (k : K) (v : V) : size (m.insert k v) ≤ size m + 1 := by
  simp only [size, AList.entries_insert, List.length_cons]
  exact Nat.succ_le_succ (List.kerase_sublist k m.entries).length_le

theorem size_insert_new {m : KeyMap K V} {k : K} (new : m.lookup k = none) (v : V) :
    size (m.insert k v) = size m + 1 := by
  have absent : k ∉ m := fun member => by simp [AList.lookup_eq_none.mp new] at member
  rw [size, AList.entries_insert_of_notMem absent, List.length_cons]
  rfl

theorem size_erase_add {m : KeyMap K V} {k : K} {v : V} (found : m.lookup k = some v) :
    size (m.erase k) + 1 = size m := by
  obtain ⟨_, before, after, -, split, rest⟩ := List.exists_of_kerase (mem_of_lookup found)
  show (List.kerase k m.entries).length + 1 = m.entries.length
  rw [rest, split]
  simp [Nat.add_assoc]

theorem size_erase_le (m : KeyMap K V) (k : K) : size (m.erase k) ≤ size m :=
  (List.kerase_sublist k m.entries).length_le

theorem size_replace (m : KeyMap K V) (k : K) (v : V) : size (m.replace k v) = size m := by
  have keys := congrArg List.length (AList.keys_replace k v m)
  simpa [size, AList.keys, List.keys] using keys

theorem size_eq_zero {m : KeyMap K V} : size m = 0 ↔ ∀ k, m.lookup k = none := by
  constructor
  · intro empty k
    rw [size, List.length_eq_zero_iff] at empty
    simp [AList.lookup, empty]
  · intro absent
    rw [size, List.length_eq_zero_iff, List.eq_nil_iff_forall_not_mem]
    rintro ⟨k, v⟩ member
    exact Option.some_ne_none v (((lookup_eq_some_iff m k v).mpr member).symm.trans (absent k))

private theorem sum_kerase (f : V → Nat) (k : K) (l : List (Sigma fun _ : K => V)) :
    (l.map fun e => f e.2).sum =
      ((List.kerase k l).map fun e => f e.2).sum + ((List.dlookup k l).map f).getD 0 := by
  induction l with
  | nil => rfl
  | cons e l ih =>
      obtain ⟨a, b⟩ := e
      by_cases hit : k = a
      · subst hit
        simp [Nat.add_comm]
      · rw [List.kerase_cons_ne hit, List.dlookup_cons_ne l ⟨a, b⟩ hit, List.map_cons, List.map_cons,
          List.sum_cons, List.sum_cons, ih, Nat.add_assoc]

theorem sum_values_insert (f : V → Nat) (m : KeyMap K V) (k : K) (v : V) :
    ((values (m.insert k v)).map f).sum + ((m.lookup k).map f).getD 0 =
      ((values m).map f).sum + f v := by
  have before := sum_kerase f k m.entries
  simp only [values, AList.entries_insert, List.map_cons, List.sum_cons, List.map_map]
  change f v + ((List.kerase k m.entries).map fun e => f e.2).sum + _ =
    (m.entries.map fun e => f e.2).sum + f v
  rw [before]
  exact (Nat.add_assoc _ _ _).trans (Nat.add_comm _ _)

theorem le_sum_values {f : V → Nat} {m : KeyMap K V} {k : K} {v : V} (found : m.lookup k = some v) :
    f v ≤ ((values m).map f).sum := by
  have there : List.dlookup k m.entries = some v := found
  have total := sum_kerase f k m.entries
  rw [there] at total
  rw [values, List.map_map]
  exact Nat.le_trans (Nat.le_add_left _ _) (Nat.le_of_eq total.symm)

section MapValues

variable {W : Type w} (f : V → W)

omit [DecidableEq K] in
private theorem keys_map (l : List (Sigma fun _ : K => V)) :
    (l.map fun e => (⟨e.1, f e.2⟩ : Sigma fun _ : K => W)).keys = l.keys := by
  simp [List.keys, Function.comp_def]

/-- The same keys in the same order, each value under `f`. -/
def mapValues (m : KeyMap K V) : KeyMap K W where
  entries := m.entries.map fun e => ⟨e.1, f e.2⟩
  nodupKeys := by
    rw [List.NodupKeys, keys_map]
    exact m.nodupKeys

omit [DecidableEq K] in
@[simp] theorem keys_mapValues (m : KeyMap K V) : (mapValues f m).keys = m.keys :=
  keys_map f m.entries

omit [DecidableEq K] in
@[simp] theorem size_mapValues (m : KeyMap K V) : size (mapValues f m) = size m :=
  List.length_map _

omit [DecidableEq K] in
@[simp] theorem values_mapValues (m : KeyMap K V) : values (mapValues f m) = (values m).map f := by
  simp [values, mapValues, Function.comp_def]

private theorem dlookup_map (k : K) (l : List (Sigma fun _ : K => V)) :
    List.dlookup k (l.map fun e => (⟨e.1, f e.2⟩ : Sigma fun _ : K => W)) =
      (List.dlookup k l).map f := by
  induction l with
  | nil => rfl
  | cons e l ih =>
      obtain ⟨a, b⟩ := e
      by_cases hit : k = a
      · subst hit
        simp
      · rw [List.map_cons, List.dlookup_cons_ne _ (⟨a, f b⟩ : Sigma fun _ : K => W) hit, ih,
          List.dlookup_cons_ne _ (⟨a, b⟩ : Sigma fun _ : K => V) hit]

@[simp] theorem lookup_mapValues (m : KeyMap K V) (k : K) :
    (mapValues f m).lookup k = (m.lookup k).map f :=
  dlookup_map f k m.entries

omit [DecidableEq K] in
@[simp] theorem mem_mapValues (m : KeyMap K V) (k : K) : k ∈ mapValues f m ↔ k ∈ m := by
  simp only [AList.mem_keys, keys_mapValues]

private theorem kerase_map (k : K) (l : List (Sigma fun _ : K => V)) :
    List.kerase k (l.map fun e => (⟨e.1, f e.2⟩ : Sigma fun _ : K => W)) =
      (List.kerase k l).map fun e => ⟨e.1, f e.2⟩ := by
  induction l with
  | nil => rfl
  | cons e l ih =>
      obtain ⟨a, b⟩ := e
      by_cases hit : k = a
      · subst hit
        simp
      · simp [hit, ih]

theorem erase_mapValues (m : KeyMap K V) (k : K) :
    (mapValues f m).erase k = mapValues f (m.erase k) :=
  AList.ext (kerase_map f k m.entries)

theorem insert_mapValues (m : KeyMap K V) (k : K) (v : V) :
    (mapValues f m).insert k (f v) = mapValues f (m.insert k v) := by
  refine AList.ext ?_
  simp only [AList.entries_insert, mapValues, List.map_cons, kerase_map]

theorem replace_mapValues (m : KeyMap K V) (k : K) (v : V) :
    (mapValues f m).replace k (f v) = mapValues f (m.replace k v) := by
  have entries : ∀ l : List (Sigma fun _ : K => V),
      List.kreplace k (f v) (l.map fun e => (⟨e.1, f e.2⟩ : Sigma fun _ : K => W)) =
        (List.kreplace k v l).map fun e => ⟨e.1, f e.2⟩ := by
    intro l
    induction l with
    | nil => rfl
    | cons e l ih =>
        obtain ⟨a, b⟩ := e
        by_cases hit : k = a
        · subst hit
          simp only [List.map_cons, kreplace_cons_self]
        · simp only [List.map_cons, kreplace_cons_ne hit, ih]
  exact AList.ext (entries m.entries)

end MapValues

section Filling

variable {K : Type u} {V : Type v} [DecidableEq K]

/-- Insert the entries of a list one after another. -/
def fill (m : KeyMap K V) (l : List (Sigma fun _ : K => V)) : KeyMap K V :=
  l.foldl (fun m e => m.insert e.1 e.2) m

theorem entries_fill {m : KeyMap K V} {l : List (Sigma fun _ : K => V)}
    (distinct : (l.map Sigma.fst).Nodup) (new : ∀ e ∈ l, e.1 ∉ m) :
    (fill m l).entries = l.reverse ++ m.entries := by
  induction l generalizing m with
  | nil => rfl
  | cons e l ih =>
      rw [List.map_cons, List.nodup_cons] at distinct
      obtain ⟨first, rest⟩ := List.forall_mem_cons.mp new
      have later : ∀ d ∈ l, d.1 ∉ m.insert e.1 e.2 := by
        intro d member there
        rcases AList.mem_insert _ |>.mp there with same | old
        · exact distinct.1 (same ▸ List.mem_map_of_mem member)
        · exact rest d member old
      show (fill (m.insert e.1 e.2) l).entries = _
      rw [ih distinct.2 later, AList.entries_insert_of_notMem first, List.reverse_cons,
        List.append_assoc]
      rfl

theorem fill_perm_iff (l : List (Sigma fun _ : K => V)) :
    (fill ∅ l).entries.Perm l ↔ (l.map Sigma.fst).Nodup := by
  constructor
  · intro whole
    exact (whole.map Sigma.fst).nodup_iff.mp (fill ∅ l).keys_nodup
  · intro distinct
    rw [entries_fill distinct fun e _ => AList.notMem_empty e.1, AList.empty_entries,
      List.append_nil]
    exact List.reverse_perm l

theorem same_lookups_iff {m n : KeyMap K V} :
    (∀ k, m.lookup k = n.lookup k) ↔ m.entries.Perm n.entries := by
  constructor
  · intro same
    refine List.lookup_ext m.nodupKeys n.nodupKeys fun k v => ?_
    exact (congrArg (v ∈ ·) (same k)).to_iff
  · exact fun perm k => AList.perm_lookup perm

end Filling

/-- A finite map that lists its entries in strictly ascending key order. -/
structure OrderedMap (K : Type u) (V : Type v) [LT K] where
  entries : List (K × V)
  ascending : entries.Pairwise fun a b => a.1 < b.1

namespace OrderedMap

variable [LT K]

instance [DecidableEq V] : DecidableEq (OrderedMap K V) := fun a b =>
  decidable_of_iff (a.entries = b.entries) (by cases a; cases b; simp)

def empty : OrderedMap K V := ⟨[], .nil⟩

instance : Inhabited (OrderedMap K V) := ⟨empty⟩

def singleton (k : K) (v : V) : OrderedMap K V := ⟨[(k, v)], by simp⟩

def get? (m : OrderedMap K V) (k : K) : Option V := m.entries.lookup k

def containsKey (m : OrderedMap K V) (k : K) : Bool := m.entries.any fun e => e.1 == k

theorem containsKey_iff (m : OrderedMap K V) (k : K) :
    m.containsKey k = true ↔ ∃ e ∈ m.entries, e.1 = k := by
  rw [containsKey, List.any_eq_true]
  exact exists_congr fun e => and_congr_right fun _ => beq_iff_eq

omit [DecidableEq K] in
/-- The same keys, each value under `f`. -/
def map {W : Type w} (f : V → W) (m : OrderedMap K V) : OrderedMap K W where
  entries := m.entries.map fun e => (e.1, f e.2)
  ascending := by
    rw [List.pairwise_map]
    exact m.ascending

end OrderedMap

namespace OrderedMap

variable {L : Type u} [LinearOrder L]

/-- Set a key's value in place, or enter the key where the order puts it. -/
def insertEntry (k : L) (v : V) : List (L × V) → List (L × V)
  | [] => [(k, v)]
  | e :: rest =>
      if k < e.1 then (k, v) :: e :: rest
      else if k = e.1 then (k, v) :: rest
      else e :: insertEntry k v rest

private theorem mem_insertEntry {k : L} {v : V} {l : List (L × V)} {e : L × V}
    (member : e ∈ insertEntry k v l) : e = (k, v) ∨ e ∈ l := by
  induction l with
  | nil => exact .inl (List.mem_singleton.mp member)
  | cons first rest ih =>
      rw [insertEntry] at member
      split_ifs at member
      · exact List.mem_cons.mp member
      · exact (List.mem_cons.mp member).imp_right (List.mem_cons_of_mem _)
      · rcases List.mem_cons.mp member with rfl | later
        · exact .inr List.mem_cons_self
        · exact (ih later).imp_right (List.mem_cons_of_mem _)

private theorem ascending_insertEntry {k : L} {v : V} {l : List (L × V)}
    (ascending : l.Pairwise fun a b => a.1 < b.1) :
    (insertEntry k v l).Pairwise fun a b => a.1 < b.1 := by
  induction l with
  | nil => exact List.pairwise_singleton _ _
  | cons first rest ih =>
      obtain ⟨below, rising⟩ := List.pairwise_cons.mp ascending
      rw [insertEntry]
      split_ifs with before same
      · refine List.pairwise_cons.mpr ⟨fun e member => ?_, ascending⟩
        rcases List.mem_cons.mp member with rfl | later
        · exact before
        · exact lt_trans before (below e later)
      · exact List.pairwise_cons.mpr ⟨fun e member => same ▸ below e member, rising⟩
      · refine List.pairwise_cons.mpr ⟨fun e member => ?_, ih rising⟩
        rcases mem_insertEntry member with rfl | old
        · exact lt_of_le_of_ne (not_lt.mp before) (Ne.symm same)
        · exact below e old

def insert (m : OrderedMap L V) (k : L) (v : V) : OrderedMap L V :=
  ⟨insertEntry k v m.entries, ascending_insertEntry m.ascending⟩

theorem mem_insert {m : OrderedMap L V} {k : L} {v : V} {e : L × V}
    (member : e ∈ (m.insert k v).entries) : e = (k, v) ∨ e ∈ m.entries :=
  mem_insertEntry member

/-- A key that is there keeps its value. -/
def orInsert (m : OrderedMap L V) (k : L) (v : V) : OrderedMap L V :=
  if m.containsKey k then m else m.insert k v

section Lookup

variable [DecidableEq L] {α : Type w} {key : α → L} {value : α → V}

theorem get?_insert (m : OrderedMap L V) (k j : L) (v : V) :
    (m.insert k v).get? j = if j = k then some v else m.get? j := by
  have cons (e : L × V) (l : List (L × V)) :
      (e :: l).lookup j = if j = e.1 then some e.2 else l.lookup j := by
    by_cases same : j = e.1
    · rw [if_pos same, same]
      exact List.lookup_cons_self
    · rw [if_neg same, List.lookup_cons, beq_false_of_ne same]
  have entered (l : List (L × V)) :
      (insertEntry k v l).lookup j = if j = k then some v else l.lookup j := by
    induction l with
    | nil => exact cons (k, v) []
    | cons e l ih =>
        rw [insertEntry]
        by_cases before : k < e.1
        · rw [if_pos before, cons]
        · rw [if_neg before]
          by_cases here : k = e.1
          · rw [if_pos here, cons, cons]
            by_cases same : j = k
            · rw [if_pos same, if_pos same]
            · rw [if_neg same, if_neg same, if_neg fun there => same (there.trans here.symm)]
          · rw [if_neg here, cons, cons, ih]
            by_cases same : j = k
            · rw [if_neg fun there => here (same.symm.trans there), if_pos same, if_pos same]
            · rw [if_neg same, if_neg same]
  exact entered m.entries

theorem get?_orInsert (m : OrderedMap L V) (k j : L) (v : V) :
    (m.orInsert k v).get? j = if j = k then some ((m.get? k).getD v) else m.get? j := by
  have found : (m.get? k).isSome = true ↔ ∃ e ∈ m.entries, e.1 = k := by
    rw [get?, List.lookup_isSome_iff]
    exact exists_congr fun e => and_congr_right fun _ => by rw [beq_iff_eq, eq_comm]
  -- the map's own order decides equality of keys here
  have contains := @containsKey_iff L V (fun a b => LinearOrder.toDecidableEq a b) _ m k
  unfold orInsert
  split_ifs with there same same
  · obtain ⟨old, known⟩ := Option.isSome_iff_exists.mp (found.mpr (contains.mp there))
    rw [same, known]
    rfl
  · rfl
  · rw [get?_insert, if_pos same, Option.not_isSome_iff_eq_none.mp fun known =>
      there (contains.mpr (found.mp known))]
    rfl
  · rw [get?_insert, if_neg same]

theorem get?_foldl_insert_of_ne {l : List α} {k : L} (other : ∀ a ∈ l, key a ≠ k)
    (m : OrderedMap L V) :
    (l.foldl (fun m a => m.insert (key a) (value a)) m).get? k = m.get? k := by
  induction l generalizing m with
  | nil => rfl
  | cons a l ih =>
      obtain ⟨first, rest⟩ := List.forall_mem_cons.mp other
      rw [List.foldl_cons, ih rest, get?_insert, if_neg first.symm]

theorem get?_foldl_insert {l : List α} {k : L} {v : V} (agree : ∀ a ∈ l, key a = k → value a = v)
    (set : ∃ a ∈ l, key a = k) (m : OrderedMap L V) :
    (l.foldl (fun m a => m.insert (key a) (value a)) m).get? k = some v := by
  induction l generalizing m with
  | nil => simp at set
  | cons a l ih =>
      obtain ⟨first, rest⟩ := List.forall_mem_cons.mp agree
      rw [List.foldl_cons]
      by_cases later : ∃ b ∈ l, key b = k
      · exact ih rest later _
      · obtain ⟨b, member, here⟩ := set
        rcases List.mem_cons.mp member with rfl | last
        · rw [get?_foldl_insert_of_ne fun c there same => later ⟨c, there, same⟩, get?_insert,
            if_pos here.symm, first here]
        · exact absurd ⟨b, last, here⟩ later

end Lookup

section Filled

variable {W : Type v}

private theorem insertEntry_perm {k : L} {v : W} {l : List (L × W)} (fresh : k ∉ l.map Prod.fst) :
    (insertEntry k v l).Perm ((k, v) :: l) := by
  induction l with
  | nil => exact .refl _
  | cons e l ih =>
      rw [List.map_cons, List.mem_cons, not_or] at fresh
      rw [insertEntry]
      split_ifs with before same
      · exact .refl _
      · exact absurd same fresh.1
      · exact ((ih fresh.2).cons e).trans (.swap _ _ _)

theorem foldl_insert_perm {l : List (L × W)} {m : OrderedMap L W}
    (distinct : ((l ++ m.entries).map Prod.fst).Nodup) :
    (l.foldl (fun m e => m.insert e.1 e.2) m).entries.Perm (l ++ m.entries) := by
  induction l generalizing m with
  | nil => exact .refl _
  | cons e l ih =>
      rw [List.cons_append, List.map_cons, List.nodup_cons] at distinct
      have fresh : e.1 ∉ m.entries.map Prod.fst := fun there => distinct.1 (by
        rw [List.map_append]
        exact List.mem_append_right _ there)
      have moved : (l ++ (m.insert e.1 e.2).entries).Perm (e :: (l ++ m.entries)) :=
        ((insertEntry_perm fresh).append_left l).trans List.perm_middle
      refine (ih ?_).trans moved
      rw [(moved.map Prod.fst).nodup_iff, List.map_cons, List.nodup_cons]
      exact distinct

end Filled

end OrderedMap

theorem eq_of_perm_of_keys {K : Type u} {V : Type v} {xs ys : List (K × V)}
    (keys : xs.map Prod.fst = ys.map Prod.fst) (distinct : (xs.map Prod.fst).Nodup)
    (perm : xs.Perm ys) : xs = ys := by
  induction xs generalizing ys with
  | nil => exact (List.nil_perm.mp perm).symm
  | cons x xs ih =>
      cases ys with
      | nil => cases keys
      | cons y ys =>
          obtain ⟨head, tail⟩ := List.cons.inj keys
          obtain ⟨absent, distinct⟩ := List.nodup_cons.mp distinct
          have same : x = y := by
            rcases List.mem_cons.mp (perm.subset List.mem_cons_self) with same | later
            · exact same
            · rw [show xs.map Prod.fst = ys.map Prod.fst from tail] at absent
              exact absurd (List.mem_map_of_mem later) absent
          subst same
          rw [ih tail distinct ((List.perm_cons x).mp perm)]

end Substrate.Library.FiniteMap
