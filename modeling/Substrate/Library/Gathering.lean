/- ID: Substrate/Library/Gathering
   digest: The first element of each key in ascending order of the keys, however it is collected. -/

import Mathlib.Data.List.Induction
import Mathlib.Data.List.Sort
import Substrate.Library.FiniteMap

set_option autoImplicit false
set_option relaxedAutoImplicit false

namespace Substrate.Library.Gathering

open Substrate.Library.FiniteMap (OrderedMap)

universe u v w

variable {α : Type u} {κ : Type v} [LinearOrder κ] {key : α → κ} {l r : List α}

/-- The first element of a key. -/
def firstOf (key : α → κ) (k : κ) (l : List α) : Option α := l.find? fun a => decide (key a = k)

theorem firstOf_cons (k : κ) (a : α) (l : List α) :
    firstOf key k (a :: l) = if key a = k then some a else firstOf key k l := by
  unfold firstOf
  rw [List.find?_cons]
  by_cases same : key a = k
  · simp [same]
  · simp [same]

theorem firstOf_some {k : κ} {a : α} (found : firstOf key k l = some a) : a ∈ l ∧ key a = k :=
  ⟨List.mem_of_find?_eq_some found, of_decide_eq_true (@List.find?_some α _ a l found)⟩

theorem firstOf_isSome {k : κ} : (∃ a, firstOf key k l = some a) ↔ ∃ a ∈ l, key a = k := by
  rw [← Option.isSome_iff_exists, firstOf, List.find?_isSome]
  exact exists_congr fun a => and_congr_right fun _ => decide_eq_true_iff

/-- A list of the first element of each key, in ascending order of the keys. -/
structure Gathers (key : α → κ) (l r : List α) : Prop where
  ascending : r.Pairwise fun a b => key a < key b
  members : ∀ a, a ∈ r ↔ firstOf key (key a) l = some a

theorem Gathers.unique {r' : List α} (one : Gathers key l r) (other : Gathers key l r') : r = r' := by
  have : Std.Irrefl fun a b : α => key a < key b := ⟨fun a => lt_irrefl (key a)⟩
  have : Std.Antisymm fun a b : α => key a < key b :=
    ⟨fun a b before after => absurd after (lt_asymm before)⟩
  exact one.ascending.eq_of_mem_iff other.ascending fun a =>
    (one.members a).trans (other.members a).symm

theorem Gathers.rekey {ι : Type w} [LinearOrder ι] {other : α → ι} (gathers : Gathers key l r)
    (same : ∀ a ∈ l, ∀ b ∈ l, (key a = key b ↔ other a = other b))
    (mono : ∀ a ∈ l, ∀ b ∈ l, key a < key b → other a < other b) : Gathers other l r := by
  have listed : ∀ a ∈ r, a ∈ l := fun a member =>
    (firstOf_some ((gathers.members a).mp member)).1
  refine ⟨gathers.ascending.imp_of_mem fun a b before =>
    mono _ (listed _ a) _ (listed _ b) before, fun a => ?_⟩
  have agree (there : a ∈ l) : firstOf key (key a) l = firstOf other (other a) l := by
    have alike : ∀ rest ⊆ l, firstOf key (key a) rest = firstOf other (other a) rest := by
      intro rest inside
      induction rest with
      | nil => rfl
      | cons b rest ih =>
          obtain ⟨first, inside⟩ := List.cons_subset.mp inside
          rw [firstOf_cons, firstOf_cons, ih inside]
          exact if_congr (same b first a there) rfl rfl
    exact alike l fun _ => id
  constructor
  · intro member
    rw [← agree (listed a member)]
    exact (gathers.members a).mp member
  · intro found
    rw [← agree (firstOf_some found).1] at found
    exact (gathers.members a).mpr found

/-- Keep an element at the end, unless one of its key has been kept. -/
def keep (key : α → κ) (kept : List α) (a : α) : List α :=
  if kept.any fun k => decide (key k = key a) then kept else kept ++ [a]

theorem mem_foldl_keep (l before : List α) (a : α) :
    a ∈ l.foldl (keep key) before ↔
      a ∈ before ∨ (∀ b ∈ before, key b ≠ key a) ∧ firstOf key (key a) l = some a := by
  induction l generalizing before with
  | nil => simp [firstOf]
  | cons b l ih =>
      rw [List.foldl_cons, ih, firstOf_cons]
      have taken : (before.any fun k => decide (key k = key b)) = true ↔
          ∃ k ∈ before, key k = key b := by simp
      by_cases there : ∃ k ∈ before, key k = key b
      · rw [keep, if_pos (taken.mpr there)]
        refine or_congr_right (and_congr_right fun apart => ?_)
        obtain ⟨k, member, same⟩ := there
        rw [if_neg fun here => apart k member (same.trans here)]
      · rw [keep, if_neg (mt taken.mp there)]
        by_cases here : key b = key a
        · rw [if_pos here]
          have alone : ∀ k ∈ before, key k ≠ key a := fun k member same =>
            there ⟨k, member, same.trans here.symm⟩
          simp only [List.mem_append, List.mem_singleton, Option.some.injEq]
          constructor
          · rintro ((old | rfl) | ⟨apart, -⟩)
            · exact .inl old
            · exact .inr ⟨alone, rfl⟩
            · exact absurd here (apart b (.inr rfl))
          · rintro (old | ⟨-, rfl⟩)
            · exact .inl (.inl old)
            · exact .inl (.inr rfl)
        · rw [if_neg here]
          simp only [List.mem_append, List.mem_singleton]
          constructor
          · rintro ((old | rfl) | ⟨apart, found⟩)
            · exact .inl old
            · exact absurd rfl here
            · exact .inr ⟨fun k member => apart k (.inl member), found⟩
          · rintro (old | ⟨apart, found⟩)
            · exact .inl (.inl old)
            · refine .inr ⟨?_, found⟩
              rintro k (member | rfl)
              · exact apart k member
              · exact here

theorem foldl_keep_distinct (l : List α) {before : List α}
    (distinct : before.Pairwise fun a b => key a ≠ key b) :
    (l.foldl (keep key) before).Pairwise fun a b => key a ≠ key b := by
  induction l generalizing before with
  | nil => exact distinct
  | cons b l ih =>
      refine ih ?_
      unfold keep
      split_ifs with taken
      · exact distinct
      · refine List.pairwise_append.mpr ⟨distinct, List.pairwise_singleton _ _, ?_⟩
        intro a member c last same
        rw [List.mem_singleton.mp last] at same
        exact taken (List.any_eq_true.mpr ⟨a, member, decide_eq_true same⟩)

theorem gathers_sorted (le : α → α → Prop) [DecidableRel le] (compares : ∀ a b, le a b ↔ key a ≤ key b)
    (l : List α) : Gathers key l ((l.foldl (keep key) []).insertionSort le) := by
  have : Std.Total le := ⟨fun a b => by
    rw [compares, compares]
    exact le_total _ _⟩
  have : IsTrans α le := ⟨fun a b c first second => by
    rw [compares] at first second ⊢
    exact first.trans second⟩
  have distinct : (l.foldl (keep key) []).Pairwise fun a b => key a ≠ key b :=
    foldl_keep_distinct l .nil
  have sorted := List.pairwise_insertionSort le (l.foldl (keep key) [])
  have apart : ((l.foldl (keep key) []).insertionSort le).Pairwise fun a b => key a ≠ key b :=
    (List.Perm.pairwise_iff (fun different same => different same.symm)
      (List.perm_insertionSort le _)).mpr distinct
  refine ⟨(sorted.and apart).imp fun both => lt_of_le_of_ne ((compares _ _).mp both.1) both.2,
    fun a => ?_⟩
  rw [List.mem_insertionSort, mem_foldl_keep]
  simp

theorem gathers_keys {ks : List κ} (ascending : ks.Pairwise (· < ·))
    (keys : ∀ k, k ∈ ks ↔ ∃ a ∈ l, key a = k) : Gathers key l (ks.filterMap (firstOf key · l)) := by
  refine ⟨List.pairwise_filterMap.mpr (ascending.imp fun before a found b found' => ?_), fun a => ?_⟩
  · rw [(firstOf_some found).2, (firstOf_some found').2]
    exact before
  · rw [List.mem_filterMap]
    constructor
    · rintro ⟨k, -, found⟩
      rw [(firstOf_some found).2]
      exact found
    · intro found
      exact ⟨key a, (keys _).mpr ⟨a, (firstOf_some found).1, rfl⟩, found⟩

section Ordered

variable {m : OrderedMap κ α}

theorem get?_eq_some (m : OrderedMap κ α) (k : κ) (a : α) :
    m.get? k = some a ↔ (k, a) ∈ m.entries := by
  have ascending := m.ascending
  unfold OrderedMap.get?
  generalize m.entries = entries at ascending
  induction entries with
  | nil => simp
  | cons e entries ih =>
      obtain ⟨k', b⟩ := e
      obtain ⟨below, ascending⟩ := List.pairwise_cons.mp ascending
      rw [List.lookup_cons, List.mem_cons, Prod.mk.injEq]
      by_cases here : k = k'
      · rw [here, beq_self_eq_true]
        constructor
        · intro same
          exact .inl ⟨rfl, (Option.some.inj same).symm⟩
        · rintro (⟨-, rfl⟩ | later)
          · rfl
          · exact absurd (below _ later) (lt_irrefl _)
      · rw [beq_false_of_ne here]
        exact (ih ascending).trans ⟨.inr, fun either => either.resolve_left fun both => here both.1⟩

theorem gathers_values (holds : ∀ k, m.get? k = firstOf key k l) :
    Gathers key l (m.entries.map (·.2)) := by
  have keyed : ∀ e ∈ m.entries, key e.2 = e.1 := fun e member =>
    (firstOf_some ((holds e.1).symm.trans ((get?_eq_some m e.1 e.2).mpr member))).2
  refine ⟨List.pairwise_map.mpr (m.ascending.imp_of_mem fun one other before => ?_), fun a => ?_⟩
  · rw [keyed _ one, keyed _ other]
    exact before
  · rw [← holds, get?_eq_some, List.mem_map]
    constructor
    · rintro ⟨e, member, rfl⟩
      rw [keyed e member]
      exact member
    · intro member
      exact ⟨_, member, rfl⟩

theorem get?_foldl_orInsert (l : List α) (m : OrderedMap κ α) (k : κ) :
    (l.foldl (fun m a => m.orInsert (key a) a) m).get? k = (m.get? k).or (firstOf key k l) := by
  induction l generalizing m with
  | nil => simp [firstOf]
  | cons a l ih =>
      rw [List.foldl_cons, ih, OrderedMap.get?_orInsert, firstOf_cons]
      by_cases same : key a = k
      · rw [if_pos same.symm, if_pos same, same]
        cases m.get? k <;> rfl
      · rw [if_neg (Ne.symm same), if_neg same]

theorem get?_foldl_insert (l : List α) (m : OrderedMap κ α) (k : κ) :
    (l.foldl (fun m a => m.insert (key a) a) m).get? k =
      (firstOf key k l.reverse).or (m.get? k) := by
  induction l using List.reverseRec with
  | nil => rfl
  | append_singleton l a ih =>
      rw [List.foldl_append, List.foldl_cons, List.foldl_nil, OrderedMap.get?_insert,
        List.reverse_append, List.reverse_singleton, List.singleton_append, firstOf_cons, ih]
      by_cases same : key a = k
      · rw [if_pos same.symm, if_pos same]
        rfl
      · rw [if_neg (Ne.symm same), if_neg same]

theorem gathers_orInsert (key : α → κ) (l : List α) :
    Gathers key l
      ((l.foldl (fun m a => m.orInsert (key a) a) (.empty : OrderedMap κ α)).entries.map (·.2)) :=
  gathers_values fun k => (get?_foldl_orInsert l .empty k).trans rfl

theorem gathers_insert (key : α → κ) (l : List α) :
    Gathers key l.reverse
      ((l.foldl (fun m a => m.insert (key a) a) (.empty : OrderedMap κ α)).entries.map (·.2)) :=
  gathers_values fun k => (get?_foldl_insert l .empty k).trans (by
    rw [show (OrderedMap.empty : OrderedMap κ α).get? k = none from rfl, Option.or_none])

end Ordered

end Substrate.Library.Gathering
