/- ID: Substrate/Library/ExchangeSort
   digest: Sorting by pairwise exchange, and how it turns rows of equal key against a stable sort. -/

import Mathlib.Data.List.Rotate
import Mathlib.Data.List.Sort
import Mathlib.Data.Finset.Sort

set_option autoImplicit false
set_option relaxedAutoImplicit false

namespace Substrate.Library.ExchangeSort

universe u v w

variable {α : Type u} {κ : Type v} [LinearOrder κ] (key : α → κ)

/-- One round of the inner loop: the row in front is exchanged with every later row below it. -/
def round : α → List α → α × List α
  | p, [] => (p, [])
  | p, x :: xs =>
      if key x < key p then ((round x xs).1, p :: (round x xs).2)
      else ((round p xs).1, x :: (round p xs).2)

def rounds : Nat → List α → List α
  | 0, l => l
  | _ + 1, [] => []
  | n + 1, x :: xs => (round key x xs).1 :: rounds n (round key x xs).2

/-- The two nested loops over all `i < j`. -/
def exchangeSort (l : List α) : List α := rounds key l.length l

variable {key}

theorem round_perm (p : α) (xs : List α) :
    ((round key p xs).1 :: (round key p xs).2).Perm (p :: xs) := by
  induction xs generalizing p with
  | nil => exact .refl _
  | cons x xs ih =>
      rw [round]
      split_ifs
      · exact ((List.Perm.swap p _ _).trans ((ih x).cons p))
      · exact (List.Perm.swap x _ _).trans (((ih p).cons x).trans (List.Perm.swap p x xs))

theorem round_length (p : α) (xs : List α) : (round key p xs).2.length = xs.length := by
  simpa using (@round_perm α κ _ key p xs).length_eq

theorem round_le_front (p : α) (xs : List α) : key (round key p xs).1 ≤ key p := by
  induction xs generalizing p with
  | nil => exact le_refl _
  | cons x xs ih =>
      rw [round]
      split_ifs with below
      · exact (ih x).trans below.le
      · exact ih p

theorem round_le (p : α) (xs : List α) : ∀ y ∈ xs, key (round key p xs).1 ≤ key y := by
  induction xs generalizing p with
  | nil => simp
  | cons x xs ih =>
      intro y member
      rw [round]
      rcases List.mem_cons.mp member with rfl | later
      · split_ifs with below
        · exact round_le_front y xs
        · exact (round_le_front p xs).trans (not_lt.mp below)
      · split_ifs
        · exact ih x y later
        · exact ih p y later

theorem rounds_perm {n : Nat} {l : List α} : (rounds key n l).Perm l := by
  induction n generalizing l with
  | zero => exact .refl _
  | succ n ih =>
      cases l with
      | nil => exact .refl _
      | cons x xs => exact (ih.cons _).trans (round_perm x xs)

theorem exchangeSort_perm (l : List α) : (exchangeSort key l).Perm l := rounds_perm

theorem rounds_sorted {n : Nat} {l : List α} (enough : l.length ≤ n) :
    (rounds key n l).Pairwise fun a b => key a ≤ key b := by
  induction n generalizing l with
  | zero =>
      obtain rfl := List.length_eq_zero_iff.mp (Nat.le_zero.mp enough)
      exact .nil
  | succ n ih =>
      cases l with
      | nil => exact .nil
      | cons x xs =>
          refine List.pairwise_cons.mpr ⟨fun y member => ?_, ih ?_⟩
          · have there : y ∈ x :: xs :=
              (round_perm x xs).subset (List.mem_cons_of_mem _ (rounds_perm.subset member))
            rcases List.mem_cons.mp there with rfl | later
            · exact round_le_front y xs
            · exact round_le x xs y later
          · rw [round_length]
            exact Nat.le_of_succ_le_succ enough

theorem exchangeSort_sorted (l : List α) :
    (exchangeSort key l).Pairwise fun a b => key a ≤ key b :=
  rounds_sorted (Nat.le_refl _)

variable (key)

/-- A row of key `k` joins at the end; a row below `k` sends the first of them to the end. -/
def turn (k : κ) (held : List α) (x : α) : List α :=
  if key x = k then held ++ [x] else if key x < k then held.rotate 1 else held

/-- The rows of key `k` in the order in which exchanges leave them. -/
def turned (k : κ) (l : List α) : List α := l.foldl (turn key k) []

variable {key}

private theorem turn_same {k : κ} {x : α} (same : key x = k) (held : List α) :
    turn key k held x = held ++ [x] := if_pos same

private theorem turn_below {k : κ} {x : α} (below : key x < k) (held : List α) :
    turn key k held x = held.rotate 1 := by
  rw [turn, if_neg below.ne, if_pos below]

private theorem turn_above {k : κ} {x : α} (above : k < key x) (held : List α) :
    turn key k held x = held := by
  rw [turn, if_neg above.ne', if_neg above.not_gt]

private theorem foldl_round_below {k : κ} {p : α} (below : key p < k) (xs held : List α) :
    xs.foldl (turn key k) held = (round key p xs).2.foldl (turn key k) held := by
  induction xs generalizing p held with
  | nil => rfl
  | cons x xs ih =>
      rw [round]
      split_ifs with lower
      · rw [List.foldl_cons, List.foldl_cons, turn_below below, turn_below (lower.trans below),
          ih (lower.trans below)]
      · rw [List.foldl_cons, List.foldl_cons, ih below]

private theorem foldl_round_same {k : κ} {p : α} (same : key p = k) (xs held : List α)
    (moved : key (round key p xs).1 < k) :
    xs.foldl (turn key k) (p :: held) = (round key p xs).2.foldl (turn key k) held := by
  induction xs generalizing held with
  | nil => exact absurd same moved.ne
  | cons x xs ih =>
      rw [round] at moved ⊢
      split_ifs at moved ⊢ with lower
      · have below : key x < k := same ▸ lower
        rw [List.foldl_cons, List.foldl_cons, turn_below below, turn_same same,
          foldl_round_below below, List.rotate_cons_succ, List.rotate_zero]
      · rcases (same ▸ not_lt.mp lower : k ≤ key x).eq_or_lt with equal | above
        · rw [List.foldl_cons, List.foldl_cons, turn_same equal.symm, turn_same equal.symm,
            List.cons_append, ih _ moved]
        · rw [List.foldl_cons, List.foldl_cons, turn_above above, turn_above above, ih _ moved]

private theorem foldl_round_stays {k : κ} {p : α} (same : key p = k) (xs held : List α)
    (least : key (round key p xs).1 = k) :
    (round key p xs).1 = p ∧
      xs.foldl (turn key k) (p :: held) = p :: (round key p xs).2.foldl (turn key k) held := by
  induction xs generalizing held with
  | nil => exact ⟨rfl, rfl⟩
  | cons x xs ih =>
      rw [round] at least ⊢
      split_ifs at least ⊢ with lower
      · have down : k ≤ key x := least ▸ round_le_front x xs
        exact absurd (same ▸ lower) down.not_gt
      · rcases (same ▸ not_lt.mp lower : k ≤ key x).eq_or_lt with equal | above
        · rw [List.foldl_cons, List.foldl_cons, turn_same equal.symm, turn_same equal.symm,
            List.cons_append]
          exact ih _ least
        · rw [List.foldl_cons, List.foldl_cons, turn_above above, turn_above above]
          exact ih _ least

private theorem turned_above {k : κ} {x : α} (above : k < key x) (xs : List α) :
    turned key k (x :: xs) = turned key k xs := by
  rw [turned, List.foldl_cons, turn_above above, turned]

private theorem turned_round {k : κ} (p : α) (xs : List α) :
    turned key k (p :: xs) =
      if key (round key p xs).1 = k then (round key p xs).1 :: turned key k (round key p xs).2
      else turned key k (round key p xs).2 := by
  induction xs generalizing p with
  | nil =>
      rcases lt_trichotomy (key p) k with below | same | above
      · simp [round, turned, turn_below below, below.ne]
      · simp [round, turned, turn_same same, same]
      · simp [round, turned, turn_above above, above.ne']
  | cons x xs ih =>
      rcases lt_trichotomy (key p) k with below | same | above
      · rw [turned, List.foldl_cons, turn_below below, List.rotate_nil, foldl_round_below below,
          if_neg ((round_le_front p (x :: xs)).trans_lt below).ne, turned]
      · have down : key (round key p (x :: xs)).1 ≤ k := same ▸ round_le_front p (x :: xs)
        rw [turned, List.foldl_cons, turn_same same, List.nil_append]
        rcases down.eq_or_lt with least | moved
        · obtain ⟨front, stays⟩ := foldl_round_stays same (x :: xs) [] least
          rw [if_pos least, stays, turned, front]
        · rw [if_neg moved.ne, foldl_round_same same (x :: xs) [] moved, turned]
      · rw [round, turned_above above]
        by_cases lower : key x < key p
        · simp only [if_pos lower, turned_above above]
          exact ih x
        · have higher : k < key x := above.trans_le (not_lt.mp lower)
          simp only [if_neg lower, turned_above higher]
          rw [← turned_above above]
          exact ih p

private theorem filter_rounds {n : Nat} {l : List α} (enough : l.length ≤ n) (k : κ) :
    (rounds key n l).filter (key · = k) = turned key k l := by
  induction n generalizing l with
  | zero =>
      obtain rfl := List.length_eq_zero_iff.mp (Nat.le_zero.mp enough)
      rfl
  | succ n ih =>
      cases l with
      | nil => rfl
      | cons x xs =>
          have shorter : (round key x xs).2.length ≤ n := by
            rw [round_length]
            exact Nat.le_of_succ_le_succ enough
          rw [rounds, turned_round, List.filter_cons, ih shorter]
          simp only [decide_eq_true_eq]

theorem filter_exchangeSort (l : List α) (k : κ) :
    (exchangeSort key l).filter (key · = k) = turned key k l :=
  filter_rounds (Nat.le_refl _) k

theorem filter_insertionSort (l : List α) (k : κ) :
    (l.insertionSort fun a b => key a ≤ key b).filter (key · = k) = l.filter (key · = k) := by
  have total : Std.Total fun a b : α => key a ≤ key b := ⟨fun a b => le_total (key a) (key b)⟩
  have trans : IsTrans α fun a b => key a ≤ key b := ⟨fun _ _ _ => le_trans⟩
  have tied : (l.filter (key · = k)).Pairwise fun a b => key a ≤ key b := by
    refine List.pairwise_of_forall_mem_list fun a ha b hb => ?_
    have ka := of_decide_eq_true (List.mem_filter.mp ha).2
    have kb := of_decide_eq_true (List.mem_filter.mp hb).2
    rw [ka, kb]
  have kept := (List.sublist_insertionSort tied List.filter_sublist).filter (key · = k)
  simp only [List.filter_filter, Bool.and_self] at kept
  refine (kept.eq_of_length ?_).symm
  exact ((List.perm_insertionSort _ l).filter _).length_eq.symm

theorem insertionSort_sorted (l : List α) :
    (l.insertionSort fun a b => key a ≤ key b).Pairwise fun a b => key a ≤ key b := by
  have total : Std.Total fun a b : α => key a ≤ key b := ⟨fun a b => le_total (key a) (key b)⟩
  have trans : IsTrans α fun a b => key a ≤ key b := ⟨fun _ _ _ => le_trans⟩
  exact List.pairwise_insertionSort _ l

private theorem exchangeSort_perm_insertionSort (l : List α) :
    (exchangeSort key l).Perm (l.insertionSort fun a b => key a ≤ key b) :=
  (exchangeSort_perm l).trans (List.perm_insertionSort (fun a b => key a ≤ key b) l).symm

theorem exchangeSort_eq_insertionSort {l : List α} (distinct : (l.map key).Nodup) :
    exchangeSort key l = l.insertionSort fun a b => key a ≤ key b := by
  refine (exchangeSort_perm_insertionSort l).eq_of_pairwise ?_ (exchangeSort_sorted l)
    (insertionSort_sorted l)
  intro a b ha hb below above
  refine List.inj_on_of_nodup_map distinct ((exchangeSort_perm l).subset ha) ?_
    (le_antisymm below above)
  exact (List.mem_insertionSort _).mp hb

private theorem sorted_split {l : List α} (sorted : l.Pairwise fun a b => key a ≤ key b) {k : κ}
    (least : ∀ x ∈ l, k ≤ key x) :
    l.filter (key · = k) ++ l.filter (key · ≠ k) = l := by
  induction l with
  | nil => rfl
  | cons x l ih =>
      obtain ⟨head, tail⟩ := List.pairwise_cons.mp sorted
      by_cases same : key x = k
      · simp only [same, List.filter_cons, decide_true, if_true, ne_eq, not_true_eq_false,
          decide_false, Bool.false_eq_true, if_false, List.cons_append, List.cons.injEq, true_and]
        exact ih tail fun y member => least y (List.mem_cons_of_mem x member)
      · have beyond : ∀ y ∈ x :: l, key y ≠ k := by
          intro y member
          have above : k < key x := lt_of_le_of_ne (least x List.mem_cons_self) (Ne.symm same)
          rcases List.mem_cons.mp member with rfl | later
          · exact same
          · exact (above.trans_le (head y later)).ne'
        rw [List.filter_eq_nil_iff.mpr (by simpa using beyond),
          List.filter_eq_self.mpr (by simpa using beyond), List.nil_append]

private theorem sorted_blocks {l : List α} (sorted : l.Pairwise fun a b => key a ≤ key b)
    {keys : List κ} (ascending : keys.Pairwise (· < ·)) (covered : ∀ x ∈ l, key x ∈ keys) :
    (keys.flatMap fun k => l.filter (key · = k)) = l := by
  induction keys generalizing l with
  | nil =>
      have empty : l = [] := List.eq_nil_iff_forall_not_mem.mpr fun x member => by
        simpa using covered x member
      rw [empty]
      rfl
  | cons k keys ih =>
      obtain ⟨first, later⟩ := List.pairwise_cons.mp ascending
      have least : ∀ x ∈ l, k ≤ key x := fun x member => by
        rcases List.mem_cons.mp (covered x member) with same | there
        · exact same.ge
        · exact (first _ there).le
      have rest := ih (l := l.filter (key · ≠ k)) (sorted.sublist List.filter_sublist) later
        fun x member => by
          obtain ⟨inside, other⟩ := List.mem_filter.mp member
          exact (List.mem_cons.mp (covered x inside)).resolve_left (of_decide_eq_true other)
      rw [List.flatMap_cons]
      conv_rhs => rw [← sorted_split sorted least, ← rest]
      congr 1
      refine List.flatMap_congr fun k' member => ?_
      rw [List.filter_filter]
      refine List.filter_congr fun x _ => ?_
      by_cases hit : key x = k'
      · simp [hit, (first k' member).ne']
      · simp [hit]

omit [LinearOrder κ] in
private theorem flatMap_eq_iff {β : Type w} {a b : κ → List β} (same : ∀ k, (a k).length = (b k).length)
    (keys : List κ) : keys.flatMap a = keys.flatMap b ↔ ∀ k ∈ keys, a k = b k := by
  induction keys with
  | nil => simp
  | cons k keys ih =>
      rw [List.flatMap_cons, List.flatMap_cons, List.forall_mem_cons, ← ih]
      exact ⟨fun joined => List.append_inj joined (same k), fun ⟨here, rest⟩ => by rw [here, rest]⟩

theorem flatMap_sorted_iff {β : Type w} (f : α → List β) {l m : List α}
    (hl : l.Pairwise fun a b => key a ≤ key b) (hm : m.Pairwise fun a b => key a ≤ key b)
    (perm : l.Perm m) :
    l.flatMap f = m.flatMap f ↔
      ∀ k, (l.filter (key · = k)).flatMap f = (m.filter (key · = k)).flatMap f := by
  have lengths : ∀ k, ((l.filter (key · = k)).flatMap f).length =
      ((m.filter (key · = k)).flatMap f).length := fun k =>
    ((perm.filter _).flatMap_right f).length_eq
  have ascending := (l.map key).toFinset.sortedLT_sort.pairwise
  have inL : ∀ x ∈ l, key x ∈ (l.map key).toFinset.sort (· ≤ ·) := fun x member => by
    simpa using ⟨x, member, rfl⟩
  have inM : ∀ x ∈ m, key x ∈ (l.map key).toFinset.sort (· ≤ ·) := fun x member =>
    inL x (perm.symm.subset member)
  have blocks : l.flatMap f = m.flatMap f ↔ ∀ k ∈ (l.map key).toFinset.sort (· ≤ ·),
      (l.filter (key · = k)).flatMap f = (m.filter (key · = k)).flatMap f := by
    rw [← flatMap_eq_iff lengths, ← List.flatMap_assoc, ← List.flatMap_assoc,
      sorted_blocks hl ascending inL, sorted_blocks hm ascending inM]
  refine blocks.trans ⟨fun all k => ?_, fun all k _ => all k⟩
  by_cases there : k ∈ (l.map key).toFinset.sort (· ≤ ·)
  · exact all k there
  · have none' : ∀ x ∈ l, key x ≠ k := fun x member same => there (same ▸ inL x member)
    have none'' : ∀ x ∈ m, key x ≠ k := fun x member same => there (same ▸ inM x member)
    rw [List.filter_eq_nil_iff.mpr (by simpa using none'),
      List.filter_eq_nil_iff.mpr (by simpa using none'')]

theorem flatMap_exchangeSort_iff {β : Type w} (f : α → List β) (l : List α) :
    (exchangeSort key l).flatMap f = (l.insertionSort fun a b => key a ≤ key b).flatMap f ↔
      ∀ k, (turned key k l).flatMap f = (l.filter (key · = k)).flatMap f := by
  rw [flatMap_sorted_iff f (exchangeSort_sorted l) (insertionSort_sorted l)
    (exchangeSort_perm_insertionSort l)]
  simp only [filter_exchangeSort, filter_insertionSort]

end Substrate.Library.ExchangeSort
