/- ID: Substrate/Library/Framing
   digest: Framed fields and key-sorted rows can be read back. -/

import Mathlib.Algebra.Group.Nat.Defs
import Mathlib.Data.List.Basic
import Mathlib.Data.List.Count
import Mathlib.Data.List.Sort

set_option autoImplicit false
set_option relaxedAutoImplicit false

namespace Substrate.Library.Framing

universe u

variable {α : Type u} [DecidableEq α]

/-- Each field followed by one separator; the fields themselves may hold separators. -/
def frame (s : α) (fields : List (List α)) : List α := fields.flatMap (· ++ [s])

/-- The fields cut at every separator inside them. -/
def pieces (s : α) (fields : List (List α)) : List (List α) := fields.flatMap (·.splitOn s)

omit [DecidableEq α] in
@[simp] theorem frame_nil (s : α) : frame s [] = [] := rfl

omit [DecidableEq α] in
@[simp] theorem frame_cons (s : α) (f : List α) (fs : List (List α)) :
    frame s (f :: fs) = f ++ s :: frame s fs := by
  simp [frame]

theorem splitOn_frame (s : α) (fs : List (List α)) :
    (frame s fs).splitOn s = pieces s fs ++ [[]] := by
  induction fs with
  | nil => simp [pieces]
  | cons f fs ih =>
      rw [frame_cons, List.splitOn_append_cons_self, ih]
      simp [pieces]

/-- Framing remembers the pieces and nothing else. -/
theorem frame_eq_iff_pieces_eq (s : α) (fs gs : List (List α)) :
    frame s fs = frame s gs ↔ pieces s fs = pieces s gs := by
  constructor
  · intro same
    have cut := congrArg (List.splitOn s) same
    rw [splitOn_frame, splitOn_frame] at cut
    exact List.append_cancel_right cut
  · intro same
    have cut : (frame s fs).splitOn s = (frame s gs).splitOn s := by
      rw [splitOn_frame, splitOn_frame, same]
    simpa using congrArg [s].intercalate cut

/-- Two fields ended by a separator agree when they hold equally many separators. -/
theorem field_inj_of_count {s : α} {f g r r' : List α} (same : f ++ s :: r = g ++ s :: r')
    (count : f.count s = g.count s) : f = g ∧ r = r' := by
  have shorter : ∀ {f g r r' : List α}, f ++ s :: r = g ++ s :: r' → f.count s = g.count s →
      ∀ t, g = f ++ t → f = g ∧ r = r' := by
    intro f g r r' same count t ht
    cases t with
    | nil =>
        have fg : f = g := by simpa using ht.symm
        subst fg
        exact ⟨rfl, by simpa using same⟩
    | cons a t =>
        subst ht
        have head : s = a := by simpa using congrArg List.head? (List.append_cancel_left
          (by simpa using same : f ++ s :: r = f ++ (a :: (t ++ s :: r'))))
        subst head
        simp at count
  rcases List.append_eq_append_iff.mp same with ⟨t, ht, -⟩ | ⟨t, ht, -⟩
  · exact shorter same count t ht
  · obtain ⟨fg, rr⟩ := shorter same.symm count.symm t ht
    exact ⟨fg.symm, rr.symm⟩

theorem frame_inj_of_counts {s : α} {fs gs : List (List α)} (same : frame s fs = frame s gs)
    (counts : fs.map (List.count s) = gs.map (List.count s)) : fs = gs := by
  induction fs generalizing gs with
  | nil =>
      cases gs with
      | nil => rfl
      | cons g gs => simp at counts
  | cons f fs ih =>
      cases gs with
      | nil => simp at counts
      | cons g gs =>
          simp only [List.map_cons, List.cons.injEq] at counts
          rw [frame_cons, frame_cons] at same
          obtain ⟨rfl, rest⟩ := field_inj_of_count same counts.1
          rw [ih rest counts.2]

theorem pieces_of_notMem {s : α} {fs : List (List α)} (clean : ∀ f ∈ fs, s ∉ f) :
    pieces s fs = fs := by
  induction fs with
  | nil => rfl
  | cons f fs ih =>
      obtain ⟨here, rest⟩ := List.forall_mem_cons.mp clean
      have single : f.splitOn s = [f] := List.splitOnP_eq_singleton fun a member =>
        beq_false_of_ne fun same => here (same ▸ member)
      rw [pieces, List.flatMap_cons, single, ← pieces, ih rest]
      rfl

theorem frame_inj_of_notMem {s : α} {fs gs : List (List α)} (same : frame s fs = frame s gs)
    (clean : ∀ f ∈ fs, s ∉ f) (clean' : ∀ g ∈ gs, s ∉ g) : fs = gs := by
  rw [← pieces_of_notMem clean, ← pieces_of_notMem clean']
  exact (frame_eq_iff_pieces_eq s fs gs).mp same

/-- Big-endian bytes of `n`, in `k` bytes. -/
def beBytes : Nat → Nat → List UInt8
  | 0, _ => []
  | k + 1, n => beBytes k (n / 256) ++ [UInt8.ofNat n]

@[simp] theorem length_beBytes (k n : Nat) : (beBytes k n).length = k := by
  induction k generalizing n with
  | zero => rfl
  | succ k ih => simp [beBytes, ih]

theorem beBytes_inj {k n m : Nat} (hn : n < 256 ^ k) (hm : m < 256 ^ k)
    (same : beBytes k n = beBytes k m) : n = m := by
  induction k generalizing n m with
  | zero => omega
  | succ k ih =>
      obtain ⟨high, low⟩ := List.append_inj' same rfl
      have quotient := ih (Nat.div_lt_of_lt_mul (by rw [Nat.pow_succ] at hn; omega))
        (Nat.div_lt_of_lt_mul (by rw [Nat.pow_succ] at hm; omega)) high
      have remainder : n % 256 = m % 256 := by
        simpa using congrArg UInt8.toNat (List.singleton_injective low)
      omega

section Sorted

universe v

variable {κ : Type u} {β : Type v} (r : κ → κ → Prop) [DecidableRel r]

theorem orderedInsert_key_inj {a b : κ × β} {xs ys : List (κ × β)} (head : a.1 = b.1)
    (keys : xs.map Prod.fst = ys.map Prod.fst) :
    (xs.orderedInsert (fun p q => r p.1 q.1) a).map Prod.fst =
        (ys.orderedInsert (fun p q => r p.1 q.1) b).map Prod.fst ∧
      (xs.orderedInsert (fun p q => r p.1 q.1) a = ys.orderedInsert (fun p q => r p.1 q.1) b →
        a = b ∧ xs = ys) := by
  induction xs generalizing ys with
  | nil =>
      obtain rfl : ys = [] := by simpa using keys.symm
      simp [head]
  | cons x xs ih =>
      cases ys with
      | nil => simp at keys
      | cons y ys =>
          obtain ⟨first, rest⟩ := List.cons.inj keys
          change x.1 = y.1 at first
          obtain ⟨sorted, inj⟩ := ih rest
          by_cases before : r a.1 x.1
          · have before' : r b.1 y.1 := by rwa [← head, ← first]
            simp only [List.orderedInsert_cons, before, before', if_true]
            exact ⟨by simp [head, first, rest], List.cons.inj⟩
          · have before' : ¬ r b.1 y.1 := by rwa [← head, ← first]
            simp only [List.orderedInsert_cons, before, before', if_false]
            refine ⟨by rw [List.map_cons, List.map_cons, first, sorted], fun same => ?_⟩
            obtain ⟨rows, tails⟩ := List.cons.inj same
            obtain ⟨inserted, others⟩ := inj tails
            exact ⟨inserted, by rw [rows, others]⟩

/-- A stable sort of rows with the same keys in the same order loses nothing. -/
theorem insertionSort_key_inj {xs ys : List (κ × β)} (keys : xs.map Prod.fst = ys.map Prod.fst) :
    (xs.insertionSort fun p q => r p.1 q.1).map Prod.fst =
        (ys.insertionSort fun p q => r p.1 q.1).map Prod.fst ∧
      ((xs.insertionSort fun p q => r p.1 q.1) = (ys.insertionSort fun p q => r p.1 q.1) →
        xs = ys) := by
  induction xs generalizing ys with
  | nil =>
      obtain rfl : ys = [] := by simpa using keys.symm
      simp
  | cons x xs ih =>
      cases ys with
      | nil => simp at keys
      | cons y ys =>
          obtain ⟨first, rest⟩ := List.cons.inj keys
          change x.1 = y.1 at first
          obtain ⟨sorted, inj⟩ := ih rest
          obtain ⟨sorted', inj'⟩ := orderedInsert_key_inj r first sorted
          simp only [List.insertionSort_cons]
          refine ⟨sorted', fun same => ?_⟩
          obtain ⟨heads, tails⟩ := inj' same
          rw [heads, inj tails]

/-- Rows with the same keys in the same order are read back from their encodings laid end to end,
when the key tells how long an encoding is. -/
theorem flatMap_key_inj {γ : Type*} {encode : κ × β → List γ} {xs ys : List (κ × β)}
    (keys : xs.map Prod.fst = ys.map Prod.fst)
    (lengths : ∀ x ∈ xs, ∀ y ∈ ys, x.1 = y.1 → (encode x).length = (encode y).length)
    (inj : ∀ x ∈ xs, ∀ y ∈ ys, x.1 = y.1 → encode x = encode y → x = y)
    (same : xs.flatMap encode = ys.flatMap encode) : xs = ys := by
  induction xs generalizing ys with
  | nil => exact (List.map_eq_nil_iff.mp keys.symm).symm
  | cons x xs ih =>
      cases ys with
      | nil => simp at keys
      | cons y ys =>
          obtain ⟨first, rest⟩ := List.cons.inj keys
          change x.1 = y.1 at first
          rw [List.flatMap_cons, List.flatMap_cons] at same
          obtain ⟨heads, tails⟩ := List.append_inj same
            (lengths x List.mem_cons_self y List.mem_cons_self first)
          rw [inj x List.mem_cons_self y List.mem_cons_self first heads,
            ih rest (fun a ha b hb => lengths a (List.mem_cons_of_mem _ ha) b (List.mem_cons_of_mem _ hb))
              (fun a ha b hb => inj a (List.mem_cons_of_mem _ ha) b (List.mem_cons_of_mem _ hb)) tails]

theorem rows_ext [DecidableEq κ] {xs ys : List (κ × β)} (keys : xs.map Prod.fst = ys.map Prod.fst)
    (values : ∀ k ∈ xs.map Prod.fst, (xs.filter (·.1 == k)).map Prod.snd =
      (ys.filter (·.1 == k)).map Prod.snd) : xs = ys := by
  induction xs generalizing ys with
  | nil => exact (List.map_eq_nil_iff.mp keys.symm).symm
  | cons x xs ih =>
      cases ys with
      | nil => simp at keys
      | cons y ys =>
          obtain ⟨first, rest⟩ := List.cons.inj keys
          change x.1 = y.1 at first
          have head := values x.1 List.mem_cons_self
          simp only [List.filter_cons, first, beq_self_eq_true, if_true, List.map_cons,
            List.cons.injEq] at head
          rw [Prod.ext first head.1, ih rest fun k member => ?_]
          have here := values k (List.mem_cons_of_mem _ member)
          simp only [List.filter_cons, first] at here
          split_ifs at here
          · exact (List.cons.inj here).2
          · exact here

end Sorted

end Substrate.Library.Framing
