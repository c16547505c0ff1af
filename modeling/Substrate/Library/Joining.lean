/- ID: Substrate/Library/Joining
   digest: Words joined by a letter or a doubled one, and when two ways to join give one text. -/

import Mathlib.Data.List.Infix

set_option autoImplicit false
set_option relaxedAutoImplicit false

namespace Substrate.Library.Joining

universe u

variable {α : Type u} (c : α)

variable {c} in
theorem join_eq_iff {a b x y : List α} :
    a ++ c :: b = x ++ c :: y ↔
      a = x ∧ b = y ∨ (∃ m, x = a ++ c :: m ∧ b = m ++ c :: y) ∨
        ∃ m, a = x ++ c :: m ∧ y = m ++ c :: b := by
  constructor
  · intro equal
    rcases List.append_eq_append_iff.mp equal with ⟨m, rfl, rest⟩ | ⟨m, rfl, rest⟩
    · cases m with
      | nil => exact .inl ⟨(List.append_nil a).symm, (List.cons.inj rest).2⟩
      | cons d m =>
          obtain ⟨rfl, left⟩ := List.cons.inj rest
          exact .inr (.inl ⟨m, rfl, left⟩)
    · cases m with
      | nil => exact .inl ⟨List.append_nil x, (List.cons.inj rest).2.symm⟩
      | cons d m =>
          obtain ⟨rfl, left⟩ := List.cons.inj rest
          exact .inr (.inr ⟨m, rfl, left⟩)
  · rintro (⟨rfl, rfl⟩ | ⟨m, rfl, rfl⟩ | ⟨m, rfl, rfl⟩) <;> simp

/-- Words with the letter `c` twice between any two. -/
def glue : List (List α) → List α
  | [] => []
  | [p] => p
  | p :: q :: ps => p ++ c :: c :: glue (q :: ps)

/-- What follows the first word. -/
private def tail : List (List α) → List α
  | [] => []
  | p :: ps => c :: c :: glue c (p :: ps)

private theorem glue_cons (p : List α) (ps : List (List α)) :
    glue c (p :: ps) = p ++ tail c ps := by
  cases ps with
  | nil => exact (List.append_nil p).symm
  | cons q ps => rfl

private theorem glue_push (p : List α) (ps : List (List α)) (a : α) :
    a :: glue c (p :: ps) = glue c ((a :: p) :: ps) := by
  rw [glue_cons, glue_cons, List.cons_append]

/-- One text cut into words in two ways: from the first word that differs, the longer one goes on
past a separator of the other, or with the first letter of one. -/
inductive Recut : List (List α) → List (List α) → Prop
  | last (p : List α) : Recut [p] [p]
  | same (p : List α) {ps qs : List (List α)} : Recut ps qs → Recut (p :: ps) (p :: qs)
  | past (p d : List α) {ps qs : List (List α)} :
      Recut (d :: ps) qs → Recut ((p ++ c :: c :: d) :: ps) (p :: qs)
  | slid (p x : List α) {ps qs : List (List α)} :
      Recut ((c :: x) :: ps) qs → Recut ((p ++ [c]) :: x :: ps) (p :: qs)
  | pastRight (p d : List α) {ps qs : List (List α)} :
      Recut ps (d :: qs) → Recut (p :: ps) ((p ++ c :: c :: d) :: qs)
  | slidRight (p x : List α) {ps qs : List (List α)} :
      Recut ps ((c :: x) :: qs) → Recut (p :: ps) ((p ++ [c]) :: x :: qs)

variable {c}

theorem Recut.ne_nil {ps qs : List (List α)} (recut : Recut c ps qs) : ps ≠ [] ∧ qs ≠ [] := by
  cases recut <;> exact ⟨List.cons_ne_nil _ _, List.cons_ne_nil _ _⟩

theorem Recut.symm {ps qs : List (List α)} (recut : Recut c ps qs) : Recut c qs ps := by
  induction recut with
  | last p => exact .last p
  | same p _ ih => exact .same p ih
  | past p d _ ih => exact .pastRight p d ih
  | slid p x _ ih => exact .slidRight p x ih
  | pastRight p d _ ih => exact .past p d ih
  | slidRight p x _ ih => exact .slid p x ih

private theorem glue_rest {p : List α} {ps : List (List α)} (some : ps ≠ []) :
    glue c (p :: ps) = p ++ c :: c :: glue c ps := by
  cases ps with
  | nil => exact absurd rfl some
  | cons q ps => rfl

theorem Recut.glue_eq {ps qs : List (List α)} (recut : Recut c ps qs) : glue c ps = glue c qs := by
  induction recut with
  | last p => rfl
  | same p rest ih => rw [glue_rest rest.ne_nil.1, glue_rest rest.ne_nil.2, ih]
  | past p d rest ih =>
      rw [glue_rest rest.ne_nil.2, ← ih, glue_cons, glue_cons, List.append_assoc]
      rfl
  | slid p x rest ih =>
      rw [glue_rest rest.ne_nil.2, ← ih, ← glue_push, glue_rest (List.cons_ne_nil _ _),
        List.append_assoc]
      rfl
  | pastRight p d rest ih =>
      rw [glue_rest rest.ne_nil.1, ih, glue_cons, glue_cons, List.append_assoc]
      rfl
  | slidRight p x rest ih =>
      rw [glue_rest rest.ne_nil.1, ih, ← glue_push, glue_rest (List.cons_ne_nil _ _),
        List.append_assoc]
      rfl

private theorem recut_longer {n : Nat} {q a : List α} {ps qs : List (List α)}
    (smaller : ∀ ps qs : List (List α), ps.length + qs.length ≤ n → ps ≠ [] → qs ≠ [] →
      glue c ps = glue c qs → Recut c ps qs)
    (size : ps.length + qs.length < n) (rest : tail c qs = a ++ tail c ps) :
    Recut c ((q ++ a) :: ps) (q :: qs) := by
  cases qs with
  | nil =>
      obtain ⟨rfl, none⟩ := List.append_eq_nil_iff.mp rest.symm
      cases ps with
      | nil =>
          rw [List.append_nil]
          exact .last q
      | cons y ps => cases none
  | cons z qs =>
      have more : z :: qs ≠ [] := List.cons_ne_nil z qs
      rcases a with _ | ⟨x, _ | ⟨y, d⟩⟩
      · -- the first words are the same
        cases ps with
        | nil => cases rest
        | cons y ps =>
            have equal : glue c (y :: ps) = glue c (z :: qs) :=
              (List.cons.inj (List.cons.inj rest).2).2.symm
            rw [List.append_nil]
            exact .same q (smaller _ _ (Nat.le_of_lt size) (List.cons_ne_nil y ps) more equal)
      · -- one letter of a separator is left for the next word
        obtain ⟨rfl, left⟩ := List.cons.inj rest
        cases ps with
        | nil => cases left
        | cons y ps =>
            have equal : glue c ((c :: y) :: ps) = glue c (z :: qs) := by
              rw [← glue_push]
              exact (List.cons.inj left).2.symm
            exact .slid q y (smaller _ _ (Nat.le_of_lt size) (List.cons_ne_nil _ ps) more equal)
      · obtain ⟨rfl, left⟩ := List.cons.inj rest
        obtain ⟨same, right⟩ := List.cons.inj left
        subst same
        have equal : glue c (d :: ps) = glue c (z :: qs) := by
          rw [glue_cons]
          exact right.symm
        refine .past q d (smaller _ _ ?_ (List.cons_ne_nil d ps) more equal)
        rw [List.length_cons, Nat.add_right_comm]
        exact size

private theorem recut_of_glue (n : Nat) (ps qs : List (List α)) (size : ps.length + qs.length ≤ n)
    (words : ps ≠ []) (words' : qs ≠ []) (equal : glue c ps = glue c qs) : Recut c ps qs := by
  induction n generalizing ps qs with
  | zero =>
      have none : ps.length = 0 := by omega
      exact absurd (List.eq_nil_of_length_eq_zero none) words
  | succ n ih =>
      obtain ⟨p, ps, rfl⟩ := List.exists_cons_of_ne_nil words
      obtain ⟨q, qs, rfl⟩ := List.exists_cons_of_ne_nil words'
      have less : ps.length + qs.length < n := by
        rw [List.length_cons, List.length_cons] at size
        omega
      rw [glue_cons, glue_cons] at equal
      rcases List.append_eq_append_iff.mp equal with ⟨a, rfl, rest⟩ | ⟨a, rfl, rest⟩
      · exact (recut_longer ih (Nat.add_comm _ _ ▸ less) rest).symm
      · exact recut_longer ih less rest

theorem glue_eq_iff {ps qs : List (List α)} (words : ps ≠ []) (words' : qs ≠ []) :
    glue c ps = glue c qs ↔ Recut c ps qs :=
  ⟨recut_of_glue _ ps qs le_rfl words words', Recut.glue_eq⟩

/-- Words that a text is cut into in one way only: no word has a separator in it, and no word but
the last ends in the first letter of one. -/
structure Plain (c : α) (ps : List (List α)) : Prop where
  inside : ∀ p ∈ ps, ¬ [c, c] <:+: p
  ending : ∀ p ∈ ps.dropLast, ¬ [c] <:+ p

private theorem Plain.rest {p : List α} {ps : List (List α)} (plain : Plain c (p :: ps)) :
    Plain c ps := by
  refine ⟨fun q member => plain.inside q (List.mem_cons_of_mem p member), fun q member => ?_⟩
  cases ps with
  | nil => cases member
  | cons r ps => exact plain.ending q (List.mem_cons_of_mem p member)

private theorem Plain.not_past {p d : List α} {ps : List (List α)} :
    ¬ Plain c ((p ++ c :: c :: d) :: ps) :=
  fun plain => plain.inside _ List.mem_cons_self ⟨p, d, by simp⟩

private theorem Plain.not_slid {p x : List α} {ps : List (List α)} :
    ¬ Plain c ((p ++ [c]) :: x :: ps) :=
  fun plain => plain.ending _ List.mem_cons_self ⟨p, rfl⟩

theorem Recut.eq_of_plain {ps qs : List (List α)} (recut : Recut c ps qs) (plain : Plain c ps)
    (plain' : Plain c qs) : ps = qs := by
  induction recut with
  | last p => rfl
  | same p _ ih => rw [ih plain.rest plain'.rest]
  | past p d => exact absurd plain Plain.not_past
  | slid p x => exact absurd plain Plain.not_slid
  | pastRight p d => exact absurd plain' Plain.not_past
  | slidRight p x => exact absurd plain' Plain.not_slid

end Substrate.Library.Joining
