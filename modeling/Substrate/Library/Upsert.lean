/- ID: Substrate/Library/Upsert
   digest: Lists kept by key: an element takes the place of the first one with its key, or the last. -/

import Mathlib.Data.List.Induction
import Mathlib.Data.List.Nodup

set_option autoImplicit false
set_option relaxedAutoImplicit false

namespace Substrate.Library.Upsert

universe u v

section Relation

variable {α : Type u} {β : Type v}

/-- Put an element in the place of the first one that it is to replace, or last. -/
def putBy (same : α → α → Bool) (x : α) : List α → List α
  | [] => [x]
  | y :: rest => if same y x then x :: rest else y :: putBy same x rest

/-- Put elements in one after the other. -/
def putAllBy (same : α → α → Bool) (xs l : List α) : List α :=
  xs.foldl (fun stored x => putBy same x stored) l

variable {same : α → α → Bool}

theorem mem_putBy {x y : α} {l : List α} (member : y ∈ putBy same x l) : y = x ∨ y ∈ l := by
  induction l with
  | nil => exact .inl (List.mem_singleton.mp member)
  | cons z l ih =>
      unfold putBy at member
      split_ifs at member
      · exact (List.mem_cons.mp member).imp_right (List.mem_cons_of_mem _)
      · rcases List.mem_cons.mp member with rfl | later
        · exact .inr List.mem_cons_self
        · exact (ih later).imp_right (List.mem_cons_of_mem _)

theorem mem_putAllBy {xs l : List α} {y : α} (member : y ∈ putAllBy same xs l) :
    y ∈ l ∨ y ∈ xs := by
  induction xs generalizing l with
  | nil => exact .inl member
  | cons x xs ih =>
      rcases ih member with stored | later
      · rcases mem_putBy stored with rfl | before
        · exact .inr List.mem_cons_self
        · exact .inl before
      · exact .inr (List.mem_cons_of_mem _ later)

theorem map_putBy {same : β → β → Bool} (f : α → β) (x : α) (l : List α) :
    (putBy (fun y z => same (f y) (f z)) x l).map f = putBy same (f x) (l.map f) := by
  induction l with
  | nil => rfl
  | cons y l ih =>
      rw [List.map_cons]
      unfold putBy
      rw [← ih]
      split_ifs <;> rfl

theorem map_putAllBy {same : β → β → Bool} (f : α → β) (xs l : List α) :
    (putAllBy (fun y z => same (f y) (f z)) xs l).map f = putAllBy same (xs.map f) (l.map f) := by
  induction xs generalizing l with
  | nil => rfl
  | cons x xs ih =>
      refine (ih _).trans ?_
      rw [map_putBy]
      rfl

end Relation

variable {α : Type u} {κ : Type v} [DecidableEq κ] (key : α → κ)

/-- Put an element in the place of the first one with its key, or last. -/
def put (x : α) : List α → List α
  | [] => [x]
  | y :: rest => if key y = key x then x :: rest else y :: put x rest

/-- Put elements in one after the other. -/
def putAll (xs l : List α) : List α := xs.foldl (fun stored x => put key x stored) l

/-- The elements with a key. -/
def having (k : κ) (l : List α) : List α := l.filter (key · = k)

variable {key}

theorem putAllBy_eq {same : α → α → Bool} {xs : List α}
    (agrees : ∀ x ∈ xs, ∀ y, same y x = true ↔ key y = key x) (l : List α) :
    putAllBy same xs l = putAll key xs l := by
  induction xs generalizing l with
  | nil => rfl
  | cons x xs ih =>
      obtain ⟨first, rest⟩ := List.forall_mem_cons.mp agrees
      have placed : putBy same x l = put key x l := by
        induction l with
        | nil => rfl
        | cons y l ih =>
            unfold putBy put
            rw [ih]
            simp only [first]
      exact (ih rest _).trans (congrArg (putAll key xs) placed)

@[simp]
theorem having_nil (k : κ) : having key k [] = [] := rfl

theorem having_cons (k : κ) (y : α) (l : List α) :
    having key k (y :: l) = if key y = k then y :: having key k l else having key k l := by
  simp [having, List.filter_cons]

theorem mem_having {k : κ} {y : α} {l : List α} : y ∈ having key k l ↔ y ∈ l ∧ key y = k := by
  simp [having]

theorem putAll_snoc (xs l : List α) (x : α) :
    putAll key (xs ++ [x]) l = put key x (putAll key xs l) := by
  simp [putAll]

theorem having_put (k : κ) (x : α) (l : List α) :
    having key k (put key x l) =
      if key x = k then x :: (having key k l).tail else having key k l := by
  induction l with
  | nil => simp [put, having_cons]
  | cons y l ih =>
      unfold put
      by_cases hit : key y = key x
      · rw [if_pos hit, having_cons, having_cons, hit]
        split_ifs <;> rfl
      · rw [if_neg hit, having_cons, having_cons, ih]
        by_cases mine : key x = k
        · have other : key y ≠ k := fun same => hit (same.trans mine.symm)
          simp only [if_pos mine, if_neg other]
        · simp only [if_neg mine]

theorem filter_put {p : α → Bool} (told : ∀ y z, key y = key z → p y = p z) {x : α}
    (out : p x = false) (l : List α) : (put key x l).filter p = l.filter p := by
  induction l with
  | nil => simp [put, out]
  | cons y l ih =>
      unfold put
      by_cases hit : key y = key x
      · rw [if_pos hit, List.filter_cons_of_neg (by simp [out]),
          List.filter_cons_of_neg (by simp [told y x hit, out])]
      · rw [if_neg hit, List.filter_cons, List.filter_cons, ih]

theorem keys_put (x : α) (l : List α) :
    (put key x l).map key = if key x ∈ l.map key then l.map key else l.map key ++ [key x] := by
  induction l with
  | nil => simp [put]
  | cons y l ih =>
      unfold put
      by_cases hit : key y = key x
      · simp [hit]
      · rw [if_neg hit, List.map_cons, ih, List.map_cons]
        have apart : key x ∈ key y :: l.map key ↔ key x ∈ l.map key := by simp [Ne.symm hit]
        simp only [apart]
        split_ifs <;> rfl

theorem nodup_put {l : List α} (distinct : (l.map key).Nodup) (x : α) :
    ((put key x l).map key).Nodup := by
  rw [keys_put]
  split_ifs with known
  · exact distinct
  · exact distinct.append (List.nodup_singleton _) (by simpa using known)

theorem having_putAll (k : κ) (xs l : List α) :
    having key k (putAll key xs l) =
      match (having key k xs).getLast? with
      | none => having key k l
      | some x => x :: (having key k l).tail := by
  induction xs using List.reverseRecOn with
  | nil => rfl
  | append_singleton xs x ih =>
      have more : having key k (xs ++ [x]) = having key k xs ++ having key k [x] :=
        List.filter_append _ _
      rw [putAll_snoc, having_put, ih, more, having_cons, having_nil]
      split_ifs with mine
      · rw [List.getLast?_concat]
        cases (having key k xs).getLast? <;> rfl
      · rw [List.append_nil]

theorem filter_putAll {p : α → Bool} (told : ∀ y z, key y = key z → p y = p z) {xs : List α}
    (out : ∀ x ∈ xs, p x = false) (l : List α) : (putAll key xs l).filter p = l.filter p := by
  induction xs using List.reverseRecOn with
  | nil => rfl
  | append_singleton xs x ih =>
      rw [putAll_snoc, filter_put told (out x (by simp)),
        ih fun y member => out y (List.mem_append_left _ member)]

theorem nodup_putAll {l : List α} (distinct : (l.map key).Nodup) (xs : List α) :
    ((putAll key xs l).map key).Nodup := by
  induction xs using List.reverseRecOn with
  | nil => exact distinct
  | append_singleton xs x ih =>
      rw [putAll_snoc]
      exact nodup_put ih x

theorem keys_putAll {xs l : List α} (known : ∀ x ∈ xs, key x ∈ l.map key) :
    (putAll key xs l).map key = l.map key := by
  induction xs using List.reverseRecOn with
  | nil => rfl
  | append_singleton xs x ih =>
      have before := ih fun y member => known y (List.mem_append_left _ member)
      rw [putAll_snoc, keys_put, before, if_pos (known x (by simp))]

theorem mem_keys_putAll {xs l : List α} {x : α} (given : x ∈ xs) :
    key x ∈ (putAll key xs l).map key := by
  have listed : x ∈ having key (key x) xs := mem_having.mpr ⟨given, rfl⟩
  obtain ⟨last, found⟩ := Option.isSome_iff_exists.mp
    (List.getLast?_isSome.mpr (List.ne_nil_of_mem listed))
  have stored := @having_putAll _ _ _ key (key x) xs l
  rw [found] at stored
  have member : last ∈ having key (key x) (putAll key xs l) := stored ▸ List.mem_cons_self
  obtain ⟨there, same⟩ := mem_having.mp member
  exact List.mem_map.mpr ⟨last, there, same⟩

theorem ext_having {l l' : List α} (keys : l.map key = l'.map key)
    (each : ∀ k, having key k l = having key k l') : l = l' := by
  induction l generalizing l' with
  | nil => exact (List.map_eq_nil_iff.mp keys.symm).symm
  | cons y l ih =>
      cases l' with
      | nil => cases keys
      | cons y' l' =>
          obtain ⟨head, tail⟩ := List.cons.inj keys
          have first := each (key y)
          rw [having_cons, having_cons, if_pos rfl, if_pos head.symm] at first
          obtain rfl := (List.cons.inj first).1
          refine congrArg (y :: ·) (ih tail fun k => ?_)
          have rest := each k
          rw [having_cons, having_cons] at rest
          split_ifs at rest
          · exact (List.cons.inj rest).2
          · exact rest

theorem putAll_twice (xs l : List α) :
    putAll key xs (putAll key xs l) = putAll key xs l := by
  refine ext_having (keys_putAll fun x given => mem_keys_putAll given) fun k => ?_
  rw [having_putAll k xs (putAll key xs l), having_putAll k xs l]
  cases (having key k xs).getLast? <;> rfl

end Substrate.Library.Upsert
