/- ID: Substrate/Library/Checks
   digest: When a sequence of fallible checks succeeds. -/

import Mathlib.Data.List.Forall2

set_option autoImplicit false
set_option relaxedAutoImplicit false

namespace Substrate.Library.Checks

universe u v

variable {ε : Type u} {α β : Type v}

theorem bind_eq_ok {x : Except ε α} {f : α → Except ε β} {b : β} :
    (x >>= f) = .ok b ↔ ∃ a, x = .ok a ∧ f a = .ok b := by
  cases x with
  | error e =>
      constructor
      · intro h
        cases h
      · rintro ⟨a, h, -⟩
        cases h
  | ok a => exact ⟨fun h => ⟨a, rfl, h⟩, fun ⟨_, rfl, h⟩ => h⟩

/-- All checks of a loop pass exactly when each one does. -/
theorem forM_eq_ok {f : α → Except ε PUnit} {l : List α} :
    List.forM l f = .ok ⟨⟩ ↔ ∀ a ∈ l, f a = .ok ⟨⟩ := by
  induction l with
  | nil => simp [List.forM, pure, Except.pure]
  | cons a l ih =>
      rw [List.forM, bind_eq_ok, List.forall_mem_cons]
      constructor
      · rintro ⟨⟨⟩, first, rest⟩
        exact ⟨first, ih.mp rest⟩
      · rintro ⟨first, rest⟩
        exact ⟨⟨⟩, first, ih.mpr rest⟩

/-- Mapping a partial function over a list succeeds exactly when it succeeds entry by entry. -/
theorem mapM_eq_some {α : Type u} {β : Type u} {f : α → Option β} {l : List α} {r : List β} :
    l.mapM f = some r ↔ List.Forall₂ (fun a b => f a = some b) l r := by
  induction l generalizing r with
  | nil =>
      rw [List.mapM_nil, List.forall₂_nil_left_iff]
      exact ⟨fun h => (Option.some.inj h).symm, fun h => h ▸ rfl⟩
  | cons a l ih =>
      rw [List.mapM_cons, Option.bind_eq_bind, Option.bind_eq_some_iff, List.forall₂_cons_left_iff]
      constructor
      · rintro ⟨b, first, rest⟩
        obtain ⟨bs, others, made⟩ := Option.bind_eq_some_iff.mp rest
        exact ⟨b, bs, first, ih.mp others, (Option.some.inj made).symm⟩
      · rintro ⟨b, bs, first, others, rfl⟩
        exact ⟨b, first, Option.bind_eq_some_iff.mpr ⟨bs, ih.mpr others, rfl⟩⟩

/-- Mapping a check over a list passes exactly when it passes entry by entry. -/
theorem mapM_eq_ok {ε α β : Type u} {f : α → Except ε β} {l : List α} {r : List β} :
    l.mapM f = .ok r ↔ List.Forall₂ (fun a b => f a = .ok b) l r := by
  induction l generalizing r with
  | nil =>
      rw [List.mapM_nil, List.forall₂_nil_left_iff]
      exact ⟨fun h => (Except.ok.inj h).symm, fun h => h ▸ rfl⟩
  | cons a l ih =>
      rw [List.mapM_cons, bind_eq_ok, List.forall₂_cons_left_iff]
      constructor
      · rintro ⟨b, first, rest⟩
        obtain ⟨bs, others, made⟩ := bind_eq_ok.mp rest
        exact ⟨b, bs, first, ih.mp others, (Except.ok.inj made).symm⟩
      · rintro ⟨b, bs, first, others, rfl⟩
        exact ⟨b, first, bind_eq_ok.mpr ⟨bs, ih.mpr others, rfl⟩⟩

/-- Mapping two functions that agree on a list gives the same result. -/
theorem mapM_congr {α : Type u} {β : Type u} {f g : α → Option β} {l : List α}
    (agree : ∀ a ∈ l, f a = g a) : l.mapM f = l.mapM g := by
  induction l with
  | nil => rfl
  | cons a l ih =>
      rw [List.mapM_cons, List.mapM_cons, agree a List.mem_cons_self,
        ih fun b h => agree b (List.mem_cons_of_mem _ h)]

theorem mapM_congr_forall₂ {α β γ : Type u} {f : α → Option γ} {g : β → Option γ} {l : List α}
    {r : List β} (agree : List.Forall₂ (fun a b => f a = g b) l r) : l.mapM f = r.mapM g := by
  induction agree with
  | nil => rfl
  | cons first _ ih => rw [List.mapM_cons, List.mapM_cons, first, ih]

theorem mapM_map_option {α : Type u} {β γ : Type u} {f : α → Option β} {g : β → γ} {l : List α} :
    (l.mapM fun a => (f a).map g) = (l.mapM f).map (List.map g) := by
  induction l with
  | nil => rfl
  | cons a l ih =>
      rw [List.mapM_cons, List.mapM_cons, ih]
      cases f a with
      | none => rfl
      | some b => cases l.mapM f <;> rfl

theorem mapM_ok {ε α β γ : Type u} {f : α → Except ε β} {g : γ → α} {h : γ → β}
    (succeeds : ∀ c, f (g c) = .ok (h c)) (l : List γ) : (l.map g).mapM f = .ok (l.map h) := by
  induction l with
  | nil => rfl
  | cons c l ih =>
      rw [List.map_cons, List.mapM_cons, succeeds, ih]
      rfl

/-- Related lists relate every entry of one to an entry of the other. -/
theorem forall₂_mem {α : Type u} {β : Type v} {R : α → β → Prop} {l : List α} {r : List β}
    (related : List.Forall₂ R l r) :
    (∀ a ∈ l, ∃ b ∈ r, R a b) ∧ ∀ b ∈ r, ∃ a ∈ l, R a b := by
  induction related with
  | nil => simp
  | @cons a b l r first _ ih =>
      rw [List.forall_mem_cons, List.forall_mem_cons]
      refine ⟨⟨⟨b, List.mem_cons_self, first⟩, ?_⟩, ⟨a, List.mem_cons_self, first⟩, ?_⟩
      · intro a' h
        obtain ⟨b', h', same⟩ := ih.1 a' h
        exact ⟨b', List.mem_cons_of_mem _ h', same⟩
      · intro b' h
        obtain ⟨a', h', same⟩ := ih.2 b' h
        exact ⟨a', List.mem_cons_of_mem _ h', same⟩

/-- Entries of the list and of the result come from each other. -/
theorem mapM_mem {α : Type u} {β : Type u} {f : α → Option β} {l : List α} {r : List β}
    (made : l.mapM f = some r) :
    (∀ a ∈ l, ∃ b ∈ r, f a = some b) ∧ ∀ b ∈ r, ∃ a ∈ l, f a = some b :=
  forall₂_mem (mapM_eq_some.mp made)

/-- Mapping a partial function over a list succeeds when it succeeds on every entry. -/
theorem mapM_isSome {α : Type u} {β : Type u} {f : α → Option β} {l : List α} :
    (∃ r, l.mapM f = some r) ↔ ∀ a ∈ l, ∃ b, f a = some b := by
  simp only [mapM_eq_some]
  induction l with
  | nil => simp
  | cons a l ih =>
      rw [List.forall_mem_cons, ← ih]
      constructor
      · rintro ⟨r, all⟩
        obtain ⟨b, bs, first, rest, -⟩ := List.forall₂_cons_left_iff.mp all
        exact ⟨⟨b, first⟩, bs, rest⟩
      · rintro ⟨⟨b, first⟩, bs, rest⟩
        exact ⟨b :: bs, .cons first rest⟩

/-- What every result shows of its entry, the results show of the list. -/
theorem mapM_map {α : Type u} {β : Type u} {γ : Type v} {f : α → Option β} {g : β → γ} {h : α → γ}
    (agree : ∀ a b, f a = some b → g b = h a) {l : List α} {r : List β} (made : l.mapM f = some r) :
    r.map g = l.map h := by
  have entries := mapM_eq_some.mp made
  clear made
  induction entries with
  | nil => rfl
  | cons first _ ih => rw [List.map_cons, List.map_cons, agree _ _ first, ih]

theorem find?_eq_some_iff_of_nodup {α : Type u} {κ : Type v} [DecidableEq κ] {key : α → κ}
    {l : List α} (distinct : (l.map key).Nodup) {k : κ} {a : α} :
    l.find? (key · == k) = some a ↔ a ∈ l ∧ key a = k := by
  constructor
  · intro found
    exact ⟨List.mem_of_find?_eq_some found, by simpa using List.find?_some found⟩
  · rintro ⟨member, rfl⟩
    induction l with
    | nil => cases member
    | cons b l ih =>
        rw [List.map_cons, List.nodup_cons] at distinct
        rcases List.mem_cons.mp member with rfl | member
        · exact List.find?_cons_of_pos (beq_self_eq_true (key a))
        · have other : ¬(key b == key a) = true := fun same =>
            distinct.1 (beq_iff_eq.mp same ▸ List.mem_map_of_mem member)
          rw [@List.find?_cons_of_neg _ (key · == key a) _ l other]
          exact ih distinct.2 member

end Substrate.Library.Checks
