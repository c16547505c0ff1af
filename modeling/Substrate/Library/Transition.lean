/- ID: Substrate/Library/Transition
   digest: Paths of guarded steps, the invariant rule, and the latch rule for at-most-once labels. -/

import Mathlib.Data.List.Induction

set_option autoImplicit false
set_option relaxedAutoImplicit false

namespace Substrate.Library.Transition

universe u v w

/-- Labelled steps: a guard on the state and the state the step leads to. -/
structure Machine (σ : Type u) (α : Type v) where
  enabled : σ → α → Prop
  apply : σ → α → σ

variable {σ : Type u} {α : Type v}

/-- A path takes its labels in order, each one enabled where it is taken. -/
inductive Path (M : Machine σ α) : σ → List α → σ → Prop
  | nil (s : σ) : Path M s [] s
  | cons {s t : σ} {a : α} {as : List α} :
      M.enabled s a → Path M (M.apply s a) as t → Path M s (a :: as) t

namespace Path

variable {M : Machine σ α}

theorem single {s : σ} {a : α} (guard : M.enabled s a) : Path M s [a] (M.apply s a) :=
  .cons guard (.nil _)

theorem append {s t r : σ} {as bs : List α} (first : Path M s as t) (second : Path M t bs r) :
    Path M s (as ++ bs) r := by
  induction first with
  | nil _ => exact second
  | cons guard _ ih => exact .cons guard (ih second)

theorem snoc {s t : σ} {as : List α} {a : α} (first : Path M s as t) (guard : M.enabled t a) :
    Path M s (as ++ [a]) (M.apply t a) :=
  first.append (single guard)

/-- A predicate kept by every enabled label that satisfies `allowed` holds along the path. -/
theorem invariant (allowed : α → Prop) {P : σ → Prop}
    (kept : ∀ (s : σ) (a : α), allowed a → M.enabled s a → P s → P (M.apply s a))
    {s t : σ} {as : List α} (path : Path M s as t) (labels : ∀ a ∈ as, allowed a) (start : P s) :
    P t := by
  induction path with
  | nil _ => exact start
  | cons guard _ ih =>
      exact ih (fun a ha => labels a (List.mem_cons_of_mem _ ha))
        (kept _ _ (labels _ List.mem_cons_self) guard start)

/-- A predicate kept by every enabled label holds along the path. -/
theorem keeps {P : σ → Prop} (kept : ∀ (s : σ) (a : α), M.enabled s a → P s → P (M.apply s a))
    {s t : σ} {as : List α} (path : Path M s as t) (start : P s) : P t :=
  path.invariant (fun _ => True) (fun s a _ guard before => kept s a guard before)
    (fun _ _ => trivial) start

/-- Every label of a path is enabled where it is taken. -/
theorem split {s t : σ} {as : List α} (path : Path M s as t) {a : α} (member : a ∈ as) :
    ∃ pre post mid, as = pre ++ a :: post ∧ Path M s pre mid ∧ M.enabled mid a ∧
      Path M (M.apply mid a) post t := by
  induction path with
  | nil _ => cases member
  | @cons s t b bs guard rest ih =>
      rcases List.mem_cons.mp member with rfl | later
      · exact ⟨[], bs, s, rfl, .nil s, guard, rest⟩
      · obtain ⟨pre, post, mid, rfl, before, here, after⟩ := ih later
        exact ⟨b :: pre, post, mid, rfl, .cons guard before, here, after⟩

end Path

/-- Runs of a total step function, oldest input first. -/
def run (step : σ → α → σ) (s : σ) (inputs : List α) : σ := inputs.foldl step s

section Runs

variable {step : σ → α → σ}

@[simp] theorem run_nil (s : σ) : run step s [] = s := rfl

@[simp] theorem run_cons (s : σ) (a : α) (as : List α) :
    run step s (a :: as) = run step (step s a) as := rfl

theorem run_append (s : σ) (as bs : List α) :
    run step s (as ++ bs) = run step (run step s as) bs :=
  List.foldl_append

theorem run_snoc (s : σ) (as : List α) (a : α) :
    run step s (as ++ [a]) = step (run step s as) a := by
  rw [run_append]
  rfl

/-- What holds at the start and is kept by each input of the run holds at its end. -/
theorem run_invariant {P : σ → Prop} {s : σ} {inputs : List α} (start : P s)
    (kept : ∀ pre a post, inputs = pre ++ a :: post → P (run step s pre) →
      P (step (run step s pre) a)) : P (run step s inputs) := by
  induction inputs using List.reverseRecOn with
  | nil => exact start
  | append_singleton as a ih =>
      rw [run_snoc]
      refine kept as a [] rfl (ih ?_)
      intro pre b post split before
      exact kept pre b (post ++ [a]) (by simp [split]) before

/-- The labels a run emits, oldest first. -/
def emitted {κ : Type w} (emit : σ → α → List κ) (step : σ → α → σ) : σ → List α → List κ
  | _, [] => []
  | s, a :: as => emit s a ++ emitted emit step (step s a) as

theorem emitted_append {κ : Type w} (emit : σ → α → List κ) (s : σ) (first second : List α) :
    emitted emit step s (first ++ second) =
      emitted emit step s first ++ emitted emit step (run step s first) second := by
  induction first generalizing s with
  | nil => rfl
  | cons b bs ih => rw [List.cons_append, emitted, emitted, ih, List.append_assoc, run_cons]

theorem emitted_snoc {κ : Type w} (emit : σ → α → List κ) (s : σ) (inputs : List α) (a : α) :
    emitted emit step s (inputs ++ [a]) =
      emitted emit step s inputs ++ emit (run step s inputs) a := by
  rw [emitted_append, emitted, emitted, List.append_nil]

theorem mem_emitted {κ : Type w} {emit : σ → α → List κ} {s : σ} {inputs : List α} {k : κ} :
    k ∈ emitted emit step s inputs ↔
      ∃ pre a post, inputs = pre ++ a :: post ∧ k ∈ emit (run step s pre) a := by
  induction inputs generalizing s with
  | nil => simp [emitted]
  | cons b bs ih =>
      rw [emitted, List.mem_append, ih]
      constructor
      · rintro (now | ⟨pre, a, post, rfl, later⟩)
        · exact ⟨[], b, bs, rfl, now⟩
        · exact ⟨b :: pre, a, post, rfl, later⟩
      · rintro ⟨pre, a, post, split, here⟩
        cases pre with
        | nil =>
            obtain ⟨rfl, rfl⟩ := List.cons_eq_cons.mp split
            exact .inl here
        | cons c pre =>
            obtain ⟨rfl, rfl⟩ := List.cons_eq_cons.mp split
            exact .inr ⟨pre, a, post, rfl, here⟩

theorem emitted_nodup {κ : Type w} (step : σ → α → σ) (emit : σ → α → List κ)
    (latch : σ → κ → Prop) {P : σ → Prop} (kept : ∀ {s} (a : α), P s → P (step s a))
    (distinct : ∀ {s} (a : α), P s → (emit s a).Nodup)
    (opened : ∀ {s} {a : α} {k}, P s → k ∈ emit s a → ¬ latch s k)
    (shut : ∀ {s} {a : α} {k}, P s → k ∈ emit s a → latch (step s a) k)
    (stays : ∀ {s} (a : α) {k}, P s → latch s k → latch (step s a) k)
    {s : σ} (start : P s) (inputs : List α) :
    (emitted emit step s inputs).Nodup ∧ ∀ k, latch s k → k ∉ emitted emit step s inputs := by
  induction inputs generalizing s with
  | nil => exact ⟨List.nodup_nil, fun _ _ => List.not_mem_nil⟩
  | cons a as ih =>
      obtain ⟨nodup, never⟩ := ih (kept a start)
      rw [emitted]
      refine ⟨List.nodup_append.mpr ⟨distinct a start, nodup, ?_⟩, ?_⟩
      · intro k first k' later same
        exact never k' (same ▸ shut start first) later
      · intro k closed member
        rcases List.mem_append.mp member with now | later
        · exact opened start now closed
        · exact never k (stays a start closed) later

end Runs

end Substrate.Library.Transition
