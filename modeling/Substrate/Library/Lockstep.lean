/- ID: Substrate/Library/Lockstep
   digest: Two machines that answer alike along every run whose inputs meet a guard. -/

import Substrate.Library.Transition

set_option autoImplicit false
set_option relaxedAutoImplicit false

namespace Substrate.Library.Lockstep

open Substrate.Library.Transition

universe u v w x y

variable {σ : Type u} {τ : Type v} {ι : Type w} {α : Type x} {β : Type y}

/-- The state that a list of inputs leads to, answers left aside. -/
def after (step : σ → ι → σ × α) : σ → List ι → σ := run fun s i => (step s i).1

/-- The answers to a list of inputs, oldest first. -/
def answers (step : σ → ι → σ × α) : σ → List ι → List α :=
  emitted (fun s i => [(step s i).2]) fun s i => (step s i).1

/-- Every input meets the guard in the state that it finds. -/
def Guarded (step : σ → ι → σ × α) (guard : σ → ι → Prop) (s : σ) (inputs : List ι) : Prop :=
  ∀ before i rest, inputs = before ++ i :: rest → guard (after step s before) i

theorem guarded_cons {step : σ → ι → σ × α} {guard : σ → ι → Prop} {s : σ} {i : ι} {inputs : List ι} :
    Guarded step guard s (i :: inputs) ↔ guard s i ∧ Guarded step guard (step s i).1 inputs := by
  constructor
  · intro all
    refine ⟨all [] i inputs rfl, fun before j rest split => ?_⟩
    have here := all (i :: before) j rest (congrArg (i :: ·) split)
    exact here
  · rintro ⟨first, all⟩ before j rest split
    cases before with
    | nil =>
        obtain ⟨rfl, rfl⟩ := List.cons.inj split
        exact first
    | cons k before =>
        obtain ⟨rfl, tail⟩ := List.cons.inj split
        exact all before j rest tail

theorem guarded_nil (step : σ → ι → σ × α) (guard : σ → ι → Prop) (s : σ) :
    Guarded step guard s [] := by
  intro before i rest split
  have longer := congrArg List.length split
  rw [List.length_append, List.length_cons, List.length_nil] at longer
  omega

/-- Two machines keep side by side, and answer alike, wherever an input meets the guard in a state of
the left one that satisfies its invariant. -/
structure Paired (left : σ → ι → σ × α) (right : τ → ι → τ × β) (invariant : σ → Prop)
    (guard : σ → ι → Prop) (beside : σ → τ → Prop) (alike : α → β → Prop) : Prop where
  kept : ∀ s i, invariant s → invariant (left s i).1
  moves : ∀ s t i, invariant s → guard s i → beside s t → beside (left s i).1 (right t i).1
  replies : ∀ s t i, invariant s → guard s i → beside s t → alike (left s i).2 (right t i).2

variable {left : σ → ι → σ × α} {right : τ → ι → τ × β} {invariant : σ → Prop}
  {guard : σ → ι → Prop} {beside : σ → τ → Prop} {alike : α → β → Prop}

/-- Machines in lockstep stay side by side over a guarded run, and every two answers are alike. -/
theorem Paired.run (steps : Paired left right invariant guard beside alike) {s : σ} {t : τ}
    (holds : invariant s) (start : beside s t) {inputs : List ι}
    (guarded : Guarded left guard s inputs) :
    invariant (after left s inputs) ∧ beside (after left s inputs) (after right t inputs) ∧
      List.Forall₂ alike (answers left s inputs) (answers right t inputs) := by
  induction inputs generalizing s t with
  | nil => exact ⟨holds, start, .nil⟩
  | cons i inputs ih =>
      obtain ⟨here, rest⟩ := guarded_cons.mp guarded
      obtain ⟨kept, beside, answered⟩ :=
        ih (steps.kept s i holds) (steps.moves s t i holds here start) rest
      exact ⟨kept, beside, .cons (steps.replies s t i holds here start) answered⟩

end Substrate.Library.Lockstep
