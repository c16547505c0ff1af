/- ID: Substrate/Library/Histories
   digest: Programs under the exchanges so far, and the states in which each exchange is made. -/

import Substrate.Library.Resumption

set_option autoImplicit false
set_option relaxedAutoImplicit false

namespace Substrate.Library.Histories

open Substrate.Library.Resumption
open Substrate.Library.Resumption.Act
open Substrate.Library.Resumption.Prog

universe u v w

section Orderly

variable {α : Type u} {β : Type v} {E D : List α → α → Prop} {past first second l : List α}

/-- Every element of a list fits what comes before it. -/
def Orderly (E : List α → α → Prop) : List α → List α → Prop
  | _, [] => True
  | past, e :: rest => E past e ∧ Orderly E (past ++ [e]) rest

theorem orderly_append :
    Orderly E past (first ++ second) ↔ Orderly E past first ∧ Orderly E (past ++ first) second := by
  induction first generalizing past with
  | nil =>
      rw [List.append_nil]
      exact (true_and _).symm.to_iff
  | cons e first ih =>
      rw [List.cons_append, Orderly, Orderly, ih, and_assoc, List.append_assoc]
      rfl

theorem orderly_iff :
    Orderly E past l ↔ ∀ before e after, l = before ++ e :: after → E (past ++ before) e := by
  induction l generalizing past with
  | nil => exact ⟨fun _ before e after same => absurd same (by simp), fun _ => trivial⟩
  | cons e l ih =>
      rw [Orderly, ih]
      constructor
      · rintro ⟨first, rest⟩ before e' after same
        cases before with
        | nil =>
            obtain ⟨rfl, -⟩ := List.cons.inj same
            rwa [List.append_nil]
        | cons e'' before =>
            obtain ⟨rfl, split⟩ := List.cons.inj same
            have fits := rest before e' after split
            rwa [List.append_assoc] at fits
      · intro all
        refine ⟨?_, fun before e' after same => ?_⟩
        · have fits := all [] e l rfl
          rwa [List.append_nil] at fits
        · rw [List.append_assoc]
          exact all (e :: before) e' after (congrArg (e :: ·) same)

theorem orderly_map {E : List β → β → Prop} {f : α → β} :
    Orderly E (past.map f) (l.map f) ↔ Orderly (fun past a => E (past.map f) (f a)) past l := by
  induction l generalizing past with
  | nil => exact Iff.rfl
  | cons a l ih =>
      rw [List.map_cons, Orderly, Orderly, ← ih, List.map_append]
      rfl

theorem orderly_and :
    Orderly (fun past e => E past e ∧ D past e) past l ↔ Orderly E past l ∧ Orderly D past l := by
  simp only [orderly_iff]
  exact ⟨fun all => ⟨fun before e after same => (all before e after same).1,
    fun before e after same => (all before e after same).2⟩,
    fun both before e after same => ⟨both.1 before e after same, both.2 before e after same⟩⟩

/-- Where each element fits whatever comes before it, all of them do. -/
theorem orderly_of_mem (all : ∀ past, ∀ e ∈ l, E past e) : Orderly E past l := by
  rw [orderly_iff]
  rintro before e after rfl
  exact all _ e (List.mem_append_right _ List.mem_cons_self)

/-- What stays true of a list when it grows. -/
def Lasting (P : List α → Prop) : Prop := ∀ past rest, P past → P (past ++ rest)

theorem Lasting.and {P P' : List α → Prop} (h : Lasting P) (h' : Lasting P') :
    Lasting fun past => P past ∧ P' past :=
  fun past rest held => ⟨h past rest held.1, h' past rest held.2⟩

theorem Lasting.all {ι : Sort w} {P : ι → List α → Prop} (h : ∀ i, Lasting (P i)) :
    Lasting fun past => ∀ i, P i past :=
  fun past rest held i => h i past rest (held i)

theorem lasting_mem (e : α) : Lasting (e ∈ ·) := fun _ _ => List.mem_append_left _

end Orderly

section Acts

variable {Q : Type u} {A : Q → Type v} {ε σ α β : Type w}

/-- Told what `P` says before it starts, an act exchanges only what `E` allows after that, and ends
as `R` says of everything told. -/
def Follows (E : List (Exchange Q A) → Exchange Q A → Prop) (P : List (Exchange Q A) → Prop)
    (x : Act Q A ε σ α) (R : List (Exchange Q A) → Except ε α → Prop) : Prop :=
  ∀ past, P past → Upholds (fun told r => Orderly E past told ∧ R (past ++ told) r) x

namespace Follows

variable {E : List (Exchange Q A) → Exchange Q A → Prop} {P P' : List (Exchange Q A) → Prop}
  {x : Act Q A ε σ α} {R R' : List (Exchange Q A) → Except ε α → Prop}

theorem mono (h : Follows E P x R) (stronger : ∀ past, P' past → P past)
    (weaker : ∀ past r, R past r → R' past r) : Follows E P' x R' :=
  fun past before => (h past (stronger past before)).mono fun _ _ held =>
    ⟨held.1, weaker _ _ held.2⟩

theorem pure {a : α} (h : ∀ past, P past → R past (.ok a)) :
    Follows E P (pure a : Act Q A ε σ α) R :=
  fun past before => Upholds.pure ⟨trivial, by rw [List.append_nil]; exact h past before⟩

theorem throw {e : ε} (h : ∀ past, P past → R past (.error e)) :
    Follows E P (throw e : Act Q A ε σ α) R :=
  fun past before => Upholds.throw ⟨trivial, by rw [List.append_nil]; exact h past before⟩

theorem modify {R : List (Exchange Q A) → Except ε PUnit → Prop} {f : σ → σ}
    (h : ∀ past, P past → R past (.ok ⟨⟩)) : Follows E P (modify f : Act Q A ε σ PUnit) R :=
  fun past before => Upholds.modify ⟨trivial, by rw [List.append_nil]; exact h past before⟩

theorem read {f : σ → Act Q A ε σ α} (next : ∀ s, Follows E P (f s) R) :
    Follows E P (get >>= f) R :=
  fun past before => Upholds.read fun s => next s past before

theorem ask {A : Q → Type w} {E : List (Exchange Q A) → Exchange Q A → Prop}
    {P : List (Exchange Q A) → Prop} {q : Q} {R : List (Exchange Q A) → Except ε (A q) → Prop}
    (h : ∀ past answer, P past → E past ⟨q, answer⟩ ∧ R (past ++ [⟨q, answer⟩]) (.ok answer)) :
    Follows E P (ask q : Act Q A ε σ (A q)) R :=
  fun past before => Upholds.ask fun answer =>
    ⟨⟨(h past answer before).1, trivial⟩, (h past answer before).2⟩

/-- The sequence rule. -/
theorem bind {f : α → Act Q A ε σ β} {T : List (Exchange Q A) → Except ε β → Prop}
    (first : Follows E P x R) (second : ∀ a, Follows E (fun past => R past (.ok a)) (f a) T)
    (failed : ∀ past e, R past (.error e) → T past (.error e)) : Follows E P (x >>= f) T := by
  intro past before
  refine Upholds.bind (first past before)
    (R := fun a rest r => ∀ told, Orderly E past told ∧ R (past ++ told) (.ok a) →
      Orderly E past (told ++ rest) ∧ T (past ++ (told ++ rest)) r) ?_ ?_ ?_
  · intro a _ _ s rest r t run told held
    obtain ⟨ordered, ended⟩ := second a (past ++ told) held.2 s rest r t run
    rw [orderly_append, ← List.append_assoc]
    exact ⟨⟨held.1, ordered⟩, ended⟩
  · exact fun e told held => ⟨held.1, failed _ e held.2⟩
  · exact fun a told rest r held after => after told held

/-- An act whose exchanges are allowed after any history and leave what is known as it is. -/
theorem among {C : Exchange Q A → Prop} (kept : Keeps (fun _ => True) C x)
    (allowed : ∀ past e, C e → E past e) (stays : ∀ past e, C e → P past → P (past ++ [e])) :
    Follows E P x fun past _ => P past := by
  intro past before s told r t run
  obtain ⟨all, -⟩ := kept s told r t trivial run
  refine ⟨orderly_of_mem fun past e member => allowed past e (all e member), ?_⟩
  clear run
  induction told generalizing past with
  | nil => rwa [List.append_nil]
  | cons e told ih =>
      obtain ⟨first, rest⟩ := List.forall_mem_cons.mp all
      rw [← List.singleton_append, ← List.append_assoc]
      exact ih (past ++ [e]) (stays past e first before) rest

theorem free {C : Exchange Q A → Prop} (kept : Keeps (fun _ => True) C x)
    (allowed : ∀ past e, C e → E past e) (lasting : Lasting P) :
    Follows E P x fun past _ => P past :=
  among kept allowed fun past e _ => lasting past [e]

theorem freeKnown {C : Exchange Q A → Prop} {K : Except ε α → Prop}
    (kept : Keeps (fun _ => True) C x) (known : Upholds (fun _ r => K r) x)
    (allowed : ∀ past e, C e → E past e) (lasting : Lasting P) :
    Follows E P x fun past r => P past ∧ K r := by
  intro past before s told r t run
  obtain ⟨ordered, after⟩ := free kept allowed lasting past before s told r t run
  exact ⟨ordered, after, known s told r t run⟩

/-- An attempt exchanges what its act does, and does not fail. -/
theorem attempt {R' : List (Exchange Q A) → Except ε (Except ε α) → Prop} (h : Follows E P x R)
    (caught : ∀ past r, R past r → R' past (.ok r)) : Follows E P (attempt x) R' :=
  fun past before => Upholds.attempt (h past before) fun _ _ held => ⟨held.1, caught _ _ held.2⟩

theorem forM {l : List β} {f : β → Act Q A ε σ PUnit}
    (each : ∀ b ∈ l, Follows E P (f b) fun past _ => P past) :
    Follows E P (l.forM f) fun past _ => P past := by
  induction l with
  | nil => exact .pure fun _ held => held
  | cons b l ih =>
      exact (each b List.mem_cons_self).bind
        (fun _ => ih fun b' member => each b' (List.mem_cons_of_mem _ member))
        fun _ _ held => held

/-- What an act that starts anywhere exchanges with an environment. -/
theorem told {S : Type w} (h : Follows E P x R) (env : Environment S Q A) (s : σ) (w : S)
    (past : List (Exchange Q A)) (before : P past) :
    Orderly E past (transcript env (start x s) w) ∧
      R (past ++ transcript env (start x s) w) (exec env (start x s) w).2.1 :=
  h past before s _ _ _ (runs_exec env (start x s) w)

end Follows

end Acts

section Visits

variable {Q : Type u} {A : Q → Type v} {S α β : Type w} (env : Environment S Q A)

/-- The exchanges of a program with an environment, each with the state in which it is made. -/
def visits : Prog Q A α → S → List (S × Exchange Q A)
  | .done _, _ => []
  | .ask q next, s => (s, ⟨q, (env q s).2⟩) :: visits (next (env q s).2) (env q s).1

theorem visits_told (x : Prog Q A α) (s : S) :
    (visits env x s).map Prod.snd = transcript env x s := by
  induction x generalizing s with
  | done a => rfl
  | ask q next ih => exact congrArg (_ :: ·) (ih _ _)

/-- What follows from every allowed exchange, of what is known of the history and the state. -/
theorem visits_follow {T : List (S × Exchange Q A) → S → Prop}
    {C D : List (S × Exchange Q A) → S × Exchange Q A → Prop}
    (kept : ∀ past s q, C past (s, ⟨q, (env q s).2⟩) → T past s →
      D past (s, ⟨q, (env q s).2⟩) ∧ T (past ++ [(s, ⟨q, (env q s).2⟩)]) (env q s).1)
    (x : Prog Q A α) (s : S) (past : List (S × Exchange Q A))
    (allowed : Orderly C past (visits env x s)) (before : T past s) :
    Orderly D past (visits env x s) ∧ T (past ++ visits env x s) (exec env x s).1 := by
  induction x generalizing s past with
  | done a => exact ⟨trivial, by rwa [visits, List.append_nil]⟩
  | ask q next ih =>
      obtain ⟨first, rest⟩ := allowed
      obtain ⟨held, after⟩ := kept past s q first before
      obtain ⟨ordered, ended⟩ := ih _ _ _ rest after
      rw [List.append_assoc] at ended
      exact ⟨⟨held, ordered⟩, ended⟩

end Visits

end Substrate.Library.Histories
