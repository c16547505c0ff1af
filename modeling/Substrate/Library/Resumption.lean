/- ID: Substrate/Library/Resumption
   digest: Programs that ask their environment, what they are told, and the rules of fallible ones. -/

import Mathlib.Logic.Basic

set_option autoImplicit false
set_option relaxedAutoImplicit false

namespace Substrate.Library.Resumption

universe u v w

/-- A program returns, or asks and goes on with the answer. -/
inductive Prog (Q : Type u) (A : Q → Type v) (α : Type w)
  | done (a : α)
  | ask (q : Q) (next : A q → Prog Q A α)

variable {Q : Type u} {A : Q → Type v}

/-- One question and its answer. -/
abbrev Exchange (Q : Type u) (A : Q → Type v) := (q : Q) × A q

namespace Prog

variable {α β : Type w}

def bind : Prog Q A α → (α → Prog Q A β) → Prog Q A β
  | done a, f => f a
  | ask q next, f => ask q fun answer => (next answer).bind f

instance : Monad (Prog Q A) where
  pure := done
  bind := bind

theorem bind_done (x : Prog Q A α) : x.bind done = x := by
  induction x with
  | done a => rfl
  | ask q next ih => exact congrArg (ask q) (funext ih)

theorem bind_assoc {γ : Type w} (x : Prog Q A α) (f : α → Prog Q A β) (g : β → Prog Q A γ) :
    (x.bind f).bind g = x.bind fun a => (f a).bind g := by
  induction x with
  | done a => rfl
  | ask q next ih => exact congrArg (ask q) (funext ih)

instance : LawfulMonad (Prog Q A) :=
  LawfulMonad.mk' _ bind_done (fun _ _ => rfl) fun x f g => bind_assoc x f g

/-- A program comes to an end on a list of exchanges, whoever gives the answers. -/
inductive Runs : Prog Q A α → List (Exchange Q A) → α → Prop
  | done (a : α) : Runs (done a) [] a
  | ask {q : Q} {next : A q → Prog Q A α} {answer : A q} {told : List (Exchange Q A)} {a : α} :
      Runs (next answer) told a → Runs (ask q next) (⟨q, answer⟩ :: told) a

theorem runs_done {a b : α} {told : List (Exchange Q A)} :
    Runs (done a) told b ↔ told = [] ∧ b = a := by
  constructor
  · rintro ⟨⟩
    exact ⟨rfl, rfl⟩
  · rintro ⟨rfl, rfl⟩
    exact .done b

theorem runs_ask {q : Q} {next : A q → Prog Q A α} {told : List (Exchange Q A)} {a : α} :
    Runs (ask q next) told a ↔
      ∃ answer rest, told = ⟨q, answer⟩ :: rest ∧ Runs (next answer) rest a := by
  constructor
  · rintro (_ | rest)
    exact ⟨_, _, rfl, rest⟩
  · rintro ⟨answer, rest, rfl, run⟩
    exact .ask run

theorem runs_bind {x : Prog Q A α} {f : α → Prog Q A β} {told : List (Exchange Q A)} {b : β} :
    Runs (x.bind f) told b ↔
      ∃ a before after, told = before ++ after ∧ Runs x before a ∧ Runs (f a) after b := by
  induction x generalizing told with
  | done a =>
      constructor
      · exact fun run => ⟨a, [], told, rfl, .done a, run⟩
      · rintro ⟨a', before, after, rfl, first, run⟩
        obtain ⟨rfl, rfl⟩ := runs_done.mp first
        exact run
  | ask q next ih =>
      rw [bind, runs_ask]
      constructor
      · rintro ⟨answer, rest, rfl, run⟩
        obtain ⟨a, before, after, rfl, first, second⟩ := (ih answer).mp run
        exact ⟨a, ⟨q, answer⟩ :: before, after, rfl, .ask first, second⟩
      · rintro ⟨a, before, after, rfl, first, second⟩
        obtain ⟨answer, rest, rfl, run⟩ := runs_ask.mp first
        exact ⟨answer, rest ++ after, rfl, (ih answer).mpr ⟨a, rest, after, rfl, run, second⟩⟩

/-- An environment answers every question from its state. -/
abbrev Environment (S : Type w) (Q : Type u) (A : Q → Type v) := (q : Q) → S → S × A q

variable {S : Type w} (env : Environment S Q A)

def exec : Prog Q A α → S → S × α
  | done a, s => (s, a)
  | ask q next, s => exec (next (env q s).2) (env q s).1

/-- The exchanges of a program with an environment. -/
def transcript : Prog Q A α → S → List (Exchange Q A)
  | done _, _ => []
  | ask q next, s => ⟨q, (env q s).2⟩ :: transcript (next (env q s).2) (env q s).1

theorem runs_exec (x : Prog Q A α) (s : S) : Runs x (transcript env x s) (exec env x s).2 := by
  induction x generalizing s with
  | done a => exact .done a
  | ask q next ih => exact .ask (ih _ _)

theorem exec_bind (x : Prog Q A α) (f : α → Prog Q A β) (s : S) :
    exec env (x.bind f) s = exec env (f (exec env x s).2) (exec env x s).1 := by
  induction x generalizing s with
  | done a => rfl
  | ask q next ih => exact ih _ _

theorem transcript_bind (x : Prog Q A α) (f : α → Prog Q A β) (s : S) :
    transcript env (x.bind f) s =
      transcript env x s ++ transcript env (f (exec env x s).2) (exec env x s).1 := by
  induction x generalizing s with
  | done a => rfl
  | ask q next ih => exact congrArg (_ :: ·) (ih _ _)

/-- What holds of every answer of an environment holds of every exchange with it. -/
theorem transcript_all {E : Exchange Q A → Prop} (all : ∀ q s, E ⟨q, (env q s).2⟩) (x : Prog Q A α)
    (s : S) : ∀ e ∈ transcript env x s, E e := by
  induction x generalizing s with
  | done a => exact fun _ => nofun
  | ask q next ih => exact List.forall_mem_cons.mpr ⟨all q s, ih _ _⟩

/-- What every exchange of a program with its environment keeps of the environment's state. -/
theorem exec_keeps {P : S → Prop} {E : Exchange Q A → Prop}
    (kept : ∀ q s, E ⟨q, (env q s).2⟩ → P s → P (env q s).1) (x : Prog Q A α) (s : S)
    (allowed : ∀ e ∈ transcript env x s, E e) (before : P s) : P (exec env x s).1 := by
  induction x generalizing s with
  | done a => exact before
  | ask q next ih =>
      obtain ⟨first, rest⟩ := List.forall_mem_cons.mp allowed
      exact ih _ _ rest (kept q s first before)

theorem exec_follows {T : List (Exchange Q A) → S → Prop} {E : Exchange Q A → Prop}
    (kept : ∀ told q s, E ⟨q, (env q s).2⟩ → T told s →
      T (told ++ [⟨q, (env q s).2⟩]) (env q s).1) (x : Prog Q A α) (s : S)
    (allowed : ∀ e ∈ transcript env x s, E e) (told : List (Exchange Q A)) (before : T told s) :
    T (told ++ transcript env x s) (exec env x s).1 := by
  induction x generalizing s told with
  | done a => rwa [transcript, List.append_nil]
  | ask q next ih =>
      obtain ⟨first, rest⟩ := List.forall_mem_cons.mp allowed
      have after := ih _ _ rest _ (kept told q s first before)
      rwa [List.append_assoc] at after

end Prog

open Prog

/-- What a failing program has written stays written. -/
abbrev Act (Q : Type u) (A : Q → Type v) (ε σ : Type w) := ExceptT ε (StateT σ (Prog Q A))

namespace Act

variable {ε σ α β : Type w}

/-- The program that an act is from a state. -/
def start (x : Act Q A ε σ α) (s : σ) : Prog Q A (Except ε α × σ) := x.run.run s

def ask {A : Q → Type w} (q : Q) : Act Q A ε σ (A q) :=
  ExceptT.mk fun s => .ask q fun answer => .done (.ok answer, s)

/-- A failure is handed back as a value. -/
def attempt (x : Act Q A ε σ α) : Act Q A ε σ (Except ε α) :=
  ExceptT.mk fun s => (start x s).bind fun p => .done (.ok p.1, p.2)

theorem start_bind (x : Act Q A ε σ α) (f : α → Act Q A ε σ β) (s : σ) :
    start (x >>= f) s = (start x s).bind fun p =>
      match p with
      | (.ok a, t) => start (f a) t
      | (.error e, t) => done (.error e, t) := by
  refine congrArg (Prog.bind (start x s)) (funext fun p => ?_)
  obtain ⟨_ | a, t⟩ := p <;> rfl

/-- Whatever it is told, an act ends only as `P` says of the exchanges and the result. -/
def Upholds (P : List (Exchange Q A) → Except ε α → Prop) (x : Act Q A ε σ α) : Prop :=
  ∀ s told r t, Runs (start x s) told (r, t) → P told r

namespace Upholds

variable {P : List (Exchange Q A) → Except ε α → Prop} {x : Act Q A ε σ α}

theorem mono {P' : List (Exchange Q A) → Except ε α → Prop} (h : Upholds P x)
    (weaker : ∀ told r, P told r → P' told r) : Upholds P' x :=
  fun s told r t run => weaker told r (h s told r t run)

theorem and {P' : List (Exchange Q A) → Except ε α → Prop} (h : Upholds P x) (h' : Upholds P' x) :
    Upholds (fun told r => P told r ∧ P' told r) x :=
  fun s told r t run => ⟨h s told r t run, h' s told r t run⟩

/-- What holds of the results alone: only the last act counts. -/
theorem last {f : α → Act Q A ε σ β} {P' : Except ε β → Prop}
    (second : ∀ a, Upholds (fun _ r => P' r) (f a)) (failed : ∀ e, P' (.error e)) :
    Upholds (fun _ r => P' r) (x >>= f) := by
  intro s told r t run
  rw [start_bind] at run
  obtain ⟨⟨r', t'⟩, before, after, rfl, -, ended⟩ := runs_bind.mp run
  cases r' with
  | ok a => exact second a t' after r t ended
  | error e =>
      obtain ⟨rfl, same⟩ := runs_done.mp ended
      obtain ⟨rfl, rfl⟩ := Prod.mk.inj same
      exact failed e

theorem pure {a : α} (h : P [] (.ok a)) : Upholds P (pure a : Act Q A ε σ α) := by
  intro s told r t run
  obtain ⟨rfl, same⟩ := runs_done.mp run
  obtain ⟨rfl, rfl⟩ := Prod.mk.inj same
  exact h

theorem throw {e : ε} (h : P [] (.error e)) : Upholds P (throw e : Act Q A ε σ α) := by
  intro s told r t run
  obtain ⟨rfl, same⟩ := runs_done.mp run
  obtain ⟨rfl, rfl⟩ := Prod.mk.inj same
  exact h

theorem modify {P : List (Exchange Q A) → Except ε PUnit → Prop} {f : σ → σ}
    (h : P [] (.ok ⟨⟩)) : Upholds P (modify f : Act Q A ε σ PUnit) := by
  intro s told r t run
  obtain ⟨rfl, same⟩ := runs_done.mp run
  obtain ⟨rfl, rfl⟩ := Prod.mk.inj same
  exact h

theorem get {P : List (Exchange Q A) → Except ε σ → Prop} (h : ∀ s, P [] (.ok s)) :
    Upholds P (get : Act Q A ε σ σ) := by
  intro s told r t run
  obtain ⟨rfl, same⟩ := runs_done.mp run
  obtain ⟨rfl, rfl⟩ := Prod.mk.inj same
  exact h t

theorem ask {A : Q → Type w} {q : Q} {P : List (Exchange Q A) → Except ε (A q) → Prop}
    (h : ∀ answer, P [⟨q, answer⟩] (.ok answer)) : Upholds P (ask q : Act Q A ε σ (A q)) := by
  intro s told r t run
  obtain ⟨answer, rest, rfl, ended⟩ := runs_ask.mp run
  obtain ⟨rfl, same⟩ := runs_done.mp ended
  obtain ⟨rfl, rfl⟩ := Prod.mk.inj same
  exact h answer

theorem read {f : σ → Act Q A ε σ α} (next : ∀ s, Upholds P (f s)) :
    Upholds P (MonadState.get >>= f) :=
  fun s told r t run => next s s told r t run

/-- A question and what is done with its answer. -/
theorem asked {A : Q → Type w} {q : Q} {f : A q → Act Q A ε σ α}
    {P : List (Exchange Q A) → Except ε α → Prop}
    (h : ∀ answer, Upholds (fun told r => P (⟨q, answer⟩ :: told) r) (f answer)) :
    Upholds P (Act.ask q >>= f) := by
  intro s told r t run
  obtain ⟨answer, rest, rfl, ended⟩ := runs_ask.mp run
  exact h answer s rest r t ended

theorem attempt {P' : List (Exchange Q A) → Except ε (Except ε α) → Prop} (h : Upholds P x)
    (caught : ∀ told r, P told r → P' told (.ok r)) : Upholds P' (attempt x) := by
  intro s told r t run
  obtain ⟨⟨r', t'⟩, before, after, rfl, first, ended⟩ := runs_bind.mp run
  obtain ⟨rfl, same⟩ := runs_done.mp ended
  obtain ⟨rfl, rfl⟩ := Prod.mk.inj same
  rw [List.append_nil]
  exact caught before r' (h s before r' t first)

/-- The sequence rule: the second act starts where the first has succeeded. -/
theorem bind {f : α → Act Q A ε σ β} {R : α → List (Exchange Q A) → Except ε β → Prop}
    {P' : List (Exchange Q A) → Except ε β → Prop} (first : Upholds P x)
    (second : ∀ a told, P told (.ok a) → Upholds (R a) (f a))
    (failed : ∀ e told, P told (.error e) → P' told (.error e))
    (joined : ∀ a told rest r, P told (.ok a) → R a rest r → P' (told ++ rest) r) :
    Upholds P' (x >>= f) := by
  intro s told r t run
  rw [start_bind] at run
  obtain ⟨⟨r', t'⟩, before, after, rfl, start, ended⟩ := runs_bind.mp run
  have held := first s before r' t' start
  cases r' with
  | ok a => exact joined a before after r held (second a before held t' after r t ended)
  | error e =>
      obtain ⟨rfl, same⟩ := runs_done.mp ended
      obtain ⟨rfl, rfl⟩ := Prod.mk.inj same
      rw [List.append_nil]
      exact failed e before held

end Upholds

/-- Told only what `E` admits, an act fails only as `X` allows. -/
def Raises (E : Exchange Q A → Prop) (X : ε → Prop) (x : Act Q A ε σ α) : Prop :=
  Upholds (fun told r => (∀ e ∈ told, E e) → ∀ e, r = .error e → X e) x

namespace Raises

variable {E : Exchange Q A → Prop} {X : ε → Prop} {x : Act Q A ε σ α}

theorem pure (a : α) : Raises E X (pure a : Act Q A ε σ α) := Upholds.pure fun _ => nofun

theorem throw {e : ε} (allowed : X e) : Raises E X (throw e : Act Q A ε σ α) := by
  refine Upholds.throw ?_
  rintro - _ ⟨⟩
  exact allowed

theorem modify (f : σ → σ) : Raises E X (modify f : Act Q A ε σ PUnit) :=
  Upholds.modify fun _ => nofun

theorem read {f : σ → Act Q A ε σ α} (next : ∀ s, Raises E X (f s)) : Raises E X (get >>= f) :=
  Upholds.read next

/-- What follows a question may rely on what `E` admits of the answer. -/
theorem asked {A : Q → Type w} {E : Exchange Q A → Prop} {q : Q} {f : A q → Act Q A ε σ α}
    (next : ∀ answer, E ⟨q, answer⟩ → Raises E X (f answer)) : Raises E X (Act.ask q >>= f) := by
  refine Upholds.asked fun answer s told r t run admitted => ?_
  obtain ⟨first, rest⟩ := List.forall_mem_cons.mp admitted
  exact next answer first s told r t run rest

theorem bind {f : α → Act Q A ε σ β} (first : Raises E X x) (second : ∀ a, Raises E X (f a)) :
    Raises E X (x >>= f) :=
  Upholds.bind first (fun a _ _ => second a)
    (fun _ _ failed admitted e same => failed admitted e (by rw [Except.error.inj same]))
    fun _ _ _ _ _ after admitted => after (List.forall_mem_append.mp admitted).2

theorem bindKnown {f : α → Act Q A ε σ β} {R : Except ε α → Prop} (first : Raises E X x)
    (known : Upholds (fun _ r => R r) x) (second : ∀ a, R (.ok a) → Raises E X (f a)) :
    Raises E X (x >>= f) :=
  Upholds.bind (first.and known) (fun a _ held => second a held.2)
    (fun _ _ failed admitted e same => failed.1 admitted e (by rw [Except.error.inj same]))
    fun _ _ _ _ _ after admitted => after (List.forall_mem_append.mp admitted).2

theorem attempt (x : Act Q A ε σ α) : Raises E X (attempt x) :=
  Upholds.attempt (P := fun _ _ => True) (fun _ _ _ _ _ => trivial) fun _ _ _ _ => nofun

theorem forM {l : List β} {f : β → Act Q A ε σ PUnit} (each : ∀ b ∈ l, Raises E X (f b)) :
    Raises E X (l.forM f) := by
  induction l with
  | nil => exact .pure _
  | cons b l ih =>
      exact (each b List.mem_cons_self).bind fun _ =>
        ih fun b' member => each b' (List.mem_cons_of_mem _ member)

end Raises

/-- Whatever it is told, an act that starts where `I` holds exchanges only what `E` allows, and ends
where `I` holds. -/
def Keeps (I : σ → Prop) (E : Exchange Q A → Prop) (x : Act Q A ε σ α) : Prop :=
  ∀ s told r t, I s → Runs (start x s) told (r, t) → (∀ e ∈ told, E e) ∧ I t

namespace Keeps

variable {I : σ → Prop} {E : Exchange Q A → Prop} {x : Act Q A ε σ α}

theorem mono {E' : Exchange Q A → Prop} (h : Keeps I E x) (weaker : ∀ e, E e → E' e) :
    Keeps I E' x := by
  intro s told r t start run
  obtain ⟨all, stop⟩ := h s told r t start run
  exact ⟨fun e member => weaker e (all e member), stop⟩

theorem pure (a : α) : Keeps I E (pure a : Act Q A ε σ α) := by
  intro s told r t start run
  obtain ⟨rfl, same⟩ := runs_done.mp run
  obtain ⟨rfl, rfl⟩ := Prod.mk.inj same
  exact ⟨fun _ member => absurd member List.not_mem_nil, start⟩

theorem throw (e : ε) : Keeps I E (throw e : Act Q A ε σ α) := by
  intro s told r t start run
  obtain ⟨rfl, same⟩ := runs_done.mp run
  obtain ⟨rfl, rfl⟩ := Prod.mk.inj same
  exact ⟨fun _ member => absurd member List.not_mem_nil, start⟩

theorem modify {f : σ → σ} (kept : ∀ s, I s → I (f s)) :
    Keeps I E (modify f : Act Q A ε σ PUnit) := by
  intro s told r t start run
  obtain ⟨rfl, same⟩ := runs_done.mp run
  obtain ⟨rfl, rfl⟩ := Prod.mk.inj same
  exact ⟨fun _ member => absurd member List.not_mem_nil, kept s start⟩

/-- What is read may be assumed to be as `I` says. -/
theorem read {f : σ → Act Q A ε σ α} (next : ∀ s, I s → Keeps I E (f s)) :
    Keeps I E (get >>= f) := by
  intro s told r t start run
  exact next s start s told r t start run

theorem ask {A : Q → Type w} {E : Exchange Q A → Prop} {q : Q}
    (allowed : ∀ answer, E ⟨q, answer⟩) : Keeps I E (ask q : Act Q A ε σ (A q)) := by
  intro s told r t start run
  obtain ⟨answer, rest, rfl, ended⟩ := runs_ask.mp run
  obtain ⟨rfl, same⟩ := runs_done.mp ended
  obtain ⟨rfl, rfl⟩ := Prod.mk.inj same
  refine ⟨fun e member => ?_, start⟩
  rw [List.mem_singleton.mp member]
  exact allowed answer

theorem bind {f : α → Act Q A ε σ β} (first : Keeps I E x) (second : ∀ a, Keeps I E (f a)) :
    Keeps I E (x >>= f) := by
  intro s told r t begun run
  rw [start_bind] at run
  obtain ⟨⟨r', t'⟩, before, after, rfl, run', ended⟩ := runs_bind.mp run
  obtain ⟨all, middle⟩ := first s before r' t' begun run'
  cases r' with
  | ok a =>
      obtain ⟨others, stop⟩ := second a t' after r t middle ended
      exact ⟨List.forall_mem_append.mpr ⟨all, others⟩, stop⟩
  | error e =>
      obtain ⟨rfl, same⟩ := runs_done.mp ended
      obtain ⟨rfl, rfl⟩ := Prod.mk.inj same
      rw [List.append_nil]
      exact ⟨all, middle⟩

theorem attempt (h : Keeps I E x) : Keeps I E (attempt x) := by
  intro s told r t begun run
  obtain ⟨⟨r', t'⟩, before, after, rfl, run', ended⟩ := runs_bind.mp run
  obtain ⟨rfl, same⟩ := runs_done.mp ended
  obtain ⟨rfl, rfl⟩ := Prod.mk.inj same
  rw [List.append_nil]
  exact h s before r' _ begun run'

theorem forM {l : List β} {f : β → Act Q A ε σ PUnit} (each : ∀ b ∈ l, Keeps I E (f b)) :
    Keeps I E (l.forM f) := by
  induction l with
  | nil => exact .pure _
  | cons b l ih =>
      exact (each b List.mem_cons_self).bind fun _ =>
        ih fun b' member => each b' (List.mem_cons_of_mem _ member)

end Keeps

section Environments

variable {S : Type w} {env : Environment S Q A} {P : σ → S → Prop}

/-- From where `P` holds of both states, an act ends as `R` says of its exchanges, its result and
both states. -/
def Meets (env : Environment S Q A) (P : σ → S → Prop) (x : Act Q A ε σ α)
    (R : List (Exchange Q A) → Except ε α → σ → S → Prop) : Prop :=
  ∀ s w, P s w → R (transcript env (start x s) w) (exec env (start x s) w).2.1
    (exec env (start x s) w).2.2 (exec env (start x s) w).1

namespace Meets

variable {x : Act Q A ε σ α} {R : List (Exchange Q A) → Except ε α → σ → S → Prop}

theorem mono {R' : List (Exchange Q A) → Except ε α → σ → S → Prop} (h : Meets env P x R)
    (weaker : ∀ told r s w, R told r s w → R' told r s w) : Meets env P x R' :=
  fun s w before => weaker _ _ _ _ (h s w before)

theorem pre {T : σ → S → Prop} (h : Meets env P x R) (stronger : ∀ s w, T s w → P s w) :
    Meets env T x R :=
  fun s w before => h s w (stronger s w before)

theorem pure {a : α} (h : ∀ s w, P s w → R [] (.ok a) s w) :
    Meets env P (pure a : Act Q A ε σ α) R := h

theorem throw {e : ε} (h : ∀ s w, P s w → R [] (.error e) s w) :
    Meets env P (throw e : Act Q A ε σ α) R := h

theorem modify {R : List (Exchange Q A) → Except ε PUnit → σ → S → Prop} {f : σ → σ}
    (h : ∀ s w, P s w → R [] (.ok ⟨⟩) (f s) w) : Meets env P (modify f : Act Q A ε σ PUnit) R := h

theorem read {f : σ → Act Q A ε σ α}
    (next : ∀ t, Meets env (fun s w => s = t ∧ P s w) (f t) R) : Meets env P (get >>= f) R :=
  fun s w before => next s s w ⟨rfl, before⟩

theorem ask {A : Q → Type w} {env : Environment S Q A} {q : Q}
    {R : List (Exchange Q A) → Except ε (A q) → σ → S → Prop}
    (h : ∀ s w, P s w → R [⟨q, (env q w).2⟩] (.ok (env q w).2) s (env q w).1) :
    Meets env P (ask q : Act Q A ε σ (A q)) R := h

/-- The sequence rule: the second act starts where the first has succeeded. -/
theorem bind {f : α → Act Q A ε σ β} {T : List (Exchange Q A) → Except ε β → σ → S → Prop}
    (first : Meets env P x R)
    (second : ∀ a told, Meets env (fun s w => R told (.ok a) s w) (f a) fun rest =>
      T (told ++ rest))
    (failed : ∀ e told s w, R told (.error e) s w → T told (.error e) s w) :
    Meets env P (x >>= f) T := by
  intro s w before
  have held := first s w before
  rw [start_bind, transcript_bind, exec_bind]
  generalize transcript env (start x s) w = told at held ⊢
  generalize exec env (start x s) w = result at held ⊢
  obtain ⟨w', e | a, s'⟩ := result
  · rw [show transcript env (done (Except.error e, s') : Prog Q A (Except ε β × σ)) w' = [] from rfl,
      List.append_nil]
    exact failed e told s' w' held
  · exact second a told s' w' held

theorem and {R' : List (Exchange Q A) → Except ε α → σ → S → Prop} (h : Meets env P x R)
    (h' : Meets env P x R') : Meets env P x fun told r s w => R told r s w ∧ R' told r s w :=
  fun s w before => ⟨h s w before, h' s w before⟩

/-- What an act upholds whatever it is told. -/
theorem of_upholds {R : List (Exchange Q A) → Except ε α → Prop} (h : Upholds R x) :
    Meets env P x fun told r _ _ => R told r :=
  fun s w _ => h s _ _ _ (runs_exec env (start x s) w)

/-- What an act keeps throughout, and what follows from its exchanges. -/
theorem of_keeps {I : σ → Prop} {E : Exchange Q A → Prop} {T : List (Exchange Q A) → S → Prop}
    (h : Keeps I E x) (kept : ∀ told q w, E ⟨q, (env q w).2⟩ → T told w →
      T (told ++ [⟨q, (env q w).2⟩]) (env q w).1) :
    Meets env (fun s w => I s ∧ T [] w) x fun told _ s w => I s ∧ T told w := by
  rintro s w ⟨known, before⟩
  obtain ⟨allowed, stop⟩ := h s _ _ _ known (runs_exec env (start x s) w)
  exact ⟨stop, exec_follows env kept _ _ allowed [] before⟩

/-- A question and what is done with its answer. -/
theorem asked {A : Q → Type w} {env : Environment S Q A} {q : Q} {f : A q → Act Q A ε σ α}
    {R : List (Exchange Q A) → Except ε α → σ → S → Prop}
    (h : ∀ answer, Meets env (fun s w' => ∃ w, P s w ∧ env q w = (w', answer)) (f answer)
      fun told => R (⟨q, answer⟩ :: told)) : Meets env P (Act.ask q >>= f) R :=
  fun s w before => h _ s _ ⟨w, before, rfl⟩

end Meets

end Environments

end Act

end Substrate.Library.Resumption
