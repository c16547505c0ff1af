/- ID: Substrate/Protocol/Waves
   source: framework/sdk/rust/src/lib.rs
   digest: Which units a drive leaves claimed: all of a wave but those settled before the answer that ends it. -/

import Substrate.Protocol.Orphans

set_option autoImplicit false
set_option relaxedAutoImplicit false

namespace Substrate.Protocol.Waves

open Substrate.Kernel.Wire
open Substrate.Kernel.Hashing
open Substrate.Kernel.Memory (KernelError)
open Substrate.Framework.Steps
open Substrate.Framework.Policy
open Substrate.Framework.Calls
open Substrate.Framework.Drive
open Substrate.Protocol.Orphans
open Substrate.Library.Resumption
open Substrate.Library.Resumption.Act
open Substrate.Library.Resumption.Prog (Environment Runs exec transcript runs_exec)

/-- Every unit handed out has been committed or released, unless the run is closed. -/
def Unorphaned (closed : Prop) (told : Told) : Prop :=
  closed ∨ (handed told).map (·.id) ≤ released told

/-- A place in a wave: the size of the batch that the claim has handed out, and for how many of its
units a commit or a failure has been asked since. -/
structure Place where
  batch : Nat := 0
  ended : Nat := 0

def Place.next (place : Place) : Exchange Query Answer → Place
  | ⟨.claimReady _ _, .ok resp⟩ => ⟨resp.1.items.length, 0⟩
  | ⟨.commit _ _, _⟩ => ⟨place.batch, place.ended + 1⟩
  | ⟨.failWork _ _, _⟩ => ⟨place.batch, place.ended + 1⟩
  | _ => place

def Place.after (place : Place) (told : Told) : Place := told.foldl Place.next place

/-- Whether a call may end on an answer at this place and leave no unit claimed. -/
def Harmless (place : Place) : Exchange Query Answer → Prop
  -- The unit in hand has been neither committed nor handed back.
  | ⟨.getArtifact _ _, .error _⟩ => False
  | ⟨.putArtifact _ _, .error _⟩ => False
  | ⟨.toVec _, .error _⟩ => False
  | ⟨.memoGet _, .error _⟩ => False
  | ⟨.commit _ _, .error _⟩ => False
  | ⟨.failWork _ _, .error _⟩ => False
  -- It has; the units behind it in its wave have not.
  | ⟨.failWork _ _, .ok _⟩ => place.ended = place.batch
  | ⟨.memoPut _, .error _⟩ => place.ended = place.batch
  | ⟨.ensureTable _, .error _⟩ => place.ended = place.batch
  | ⟨.writeRows _ _ _ _ _, .error _⟩ => place.ended = place.batch
  | _ => True

/-- Every unit handed out is of a module with a plugin, and the last answer, at its place in its
wave, is one that the call may end on. -/
structure Clean (host : Host) (told : Told) : Prop where
  plugged : ∀ work ∈ handed told, work.module ∈ host.plugins
  last : ∀ e ∈ told.getLast?, Harmless (Place.after {} told) e

/-- In a wave, nothing but accepted commits changes what is left of it. -/
def Steady : Exchange Query Answer → Prop
  | ⟨.claimReady _ _, _⟩ => False
  | ⟨.failWork _ _, _⟩ => False
  | ⟨.commit _ _, .error _⟩ => False
  | _ => True

def Smooth (told : Told) : Prop := ∀ e ∈ told, Steady e

/-- An answer that a call may end on after a whole wave. -/
def Calm (e : Exchange Query Answer) : Prop := Harmless {} e

/-- Where a wave can stop with `k` of its units unsettled. -/
inductive Stops : Nat → Exchange Query Answer → Prop
  | early {k : Nat} {e : Exchange Query Answer} :
      0 < k → Early e.1 → stops e = true → Stops k e
  | refused {k : Nat} {submitted : Derivation} {ctx : RequestContext} {e : KernelError} :
      0 < k → Stops k ⟨.commit submitted ctx, .error e⟩
  | failed {k : Nat} {req : FailWorkRequest} {ctx : RequestContext}
      {answer : Except KernelError Run} : 0 < k → Stops k ⟨.failWork req ctx, answer⟩
  | late {k : Nat} {e : Exchange Query Answer} : Late e.1 → stops e = true → Stops k e

theorem Stops.more {k : Nat} {e : Exchange Query Answer} (halt : Stops k e) (n : Nat) :
    Stops (k + n) e := by
  cases halt with
  | early some kind stopped => exact .early (Nat.add_pos_left some n) kind stopped
  | refused some => exact .refused (Nat.add_pos_left some n)
  | failed some => exact .failed (Nat.add_pos_left some n)
  | late kind stopped => exact .late kind stopped

theorem early_steady {e : Exchange Query Answer} (kind : Early e.1) : Steady e := by
  obtain ⟨q, answer⟩ := e
  cases q <;> trivial

theorem late_steady {e : Exchange Query Answer} (kind : Late e.1) : Steady e := by
  obtain ⟨q, answer⟩ := e
  cases q <;> trivial

theorem early_silent {e : Exchange Query Answer} (kind : Early e.1) (place : Place) :
    handedBy e = 0 ∧ releasedBy e = 0 ∧ place.next e = place := by
  obtain ⟨q, answer⟩ := e
  cases q <;> first | exact ⟨rfl, rfl, rfl⟩ | exact kind.elim

theorem late_silent {e : Exchange Query Answer} (kind : Late e.1) (place : Place) :
    handedBy e = 0 ∧ releasedBy e = 0 ∧ place.next e = place := by
  obtain ⟨q, answer⟩ := e
  cases q <;> first | exact ⟨rfl, rfl, rfl⟩ | exact kind.elim

theorem harmless_full {place : Place} (full : place.ended = place.batch)
    {e : Exchange Query Answer} : Harmless place e ↔ Calm e := by
  obtain ⟨q, answer⟩ := e
  cases q <;> (try exact Iff.rfl) <;> cases answer <;>
    first | exact Iff.rfl | exact iff_of_true full rfl

theorem late_calm {e : Exchange Query Answer} (kind : Late e.1) : Calm e := by
  obtain ⟨q, answer⟩ := e
  cases q <;> (try exact kind.elim) <;> (try trivial) <;> cases answer <;> trivial

theorem early_harmful {place : Place} {e : Exchange Query Answer} (kind : Early e.1)
    (stopped : stops e = true) : ¬ Harmless place e := by
  obtain ⟨q, answer⟩ := e
  cases q <;> (try exact kind.elim) <;> (try cases stopped) <;> cases answer <;>
    first | exact id | cases stopped

theorem late_harmless {place : Place} {e : Exchange Query Answer} (kind : Late e.1)
    (stopped : stops e = true) : Harmless place e ↔ place.ended = place.batch := by
  obtain ⟨q, answer⟩ := e
  cases q <;> (try exact kind.elim) <;> (try cases stopped) <;> cases answer <;>
    first | exact Iff.rfl | cases stopped

theorem idle_harmless {e : Exchange Query Answer} (kind : Idle e.1) (place : Place) :
    place.next e = place ∧ Harmless place e := by
  obtain ⟨q, answer⟩ := e
  cases q <;> first | exact ⟨rfl, trivial⟩ | exact kind.elim

theorem after_append (place : Place) (first second : Told) :
    place.after (first ++ second) = (place.after first).after second := List.foldl_append

theorem smooth_append {first second : Told} :
    Smooth (first ++ second) ↔ Smooth first ∧ Smooth second := List.forall_mem_append

private theorem steady_next {place : Place} {e : Exchange Query Answer} (steady : Steady e) :
    handedBy e = 0 ∧ place.next e = ⟨place.batch, place.ended + (releasedBy e).card⟩ := by
  obtain ⟨q, answer⟩ := e
  cases q <;> (try exact ⟨rfl, rfl⟩) <;> (try exact steady.elim)
  cases answer <;> first | exact ⟨rfl, rfl⟩ | exact steady.elim

theorem smooth_after {told : Told} (smooth : Smooth told) (place : Place) :
    handed told = 0 ∧ place.after told = ⟨place.batch, place.ended + (released told).card⟩ := by
  induction told generalizing place with
  | nil => exact ⟨rfl, rfl⟩
  | cons e told ih =>
      obtain ⟨steady, rest⟩ := List.forall_mem_cons.mp smooth
      obtain ⟨silent, step⟩ := @steady_next place _ steady
      obtain ⟨none, after⟩ := ih rest (place.next e)
      rw [← List.singleton_append, handed_append, handed_single, silent, none, released_append,
        released_single, after_append]
      refine ⟨rfl, ?_⟩
      change (place.next e).after told = _
      rw [after, step, Multiset.card_add, Nat.add_assoc]

/-- A wave has stopped with some of its `n` units unsettled. -/
def Halted (n : Nat) (told : Told) : Prop :=
  ∃ before last k, told = before ++ [last] ∧ Smooth before ∧
    (released before).card + k = n ∧ Stops k last

/-- Nothing was asked, or the last answer is one to end on. -/
def Closes (told : Told) : Prop := ∀ e ∈ told.getLast?, Calm e

/-- What a part of a wave does that has `n` units to settle. -/
structure Walk (n : Nat) (told : Told) (ok : Bool) : Prop where
  done : ok = true → Smooth told ∧ (released told).card = n ∧ Closes told
  stopped : ok = false → Halted n told

abbrev Walks {host : Host} {α : Type} (n : Nat) (x : HostAct host α) : Prop :=
  Upholds (fun told r => Walk n told r.isOk) x

private theorem closes_nil : Closes [] := fun e listed => absurd listed (Option.not_mem_none e)

private theorem closes_append {first second : Told} (before : second = [] → Closes first)
    (after : Closes second) : Closes (first ++ second) := by
  rcases eq_or_ne second [] with rfl | some
  · rw [List.append_nil]
    exact before rfl
  · rwa [Closes, List.getLast?_append_of_ne_nil _ some]

private theorem released_card (first second : Told) :
    (released (first ++ second)).card = (released first).card + (released second).card := by
  rw [released_append, Multiset.card_add]

theorem Halted.more {n : Nat} {told : Told} (halted : Halted n told) (m : Nat) :
    Halted (n + m) told := by
  obtain ⟨before, last, k, same, smooth, rfl, halt⟩ := halted
  exact ⟨before, last, k + m, same, smooth, (Nat.add_assoc ..).symm, halt.more m⟩

theorem Halted.behind {n m : Nat} {first second : Told} (smooth : Smooth first)
    (settled : (released first).card = n) (halted : Halted m second) :
    Halted (n + m) (first ++ second) := by
  obtain ⟨before, last, k, rfl, smooth', rfl, halt⟩ := halted
  refine ⟨first ++ before, last, k, (List.append_assoc ..).symm, smooth_append.mpr ⟨smooth, smooth'⟩,
    ?_, halt⟩
  rw [released_card, settled, Nat.add_assoc]

namespace Walk

variable {n m : Nat} {first second told : Told} {ok : Bool}

theorem nothing : Walk 0 [] true :=
  ⟨fun _ => ⟨List.forall_mem_nil _, rfl, closes_nil⟩, fun failed => Bool.noConfusion failed⟩

theorem seq (before : Walk n first true) (after : Walk m second ok) :
    Walk (n + m) (first ++ second) ok := by
  obtain ⟨smooth, settled, closes⟩ := before.done rfl
  refine ⟨fun succeeded => ?_, fun failed => (after.stopped failed).behind smooth settled⟩
  obtain ⟨smooth', settled', closes'⟩ := after.done succeeded
  refine ⟨smooth_append.mpr ⟨smooth, smooth'⟩, ?_, closes_append (fun _ => closes) closes'⟩
  rw [released_card, settled, settled']

end Walk

/-- Calls of a wave that settle no unit, wherever one of them fails. -/
def Interim (K : Query → Prop) : Prop :=
  ∀ e : Exchange Query Answer, K e.1 → Steady e ∧ (stops e = true → ∀ k, 0 < k → Stops k e)

theorem early_interim : Interim Early :=
  fun _ kind => ⟨early_steady kind, fun stopped _ some => .early some kind stopped⟩

theorem late_interim : Interim Late :=
  fun _ kind => ⟨late_steady kind, fun stopped _ _ => .late kind stopped⟩

section Interims

variable {host : Host} {K : Query → Prop} {n : Nat} {told : Told} {ok : Bool}

theorem aside_smooth (interim : Interim K) (aside : Aside K told ok) : Smooth told :=
  fun e member => (interim e (aside.among e member)).1

private theorem aside_before {before : Told} {last : Exchange Query Answer}
    (aside : Aside K (before ++ [last]) ok) : (released before).card = 0 := by
  have none := congrArg Multiset.card aside.released
  rw [released_card, Multiset.card_zero] at none
  exact Nat.eq_zero_of_add_eq_zero_right none

theorem aside_halted (interim : Interim K) (aside : Aside K told false) (some : 0 < n) :
    Halted n told := by
  obtain ⟨before, last, rfl, stopped⟩ := aside.stopped rfl
  have listed : last ∈ before ++ [last] := List.mem_append_right _ List.mem_cons_self
  refine ⟨before, last, n, rfl, fun e member => aside_smooth interim aside e
    (List.mem_append_left _ member), ?_, (interim last (aside.among last listed)).2 stopped n some⟩
  rw [aside_before aside, Nat.zero_add]

theorem late_walk (aside : Aside Late told ok) : Walk 0 told ok := by
  refine ⟨fun _ => ⟨aside_smooth late_interim aside, ?_, fun e listed => ?_⟩, ?_⟩
  · rw [aside.released]
    rfl
  · exact late_calm (aside.among e (List.mem_of_getLast? listed))
  · rintro rfl
    obtain ⟨before, last, rfl, stopped⟩ := aside.stopped rfl
    have listed : last ∈ before ++ [last] := List.mem_append_right _ List.mem_cons_self
    exact ⟨before, last, 0, rfl, fun e member => aside_smooth late_interim aside e
      (List.mem_append_left _ member), aside_before aside,
      .late (aside.among last listed) stopped⟩

end Interims

section Rules

variable {host : Host} {K : Query → Prop} {n m : Nat} {α β : Type} {x : HostAct host α}
  {f : α → HostAct host β}

theorem Walks.pure (a : α) : Walks 0 (pure a : HostAct host α) := Upholds.pure .nothing

theorem Walks.bind (first : Walks n x) (second : ∀ a, Walks m (f a)) : Walks (n + m) (x >>= f) :=
  Upholds.bind first (fun a _ _ => second a)
    (fun _ _ halted => ⟨nofun, fun _ => (halted.stopped rfl).more m⟩)
    fun _ _ _ _ before after => before.seq after

theorem Walks.andThen (first : Walks n x) (second : ∀ a, Quiet Late (f a)) : Walks n (x >>= f) :=
  Walks.bind (m := 0) first fun a => (second a).mono fun _ _ aside => late_walk aside

theorem Walks.beforeKnown {P : Except FrameworkError α → Prop} (interim : Interim K)
    (first : Quiet K x) (known : Upholds (fun _ r => P r) x) (some : 0 < n)
    (second : ∀ a, P (.ok a) → Walks n (f a)) : Walks n (x >>= f) := by
  refine Upholds.bind (first.and known) (fun a _ held => second a held.2)
    (fun _ _ held => ⟨nofun, fun _ => aside_halted interim held.1 some⟩) ?_
  intro a told rest r held walk
  have smooth := aside_smooth interim held.1
  have none : (released told).card = 0 := congrArg Multiset.card held.1.released
  refine ⟨fun succeeded => ?_, fun failed => ?_⟩
  · obtain ⟨smooth', settled, closes⟩ := walk.done succeeded
    refine ⟨smooth_append.mpr ⟨smooth, smooth'⟩, ?_, closes_append ?_ closes⟩
    · rw [released_card, none, settled, Nat.zero_add]
    · rintro rfl
      exact absurd settled some.ne
  · rw [← Nat.zero_add n]
    exact (walk.stopped failed).behind smooth none

theorem Walks.before (interim : Interim K) (first : Quiet K x) (some : 0 < n)
    (second : ∀ a, Walks n (f a)) : Walks n (x >>= f) :=
  .beforeKnown interim first (first.mono fun _ _ _ => trivial) some fun a _ => second a

theorem Walks.early (first : Quiet Early x) (second : ∀ a, Walks 1 (f a)) : Walks 1 (x >>= f) :=
  .before early_interim first Nat.zero_lt_one second

theorem Walks.forM {l : List β} {g : β → HostAct host PUnit} (each : ∀ b ∈ l, Walks 1 (g b)) :
    Walks l.length (l.forM g) := by
  induction l with
  | nil => exact .pure _
  | cons b l ih =>
      rw [List.length_cons, Nat.add_comm]
      exact (each b List.mem_cons_self).bind fun _ =>
        ih fun c member => each c (List.mem_cons_of_mem _ member)

end Rules

section Units

variable [Sha256] {host : Host} {work : WorkItem}

omit [Sha256] in
private theorem commitOutputs_walks (runId : String) (outputs : List NamedArtifact) :
    Walks 1 (commitOutputs runId work outputs : HostAct host Unit) := by
  refine Walks.andThen (Upholds.asked fun answer => ?_) fun _ => .pure _
  cases answer with
  | ok run =>
      refine Upholds.pure ⟨fun _ => ⟨List.forall_mem_singleton.mpr trivial, rfl, ?_⟩, nofun⟩
      rintro _ ⟨⟩
      trivial
  | error e =>
      exact Upholds.throw ⟨nofun, fun _ =>
        ⟨[], _, 1, rfl, List.forall_mem_nil _, rfl, .refused Nat.zero_lt_one⟩⟩

omit [Sha256] in
private theorem commitMemoHit_walks (plugged : work.module ∈ host.plugins) (runId : String)
    (step : StepContext) (key : String) (outputs : List NamedArtifact) (sourceRun : String) :
    Walks 1
      (commitMemoHit runId work.module work step key outputs sourceRun : HostAct host Unit) :=
  .early (emitPresentation_quiet _ _) fun _ =>
    (commitOutputs_walks runId outputs).andThen fun _ =>
      (Quiet.modify _).bind fun _ => applyStepStorage_quiet plugged _ _ _

private theorem commitStepSuccess_walks (plugged : work.module ∈ host.plugins) (runId : String)
    (step : StepContext) (output : StepOutput) :
    Walks 1 (commitStepSuccess runId work.module work step output : HostAct host Unit) := by
  refine .early (putOutputs_quiet _ _) fun outputs =>
    .early (requirePlugin_quiet plugged) fun _ =>
      .early (.ask ?_ trivial) fun _ =>
        .early (emitOptional_quiet _ _) fun _ =>
          (commitOutputs_walks runId outputs).andThen fun _ =>
            (storeMemoAfterSuccess_quiet _ _ _ _).bind fun _ =>
              applyStepStorage_quiet plugged _ _ _
  exact fun _ => ⟨rfl, rfl, rfl⟩

omit [Sha256] in
private theorem failStep_walks (plugged : work.module ∈ host.plugins) (runId : String)
    (step : StepContext) (e : FrameworkError) :
    Walks 1 (failStep runId work.module work step e : HostAct host Unit) := by
  refine .early (requirePlugin_quiet plugged) fun _ =>
    .early (.ask ?_ trivial) fun shown =>
      .early (emitPresentation_quiet _ _).attempt fun _ =>
        .before late_interim (applyStepStorage_quiet plugged _ _ _).attempt Nat.zero_lt_one
          fun _ => Upholds.asked fun answer => Upholds.throw ⟨nofun, fun _ =>
            ⟨[], _, 1, rfl, List.forall_mem_nil _, rfl, .failed Nat.zero_lt_one⟩⟩
  exact fun _ => ⟨rfl, rfl, rfl⟩

private theorem settleStep_walks (plugged : work.module ∈ host.plugins) (runId : String)
    (executed : Executed) :
    Walks 1 (settleStep runId work executed : HostAct host Unit) := by
  unfold settleStep
  split
  · exact commitStepSuccess_walks plugged runId _ _
  · exact failStep_walks plugged runId _ _

private theorem finishWorkUnit_walks (plugged : work.module ∈ host.plugins) (runId : String) :
    Walks 1 (finishWorkUnit runId work : HostAct host Unit) := by
  refine .early (loadStep_quiet runId work) fun step =>
    .early (tryMemoHit_quiet _ _ _) fun hit => ?_
  split
  · exact commitMemoHit_walks plugged runId step _ _ _
  · refine .early (requirePlugin_quiet plugged) fun _ =>
      .early (.ask ?_ trivial) fun shown =>
        .early (emitOptional_quiet _ _) fun _ =>
          .early (executeStep_quiet _ _) fun executed =>
            .early countExecute_quiet fun _ =>
              .early (Quiet.forM fun _ _ => emitPresentation_quiet _ _) fun _ =>
                settleStep_walks plugged runId executed
    exact fun _ => ⟨rfl, rfl, rfl⟩

/-- What the first phase of a wave of `n` units leaves for the others. -/
def Readied (host : Host) (n : Nat) (told : Told) : Except FrameworkError (List Deferred) → Prop
  | .ok deferred => Smooth told ∧ (released told).card + deferred.length = n ∧
      (deferred = [] → Closes told) ∧ ∀ unit ∈ deferred, unit.work.module ∈ host.plugins
  | .error _ => Halted n told

section Readying

variable {α : Type} {n : Nat} {x : HostAct host α} {f : α → HostAct host (List Deferred)}

omit [Sha256] in
private theorem Readied.behind {m : Nat} {first second : Told}
    {r : Except FrameworkError (List Deferred)} (smooth : Smooth first)
    (settled : (released first).card = m) (closes : n = 0 → Closes first)
    (readied : Readied host n second r) : Readied host (m + n) (first ++ second) r := by
  cases r with
  | ok deferred =>
      obtain ⟨smooth', rfl, closes', plugged⟩ := readied
      refine ⟨smooth_append.mpr ⟨smooth, smooth'⟩, ?_, ?_, plugged⟩
      · rw [released_card, settled, Nat.add_assoc]
      · rintro rfl
        refine closes_append ?_ (closes' rfl)
        rintro rfl
        exact closes rfl
  | error e => exact Halted.behind smooth settled readied

omit [Sha256] in
private theorem readies_early (first : Quiet Early x) (some : 0 < n)
    (second : ∀ a, Upholds (Readied host n) (f a)) : Upholds (Readied host n) (x >>= f) := by
  refine Upholds.bind first (fun a _ _ => second a)
    (fun _ _ aside => aside_halted early_interim aside some) ?_
  intro a told rest r aside readied
  have none : (released told).card = 0 := congrArg Multiset.card aside.released
  rw [← Nat.zero_add n]
  exact readied.behind (aside_smooth early_interim aside) none fun empty => absurd empty some.ne'

omit [Sha256] in
private theorem readies_settled (first : Walks 1 x)
    (second : ∀ a, Upholds (Readied host n) (f a)) :
    Upholds (Readied host (1 + n)) (x >>= f) := by
  refine Upholds.bind first (fun a _ _ => second a)
    (fun _ _ walk => (walk.stopped rfl).more n) ?_
  intro a told rest r walk readied
  obtain ⟨smooth, settled, closes⟩ := walk.done rfl
  exact readied.behind smooth settled fun _ => closes

end Readying

private theorem prepareUnits_readies (runId : String) {items : List WorkItem}
    (pluggeds : ∀ work ∈ items, work.module ∈ host.plugins) :
    Upholds (Readied host items.length) (prepareUnits runId items : HostAct host _) := by
  induction items with
  | nil =>
      have readied : Readied host 0 [] (.ok []) :=
        ⟨List.forall_mem_nil _, rfl, fun _ => closes_nil, List.forall_mem_nil _⟩
      exact Upholds.pure readied
  | cons work rest ih =>
      obtain ⟨plugged, others⟩ := List.forall_mem_cons.mp pluggeds
      have some : 0 < (work :: rest).length := Nat.succ_pos _
      rw [prepareUnits]
      refine readies_early (tryMemoHit_quiet _ _ _) some fun hit => ?_
      split
      · refine readies_early (loadStep_quiet _ _) some fun step => ?_
        rw [List.length_cons, Nat.add_comm]
        exact readies_settled (commitMemoHit_walks plugged _ _ _ _ _) fun _ => ih others
      · refine readies_early (requirePlugin_quiet plugged) some fun _ =>
          readies_early (loadStep_quiet _ _) some fun step =>
            readies_early (.ask ?_ trivial) some fun shown => ?_
        · exact fun _ => ⟨rfl, rfl, rfl⟩
        · refine (ih others).bind
            (R := fun deferred told r => told = [] ∧ r = .ok ({ work, step, shown } :: deferred))
            (fun _ _ _ => .pure ⟨rfl, rfl⟩) (fun _ _ halted => Halted.more halted 1) ?_
          rintro deferred told _ _ ⟨smooth, count, -, listed⟩ ⟨rfl, rfl⟩
          rw [List.append_nil]
          refine ⟨smooth, ?_, fun empty => absurd empty (List.cons_ne_nil _ _),
            List.forall_mem_cons.mpr ⟨plugged, listed⟩⟩
          rw [List.length_cons, List.length_cons, ← count, Nat.add_assoc]

private theorem settleUnit_walks (runId : String) {outcome : Deferred × Executed}
    (plugged : outcome.1.work.module ∈ host.plugins) :
    Walks 1 (settleUnit runId outcome : HostAct host Unit) :=
  .early countExecute_quiet fun _ => .early (emitOptional_quiet _ _) fun _ =>
    .early (Quiet.forM fun _ _ => emitPresentation_quiet _ _) fun _ =>
      settleStep_walks plugged runId outcome.2

private theorem settleUnits_walks (runId : String) {deferred : List Deferred}
    (pluggeds : ∀ unit ∈ deferred, unit.work.module ∈ host.plugins) :
    Walks deferred.length
      (executeUnits deferred >>= fun outcomes => outcomes.forM (settleUnit runId) :
        HostAct host Unit) := by
  rcases Nat.eq_zero_or_pos deferred.length with none | some
  · obtain rfl := List.length_eq_zero_iff.mp none
    exact Upholds.pure .nothing
  · refine .beforeKnown early_interim ((executeUnits_keeps deferred).mono fun _ _ held => held.1)
      ((executeUnits_keeps deferred).mono fun _ _ held => held.2) some fun outcomes same => ?_
    have units := same outcomes rfl
    rw [← units, List.length_map]
    refine Walks.forM fun outcome member => settleUnit_walks runId (pluggeds _ ?_)
    rw [← units]
    exact List.mem_map_of_mem member

private theorem finishWorkUnitsParallel_walks (runId : String) {items : List WorkItem}
    (pluggeds : ∀ work ∈ items, work.module ∈ host.plugins) :
    Walks items.length (finishWorkUnitsParallel runId items : HostAct host Unit) := by
  refine (prepareUnits_readies runId pluggeds).bind
    (R := fun deferred told r => (∀ unit ∈ deferred, unit.work.module ∈ host.plugins) →
      Walk deferred.length told r.isOk)
    (fun deferred _ readied => (settleUnits_walks runId readied.2.2.2).mono fun _ _ walk _ => walk)
    (fun _ _ halted => ⟨nofun, fun _ => halted⟩) ?_
  rintro deferred told rest r ⟨smooth, count, closes, listed⟩ walk
  rw [← count]
  refine ⟨fun succeeded => ?_, fun failed => ((walk listed).stopped failed).behind smooth rfl⟩
  obtain ⟨smooth', settled, closes'⟩ := (walk listed).done succeeded
  refine ⟨smooth_append.mpr ⟨smooth, smooth'⟩, ?_, closes_append ?_ closes'⟩
  · rw [released_card, settled]
  · rintro rfl
    exact closes (List.length_eq_zero_iff.mp settled.symm)

/-- What a call's waves come to when every unit is of a module with a plugin: all is settled, or the
place of the last answer tells what is left. -/
structure Course (told : Told) (ok : Bool) : Prop where
  done : ok = true → (∀ place : Place, place.ended = place.batch →
    (place.after told).ended = (place.after told).batch) ∧
    (released told).card = (handed told).card ∧ Closes told
  stopped : ok = false → ∃ before last k, told = before ++ [last] ∧
    (∀ place : Place, place.ended = place.batch →
      (place.after before).ended + k = (place.after before).batch) ∧
    (released before).card + k = (handed before).card ∧
    (Stops k last ∨ k = 0 ∧ releasedBy last = 0 ∧ handedBy last = 0 ∧ ∀ place, Harmless place last)

abbrev Courses {host : Host} {α : Type} (x : HostAct host α) : Prop :=
  Upholds (fun told r => (∀ work ∈ handed told, work.module ∈ host.plugins) →
    Course told r.isOk) x

omit [Sha256] in
private theorem handed_card (first second : Told) :
    (handed (first ++ second)).card = (handed first).card + (handed second).card := by
  rw [handed_append, Multiset.card_add]

omit [Sha256] in
theorem Course.seq {first second : Told} {ok : Bool} (before : Course first true)
    (after : Course second ok) : Course (first ++ second) ok := by
  obtain ⟨full, settled, closes⟩ := before.done rfl
  refine ⟨fun succeeded => ?_, fun failed => ?_⟩
  · obtain ⟨full', settled', closes'⟩ := after.done succeeded
    refine ⟨fun place start => ?_, ?_, closes_append (fun _ => closes) closes'⟩
    · rw [after_append]
      exact full' _ (full place start)
    · rw [released_card, handed_card, settled, settled']
  · obtain ⟨pre, last, k, rfl, left, count, halt⟩ := after.stopped failed
    refine ⟨first ++ pre, last, k, (List.append_assoc ..).symm, fun place start => ?_, ?_, halt⟩
    · rw [after_append]
      exact left _ (full place start)
    · rw [released_card, handed_card, settled, Nat.add_assoc, count]

omit [Sha256] in
theorem Courses.bind {α β : Type} {x : HostAct host α} {f : α → HostAct host β}
    (first : Courses x) (second : ∀ a, Courses (f a)) : Courses (x >>= f) := by
  refine Upholds.bind first (fun a _ _ => second a) (fun _ _ course => course) ?_
  intro a told rest r before after plugged
  rw [handed_append] at plugged
  exact (before fun work member => plugged work (Multiset.mem_add.mpr (.inl member))).seq
    (after fun work member => plugged work (Multiset.mem_add.mpr (.inr member)))

omit [Sha256] in
theorem Courses.pure {α : Type} (a : α) : Courses (pure a : HostAct host α) :=
  Upholds.pure fun _ => ⟨fun _ => ⟨fun _ => id, rfl, fun _ => nofun⟩, nofun⟩

omit [Sha256] in
private theorem idle_after {told : Told} (idle : ∀ e ∈ told, Idle e.1) (place : Place) :
    place.after told = place := by
  induction told with
  | nil => rfl
  | cons e told ih =>
      obtain ⟨kind, rest⟩ := List.forall_mem_cons.mp idle
      change (place.next e).after told = place
      rw [(idle_harmless kind place).1, ih rest]

omit [Sha256] in
theorem Courses.idle {α : Type} {x : HostAct host α} (quiet : Quiet Idle x) : Courses x := by
  refine quiet.mono fun told r aside _ => ⟨fun _ => ⟨fun place full => ?_, ?_, fun e listed => ?_⟩,
    fun failed => ?_⟩
  · rw [idle_after aside.among, full]
  · rw [aside.released, aside.handed]
    rfl
  · exact (idle_harmless (aside.among e (List.mem_of_getLast? listed)) _).2
  · obtain ⟨before, last, rfl, -⟩ := aside.stopped failed
    obtain ⟨idles, idle⟩ := List.forall_mem_append.mp aside.among
    obtain ⟨silents, silent⟩ := List.forall_mem_append.mp aside.silent
    have rest : Aside Idle before true := ⟨idles, silents, nofun⟩
    obtain ⟨claims, releases, -⟩ := List.forall_mem_singleton.mp silent
    refine ⟨before, last, 0, rfl, fun place full => ?_, ?_, .inr ⟨rfl, releases, claims,
      fun place => (idle_harmless (idle last List.mem_cons_self) place).2⟩⟩
    · rw [idle_after idles, full]
      rfl
    · rw [rest.released, rest.handed]
      rfl

section Claim

variable {req : ClaimRequest} {ctx : RequestContext} (resp : Claimed req) (told : Told)

omit [Sha256] in
private theorem wave_after (place : Place) :
    place.after (⟨.claimReady req ctx, .ok resp⟩ :: told) =
      Place.after ⟨resp.1.items.length, 0⟩ told := rfl

omit [Sha256] in
private theorem wave_handed :
    handed (⟨.claimReady req ctx, .ok resp⟩ :: told) =
      (resp.1.items : Multiset WorkItem) + handed told := by
  rw [← List.singleton_append, handed_append, handed_single]
  rfl

omit [Sha256] in
private theorem wave_released :
    released (⟨.claimReady req ctx, .ok resp⟩ :: told) = released told := by
  rw [← List.singleton_append, released_append, released_single]
  exact zero_add _

end Claim

omit [Sha256] in
private theorem claimReady_courses {α : Type} {req : ClaimRequest}
    {f : Claimed req → HostAct host α}
    (rest : ∀ resp, (∀ work ∈ resp.1.items, work.module ∈ host.plugins) →
      Walks resp.1.items.length (f resp)) : Courses (claimReady req >>= f) := by
  unfold claimReady
  rw [bind_assoc]
  refine Upholds.asked fun answer => ?_
  cases answer with
  | error e =>
      refine Upholds.throw fun _ => ⟨nofun, fun _ => ⟨[], _, 0, rfl, fun place full => full, rfl,
        .inr ⟨rfl, rfl, rfl, fun _ => trivial⟩⟩⟩
  | ok resp =>
      by_cases pluggeds : ∀ work ∈ resp.1.items, work.module ∈ host.plugins
      · refine (rest resp pluggeds).mono fun told r walk _ => ⟨fun succeeded => ?_, fun failed => ?_⟩
        · obtain ⟨smooth, settled, closes⟩ := walk.done succeeded
          refine ⟨fun place _ => ?_, ?_, ?_⟩
          · rw [wave_after, (smooth_after smooth _).2, Nat.zero_add, settled]
          · rw [wave_released, wave_handed, (smooth_after smooth {}).1, settled, add_zero,
              Multiset.coe_card]
          · refine @closes_append [_] _ (fun _ e listed => ?_) closes
            cases listed
            trivial
        · obtain ⟨before, last, k, rfl, smooth, count, halt⟩ := walk.stopped failed
          refine ⟨_ :: before, last, k, rfl, fun place _ => ?_, ?_, .inl halt⟩
          · rw [wave_after, (smooth_after smooth _).2, Nat.zero_add, count]
          · rw [wave_released, wave_handed, (smooth_after smooth {}).1, count, add_zero,
              Multiset.coe_card]
      · have anything : Upholds (fun _ _ => True) (f resp) := fun _ _ _ _ _ => trivial
        refine anything.mono fun told r _ all => absurd (fun work member => all work ?_) pluggeds
        rw [wave_handed]
        exact Multiset.mem_add.mpr (.inl member)

private theorem driveClaimWave_courses (runId : String) (onePass : Bool) :
    Courses (driveClaimWave runId onePass : HostAct host Bool) := by
  refine Courses.bind (.idle (policyOf_quiet runId)) fun policy =>
    claimReady_courses fun resp pluggeds => ?_
  split
  case isTrue none => rw [none]; exact .pure _
  case isFalse =>
    split
    · exact Walks.andThen (.forM fun work member => finishWorkUnit_walks (pluggeds work member) runId)
        fun _ => .pure _
    · exact (finishWorkUnitsParallel_walks runId pluggeds).andThen fun _ => .pure _

private theorem tryStep_courses (runId module : String) :
    Courses (tryStep runId module : HostAct host Bool) := by
  refine claimReady_courses fun resp pluggeds => ?_
  have one : resp.1.items.length ≤ 1 := resp.2
  cases items : resp.1.items with
  | nil => exact .pure _
  | cons work rest =>
      rw [items] at one pluggeds
      obtain rfl : rest = [] := List.length_eq_zero_iff.mp (Nat.le_zero.mp (Nat.le_of_succ_le_succ one))
      exact (finishWorkUnit_walks (pluggeds work List.mem_cons_self) runId).andThen fun _ => .pure _

private theorem driveUntilIdle_courses (runId : String) (fuel : Nat) :
    Courses (driveUntilIdle runId fuel : HostAct host _) := by
  induction fuel with
  | zero => exact .pure _
  | succ fuel ih =>
      refine Courses.bind (.idle (getRun_quiet runId)) fun run => ?_
      split
      · exact .pure _
      · refine (driveClaimWave_courses runId false).bind fun found => ?_
        split
        · exact ih
        · exact Courses.bind (.idle (getRun_quiet runId)) fun _ => .pure _

private theorem driveOnePass_courses (runId : String) :
    Courses (driveOnePass runId : HostAct host _) := by
  refine Courses.bind (.idle (getRun_quiet runId)) fun run => ?_
  split
  · exact .pure _
  · exact (driveClaimWave_courses runId true).bind fun _ =>
      Courses.bind (.idle (getRun_quiet runId)) fun _ => .pure _

private theorem driveWith_courses (fuel : Nat) (runId : String) (plan : DrivePlan) :
    Courses (driveWith fuel runId plan : HostAct host _) := by
  rw [driveWith_eq]
  refine Courses.bind ?_ fun run => .idle (closeRun_quiet runId run)
  cases plan with
  | onePass => exact driveOnePass_courses runId
  | untilIdle | untilIdleThenWait => exact driveUntilIdle_courses runId fuel

private theorem perform_course (fuel : Nat) (books : Books host) (call : DriveCall) {told : Told}
    {r : Except FrameworkError Unit} {t : Books host}
    (run : Runs (call.perform fuel books) told (r, t))
    (plugged : ∀ work ∈ handed told, work.module ∈ host.plugins) : Course told r.isOk := by
  cases call with
  | drive runId =>
      exact Courses.bind (.bind (.idle (policyOf_quiet runId)) fun _ =>
        driveWith_courses fuel runId _) (fun _ => .pure _) books told r t run plugged
  | driveWith runId plan =>
      exact (driveWith_courses fuel runId plan).bind (fun _ => .pure _) books told r t run plugged
  | tryStep runId module =>
      exact (tryStep_courses runId module).bind (fun _ => .pure _) books told r t run plugged

end Units

section Calls

variable [Sha256] {host : Host}

omit [Sha256] in
private theorem all_released {told : Told} {ok : Bool} (outcome : Outcome host 0 told ok) :
    (handed told).map (·.id) ≤ released told ↔ (released told).card = (handed told).card := by
  have within : released told ≤ (handed told).map (·.id) := by simpa using outcome.within
  have size : ((handed told).map (·.id)).card = (handed told).card := Multiset.card_map _ _
  constructor
  · intro all
    exact le_antisymm (size ▸ Multiset.card_le_card within) (size ▸ Multiset.card_le_card all)
  · intro same
    exact (Multiset.eq_of_le_of_card_le within (by rw [size, same])).ge

omit [Sha256] in
private theorem stops_left {k : Nat} {before : Told} {last : Exchange Query Answer} {place : Place}
    (halt : Stops k last) (left : (place.after before).ended + k = (place.after before).batch)
    (count : (released before).card + k = (handed before).card) :
    (released (before ++ [last])).card = (handed (before ++ [last])).card ↔
      Harmless (place.after (before ++ [last])) last := by
  rw [after_append, released_card, handed_card, released_single, handed_single]
  change _ ↔ Harmless ((place.after before).next last) last
  cases halt with
  | early some kind stopped =>
      obtain ⟨claims, releases, -⟩ := early_silent kind (place.after before)
      rw [claims, releases, Multiset.card_zero, Multiset.card_zero]
      exact iff_of_false (by omega) (early_harmful kind stopped)
  | refused some =>
      have less : (released before).card < (handed before).card := by omega
      exact iff_of_false less.ne id
  | late kind stopped =>
      obtain ⟨claims, releases, stays⟩ := late_silent kind (place.after before)
      rw [claims, releases, Multiset.card_zero, Multiset.card_zero, stays,
        late_harmless kind stopped]
      omega
  | @failed req ctx answer some =>
      cases answer with
      | error e =>
          have less : (released before).card < (handed before).card := by omega
          exact iff_of_false less.ne id
      | ok run =>
          change (released before).card + 1 = (handed before).card + 0 ↔
            (place.after before).ended + 1 = (place.after before).batch
          omega

omit [Sha256] in
private theorem clean_iff {told : Told} {ok : Bool} (outcome : Outcome host 0 told ok)
    (course : (∀ work ∈ handed told, work.module ∈ host.plugins) → Course told ok) :
    (released told).card = (handed told).card ↔ Clean host told := by
  suffices ends : (∀ work ∈ handed told, work.module ∈ host.plugins) →
      ((released told).card = (handed told).card ↔
        ∀ e ∈ told.getLast?, Harmless (Place.after {} told) e) by
    constructor
    · intro all
      have plugged := outcome.plugged (by rwa [zero_add])
      rw [zero_add] at plugged
      exact ⟨plugged, (ends plugged).mp all⟩
    · exact fun clean => (ends clean.plugged).mpr clean.last
  intro plugged
  cases ok with
  | true =>
      obtain ⟨full, settled, closes⟩ := (course plugged).done rfl
      exact iff_of_true settled fun e listed => (harmless_full (full {} rfl)).mpr (closes e listed)
  | false =>
      obtain ⟨before, last, k, rfl, left, count, halt⟩ := (course plugged).stopped rfl
      have ends : (∀ e ∈ (before ++ [last]).getLast?,
          Harmless (Place.after {} (before ++ [last])) e) ↔
            Harmless (Place.after {} (before ++ [last])) last := by
        simp
      rw [ends]
      rcases halt with halt | ⟨rfl, releases, claims, harmless⟩
      · exact stops_left halt (left {} rfl) count
      · refine iff_of_true ?_ (harmless _)
        rw [released_card, handed_card, released_single, handed_single, releases, claims,
          Multiset.card_zero, count]
        rfl

/-- Every unit that a call was handed is committed or released in the end if and only if the run is
closed, or every unit is of a module with a plugin and the last answer came at a place in its wave
where it costs no unit. -/
theorem unorphaned_iff {S : Type} (env : Environment S Query Answer) (closed : S → Prop)
    (fuel : Nat) (books : Books host) (call : DriveCall) (s : S) :
    Unorphaned (closed (exec env (call.perform fuel books) s).1)
        (transcript env (call.perform fuel books) s) ↔
      closed (exec env (call.perform fuel books) s).1 ∨
        Clean host (transcript env (call.perform fuel books) s) := by
  have run := runs_exec env (call.perform fuel books) s
  have outcome := perform_outcome fuel books call run
  rw [Unorphaned, all_released outcome, clean_iff outcome (perform_course fuel books call run)]

end Calls

section Beside

open Substrate.Kernel.Memory
open Substrate.Kernel.Api (Call Reachable)
open Substrate.Kernel.Concrete
open Substrate.Framework.InProcess

/-- A run is not there, or no longer RUNNING. -/
def Ended {S : Type} (runId : String) (w : World S) : Prop :=
  ∀ slot, w.kernel.runs.lookup runId = some slot → slot.run.state ≠ .running

/-- Two nodes that hear the same line. -/
private def pairAssembly : Assembly :=
  { id := "pair", nodes := [⟨"m", "echo", "1", "say"⟩, ⟨"n", "echo", "1", "say"⟩]
    bindings := [{ toNode := "m", toPort := "heard", input := "line" },
                 { toNode := "n", toPort := "heard", input := "line" }]
    terminal := some ⟨"n", "said"⟩ }

def pairCalls : List Call :=
  stocked .once ++
    [callAt 0 (.startRun
      { id := "r", assembly := some pairAssembly, inputs := [given "line" (text "one")] })]

def pairKernel : State := Substrate.Kernel.Api.exec policy {} pairCalls

/-- A kernel with both units ready. -/
def pairWorld : World Unit := ⟨pairKernel, 0, ()⟩

/-- The first unit's plugin fails. -/
def failsOnce (step : StepContext) : Except FrameworkError StepOutput :=
  if step.work.nodeId = "m" then .error (.invalid "no") else .ok ⟨[]⟩

def pairEnv : Environment (World Unit) Query Answer :=
  inProcess policy (fun _ => envAt 0) (plainPlugins failsOnce)

def pairDrive : Prog Query Answer (Except FrameworkError Unit × Books echoHost) :=
  (DriveCall.drive "r").perform 9 {}

private theorem pair_run :
    (exec pairEnv pairDrive pairWorld).2.1 = .error (.stepFailed "invalid: no") ∧
      ((exec pairEnv pairDrive pairWorld).1.kernel.runs.lookup "r").map (·.run.state) =
        some .running ∧
      (released (transcript pairEnv pairDrive pairWorld)).card <
        (handed (transcript pairEnv pairDrive pairWorld)).card := by
  decide +kernel

private theorem orphaned {S : Type} {runId : String} {w : World S} {told : Told}
    (running : (w.kernel.runs.lookup runId).map (·.run.state) = some .running)
    (less : (released told).card < (handed told).card) : ¬ Unorphaned (Ended runId w) told := by
  rintro (ended | all)
  · obtain ⟨slot, found, state⟩ := Option.map_eq_some_iff.mp running
    exact ended slot found state
  · have bound := Multiset.card_le_card all
    rw [Multiset.card_map] at bound
    exact absurd less (Nat.not_lt.mpr bound)

/-- The host hands back the unit that fails and stops; the other one of its wave stays claimed. -/
theorem drive_orphans :
    Reachable policy pairKernel ∧
      (exec pairEnv pairDrive pairWorld).2.1 = .error (.stepFailed "invalid: no") ∧
      ¬ Unorphaned (Ended "r" (exec pairEnv pairDrive pairWorld).1)
        (transcript pairEnv pairDrive pairWorld) :=
  ⟨⟨pairCalls, rfl⟩, pair_run.1, orphaned pair_run.2.1 pair_run.2.2⟩

end Beside

end Substrate.Protocol.Waves
