/- ID: Substrate/Library/Dataflow
   digest: Networks of functional nodes: what each computes, and executions that agree with it. -/

import Mathlib.Data.Nat.Init
import Substrate.Library.Checks

set_option autoImplicit false
set_option relaxedAutoImplicit false

namespace Substrate.Library.Dataflow

open Substrate.Library.Checks (mapM_congr mapM_congr_forall₂ mapM_isSome)

universe u v

/-- Nodes that read sources and make one output each. A source delivers an outside value or part of
the output of its origin. -/
structure Network (N : Type v) (S I O : Type u) where
  sources : N → List S
  origin : S → Option N
  outside : S → Option I
  read : S → O → Option I
  make : N → List I → Option O

variable {N : Type v} {S I O : Type u}

namespace Network

section Rounds

variable (net : Network N S I O)

/-- What nodes have computed so far: their inputs and the output these make. -/
abbrev Results (N : Type v) (I O : Type u) := N → Option (List I × O)

/-- What a source delivers. -/
def deliver (done : Results N I O) (s : S) : Option I :=
  match net.origin s with
  | none => net.outside s
  | some n => (done n).bind fun r => net.read s r.2

/-- The inputs of a node, once all its sources deliver. -/
def resolve (done : Results N I O) (n : N) : Option (List I) :=
  (net.sources n).mapM (net.deliver done)

/-- What a node computes next. -/
def step (done : Results N I O) (n : N) : Option (List I × O) :=
  (net.resolve done n).bind fun inputs => (net.make n inputs).map fun output => (inputs, output)

/-- What the nodes compute in some rounds. -/
def eval : Nat → Results N I O
  | 0 => fun _ => none
  | rounds + 1 => net.step (eval rounds)

/-- The origins of a node's sources are of lower rank. -/
def Ranked (rank : N → Nat) : Prop :=
  ∀ n, ∀ s ∈ net.sources n, ∀ m, net.origin s = some m → rank m < rank n

variable {net}

theorem step_eq_some {done : Results N I O} {n : N} {r : List I × O} :
    net.step done n = some r ↔ net.resolve done n = some r.1 ∧ net.make n r.1 = some r.2 := by
  simp only [step, Option.bind_eq_some_iff, Option.map_eq_some_iff]
  constructor
  · rintro ⟨inputs, resolved, output, made, rfl⟩
    exact ⟨resolved, made⟩
  · rintro ⟨resolved, made⟩
    exact ⟨r.1, resolved, r.2, made, rfl⟩

theorem step_congr {done done' : Results N I O} {n : N}
    (same : ∀ s ∈ net.sources n, net.deliver done s = net.deliver done' s) :
    net.step done n = net.step done' n := by
  unfold step resolve
  rw [mapM_congr same]

theorem deliver_congr {done done' : Results N I O} {s : S}
    (same : ∀ m, net.origin s = some m → done m = done' m) :
    net.deliver done s = net.deliver done' s := by
  unfold deliver
  cases from_ : net.origin s with
  | none => rfl
  | some m =>
      show (done m).bind _ = (done' m).bind _
      rw [same m from_]

theorem eval_stable {rank : N → Nat} (ranked : net.Ranked rank) {n : N} {a b : Nat}
    (first : rank n < a) (second : rank n < b) : net.eval a n = net.eval b n := by
  induction height : rank n using Nat.strong_induction_on generalizing n a b with
  | _ k below =>
      obtain ⟨a, rfl⟩ := Nat.exists_eq_succ_of_ne_zero (Nat.ne_of_gt (Nat.zero_lt_of_lt first))
      obtain ⟨b, rfl⟩ := Nat.exists_eq_succ_of_ne_zero (Nat.ne_of_gt (Nat.zero_lt_of_lt second))
      refine step_congr fun s member => deliver_congr fun m from_ => ?_
      have lower := ranked n s member m from_
      exact below _ (height ▸ lower) (by omega) (by omega) rfl

theorem eval_fixed {rank : N → Nat} (ranked : net.Ranked rank) {n : N} {rounds : Nat}
    (enough : rank n < rounds) : net.step (net.eval rounds) n = net.eval rounds n := by
  rw [eval_stable ranked enough (Nat.lt_succ_of_lt enough)]
  rfl

private theorem countP_lt {p q : N → Bool} (weaker : ∀ n, p n = true → q n = true) {l : List N}
    {n : N} (member : n ∈ l) (new : q n = true) (old : p n = false) : l.countP p < l.countP q := by
  obtain ⟨front, back, rfl⟩ := List.append_of_mem member
  have first := List.countP_mono_left (l := front) fun m _ => weaker m
  have second := List.countP_mono_left (l := back) fun m _ => weaker m
  rw [List.countP_append, List.countP_append, List.countP_cons, List.countP_cons, new, old]
  simp only [if_true, Bool.false_eq_true, if_false]
  omega

/-- Nodes that are all in a list have ranks below its length. -/
theorem Ranked.bounded {rank : N → Nat} (ranked : net.Ranked rank) {nodes : List N}
    (inside : ∀ n, ∀ s ∈ net.sources n, ∀ m, net.origin s = some m → m ∈ nodes) :
    ∃ rank', net.Ranked rank' ∧ ∀ n ∈ nodes, rank' n < nodes.length := by
  refine ⟨fun n => nodes.countP (rank · < rank n), fun n s member m from_ => ?_, fun n member => ?_⟩
  · have lower := ranked n s member m from_
    refine countP_lt (fun k below => ?_) (inside n s member m from_) (decide_eq_true lower)
      (decide_eq_false (Nat.lt_irrefl _))
    exact decide_eq_true (Nat.lt_trans (of_decide_eq_true below) lower)
  · have all : nodes.countP (fun _ => true) = nodes.length :=
      List.countP_eq_length.mpr fun _ _ => rfl
    rw [← all]
    exact countP_lt (fun _ _ => rfl) member rfl (decide_eq_false (Nat.lt_irrefl _))

end Rounds

section Executions

variable {net : Network N S I O} {done : Results N I O}

/-- Whatever is done is what its node computes from the rest. -/
def Consistent (net : Network N S I O) (done : Results N I O) : Prop :=
  ∀ n r, done n = some r → net.step done n = some r

/-- Whatever some nodes could compute from the rest is done. -/
def Settled (net : Network N S I O) (nodes : N → Prop) (done : Results N I O) : Prop :=
  ∀ n, nodes n → (net.step done n).isSome = true → (done n).isSome = true

theorem origin_done {s : S} {i : I} (delivered : net.deliver done s = some i) {m : N}
    (from_ : net.origin s = some m) : ∃ r, done m = some r := by
  unfold deliver at delivered
  rw [from_] at delivered
  obtain ⟨r, found, -⟩ := Option.bind_eq_some_iff.mp delivered
  exact ⟨r, found⟩

theorem step_delivers {n : N} {r : List I × O} (made : net.step done n = some r) {s : S}
    (member : s ∈ net.sources n) : ∃ i, net.deliver done s = some i :=
  mapM_isSome.mp ⟨r.1, (step_eq_some.mp made).1⟩ s member

/-- In whatever order it was done, what is done is what the network computes: by induction on the
rank. -/
theorem Consistent.sound (consistent : net.Consistent done) {rank : N → Nat}
    (ranked : net.Ranked rank) {n : N} {r : List I × O} (here : done n = some r) {rounds : Nat}
    (enough : rank n < rounds) : net.eval rounds n = some r := by
  induction height : rank n using Nat.strong_induction_on generalizing n r with
  | _ k below =>
      have made := consistent n r here
      rw [← eval_fixed ranked enough, ← made]
      refine step_congr fun s member => deliver_congr fun m from_ => ?_
      obtain ⟨i, delivered⟩ := step_delivers made member
      obtain ⟨r', there⟩ := origin_done delivered from_
      have lower := ranked n s member m from_
      rw [there]
      exact below _ (height ▸ lower) there (by omega) rfl

/-- Where nothing is left to compute, all that the network computes is done. -/
theorem Settled.complete {nodes : N → Prop} (settled : net.Settled nodes done)
    (consistent : net.Consistent done) {rank : N → Nat} (ranked : net.Ranked rank)
    (inside : ∀ n, nodes n → ∀ s ∈ net.sources n, ∀ m, net.origin s = some m → nodes m) {n : N}
    (member : nodes n) {rounds : Nat} (enough : rank n < rounds) :
    net.eval rounds n = done n := by
  induction height : rank n using Nat.strong_induction_on generalizing n with
  | _ k below =>
      have same : net.step (net.eval rounds) n = net.step done n := by
        refine step_congr fun s listed => deliver_congr fun m from_ => ?_
        have lower := ranked n s listed m from_
        exact below _ (height ▸ lower) (inside n member s listed m from_) (by omega) rfl
      rw [← eval_fixed ranked enough, same]
      cases made : net.step done n with
      | none =>
          cases here : done n with
          | none => rfl
          | some r =>
              rw [consistent n r here] at made
              cases made
      | some r =>
          obtain ⟨r', here⟩ := Option.isSome_iff_exists.mp
            (settled n member (by rw [made]; rfl))
          rw [here, ← made]
          exact consistent n r' here

end Executions

section Rewiring

variable {net net' : Network N S I O}

/-- A rewired source has an origin as before, or delivers from outside what the network computes. -/
def Rewires (net net' : Network N S I O) (rounds : Nat) (kept : N → Prop) (s s' : S) : Prop :=
  (∃ m, kept m ∧ net.origin s = some m ∧ net'.origin s' = some m ∧
      ∀ o, net'.read s' o = net.read s o) ∨
    net'.origin s' = none ∧ net'.outside s' = net.deliver (net.eval rounds) s

theorem rewired_eval {kept : N → Prop} {rank : N → Nat} (ranked : net.Ranked rank) {rounds : Nat}
    (enough : ∀ n, kept n → rank n < rounds)
    (sources : ∀ n, kept n →
      List.Forall₂ (Rewires net net' rounds kept) (net.sources n) (net'.sources n))
    (make : ∀ n, kept n → net'.make n = net.make n) {n : N} (member : kept n) {rounds' : Nat}
    (enough' : rank n < rounds') : net'.eval rounds' n = net.eval rounds n := by
  induction height : rank n using Nat.strong_induction_on generalizing n rounds' with
  | _ k below =>
      obtain ⟨rounds', rfl⟩ :=
        Nat.exists_eq_succ_of_ne_zero (Nat.ne_of_gt (Nat.zero_lt_of_lt enough'))
      rw [← eval_fixed ranked (enough n member)]
      have same : net.resolve (net.eval rounds) n = net'.resolve (net'.eval rounds') n := by
        have listed := (List.forall₂_and_left _ _).mpr ⟨fun s there => there, sources n member⟩
        refine mapM_congr_forall₂ (listed.imp fun s s' ⟨there, rewired⟩ => ?_)
        unfold deliver
        rcases rewired with ⟨m, stays, from_, from_', read⟩ | ⟨from_, outside⟩
        · have lower := ranked n s there m from_
          have earlier : net'.eval rounds' m = net.eval rounds m :=
            below _ (height ▸ lower) stays (by omega) rfl
          rw [from_, from_']
          simp only [earlier, read]
        · rw [from_]
          exact outside.symm
      show net'.step (net'.eval rounds') n = net.step (net.eval rounds) n
      unfold step
      rw [← same, make n member]

end Rewiring

end Network

end Substrate.Library.Dataflow
