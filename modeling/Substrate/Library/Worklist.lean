/- ID: Substrate/Library/Worklist
   digest: A breadth-first search empties its queue and finds exactly what can be reached. -/

import Mathlib.Data.List.Perm.Subperm
import Mathlib.Logic.Relation

set_option autoImplicit false
set_option relaxedAutoImplicit false

namespace Substrate.Library.Worklist

open Relation (ReflTransGen TransGen)

universe u

variable {α : Type u} [DecidableEq α]

/-- What a search has found, what it has ever queued, and its queue. -/
structure Search (α : Type u) where
  found : List α
  visited : List α
  queue : List α

namespace Search

/-- A neighbour that is new to both sets is queued. -/
def meet (st : Search α) (a : α) : Search α :=
  if a ∈ st.found then st
  else if a ∈ st.visited then { st with found := a :: st.found }
  else { found := a :: st.found, visited := a :: st.visited, queue := st.queue ++ [a] }

/-- Meet the neighbours of what the queue holds until it is empty, or the fuel is used up. -/
def run (next : α → List α) : Nat → Search α → Search α
  | 0, st => st
  | fuel + 1, st =>
      match st.queue with
      | [] => st
      | cur :: queue => run next fuel ((next cur).foldl meet { st with queue })

end Search

/-- A neighbour that is new to the one set is queued. -/
def enter (p : List α × List α) (a : α) : List α × List α :=
  if a ∈ p.1 then p else (a :: p.1, p.2 ++ [a])

/-- The search with one set for both, and what is left of its queue. -/
def spread (next : α → List α) : Nat → List α → List α → List α × List α
  | 0, seen, queue => (seen, queue)
  | _ + 1, seen, [] => (seen, [])
  | fuel + 1, seen, cur :: queue =>
      let p := (next cur).foldl enter (seen, queue)
      spread next fuel p.1 p.2

/-- What meeting the neighbours in `l` adds. -/
private structure Grown (l : List α) (st after : Search α) : Prop where
  found : ∀ y, y ∈ after.found ↔ y ∈ st.found ∨ y ∈ l
  known : st.found ⊆ st.visited → after.found ⊆ after.visited
  visited : ∀ x ∈ after.visited, x ∈ st.visited ∨ x ∈ l ∧ x ∈ after.queue
  kept : st.visited ⊆ after.visited
  waiting : st.queue ⊆ after.queue
  queued : st.queue ⊆ st.visited → after.queue ⊆ after.visited
  distinct : st.visited.Nodup → after.visited.Nodup
  count : after.visited.length + st.queue.length = st.visited.length + after.queue.length

private theorem meet_grown (st : Search α) (a : α) : Grown [a] st (st.meet a) := by
  unfold Search.meet
  split_ifs with met seen
  · exact
      { found := fun y => ⟨.inl, fun h => h.elim id fun new => List.mem_singleton.mp new ▸ met⟩
        known := id
        visited := fun _ => .inl
        kept := fun _ => id
        waiting := fun _ => id
        queued := id
        distinct := id
        count := rfl }
  · exact
      { found := fun y => by simp [or_comm]
        known := fun inside => List.cons_subset.mpr ⟨seen, inside⟩
        visited := fun _ => .inl
        kept := fun _ => id
        waiting := fun _ => id
        queued := id
        distinct := id
        count := rfl }
  · exact
      { found := fun y => by simp [or_comm]
        known := fun inside => List.cons_subset_cons a inside
        visited := fun x member => by
          rcases List.mem_cons.mp member with rfl | old
          · exact .inr ⟨List.mem_singleton_self x, List.mem_append_right _ (List.mem_singleton_self x)⟩
          · exact .inl old
        kept := List.subset_cons_self a _
        waiting := List.subset_append_left _ _
        queued := fun inside => List.append_subset.mpr
          ⟨fun x member => List.mem_cons_of_mem a (inside member),
            List.cons_subset.mpr ⟨List.mem_cons_self, List.nil_subset _⟩⟩
        distinct := fun nodup => List.nodup_cons.mpr ⟨seen, nodup⟩
        count := by
          show (a :: st.visited).length + st.queue.length =
            st.visited.length + (st.queue ++ [a]).length
          rw [List.length_cons, List.length_append, List.length_singleton]
          omega }

omit [DecidableEq α] in
private theorem Grown.trans {l l' : List α} {a b c : Search α} (first : Grown l a b)
    (second : Grown l' b c) : Grown (l ++ l') a c where
  found y := by rw [second.found, first.found, List.mem_append, or_assoc]
  known inside := second.known (first.known inside)
  visited x member := by
    rcases second.visited x member with old | ⟨new, waits⟩
    · exact (first.visited x old).imp_right fun ⟨new, waits⟩ =>
        ⟨List.mem_append_left _ new, second.waiting waits⟩
    · exact .inr ⟨List.mem_append_right _ new, waits⟩
  kept _ member := second.kept (first.kept member)
  waiting _ member := second.waiting (first.waiting member)
  queued inside := second.queued (first.queued inside)
  distinct nodup := second.distinct (first.distinct nodup)
  count := by
    have one := first.count
    have two := second.count
    omega

private theorem meets_grown (l : List α) (st : Search α) : Grown l st (l.foldl Search.meet st) := by
  induction l generalizing st with
  | nil =>
      exact
        { found := fun y => by simp
          known := id
          visited := fun _ => .inl
          kept := fun _ => id
          waiting := fun _ => id
          queued := id
          distinct := id
          count := rfl }
  | cons a l ih => exact (meet_grown st a).trans (ih (st.meet a))

variable {next : α → List α} {start : α} {given : List α}

/-- An edge out of a node. -/
abbrev Step (next : α → List α) (x y : α) : Prop := y ∈ next x

/-- What holds between two turns: all that was queued can be reached, and all that has left the queue
has had its neighbours found. -/
private structure Searching (next : α → List α) (start : α) (given : List α) (st : Search α) :
    Prop where
  known : st.found ⊆ st.visited
  queued : st.queue ⊆ st.visited
  begun : start ∈ st.visited
  kept : given ⊆ st.found
  sound : ∀ y ∈ st.found, y ∈ given ∨ TransGen (Step next) start y
  reached : ∀ x ∈ st.visited, ReflTransGen (Step next) start x
  closed : ∀ x ∈ st.visited, x ∈ st.queue ∨ ∀ y ∈ next x, y ∈ st.found
  distinct : st.visited.Nodup

private theorem Searching.turn {st : Search α} (searching : Searching next start given st) {cur : α}
    {queue : List α} (head : st.queue = cur :: queue) :
    Searching next start given ((next cur).foldl Search.meet { st with queue }) := by
  have grown := meets_grown (next cur) { st with queue }
  have here : cur ∈ st.visited := searching.queued (head ▸ List.mem_cons_self)
  have from_ := searching.reached cur here
  have inside : queue ⊆ st.visited := fun x member =>
    searching.queued (head ▸ List.mem_cons_of_mem cur member)
  refine
    { known := grown.known searching.known
      queued := grown.queued inside
      begun := grown.kept searching.begun
      kept := fun y member => (grown.found y).mpr (.inl (searching.kept member))
      sound := fun y member => ?_
      reached := fun x member => ?_
      closed := fun x member => ?_
      distinct := grown.distinct searching.distinct }
  · rcases (grown.found y).mp member with old | new
    · exact searching.sound y old
    · exact .inr (TransGen.tail' from_ new)
  · rcases grown.visited x member with old | ⟨new, -⟩
    · exact searching.reached x old
    · exact from_.tail new
  · rcases grown.visited x member with old | ⟨-, waits⟩
    · rcases searching.closed x old with waits | done
      · rw [head] at waits
        rcases List.mem_cons.mp waits with rfl | later
        · exact .inr fun y edge => (grown.found y).mpr (.inr edge)
        · exact .inl (grown.waiting later)
      · exact .inr fun y edge => (grown.found y).mpr (.inl (done y edge))
    · exact .inl waits

private theorem run_ends {nodes : List α} (within : ∀ x, next x ⊆ nodes) (fuel : Nat) :
    ∀ st : Search α, Searching next start given st → st.visited ⊆ nodes →
      nodes.length + st.queue.length ≤ fuel + st.visited.length →
        (st.run next fuel).queue = [] ∧ Searching next start given (st.run next fuel) := by
  induction fuel with
  | zero =>
      intro st searching inside enough
      have short := (searching.distinct.subperm inside).length_le
      have empty : st.queue.length = 0 := by omega
      exact ⟨List.length_eq_zero_iff.mp empty, searching⟩
  | succ fuel ih =>
      intro st searching inside enough
      rw [Search.run]
      split
      · exact ⟨by assumption, searching⟩
      · rename_i cur queue head
        have grown := meets_grown (next cur) { st with queue }
        refine ih _ (searching.turn head) (fun x member => ?_) ?_
        · rcases grown.visited x member with old | ⟨new, -⟩
          · exact inside old
          · exact within cur new
        · have count : _ + queue.length = st.visited.length + _ := grown.count
          rw [head, List.length_cons] at enough
          omega

omit [DecidableEq α] in
private theorem Searching.found_iff {st : Search α} (searching : Searching next start given st)
    (empty : st.queue = []) (y : α) :
    y ∈ st.found ↔ y ∈ given ∨ TransGen (Step next) start y := by
  have done {x : α} (member : x ∈ st.visited) : ∀ y ∈ next x, y ∈ st.found :=
    (searching.closed x member).resolve_left (by rw [empty]; exact List.not_mem_nil)
  refine ⟨searching.sound y, ?_⟩
  rintro (member | path)
  · exact searching.kept member
  · induction path with
    | single edge => exact done searching.begun _ edge
    | tail _ edge ih => exact done (searching.known ih) _ edge

omit [DecidableEq α] in
private theorem searching_start (start : α) (given : List α) (listed : given ⊆ [start]) :
    Searching next start given ⟨given, [start], [start]⟩ where
  known := listed
  queued := fun _ => id
  begun := List.mem_singleton_self start
  kept := fun _ => id
  sound _ := .inl
  reached x member := by
    rw [List.mem_singleton.mp member]
  closed _ := .inl
  distinct := List.nodup_cons.mpr ⟨List.not_mem_nil, List.nodup_nil⟩

theorem run_found {nodes : List α} (within : ∀ x, next x ⊆ nodes) (listed : start ∈ nodes)
    (inside : given ⊆ [start]) {fuel : Nat} (enough : nodes.length ≤ fuel) :
    (Search.run next fuel ⟨given, [start], [start]⟩).queue = [] ∧
      ∀ y, y ∈ (Search.run next fuel ⟨given, [start], [start]⟩).found ↔
        y ∈ given ∨ TransGen (Step next) start y := by
  obtain ⟨empty, searching⟩ := run_ends within fuel _ (searching_start start given inside)
    (List.cons_subset.mpr ⟨listed, List.nil_subset _⟩) (Nat.add_le_add_right enough 1)
  exact ⟨empty, searching.found_iff empty⟩

private theorem meets_enter (l seen queue : List α) :
    l.foldl Search.meet ⟨seen, seen, queue⟩ =
      ⟨(l.foldl enter (seen, queue)).1, (l.foldl enter (seen, queue)).1,
        (l.foldl enter (seen, queue)).2⟩ := by
  induction l generalizing seen queue with
  | nil => rfl
  | cons a l ih =>
      rw [List.foldl_cons, List.foldl_cons]
      by_cases met : a ∈ seen
      · rw [show Search.meet ⟨seen, seen, queue⟩ a = ⟨seen, seen, queue⟩ from if_pos met,
          show enter (seen, queue) a = (seen, queue) from if_pos met]
        exact ih seen queue
      · rw [show Search.meet ⟨seen, seen, queue⟩ a = ⟨a :: seen, a :: seen, queue ++ [a]⟩ from
            (if_neg met).trans (if_neg met),
          show enter (seen, queue) a = (a :: seen, queue ++ [a]) from if_neg met]
        exact ih (a :: seen) (queue ++ [a])

theorem run_spread (next : α → List α) (fuel : Nat) (seen queue : List α) :
    Search.run next fuel ⟨seen, seen, queue⟩ = ⟨(spread next fuel seen queue).1,
      (spread next fuel seen queue).1, (spread next fuel seen queue).2⟩ := by
  induction fuel generalizing seen queue with
  | zero => rfl
  | succ fuel ih =>
      cases queue with
      | nil => rfl
      | cons cur queue =>
          show Search.run next fuel ((next cur).foldl Search.meet ⟨seen, seen, queue⟩) = _
          rw [meets_enter, ih]
          rfl

theorem spread_reaches {nodes : List α} (within : ∀ x, next x ⊆ nodes) (listed : start ∈ nodes)
    {fuel : Nat} (enough : nodes.length ≤ fuel) :
    (spread next fuel [start] [start]).2 = [] ∧ (spread next fuel [start] [start]).1.Nodup ∧
      ∀ y, y ∈ (spread next fuel [start] [start]).1 ↔ ReflTransGen (Step next) start y := by
  obtain ⟨empty, searching⟩ := run_ends within fuel _
    (searching_start start [start] fun _ => id)
    (List.cons_subset.mpr ⟨listed, List.nil_subset _⟩) (Nat.add_le_add_right enough 1)
  have found := searching.found_iff empty
  have distinct := searching.distinct
  rw [run_spread] at empty found distinct
  refine ⟨empty, distinct, fun y => (found y).trans ?_⟩
  rw [List.mem_singleton, Relation.reflTransGen_iff_eq_or_transGen]

namespace Search

/-- A neighbour enters each set on its own. -/
def note (st : Search α) (a : α) : Search α :=
  { found := if a ∈ st.found then st.found else a :: st.found
    visited := if a ∈ st.visited then st.visited else a :: st.visited
    queue := if a ∈ st.visited then st.queue else st.queue ++ [a] }

/-- The search that notes the neighbours. -/
def walk (next : α → List α) : Nat → Search α → Search α
  | 0, st => st
  | fuel + 1, st =>
      match st.queue with
      | [] => st
      | cur :: queue => walk next fuel ((next cur).foldl note { st with queue })

theorem note_eq_meet {st : Search α} (known : st.found ⊆ st.visited) (a : α) :
    st.note a = st.meet a := by
  unfold note meet
  by_cases met : a ∈ st.found
  · simp [met, known met]
  · by_cases seen : a ∈ st.visited <;> simp [met, seen]

theorem notes_eq_meets (l : List α) {st : Search α} (known : st.found ⊆ st.visited) :
    l.foldl note st = l.foldl meet st := by
  induction l generalizing st with
  | nil => rfl
  | cons a l ih =>
      rw [List.foldl_cons, List.foldl_cons, note_eq_meet known]
      exact ih ((meet_grown st a).known known)

theorem walk_eq_run (next : α → List α) (fuel : Nat) {st : Search α}
    (known : st.found ⊆ st.visited) : st.walk next fuel = st.run next fuel := by
  induction fuel generalizing st with
  | zero => rfl
  | succ fuel ih =>
      rw [walk, run]
      cases st.queue with
      | nil => rfl
      | cons cur queue =>
          dsimp only
          have same := @notes_eq_meets α _ (next cur) { st with queue } known
          rw [same]
          exact ih ((meets_grown (next cur) { st with queue }).known known)

end Search

end Substrate.Library.Worklist
