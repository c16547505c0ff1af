/- ID: Substrate/Library/Topological
   digest: A depth-first cycle check that accepts leaves a rank increasing along every edge. -/

import Mathlib.Data.Finset.Card
import Mathlib.Data.List.Basic
import Mathlib.Data.List.Dedup
import Mathlib.Data.List.Perm.Subperm
import Mathlib.Logic.Relation
import Mathlib.Order.Minimal

set_option autoImplicit false
set_option relaxedAutoImplicit false

namespace Substrate.Library.Topological

universe u

variable {α : Type u} [DecidableEq α]

/-- The nodes on the current path and the nodes already finished. -/
structure Visits (α : Type u) where
  visiting : List α
  done : List α

/-- Depth-first visit; `none` means that the current path came back to itself. -/
def visit (next : α → List α) : Nat → α → Visits α → Option (Visits α)
  | 0, _, _ => none
  | fuel + 1, node, st =>
      if node ∈ st.done then some st
      else if node ∈ st.visiting then none
      else
        ((next node).foldlM (fun st target => visit next fuel target st)
          { st with visiting := node :: st.visiting }).map
          fun st => { visiting := st.visiting.erase node, done := node :: st.done }

/-- Visit every root in turn. -/
def visitAll (next : α → List α) (fuel : Nat) (roots : List α) : Option (Visits α) :=
  roots.foldlM (fun st root => visit next fuel root st) ⟨[], []⟩

/-- Every successor of a listed node stands later in the list. -/
def Finished (next : α → List α) : List α → Prop
  | [] => True
  | x :: xs => (∀ y ∈ next x, y ∈ xs) ∧ Finished next xs

/-- What an accepted visit adds: the finished list stays closed and only grows. -/
private def Extends (next : α → List α) (before after : Visits α) : Prop :=
  (Finished next before.done → Finished next after.done) ∧ before.done ⊆ after.done

omit [DecidableEq α] in
private theorem extends_trans {next : α → List α} {a b c : Visits α}
    (ab : Extends next a b) (bc : Extends next b c) : Extends next a c :=
  ⟨fun h => bc.1 (ab.1 h), fun _ h => bc.2 (ab.2 h)⟩

private theorem visit_all_extends {next : α → List α} {fuel : Nat}
    (one : ∀ {node : α} {st st' : Visits α}, visit next fuel node st = some st' →
      Extends next st st' ∧ node ∈ st'.done) :
    ∀ {targets : List α} {st st' : Visits α},
      targets.foldlM (fun st target => visit next fuel target st) st = some st' →
        Extends next st st' ∧ ∀ target ∈ targets, target ∈ st'.done := by
  intro targets
  induction targets with
  | nil =>
      intro st st' run
      obtain rfl : st = st' := by simpa using run
      exact ⟨⟨id, fun _ h => h⟩, by simp⟩
  | cons target targets ih =>
      intro st st' run
      simp only [List.foldlM_cons, Option.bind_eq_bind, Option.bind_eq_some_iff] at run
      obtain ⟨mid, first, rest⟩ := run
      obtain ⟨grow, member⟩ := one first
      obtain ⟨grow', members⟩ := ih rest
      refine ⟨extends_trans grow grow', ?_⟩
      intro y hy
      rcases List.mem_cons.mp hy with rfl | hy
      · exact grow'.2 member
      · exact members y hy

private theorem visit_extends (next : α → List α) (fuel : Nat) :
    ∀ {node : α} {st st' : Visits α}, visit next fuel node st = some st' →
      Extends next st st' ∧ node ∈ st'.done := by
  induction fuel with
  | zero => intro node st st' run; simp [visit] at run
  | succ fuel ih =>
      intro node st st' run
      rw [visit] at run
      split_ifs at run with finished path
      · obtain rfl : st = st' := by simpa using run
        exact ⟨⟨id, fun _ h => h⟩, finished⟩
      · obtain ⟨mid, inner, rfl⟩ := Option.map_eq_some_iff.mp run
        obtain ⟨grow, members⟩ := visit_all_extends (fun {_ _ _} h => ih h) inner
        exact ⟨⟨fun closed => ⟨members, grow.1 closed⟩,
          fun y hy => List.mem_cons_of_mem node (grow.2 hy)⟩, List.mem_cons_self⟩

private theorem idxOf_reverse_lt {next : α → List α} {l : List α} (closed : Finished next l)
    {x y : α} (hx : x ∈ l) (edge : y ∈ next x) :
    l.reverse.idxOf y < l.reverse.idxOf x := by
  induction l with
  | nil => simp at hx
  | cons a t ih =>
      have later : ∀ {z : α}, z ∈ t → (t.reverse ++ [a]).idxOf z = t.reverse.idxOf z :=
        fun hz => List.idxOf_append_of_mem (List.mem_reverse.mpr hz)
      have inside : ∀ {z : α}, z ∈ t → t.reverse.idxOf z < t.length := by
        intro z hz
        simpa using List.idxOf_lt_length_of_mem (List.mem_reverse.mpr hz)
      rw [List.reverse_cons]
      by_cases ht : x ∈ t
      · have below := ih closed.2 ht
        have hy : y ∈ t := by
          have bound : t.reverse.idxOf y < t.reverse.length := by
            have top := inside ht
            rw [List.length_reverse]
            omega
          exact List.mem_reverse.mp (List.idxOf_lt_length_iff.mp bound)
        rw [later hy, later ht]
        exact below
      · obtain rfl : x = a := by simpa [ht] using hx
        have hy : y ∈ t := closed.1 y edge
        rw [later hy, List.idxOf_append_of_notMem (by simpa using ht)]
        simpa using inside hy

/-- An accepted check ranks the roots so that every edge out of one goes up. -/
theorem visitAll_rank {next : α → List α} {fuel : Nat} {roots : List α} {st : Visits α}
    (accepted : visitAll next fuel roots = some st) :
    ∃ rank : α → Nat, ∀ x ∈ roots, ∀ y ∈ next x, rank x < rank y := by
  obtain ⟨⟨closed, -⟩, members⟩ :=
    visit_all_extends (fun {_ _ _} h => visit_extends next fuel h) accepted
  refine ⟨fun x => st.done.length - st.done.reverse.idxOf x, ?_⟩
  intro x hx y edge
  have below := idxOf_reverse_lt (closed trivial) (members x hx) edge
  have bound : st.done.reverse.idxOf x < st.done.length := by
    simpa using List.idxOf_lt_length_of_mem (List.mem_reverse.mpr (members x hx))
  show st.done.length - _ < st.done.length - _
  omega

private theorem visit_all_accepts {next : α → List α} {fuel : Nat} {path targets : List α}
    (one : ∀ target ∈ targets, ∀ st : Visits α, st.visiting = path →
      ∃ st', visit next fuel target st = some st' ∧ st'.visiting = path) :
    ∀ st : Visits α, st.visiting = path →
      ∃ st', targets.foldlM (fun st target => visit next fuel target st) st = some st' ∧
        st'.visiting = path := by
  induction targets with
  | nil => exact fun st here => ⟨st, rfl, here⟩
  | cons target targets ih =>
      intro st here
      obtain ⟨mid, first, back⟩ := one target List.mem_cons_self st here
      obtain ⟨after, rest, kept⟩ :=
        ih (fun t member => one t (List.mem_cons_of_mem target member)) mid back
      refine ⟨after, ?_, kept⟩
      rw [List.foldlM_cons, first]
      exact rest

private theorem visit_accepts {next : α → List α} {nodes : List α} {rank : α → Nat}
    (up : ∀ x ∈ nodes, ∀ y ∈ next x, y ∈ nodes ∧ rank x < rank y) (fuel : Nat) :
    ∀ {node : α} {path : List α} (st : Visits α), st.visiting = path → node ∈ nodes → path.Nodup →
      path ⊆ nodes → (∀ x ∈ path, rank x < rank node) → nodes.length + 1 ≤ fuel + path.length →
        ∃ st', visit next fuel node st = some st' ∧ st'.visiting = path := by
  induction fuel with
  | zero =>
      intro node path st _ _ distinct inside _ enough
      have short := (distinct.subperm inside).length_le
      omega
  | succ fuel ih =>
      intro node path st here member distinct inside below enough
      rw [visit]
      split_ifs with finished again
      · exact ⟨st, rfl, here⟩
      · rw [here] at again
        exact absurd (below node again) (Nat.lt_irrefl _)
      · rw [here] at again ⊢
        obtain ⟨after, run, kept⟩ := @visit_all_accepts _ _ next fuel (node :: path) (next node)
          (fun target edge mid back => by
            obtain ⟨there, higher⟩ := up node member target edge
            refine ih mid back there (List.nodup_cons.mpr ⟨again, distinct⟩)
              (List.cons_subset.mpr ⟨member, inside⟩) ?_ (by rw [List.length_cons]; omega)
            exact List.forall_mem_cons.mpr ⟨higher, fun x hx => (below x hx).trans higher⟩)
          { st with visiting := node :: path } rfl
        refine ⟨_, by rw [run]; rfl, ?_⟩
        show after.visiting.erase node = path
        rw [kept, List.erase_cons_head]

theorem visitAll_accepts {next : α → List α} {nodes roots : List α} {rank : α → Nat}
    (up : ∀ x ∈ nodes, ∀ y ∈ next x, y ∈ nodes ∧ rank x < rank y) (listed : roots ⊆ nodes) :
    ∃ st, visitAll next (nodes.length + 1) roots = some st := by
  obtain ⟨st, run, -⟩ := @visit_all_accepts _ _ next (nodes.length + 1) [] roots
    (fun root member st here => visit_accepts up _ st here (listed member) List.nodup_nil
      (List.nil_subset _) (fun _ h => absurd h List.not_mem_nil) (Nat.le_refl _))
    ⟨[], []⟩ rfl
  exact ⟨st, run⟩

omit [DecidableEq α] in
theorem exists_minimal {rank : α → Nat} {l : List α} {P : α → Prop} (some_P : ∃ x ∈ l, P x)
    (edge : α → α → Prop) (up : ∀ {x y}, x ∈ l → edge x y → rank x < rank y) :
    ∃ y ∈ l, P y ∧ ∀ x ∈ l, edge x y → ¬ P x := by
  obtain ⟨y, ⟨hy, holds⟩, least⟩ :=
    exists_minimalFor_of_wellFoundedLT (fun x => x ∈ l ∧ P x) rank some_P
  refine ⟨y, hy, holds, ?_⟩
  intro x hx step also
  have lower := up hx step
  have upper := least ⟨hx, also⟩ lower.le
  omega

/-- Why a search stops early: its fuel is used up, or the current path came back to itself. -/
inductive Stop where
  | fuel
  | cycle
  deriving DecidableEq

/-- The visit that tells the two apart. -/
def search (next : α → List α) : Nat → α → Visits α → Except Stop (Visits α)
  | 0, _, _ => .error .fuel
  | fuel + 1, node, st =>
      if node ∈ st.done then .ok st
      else if node ∈ st.visiting then .error .cycle
      else
        ((next node).foldlM (fun st target => search next fuel target st)
          { st with visiting := node :: st.visiting }).map
          fun st => { visiting := st.visiting.erase node, done := node :: st.done }

def searchAll (next : α → List α) (fuel : Nat) (roots : List α) : Except Stop (Visits α) :=
  roots.foldlM (fun st root => search next fuel root st) ⟨[], []⟩

private theorem search_all_toOption {next : α → List α} {fuel : Nat}
    (one : ∀ node st, (search next fuel node st).toOption = visit next fuel node st) :
    ∀ (targets : List α) (st : Visits α),
      (targets.foldlM (fun st target => search next fuel target st) st).toOption =
        targets.foldlM (fun st target => visit next fuel target st) st := by
  intro targets
  induction targets with
  | nil => exact fun _ => rfl
  | cons target targets ih =>
      intro st
      rw [List.foldlM_cons, List.foldlM_cons, ← one]
      cases search next fuel target st with
      | error stop => rfl
      | ok mid => exact ih mid

private theorem search_toOption (next : α → List α) (fuel : Nat) :
    ∀ node st, (search next fuel node st).toOption = visit next fuel node st := by
  induction fuel with
  | zero => exact fun _ _ => rfl
  | succ fuel ih =>
      intro node st
      rw [search, visit]
      split_ifs
      · rfl
      · rfl
      · rw [← search_all_toOption ih]
        cases (next node).foldlM (fun st target => search next fuel target st)
          { st with visiting := node :: st.visiting } <;> rfl

theorem searchAll_toOption (next : α → List α) (fuel : Nat) (roots : List α) :
    (searchAll next fuel roots).toOption = visitAll next fuel roots :=
  search_all_toOption (search_toOption next fuel) roots _

/-- A search that used no fuel up and left the path as it found it. -/
private def Ends (path : List α) (found : Except Stop (Visits α)) : Prop :=
  found ≠ .error .fuel ∧ ∀ st, found = .ok st → st.visiting = path

private theorem search_all_ends {next : α → List α} {fuel : Nat} {path targets : List α}
    (one : ∀ target ∈ targets, ∀ st : Visits α, st.visiting = path →
      Ends path (search next fuel target st)) :
    ∀ st : Visits α, st.visiting = path →
      Ends path (targets.foldlM (fun st target => search next fuel target st) st) := by
  induction targets with
  | nil => exact fun st here => ⟨nofun, fun _ same => Except.ok.inj same ▸ here⟩
  | cons target targets ih =>
      intro st here
      obtain ⟨more, back⟩ := one target List.mem_cons_self st here
      rw [List.foldlM_cons]
      cases first : search next fuel target st with
      | error stop => exact ⟨fun same => more (first.trans (by cases same; rfl)), nofun⟩
      | ok mid =>
          exact ih (fun t member => one t (List.mem_cons_of_mem target member)) mid (back mid first)

private theorem search_ends {next : α → List α} {nodes : List α}
    (closed : ∀ x ∈ nodes, next x ⊆ nodes) (fuel : Nat) :
    ∀ {node : α} {path : List α} (st : Visits α), st.visiting = path → node ∈ nodes → path.Nodup →
      path ⊆ nodes → nodes.length < fuel + path.length → Ends path (search next fuel node st) := by
  induction fuel with
  | zero =>
      intro node path st _ _ distinct inside enough
      have short := (distinct.subperm inside).length_le
      omega
  | succ fuel ih =>
      intro node path st here member distinct inside enough
      rw [search]
      split_ifs with finished again
      · exact ⟨nofun, fun _ same => Except.ok.inj same ▸ here⟩
      · exact ⟨nofun, nofun⟩
      · rw [here] at again
        have deeper := @search_all_ends _ _ next fuel (node :: path) (next node)
          (fun target edge mid back => ih mid back (closed node member edge)
            (List.nodup_cons.mpr ⟨again, distinct⟩) (List.cons_subset.mpr ⟨member, inside⟩)
            (by rw [List.length_cons]; omega))
          { st with visiting := node :: st.visiting } (by rw [here])
        obtain ⟨more, back⟩ := deeper
        cases inner : (next node).foldlM (fun st target => search next fuel target st)
            { st with visiting := node :: st.visiting } with
        | error stop => exact ⟨fun same => more (inner.trans (by cases same; rfl)), nofun⟩
        | ok after =>
            refine ⟨nofun, fun st' same => ?_⟩
            obtain rfl := Except.ok.inj same
            show after.visiting.erase node = path
            rw [back after inner, List.erase_cons_head]

theorem searchAll_ends {next : α → List α} {nodes roots : List α} {fuel : Nat}
    (closed : ∀ x ∈ nodes, next x ⊆ nodes) (listed : roots ⊆ nodes) (enough : nodes.length < fuel) :
    searchAll next fuel roots ≠ .error .fuel :=
  (search_all_ends (fun _ member st here => search_ends closed fuel st here (listed member)
    List.nodup_nil (List.nil_subset _) enough) ⟨[], []⟩ rfl).1

omit [DecidableEq α] in
theorem rank_iff_acyclic {edge : α → α → Prop} {nodes : List α}
    (listed : ∀ x y, edge x y → x ∈ nodes) :
    (∃ rank : α → Nat, ∀ x y, edge x y → rank x < rank y) ↔
      ∀ x, ¬Relation.TransGen edge x x := by
  constructor
  · rintro ⟨rank, up⟩ x cycle
    have climbs {y : α} (path : Relation.TransGen edge x y) : rank x < rank y := by
      induction path with
      | single step => exact up _ _ step
      | tail _ step ih => exact ih.trans (up _ _ step)
    exact Nat.lt_irrefl _ (climbs cycle)
  · intro acyclic
    classical
    -- an element's rank is how many of the listed ones lie before it
    refine ⟨fun x => (nodes.toFinset.filter fun z => Relation.TransGen edge z x).card, ?_⟩
    intro x y step
    refine Finset.card_lt_card ((Finset.ssubset_iff_of_subset fun z before => ?_).mpr ⟨x, ?_, ?_⟩)
    · rw [Finset.mem_filter] at before ⊢
      exact ⟨before.1, before.2.tail step⟩
    · exact Finset.mem_filter.mpr ⟨List.mem_toFinset.mpr (listed x y step), .single step⟩
    · exact fun member => acyclic x (Finset.mem_filter.mp member).2

end Substrate.Library.Topological
