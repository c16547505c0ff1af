/- ID: Substrate/Protocol/Cuts
   source: framework/sdk/rust/src/cut.rs
   digest: Which nodes a plan keeps, as reachability, and what becomes of the bindings into them. -/

import Substrate.Framework.Cut
import Substrate.Library.Checks

set_option autoImplicit false
set_option relaxedAutoImplicit false

namespace Substrate.Protocol.Cuts

open Substrate.Kernel.Wire
open Substrate.Framework.Policy (NodePlan)
open Substrate.Framework.Cut
open Substrate.Library.Checks
open Substrate.Library.Worklist
open Relation (ReflTransGen TransGen)

section Reaching

variable (assembly : Assembly)

/-- The ids of the nodes. -/
def ids : List String := assembly.nodes.map (·.id)

/-- An edge of an assembly: a binding whose two ends are named. -/
def Edge (x y : String) : Prop :=
  x ≠ "" ∧ y ≠ "" ∧ ∃ b ∈ assembly.bindings, b.fromNode = x ∧ b.toNode = y

/-- Distinct nodes, a terminal among them, and bindings between them or from run inputs. -/
structure Closed (terminal : String) : Prop where
  distinct : (ids assembly).Nodup
  declared : assembly.terminal.map (·.node) = some terminal
  among : terminal ∈ ids assembly
  targets : ∀ b ∈ assembly.bindings, b.toNode ∈ ids assembly
  sources : ∀ b ∈ assembly.bindings, b.input = "" → b.fromNode ∈ ids assembly

variable {assembly}

theorem mem_edges {x y : String} : (x, y) ∈ edges assembly ↔ Edge assembly x y := by
  simp only [edges, List.mem_map, List.mem_filter, Bool.and_eq_true, decide_eq_true_eq,
    Prod.mk.injEq, Edge]
  constructor
  · rintro ⟨b, ⟨member, from_, to_⟩, rfl, rfl⟩
    exact ⟨from_, to_, b, member, rfl, rfl⟩
  · rintro ⟨from_, to_, b, member, rfl, rfl⟩
    exact ⟨b, ⟨member, from_, to_⟩, rfl, rfl⟩

theorem mem_successors {x y : String} : y ∈ successors assembly x ↔ Edge assembly x y := by
  rw [← mem_edges]
  simp [successors]

theorem mem_predecessors {x y : String} : x ∈ predecessors assembly y ↔ Edge assembly x y := by
  rw [← mem_edges]
  simp [predecessors]

theorem predecessorSearch_found (nodeId : String) :
    (predecessorSearch assembly nodeId).queue = [] ∧
      ∀ x, x ∈ transitivePredecessors assembly nodeId ↔ TransGen (Edge assembly) x nodeId := by
  have searched := @run_found _ _ (predecessors assembly) nodeId []
    (nodeId :: assembly.bindings.map (·.fromNode)) (fun y x member => ?_) List.mem_cons_self
    (List.nil_subset _) (assembly.bindings.length + 1) (by simp)
  · refine ⟨searched.1, fun x => (searched.2 x).trans ?_⟩
    have step : Step (predecessors assembly) = Function.swap (Edge assembly) :=
      funext fun y => funext fun x => propext mem_predecessors
    rw [step, Relation.transGen_swap]
    exact ⟨fun found => found.resolve_left List.not_mem_nil, .inr⟩
  · obtain ⟨-, -, b, listed, rfl, -⟩ := mem_predecessors.mp member
    exact List.mem_cons_of_mem _ (List.mem_map_of_mem listed)

theorem reachableSearch_found (nodeId : String) :
    (reachableSearch assembly nodeId).2 = [] ∧ (reachableFrom assembly nodeId).Nodup ∧
      ∀ x, x ∈ reachableFrom assembly nodeId ↔ ReflTransGen (Edge assembly) nodeId x := by
  have searched := @spread_reaches _ _ (successors assembly) nodeId
    (nodeId :: assembly.bindings.map (·.toNode)) (fun x y member => ?_) List.mem_cons_self
    (assembly.bindings.length + 1) (by simp)
  · have step : Step (successors assembly) = Edge assembly :=
      funext fun x => funext fun y => propext mem_successors
    rw [step] at searched
    exact searched
  · obtain ⟨-, -, b, listed, -, rfl⟩ := mem_successors.mp member
    exact List.mem_cons_of_mem _ (List.mem_map_of_mem listed)

end Reaching

section Plans

variable {assembly : Assembly} {terminal : String}

theorem guard_eq_ok {α : Type} {p : Prop} [Decidable p] {reason : String} {next : Checked α}
    {a : α} : (if p then invalid reason else next) = .ok a ↔ ¬p ∧ next = .ok a := by
  split_ifs with bad
  · exact ⟨fun refused => (nomatch refused), fun all => absurd bad all.1⟩
  · exact ⟨fun passed => ⟨bad, passed⟩, And.right⟩

private theorem resolve_checks (closed : Closed assembly terminal) (plan : NodePlan) :
    resolveKeptNodes assembly plan = match plan with
      | .all => .ok (ids assembly).dedup
      | .only nodes =>
          if nodes = [] then invalid "NodePlan::Only requires at least one node id" else do
          checkOnly (ids assembly) [] nodes
          if terminal ∉ nodes then invalid "node plan must retain the terminal node"
          else .ok nodes
      | .after nodeId =>
          if nodeId ∉ ids assembly then
            invalid ("NodePlan::After references unknown node " ++ nodeId) else
          let dropped := nodeId :: transitivePredecessors assembly nodeId
          if terminal ∈ dropped then
            invalid ("NodePlan::After(" ++ nodeId ++ ") would drop the terminal node") else
          let kept := ((ids assembly).filter (· ∉ dropped)).dedup
          if kept = [] then invalid "NodePlan::After left no nodes to run" else .ok kept
      | .from nodeId =>
          if nodeId ∉ ids assembly then
            invalid ("NodePlan::From references unknown node " ++ nodeId) else
          let reachable := reachableFrom assembly nodeId
          if terminal ∉ reachable then
            invalid ("NodePlan::From(" ++ nodeId ++ "): terminal " ++ terminal ++
              " is not reachable from that node")
          else .ok reachable := by
  obtain ⟨t, declared, rfl⟩ := Option.map_eq_some_iff.mp closed.declared
  have some_node : ids assembly ≠ [] := List.ne_nil_of_mem closed.among
  have known : ¬t.node ∉ ids assembly := not_not.mpr closed.among
  rw [ids] at some_node known
  simp only [resolveKeptNodes, declared, if_neg some_node, if_neg known]
  rfl

/-- What a plan after a node drops. -/
def Dropped (assembly : Assembly) (n x : String) : Prop :=
  x = n ∨ TransGen (Edge assembly) x n

private theorem mem_dropped {n x : String} :
    x ∈ n :: transitivePredecessors assembly n ↔ Dropped assembly n x := by
  rw [List.mem_cons, (predecessorSearch_found n).2, Dropped]

theorem after_refused (closed : Closed assembly terminal) {n : String} (known : n ∈ ids assembly) :
    (∃ e, resolveKeptNodes assembly (.after n) = .error e) ↔ Dropped assembly n terminal := by
  rw [resolve_checks closed]
  simp only [if_neg (not_not.mpr known)]
  by_cases drops : Dropped assembly n terminal
  · rw [if_pos (mem_dropped.mpr drops)]
    exact ⟨fun _ => drops, fun _ => ⟨_, rfl⟩⟩
  · have stays : terminal ∈ ((ids assembly).filter fun x =>
        x ∉ n :: transitivePredecessors assembly n).dedup := by
      rw [List.mem_dedup, List.mem_filter, decide_eq_true_iff, mem_dropped]
      exact ⟨closed.among, drops⟩
    rw [if_neg (mt mem_dropped.mp drops), if_neg (List.ne_nil_of_mem stays)]
    exact ⟨nofun, fun h => absurd h drops⟩

theorem after_kept (closed : Closed assembly terminal) {n : String} {kept : List String}
    (resolved : resolveKeptNodes assembly (.after n) = .ok kept) (x : String) :
    x ∈ kept ↔ x ∈ ids assembly ∧ ¬Dropped assembly n x := by
  rw [resolve_checks closed] at resolved
  simp only [guard_eq_ok] at resolved
  obtain ⟨-, -, -, same⟩ := resolved
  rw [← Except.ok.inj same, List.mem_dedup, List.mem_filter, decide_eq_true_iff, mem_dropped]

theorem from_refused (closed : Closed assembly terminal) {n : String} (known : n ∈ ids assembly) :
    (∃ e, resolveKeptNodes assembly (.from n) = .error e) ↔
      ¬ReflTransGen (Edge assembly) n terminal := by
  rw [resolve_checks closed, ← (reachableSearch_found n).2.2]
  simp only [if_neg (not_not.mpr known)]
  split_ifs with reached
  · exact ⟨nofun, fun h => absurd reached h⟩
  · exact ⟨fun _ => reached, fun _ => ⟨_, rfl⟩⟩

theorem from_kept (closed : Closed assembly terminal) {n : String} {kept : List String}
    (resolved : resolveKeptNodes assembly (.from n) = .ok kept) :
    kept.Nodup ∧ ∀ x, x ∈ kept ↔ ReflTransGen (Edge assembly) n x := by
  rw [resolve_checks closed] at resolved
  simp only [guard_eq_ok] at resolved
  obtain ⟨-, -, same⟩ := resolved
  rw [← Except.ok.inj same]
  exact (reachableSearch_found n).2

theorem reached_among (closed : Closed assembly terminal) {n x : String} (known : n ∈ ids assembly)
    (path : ReflTransGen (Edge assembly) n x) : x ∈ ids assembly := by
  cases path with
  | refl => exact known
  | tail _ edge =>
      obtain ⟨-, -, b, member, -, rfl⟩ := edge
      exact closed.targets b member

theorem after_closed {n x y : String} (stays : ¬Dropped assembly n x) (edge : Edge assembly x y) :
    ¬Dropped assembly n y := by
  rintro (rfl | path)
  · exact stays (.inr (.single edge))
  · exact stays (.inr (.head edge path))

private theorem checkOnly_ok {known seen nodes : List String}
    (passed : checkOnly known seen nodes = .ok ()) :
    nodes.Nodup ∧ nodes ⊆ known ∧ ∀ x ∈ nodes, x ∉ seen := by
  induction nodes generalizing seen with
  | nil => exact ⟨List.nodup_nil, List.nil_subset _, nofun⟩
  | cons id rest ih =>
      rw [checkOnly, guard_eq_ok, guard_eq_ok, not_not] at passed
      obtain ⟨new, member, passed⟩ := passed
      obtain ⟨distinct, inside, fresh⟩ := ih passed
      refine ⟨List.nodup_cons.mpr ⟨fun again => fresh id again List.mem_cons_self, distinct⟩,
        List.cons_subset.mpr ⟨member, inside⟩, List.forall_mem_cons.mpr ⟨new, fun x later seen => ?_⟩⟩
      exact fresh x later (List.mem_cons_of_mem id seen)

theorem kept_among (closed : Closed assembly terminal) {plan : NodePlan} {kept : List String}
    (resolved : resolveKeptNodes assembly plan = .ok kept) :
    kept.Nodup ∧ kept ⊆ ids assembly := by
  cases plan with
  | all =>
      rw [resolve_checks closed] at resolved
      rw [← Except.ok.inj resolved]
      exact ⟨List.nodup_dedup _, List.dedup_subset _⟩
  | only nodes =>
      rw [resolve_checks closed] at resolved
      simp only [guard_eq_ok, bind_eq_ok] at resolved
      obtain ⟨-, ⟨⟩, passed, -, same⟩ := resolved
      obtain ⟨distinct, inside, -⟩ := checkOnly_ok passed
      rw [← Except.ok.inj same]
      exact ⟨distinct, inside⟩
  | after n =>
      refine ⟨?_, fun x member => ((after_kept closed resolved x).mp member).1⟩
      rw [resolve_checks closed] at resolved
      simp only [guard_eq_ok] at resolved
      rw [← Except.ok.inj resolved.2.2.2]
      exact List.nodup_dedup _
  | «from» n =>
      obtain ⟨distinct, reached⟩ := from_kept closed resolved
      rw [resolve_checks closed] at resolved
      simp only [guard_eq_ok, not_not] at resolved
      exact ⟨distinct, fun x member => reached_among closed resolved.1 ((reached x).mp member)⟩

theorem terminal_kept (closed : Closed assembly terminal) {plan : NodePlan} {kept : List String}
    (resolved : resolveKeptNodes assembly plan = .ok kept) : terminal ∈ kept := by
  cases plan with
  | all =>
      rw [resolve_checks closed] at resolved
      rw [← Except.ok.inj resolved]
      exact List.mem_dedup.mpr closed.among
  | only nodes =>
      rw [resolve_checks closed] at resolved
      simp only [guard_eq_ok, bind_eq_ok, not_not] at resolved
      obtain ⟨-, ⟨⟩, -, among, same⟩ := resolved
      rwa [← Except.ok.inj same]
  | after n =>
      rw [after_kept closed resolved]
      refine ⟨closed.among, fun drops => ?_⟩
      rw [resolve_checks closed] at resolved
      simp only [guard_eq_ok] at resolved
      exact resolved.2.1 (mem_dropped.mpr drops)
  | «from» n =>
      rw [resolve_checks closed] at resolved
      simp only [guard_eq_ok, not_not] at resolved
      obtain ⟨-, among, same⟩ := resolved
      rwa [← Except.ok.inj same]

end Plans

section Bindings

variable {assembly : Assembly} {terminal : String} {cut : AssemblyCut}

/-- What becomes of a binding into a kept node: it stays and its source is a run input or kept, or it
reads the required seed of a dropped producer. -/
def Rebound (cut : AssemblyCut) (b after : Binding) : Prop :=
  after = b ∧ (b.input ≠ "" ∨ b.fromNode ∈ cut.keptNodeIds) ∨
    b.input = "" ∧ b.fromNode ∈ cut.skipped.map (·.nodeId) ∧ b.fromNode ∉ cut.keptNodeIds ∧
      ∃ s ∈ cut.requiredSeeds, s.fromNode = b.fromNode ∧ s.fromPort = b.fromPort ∧
        after = { toNode := b.toNode, toPort := b.toPort, input := s.inputName }

theorem Rebound.target {b after : Binding} (rebound : Rebound cut b after) :
    after.toNode = b.toNode ∧ after.toPort = b.toPort := by
  rcases rebound with ⟨rfl, -⟩ | ⟨-, -, -, s, -, -, -, rfl⟩ <;> exact ⟨rfl, rfl⟩

/-- The bindings of a node's port, in their order. -/
def bindingsOf (assembly : Assembly) (nodeId portName : String) : List Binding :=
  assembly.bindings.filter fun b => b.toNode = nodeId ∧ b.toPort = portName

private theorem collected (rest before : List SeedSpec) :
    let after := rest.foldl (fun kept s =>
      if kept.any fun k => k.fromNode == s.fromNode && k.fromPort == s.fromPort then kept
      else kept ++ [s]) before
    before ⊆ after ∧ (∀ k ∈ after, k ∈ before ∨ k ∈ rest) ∧
      ∀ s ∈ rest, ∃ k ∈ after, k.fromNode = s.fromNode ∧ k.fromPort = s.fromPort := by
  induction rest generalizing before with
  | nil => exact ⟨fun _ => id, fun _ => .inl, nofun⟩
  | cons first rest ih =>
      rw [List.foldl_cons]
      split_ifs with there
      · obtain ⟨grown, from_, all⟩ := ih before
        refine ⟨grown, fun k kept => (from_ k kept).imp_right (List.mem_cons_of_mem first),
          List.forall_mem_cons.mpr ⟨?_, all⟩⟩
        obtain ⟨k, old, same⟩ := List.any_eq_true.mp there
        rw [Bool.and_eq_true, beq_iff_eq, beq_iff_eq] at same
        exact ⟨k, grown old, same⟩
      · obtain ⟨grown, from_, all⟩ := ih (before ++ [first])
        refine ⟨fun k old => grown (List.mem_append_left _ old), fun k kept => ?_,
          List.forall_mem_cons.mpr ⟨?_, all⟩⟩
        · rcases from_ k kept with old | new
          · rcases List.mem_append.mp old with old | last
            · exact .inl old
            · exact .inr (List.mem_singleton.mp last ▸ List.mem_cons_self)
          · exact .inr (List.mem_cons_of_mem first new)
        · exact ⟨first, grown (List.mem_append_right _ (List.mem_singleton_self first)), rfl, rfl⟩

private theorem uniqueSeeds_subset {seeds : List SeedSpec} {s : SeedSpec}
    (member : s ∈ uniqueSeeds seeds) : s ∈ seeds :=
  ((collected seeds []).2.1 s ((List.mem_insertionSort _).mp member)).resolve_left List.not_mem_nil

private theorem mem_uniqueSeeds {seeds : List SeedSpec} {s : SeedSpec} (member : s ∈ seeds) :
    ∃ k ∈ uniqueSeeds seeds, k ∈ seeds ∧ k.fromNode = s.fromNode ∧ k.fromPort = s.fromPort := by
  obtain ⟨k, kept, same⟩ := (collected seeds []).2.2 s member
  have unique : k ∈ uniqueSeeds seeds := (List.mem_insertionSort _).mpr kept
  exact ⟨k, unique, uniqueSeeds_subset unique, same⟩

private theorem rebind_rebound {kept : List String} {b : Binding} {p : Binding × Option SeedSpec}
    (rebinds : rebind kept b = .ok p)
    (seeds : ∀ s, p.2 = some s → ∃ k ∈ cut.requiredSeeds, k.fromNode = s.fromNode ∧
      k.fromPort = s.fromPort ∧ k.inputName = seedInputName s.fromNode s.fromPort)
    (stays : b.fromNode ∈ kept → b.fromNode ∈ cut.keptNodeIds)
    (leaves : b.input = "" → b.fromNode ∉ kept →
      b.fromNode ∈ cut.skipped.map (·.nodeId) ∧ b.fromNode ∉ cut.keptNodeIds) :
    Rebound cut b p.1 := by
  rw [rebind] at rebinds
  split_ifs at rebinds with input unnamed kept_
  · obtain rfl := Except.ok.inj rebinds
    exact .inl ⟨rfl, .inl input⟩
  · exact nomatch rebinds
  · obtain rfl := Except.ok.inj rebinds
    exact .inl ⟨rfl, .inr (stays kept_)⟩
  · obtain rfl := Except.ok.inj rebinds
    obtain ⟨skipped, gone⟩ := leaves (not_not.mp input) kept_
    obtain ⟨s, required, node, port, name⟩ := seeds _ rfl
    exact .inr ⟨not_not.mp input, skipped, gone, s, required, node, port, by rw [name]⟩

private theorem rebind_seed {kept : List String} {b : Binding} {p : Binding × Option SeedSpec}
    (rebinds : rebind kept b = .ok p) {s : SeedSpec} (seed : p.2 = some s) :
    s.inputName = seedInputName s.fromNode s.fromPort ∧ b.input = "" ∧ b.fromNode ∉ kept ∧
      b.fromNode = s.fromNode ∧ b.fromPort = s.fromPort := by
  rw [rebind] at rebinds
  split_ifs at rebinds with input unnamed kept_
  · obtain rfl := Except.ok.inj rebinds
    cases seed
  · exact nomatch rebinds
  · obtain rfl := Except.ok.inj rebinds
    cases seed
  · obtain rfl := Except.ok.inj rebinds
    obtain rfl := Option.some.inj seed
    exact ⟨rfl, not_not.mp input, kept_, rfl, rfl⟩

/-- A cut keeps the nodes of its plan, and rebinds the bindings into them one by one. -/
theorem materialize_rebinds (closed : Closed assembly terminal) {plan : NodePlan}
    (made : materializeCut assembly plan = .ok cut) :
    (∃ kept, resolveKeptNodes assembly plan = .ok kept ∧ ∀ x, x ∈ cut.keptNodeIds ↔ x ∈ kept) ∧
      List.Forall₂ (Rebound cut) (assembly.bindings.filter (·.toNode ∈ cut.keptNodeIds))
        cut.assembly.bindings := by
  rw [materializeCut, bind_eq_ok] at made
  obtain ⟨kept, resolved, made⟩ := made
  obtain ⟨distinct, inside⟩ := kept_among closed resolved
  split_ifs at made with whole
  · obtain rfl := Except.ok.inj made
    refine ⟨⟨kept, resolved, fun x => ⟨fun member => ?_, fun member => inside member⟩⟩, ?_⟩
    · have every : kept.Perm (ids assembly) := by
        rcases whole with rfl | size
        · rw [resolve_checks closed] at resolved
          rw [← Except.ok.inj resolved, List.dedup_eq_self.mpr closed.distinct]
        · exact (distinct.subperm inside).perm_of_length_le (by simp [ids, size])
      exact every.mem_iff.mpr member
    · have all : (assembly.bindings.filter fun b => b.toNode ∈ ids assembly) = assembly.bindings :=
        List.filter_eq_self.mpr fun b member => decide_eq_true (closed.targets b member)
      show List.Forall₂ _ (assembly.bindings.filter fun b => b.toNode ∈ ids assembly) _
      rw [all]
      refine List.forall₂_same.mpr fun b member => .inl ⟨rfl, ?_⟩
      by_cases input : b.input = ""
      · exact .inr (closed.sources b member input)
      · exact .inl input
  · obtain ⟨rebound, rebinds, made⟩ := bind_eq_ok.mp made
    obtain rfl := Except.ok.inj made
    rw [mapM_eq_ok] at rebinds
    have kept_iff (x : String) :
        x ∈ (assembly.nodes.filter (·.id ∈ kept)).map (·.id) ↔ x ∈ kept := by
      simp only [List.mem_map, List.mem_filter, decide_eq_true_eq]
      constructor
      · rintro ⟨n, ⟨-, member⟩, rfl⟩
        exact member
      · intro member
        obtain ⟨n, listed, rfl⟩ := List.mem_map.mp (inside member)
        exact ⟨n, ⟨listed, member⟩, rfl⟩
    refine ⟨⟨kept, resolved, kept_iff⟩, ?_⟩
    have same : (assembly.bindings.filter fun b =>
        b.toNode ∈ (assembly.nodes.filter (·.id ∈ kept)).map (·.id)) =
        assembly.bindings.filter (·.toNode ∈ kept) :=
      List.filter_congr fun b _ => decide_eq_decide.mpr (kept_iff b.toNode)
    show List.Forall₂ _ (assembly.bindings.filter fun b =>
      b.toNode ∈ (assembly.nodes.filter (·.id ∈ kept)).map (·.id)) (rebound.map (·.1))
    rw [same, List.forall₂_map_right_iff]
    have seeds : ∀ q ∈ rebound, ∀ s, q.2 = some s → ∃ k ∈ uniqueSeeds (rebound.filterMap (·.2)),
        k.fromNode = s.fromNode ∧ k.fromPort = s.fromPort ∧
          k.inputName = seedInputName s.fromNode s.fromPort := by
      intro q member s given
      obtain ⟨k, required, listed, node, port⟩ :=
        mem_uniqueSeeds (List.mem_filterMap.mpr ⟨q, member, given⟩)
      obtain ⟨q', among, given'⟩ := List.mem_filterMap.mp listed
      obtain ⟨b, -, made⟩ := (forall₂_mem rebinds).2 q' among
      exact ⟨k, required, node, port, by rw [(rebind_seed made given').1, node, port]⟩
    have listed := (List.forall₂_and_left _ _).mpr ⟨fun b member => member, rebinds⟩
    refine ((List.forall₂_and_left _ _).mpr ⟨fun q member => seeds q member, listed.flip⟩).flip.imp
      fun b q ⟨seeds, member, made⟩ => rebind_rebound made seeds (kept_iff _).mpr fun input gone => ?_
    have known := closed.sources b (List.mem_filter.mp member).1 input
    refine ⟨?_, mt (kept_iff _).mp gone⟩
    obtain ⟨n, there, same⟩ := List.mem_map.mp known
    simp only [List.map_map, List.mem_map, List.mem_filter, decide_eq_true_eq]
    exact ⟨n, ⟨there, same ▸ gone⟩, same⟩

/-- A cut keeps nodes in their order, with the terminal, and skips the others. -/
structure Slice (assembly : Assembly) (terminal : String) (cut : AssemblyCut) : Prop where
  id : cut.assembly.id = assembly.id
  declared : cut.assembly.terminal = assembly.terminal
  nodes : cut.assembly.nodes = assembly.nodes.filter (·.id ∈ cut.keptNodeIds)
  skipped : ∀ x, x ∈ cut.skipped.map (·.nodeId) ↔ x ∈ ids assembly ∧ x ∉ cut.keptNodeIds
  keeps : terminal ∈ cut.keptNodeIds

theorem materialize_slice (closed : Closed assembly terminal) {plan : NodePlan}
    (made : materializeCut assembly plan = .ok cut) : Slice assembly terminal cut := by
  have keeps : terminal ∈ cut.keptNodeIds := by
    obtain ⟨kept, resolved, same⟩ := (materialize_rebinds closed made).1
    exact (same terminal).mpr (terminal_kept closed resolved)
  rw [materializeCut, bind_eq_ok] at made
  obtain ⟨kept, resolved, made⟩ := made
  have inside := (kept_among closed resolved).2
  split_ifs at made with whole
  · obtain rfl := Except.ok.inj made
    refine ⟨rfl, rfl, ?_, fun x => ⟨fun member => ?_, fun both => absurd both.1 both.2⟩, keeps⟩
    · exact (List.filter_eq_self.mpr fun n member =>
        decide_eq_true (List.mem_map_of_mem (f := (·.id)) member)).symm
    · exact absurd member List.not_mem_nil
  · obtain ⟨rebound, -, made⟩ := bind_eq_ok.mp made
    obtain rfl := Except.ok.inj made
    have kept_iff (x : String) :
        x ∈ (assembly.nodes.filter (·.id ∈ kept)).map (·.id) ↔ x ∈ kept := by
      simp only [List.mem_map, List.mem_filter, decide_eq_true_eq]
      constructor
      · rintro ⟨n, ⟨-, member⟩, rfl⟩
        exact member
      · intro member
        obtain ⟨n, listed, rfl⟩ := List.mem_map.mp (inside member)
        exact ⟨n, ⟨listed, member⟩, rfl⟩
    refine ⟨rfl, rfl, List.filter_congr fun n _ => decide_eq_decide.mpr (kept_iff n.id).symm,
      fun x => ?_, keeps⟩
    rw [kept_iff]
    simp only [List.map_map, List.mem_map, List.mem_filter, decide_eq_true_eq, ids]
    constructor
    · rintro ⟨n, ⟨member, gone⟩, rfl⟩
      exact ⟨⟨n, member, rfl⟩, gone⟩
    · rintro ⟨⟨n, member, rfl⟩, gone⟩
      exact ⟨n, ⟨member, gone⟩, rfl⟩

theorem required_named {plan : NodePlan} (made : materializeCut assembly plan = .ok cut) :
    ∀ s ∈ cut.requiredSeeds, s.inputName = seedInputName s.fromNode s.fromPort := by
  rw [materializeCut, bind_eq_ok] at made
  obtain ⟨kept, -, made⟩ := made
  split_ifs at made with whole
  · obtain rfl := Except.ok.inj made
    exact fun _ member => absurd member List.not_mem_nil
  · obtain ⟨rebound, rebinds, made⟩ := bind_eq_ok.mp made
    obtain rfl := Except.ok.inj made
    intro s member
    obtain ⟨q, among, given⟩ := List.mem_filterMap.mp (uniqueSeeds_subset member)
    obtain ⟨b, -, rebinds⟩ := (forall₂_mem (mapM_eq_ok.mp rebinds)).2 q among
    exact (rebind_seed rebinds given).1

theorem required_crosses (closed : Closed assembly terminal) {plan : NodePlan}
    (made : materializeCut assembly plan = .ok cut) {s : SeedSpec} (member : s ∈ cut.requiredSeeds) :
    ∃ b ∈ assembly.bindings, b.toNode ∈ cut.keptNodeIds ∧ b.input = "" ∧
      b.fromNode ∉ cut.keptNodeIds ∧ b.fromNode = s.fromNode ∧ b.fromPort = s.fromPort := by
  obtain ⟨kept', resolved', same⟩ := (materialize_rebinds closed made).1
  rw [materializeCut, bind_eq_ok] at made
  obtain ⟨kept, resolved, made⟩ := made
  obtain rfl := Except.ok.inj (resolved'.symm.trans resolved)
  split_ifs at made with whole
  · obtain rfl := Except.ok.inj made
    exact absurd member List.not_mem_nil
  · obtain ⟨rebound, rebinds, made⟩ := bind_eq_ok.mp made
    obtain rfl := Except.ok.inj made
    obtain ⟨q, among, given⟩ := List.mem_filterMap.mp (uniqueSeeds_subset member)
    obtain ⟨b, listed, rebinds⟩ := (forall₂_mem (mapM_eq_ok.mp rebinds)).2 q among
    obtain ⟨listed, target⟩ := List.mem_filter.mp listed
    obtain ⟨-, input, gone, node, port⟩ := rebind_seed rebinds given
    exact ⟨b, listed, (same _).mpr (of_decide_eq_true target), input, mt (same _).mp gone, node, port⟩

theorem port_rebinds (closed : Closed assembly terminal) {plan : NodePlan}
    (made : materializeCut assembly plan = .ok cut) {nodeId : String}
    (kept : nodeId ∈ cut.keptNodeIds) (portName : String) :
    List.Forall₂ (Rebound cut) (bindingsOf assembly nodeId portName)
      (bindingsOf cut.assembly nodeId portName) := by
  have rebinds := (materialize_rebinds closed made).2
  have filtered := List.rel_filter (p := fun b => b.toNode = nodeId ∧ b.toPort = portName)
    (q := fun b => b.toNode = nodeId ∧ b.toPort = portName) (fun b after rebound => ?_) rebinds
  · rw [List.filter_filter] at filtered
    have same : (assembly.bindings.filter fun b => decide (b.toNode = nodeId ∧ b.toPort = portName) &&
        decide (b.toNode ∈ cut.keptNodeIds)) = bindingsOf assembly nodeId portName :=
      List.filter_congr fun b _ => by
        by_cases here : b.toNode = nodeId <;> simp [here, kept]
    rw [same] at filtered
    exact filtered
  · obtain ⟨node, port⟩ := rebound.target
    show decide (b.toNode = nodeId ∧ b.toPort = portName) = true ↔
      decide (after.toNode = nodeId ∧ after.toPort = portName) = true
    rw [node, port]

end Bindings

/-- Both searches come to an end. A plan after a node is refused when the terminal would be dropped,
and keeps what has no path to the node; a plan from a node is refused when the terminal cannot be
reached, and keeps what can. A cut has the bindings into what is kept, in order, as they were or
rewritten to a required seed. -/
theorem kept_nodes (assembly : Assembly) (terminal : String) (closed : Closed assembly terminal) :
    (∀ n, (predecessorSearch assembly n).queue = [] ∧ (reachableSearch assembly n).2 = []) ∧
      (∀ n ∈ ids assembly,
        ((∃ e, resolveKeptNodes assembly (.after n) = .error e) ↔
          terminal = n ∨ TransGen (Edge assembly) terminal n) ∧
        (∀ kept, resolveKeptNodes assembly (.after n) = .ok kept →
          (∀ x, x ∈ kept ↔ x ∈ ids assembly ∧ x ≠ n ∧ ¬TransGen (Edge assembly) x n) ∧
            ∀ x ∈ kept, ∀ y, Edge assembly x y → y ∈ kept) ∧
        ((∃ e, resolveKeptNodes assembly (.from n) = .error e) ↔
          ¬ReflTransGen (Edge assembly) n terminal) ∧
        ∀ kept, resolveKeptNodes assembly (.from n) = .ok kept →
          ∀ x, x ∈ kept ↔ ReflTransGen (Edge assembly) n x) ∧
      ∀ plan cut, materializeCut assembly plan = .ok cut →
        (∃ kept, resolveKeptNodes assembly plan = .ok kept ∧
          ∀ x, x ∈ cut.keptNodeIds ↔ x ∈ kept) ∧
        ∀ nodeId ∈ cut.keptNodeIds, ∀ portName, List.Forall₂ (Rebound cut)
          (bindingsOf assembly nodeId portName) (bindingsOf cut.assembly nodeId portName) := by
  refine ⟨fun n => ⟨(predecessorSearch_found n).1, (reachableSearch_found n).1⟩, fun n known =>
    ⟨after_refused closed known, fun kept resolved => ⟨fun x => ?_, fun x member y edge => ?_⟩,
      from_refused closed known, fun kept resolved => (from_kept closed resolved).2⟩,
    fun plan cut made => ⟨(materialize_rebinds closed made).1, fun nodeId kept =>
      port_rebinds closed made kept⟩⟩
  · rw [after_kept closed resolved, Dropped, not_or]
  · rw [after_kept closed resolved] at member ⊢
    obtain ⟨-, -, b, listed, -, rfl⟩ := id edge
    exact ⟨closed.targets b listed, after_closed member.2 edge⟩

section Unnamed

/-- The edges that bindings draw, whatever the names of their ends. -/
def Feeds (assembly : Assembly) (x y : String) : Prop :=
  ∃ b ∈ assembly.bindings, b.input = "" ∧ b.fromNode = x ∧ b.toNode = y

/-- `a` feeds a node with the empty id. -/
def unnamed : Assembly :=
  { id := "unnamed", nodes := [⟨"", "m", "1", "c"⟩, ⟨"a", "m", "1", "c"⟩, ⟨"t", "m", "1", "c"⟩]
    bindings := [{ toNode := "", toPort := "in", fromNode := "a", fromPort := "out" }]
    terminal := some ⟨"t", "out"⟩ }

private theorem unnamed_closed : Closed unnamed "t" :=
  ⟨by decide, by decide, by decide, by decide, by decide⟩

/-- The plan after the nameless node keeps a node that feeds it. -/
theorem unnamed_kept :
    Closed unnamed "t" ∧ "" ∈ ids unnamed ∧
      ∃ kept, resolveKeptNodes unnamed (.after "") = .ok kept ∧ "a" ∈ kept ∧
        TransGen (Feeds unnamed) "a" "" :=
  ⟨unnamed_closed, by decide, ["a", "t"], by decide +kernel, by decide,
    .single ⟨_, List.mem_singleton_self _, rfl, rfl, rfl⟩⟩

end Unnamed

section Chain

/-- `a` feeds `b`, and `b` the terminal `t`. -/
def chain : Assembly :=
  { id := "chain", nodes := [⟨"a", "m", "1", "c"⟩, ⟨"b", "m", "1", "c"⟩, ⟨"t", "m", "1", "c"⟩]
    bindings := [{ toNode := "a", toPort := "in", input := "line" },
      { toNode := "b", toPort := "in", fromNode := "a", fromPort := "out" },
      { toNode := "t", toPort := "in", fromNode := "b", fromPort := "out" }]
    terminal := some ⟨"t", "out"⟩ }

/-- The chain after `b`. -/
def chainCut : AssemblyCut :=
  { assembly :=
      { chain with
        nodes := [⟨"t", "m", "1", "c"⟩]
        bindings := [{ toNode := "t", toPort := "in", input := "__seed/b/out" }] }
    skipped := [⟨"a", "m", "c", "1"⟩, ⟨"b", "m", "c", "1"⟩]
    requiredSeeds := [⟨"__seed/b/out", "b", "out", "t", "in"⟩]
    keptNodeIds := ["t"] }

/-- `a` has a path to `b`, so that only `t` is kept, whose binding reads a seed. -/
theorem kept_nodes_chain :
    TransGen (Edge chain) "a" "b" ∧ resolveKeptNodes chain (.after "b") = .ok ["t"] ∧
      (∀ x, x ∈ ["t"] ↔ x ∈ ids chain ∧ x ≠ "b" ∧ ¬TransGen (Edge chain) x "b") ∧
      materializeCut chain (.after "b") = .ok chainCut ∧
      List.Forall₂ (Rebound chainCut)
        [{ toNode := "t", toPort := "in", fromNode := "b", fromPort := "out" }]
        [{ toNode := "t", toPort := "in", input := "__seed/b/out" }] := by
  have closed : Closed chain "t" := ⟨by decide, by decide, by decide, by decide, by decide⟩
  have resolved : resolveKeptNodes chain (.after "b") = .ok ["t"] := by decide +kernel
  have made : materializeCut chain (.after "b") = .ok chainCut := rfl
  obtain ⟨-, plans, cuts⟩ := kept_nodes chain "t" closed
  exact ⟨.single ⟨by decide, by decide, by decide⟩, resolved,
    ((plans "b" (by decide)).2.1 _ resolved).1, made,
    (cuts (.after "b") chainCut made).2 "t" (by decide) "in"⟩

end Chain

end Substrate.Protocol.Cuts
