/- ID: Substrate/Protocol/Acceptance
   source: kernel/sdk/rust/src/lib.rs, kernel/SPEC.md
   digest: The validator accepts exactly the well-formed assemblies, and its visit always returns. -/

import Substrate.Protocol.Validators

set_option autoImplicit false
set_option relaxedAutoImplicit false

namespace Substrate.Protocol.Acceptance

open Substrate.Kernel
open Substrate.Kernel.Wire
open Substrate.Kernel.Hashing
open Substrate.Kernel.Memory
open Substrate.Kernel.Registry
open Substrate.Kernel.Assembly (nodeById inputByName edges validateAssembly)
open Substrate.Kernel.Sdks (classed)
open Substrate.Protocol.Validation
open Substrate.Protocol.Verdicts
open Substrate.Library.Checks (find?_eq_some_iff_of_nodup)
open Substrate.Library.FiniteMap (KeyMap)
open Substrate.Library.Topological
open Relation (TransGen)

section Rules

variable (modules : List ModuleSlot) (artifacts : KeyMap String Artifact) (a : Assembly)
  (inputs : List NamedArtifact)

/-- Distinct non-empty names, and on each port a list of non-empty traits. -/
structure PortsFormed (ports : List Port) : Prop where
  named : ∀ p ∈ ports, p.name ≠ ""
  typed : ∀ p ∈ ports, p.traits ≠ [] ∧ "" ∉ p.traits
  distinct : (ports.map (·.name)).Nodup

/-- A node's coordinate resolves to one capability. -/
def Resolves (n : AssemblyNode) (cap : Capability) : Prop := providers modules n = [cap]

/-- A port on one side of one of the assembly's nodes. -/
def PortOf (side : Capability → List Port) (nodeId portName : String) (p : Port) : Prop :=
  ∃ n ∈ a.nodes, ∃ cap, Resolves modules n cap ∧ n.id = nodeId ∧ p ∈ side cap ∧ p.name = portName

/-- A run input whose stored artifact carries the traits. -/
def InputCarries (name : String) (traits : List String) : Prop :=
  ∃ i ∈ inputs, ∃ r artifact, i.name = name ∧ i.artifact = some r ∧
    artifacts.lookup r.id = some artifact ∧ ∀ t ∈ traits, artifact.traits.containsKey t

/-- The binding's one source, a run input or an output port, has the traits of its target. -/
def OneSource (b : Binding) (target : Port) : Prop :=
  (b.input ≠ "" ∧ b.fromNode = "" ∧ b.fromPort = "" ∧
      InputCarries artifacts inputs b.input target.traits) ∨
    (b.input = "" ∧ (b.fromNode ≠ "" ∨ b.fromPort ≠ "") ∧ ∃ source,
      PortOf modules a Capability.outputs b.fromNode b.fromPort source ∧
        target.traits ⊆ source.traits)

/-- The edge that an upstream binding draws between two nodes. -/
def Feeds (x y : String) : Prop :=
  ∃ b ∈ a.bindings, b.input = "" ∧ b.fromNode = x ∧ b.toNode = y

/-- The bindings of an input port. -/
def bindingsOf (nodeId portName : String) : List Binding :=
  a.bindings.filter fun b => b.toNode = nodeId ∧ b.toPort = portName

/-- The closure rules of a run. -/
structure WellFormed : Prop where
  id : a.id ≠ ""
  nodes : a.nodes ≠ []
  named : ∀ n ∈ a.nodes, n.id ≠ ""
  distinct : (a.nodes.map (·.id)).Nodup
  resolved : ∀ n ∈ a.nodes, ∃ cap, Resolves modules n cap ∧ PortsFormed cap.inputs ∧
    PortsFormed cap.outputs
  terminal : ∃ t p, a.terminal = some t ∧ PortOf modules a Capability.outputs t.node t.port p ∧
    p.multiple = false
  inputNames : (inputs.map (·.name)).Nodup
  stored : ∀ i ∈ inputs, i.name ≠ "" ∧ ∃ r, i.artifact = some r ∧ r.id ∈ artifacts
  bindings : ∀ b ∈ a.bindings, ∃ target,
    PortOf modules a Capability.inputs b.toNode b.toPort target ∧
      OneSource modules artifacts a inputs b target
  bound : ∀ n ∈ a.nodes, ∀ cap, Resolves modules n cap → ∀ p ∈ cap.inputs,
    p.optional = false → bindingsOf a n.id p.name ≠ []
  single : ∀ n ∈ a.nodes, ∀ cap, Resolves modules n cap → ∀ p ∈ cap.inputs,
    p.multiple = false → (bindingsOf a n.id p.name).length ≤ 1
  acyclic : ∀ x, ¬TransGen (Feeds a) x x

end Rules

section Pieces

variable {modules : List ModuleSlot} {artifacts : KeyMap String Artifact} {a : Assembly}
  {inputs : List NamedArtifact}

theorem capabilityForNode_eq_ok {n : AssemblyNode} {cap : Capability} :
    capabilityForNode modules n = .ok cap ↔ Resolves modules n cap := by
  rw [capabilityForNode, Resolves]
  cases providers modules n with
  | nil => exact ⟨(fun same => by cases same), (fun same => by cases same)⟩
  | cons first rest =>
      cases rest with
      | nil =>
          exact ⟨fun same => by rw [Except.ok.inj same],
            fun same => by rw [(List.cons.inj same).1]⟩
      | cons second rest => exact ⟨(fun same => by cases same), (fun same => by cases same)⟩

theorem portsFormed_iff {ports : List Port} :
    PortsFormed ports ↔ PortsTyped ports ∧ ∀ p ∈ ports, "" ∉ p.traits :=
  ⟨fun formed => ⟨⟨formed.named, fun p member => (formed.typed p member).1, formed.distinct⟩,
      fun p member => (formed.typed p member).2⟩,
    fun ⟨typed, refs⟩ => ⟨typed.named, fun p member => ⟨typed.typed p member, refs p member⟩,
      typed.distinct⟩⟩

theorem port_lookup {side : Capability → List Port} (distinct : (a.nodes.map (·.id)).Nodup)
    (named : ∀ n ∈ a.nodes, ∀ cap, Resolves modules n cap → ((side cap).map (·.name)).Nodup)
    {nodeId portName : String} {p : Port} :
    (∃ node cap, nodeById a.nodes nodeId = some node ∧ capabilityForNode modules node = .ok cap ∧
        port (side cap) portName = some p) ↔
      PortOf modules a side nodeId portName p := by
  simp only [nodeById, port, capabilityForNode_eq_ok, find?_eq_some_iff_of_nodup distinct, PortOf]
  constructor
  · rintro ⟨n, cap, ⟨member, same⟩, found, output⟩
    rw [find?_eq_some_iff_of_nodup (named n member cap found)] at output
    exact ⟨n, member, cap, found, same, output⟩
  · rintro ⟨n, member, cap, found, same, output⟩
    refine ⟨n, cap, ⟨member, same⟩, found, ?_⟩
    rwa [find?_eq_some_iff_of_nodup (named n member cap found)]

theorem input_carries (distinct : (inputs.map (·.name)).Nodup) {name : String}
    {traits : List String} :
    (∃ input r artifact, inputByName inputs name = some input ∧ input.artifact = some r ∧
        artifacts.lookup r.id = some artifact ∧ hasTraits artifact traits) ↔
      InputCarries artifacts inputs name traits := by
  simp only [inputByName, find?_eq_some_iff_of_nodup distinct, hasTraits, List.all_eq_true,
    InputCarries]
  constructor
  · rintro ⟨i, r, artifact, ⟨member, same⟩, rest⟩
    exact ⟨i, member, r, artifact, same, rest⟩
  · rintro ⟨i, member, r, artifact, same, rest⟩
    exact ⟨i, r, artifact, ⟨member, same⟩, rest⟩

theorem traitSetCovers_iff {available need : List String} :
    traitSetCovers available need ↔ need ⊆ available := by
  simp only [traitSetCovers, List.all_eq_true, List.any_eq_true, beq_iff_eq, exists_eq_right]
  rfl

private theorem sides_named (sound : Sound modules a) :
    ∀ n ∈ a.nodes, ∀ cap, Resolves modules n cap →
      (cap.inputs.map (·.name)).Nodup ∧ (cap.outputs.map (·.name)).Nodup := by
  intro n member cap found
  obtain ⟨cap', found', ins, outs⟩ := sound.typed n member
  obtain rfl := Except.ok.inj ((capabilityForNode_eq_ok.mpr found).symm.trans found')
  exact ⟨ins.distinct, outs.distinct⟩

private theorem inputs_lookup (sound : Sound modules a) {nodeId portName : String} {p : Port} :
    (∃ node cap, nodeById a.nodes nodeId = some node ∧ capabilityForNode modules node = .ok cap ∧
        port cap.inputs portName = some p) ↔
      PortOf modules a Capability.inputs nodeId portName p :=
  port_lookup sound.ids fun n member cap found => (sides_named sound n member cap found).1

private theorem outputs_lookup (sound : Sound modules a) {nodeId portName : String} {p : Port} :
    (∃ node cap, nodeById a.nodes nodeId = some node ∧ capabilityForNode modules node = .ok cap ∧
        port cap.outputs portName = some p) ↔
      PortOf modules a Capability.outputs nodeId portName p :=
  port_lookup sound.ids fun n member cap found => (sides_named sound n member cap found).2

private theorem sound_iff :
    Sound modules a ∧ NoEmptyRefs modules a ↔
      a.id ≠ "" ∧ a.nodes ≠ [] ∧ (∀ n ∈ a.nodes, n.id ≠ "") ∧ (a.nodes.map (·.id)).Nodup ∧
        (∀ n ∈ a.nodes, ∃ cap, Resolves modules n cap ∧ PortsFormed cap.inputs ∧
          PortsFormed cap.outputs) ∧
        ∃ t p, a.terminal = some t ∧ PortOf modules a Capability.outputs t.node t.port p ∧
          p.multiple = false := by
  constructor
  · rintro ⟨sound, refs⟩
    refine ⟨sound.id, sound.nodes, sound.named, sound.ids, fun n member => ?_, ?_⟩
    · obtain ⟨cap, found, ins, outs⟩ := sound.typed n member
      obtain ⟨inRefs, outRefs⟩ := List.forall_mem_append.mp (refs n member cap found)
      exact ⟨cap, capabilityForNode_eq_ok.mp found, portsFormed_iff.mpr ⟨ins, inRefs⟩,
        portsFormed_iff.mpr ⟨outs, outRefs⟩⟩
    · obtain ⟨t, node, cap, p, declared, known, found, output, scalar⟩ := sound.terminal
      exact ⟨t, p, declared, (outputs_lookup sound).mp ⟨node, cap, known, found, output⟩, scalar⟩
  · rintro ⟨id, nodes, named, ids, resolved, t, p, declared, output, scalar⟩
    have sides {n : AssemblyNode} (member : n ∈ a.nodes) {cap : Capability}
        (found : Resolves modules n cap) : PortsFormed cap.inputs ∧ PortsFormed cap.outputs := by
      obtain ⟨cap', found', formed⟩ := resolved n member
      obtain rfl := (List.cons.inj (found.symm.trans found')).1
      exact formed
    obtain ⟨node, cap, known, found, output⟩ :=
      (@port_lookup modules a Capability.outputs ids
        (fun n member cap found => (sides member found).2.distinct) _ _ _).mpr output
    refine ⟨⟨id, nodes, ids, named, fun n member => ?_, t, node, cap, p, declared, known, found,
      output, scalar⟩, fun n member cap found => ?_⟩
    · obtain ⟨cap, found, ins, outs⟩ := resolved n member
      exact ⟨cap, capabilityForNode_eq_ok.mpr found, (portsFormed_iff.mp ins).1,
        (portsFormed_iff.mp outs).1⟩
    · obtain ⟨ins, outs⟩ := sides member (capabilityForNode_eq_ok.mp found)
      exact List.forall_mem_append.mpr ⟨(portsFormed_iff.mp ins).2, (portsFormed_iff.mp outs).2⟩

private theorem oneSource_iff (sound : Sound modules a) (stocked : Stocked artifacts inputs)
    {b : Binding} {target : Port} :
    ((b.fromNode ≠ "" ∨ b.fromPort ≠ "") ↔ b.input = "") ∧
        SourceCovers modules artifacts a.nodes inputs b target ↔
      OneSource modules artifacts a inputs b target := by
  rw [SourceCovers, OneSource]
  by_cases external : b.input = ""
  · rw [if_neg (not_not.mpr external)]
    simp only [external, iff_true, ne_eq, not_true_eq_false, false_and, true_and, false_or,
      traitSetCovers_iff, ← outputs_lookup sound]
    refine and_congr_right fun _ => ⟨?_, ?_⟩
    · rintro ⟨node, cap, source, known, found, output, covers⟩
      exact ⟨source, ⟨node, cap, known, found, output⟩, covers⟩
    · rintro ⟨source, ⟨node, cap, known, found, output⟩, covers⟩
      exact ⟨node, cap, source, known, found, output, covers⟩
  · rw [if_pos external, input_carries stocked.distinct]
    simp only [external, iff_false, not_or, not_not, ne_eq, not_false_eq_true, true_and, false_and,
      or_false, and_assoc]

private theorem wired_iff (sound : Sound modules a) (stocked : Stocked artifacts inputs) :
    Wired modules artifacts a inputs ↔ ∀ b ∈ a.bindings, ∃ target,
      PortOf modules a Capability.inputs b.toNode b.toPort target ∧
        OneSource modules artifacts a inputs b target := by
  refine forall₂_congr fun b _ => ?_
  simp only [← oneSource_iff sound stocked, ← inputs_lookup sound, BindingTyped]
  constructor
  · rintro ⟨one, node, cap, target, known, found, input, covers⟩
    exact ⟨target, ⟨node, cap, known, found, input⟩, one, covers⟩
  · rintro ⟨target, ⟨node, cap, known, found, input⟩, one, covers⟩
    exact ⟨one, node, cap, target, known, found, input, covers⟩

private theorem counted_iff :
    Counted modules a (· == ·) ↔
      (∀ n ∈ a.nodes, ∀ cap, Resolves modules n cap → ∀ p ∈ cap.inputs,
        p.optional = false → bindingsOf a n.id p.name ≠ []) ∧
      ∀ n ∈ a.nodes, ∀ cap, Resolves modules n cap → ∀ p ∈ cap.inputs,
        p.multiple = false → (bindingsOf a n.id p.name).length ≤ 1 := by
  have count (n : AssemblyNode) (p : Port) :
      (a.bindings.countP fun b => (b.toNode, b.toPort) == (n.id, p.name)) =
        (bindingsOf a n.id p.name).length := by
    rw [List.countP_eq_length_filter, bindingsOf]
    congr 1
    refine List.filter_congr fun b _ => ?_
    rw [Bool.eq_iff_iff, beq_iff_eq, Prod.mk.injEq, decide_eq_true_iff]
  simp only [Counted, capabilityForNode_eq_ok, count, List.length_pos_iff]
  exact ⟨fun all => ⟨fun n member cap found p input => (all n member cap found p input).1,
      fun n member cap found p input => (all n member cap found p input).2⟩,
    fun ⟨bound, single⟩ n member cap found p input =>
      ⟨bound n member cap found p input, single n member cap found p input⟩⟩

private theorem acyclic_iff : Acyclic a ↔ ∀ x, ¬TransGen (Feeds a) x x := by
  rw [← @rank_iff_acyclic _ (Feeds a) (a.bindings.map (·.fromNode))]
  · refine exists_congr fun rank => ⟨?_, ?_⟩
    · rintro up x y ⟨b, member, upstream, rfl, rfl⟩
      exact up b member upstream
    · exact fun up b member upstream => up _ _ ⟨b, member, upstream, rfl, rfl⟩
  · rintro x y ⟨b, member, -, rfl, -⟩
    exact List.mem_map_of_mem member

theorem wellFormed_iff :
    WellFormed modules artifacts a inputs ↔
      (Sound modules a ∧ NoEmptyRefs modules a) ∧ Stocked artifacts inputs ∧
        Wired modules artifacts a inputs ∧ Counted modules a (· == ·) ∧ Acyclic a := by
  constructor
  · rintro ⟨id, nodes, named, distinct, resolved, terminal, inputNames, stored, bindings, bound,
      single, acyclic⟩
    have shaped := sound_iff.mpr ⟨id, nodes, named, distinct, resolved, terminal⟩
    have stocked : Stocked artifacts inputs := ⟨inputNames, stored⟩
    exact ⟨shaped, stocked, (wired_iff shaped.1 stocked).mpr bindings,
      counted_iff.mpr ⟨bound, single⟩, acyclic_iff.mpr acyclic⟩
  · rintro ⟨shaped, stocked, wired, counted, acyclic⟩
    obtain ⟨id, nodes, named, distinct, resolved, terminal⟩ := sound_iff.mp shaped
    obtain ⟨bound, single⟩ := counted_iff.mp counted
    exact ⟨id, nodes, named, distinct, resolved, terminal, stocked.distinct, stocked.stored,
      (wired_iff shaped.1 stocked).mp wired, bound, single, acyclic_iff.mp acyclic⟩

theorem validateAssembly_accepts (env : Env) :
    validateAssembly env modules artifacts a inputs = .ok () ↔
      WellFormed modules artifacts a inputs := by
  have answer : classed (validateAssembly env modules artifacts a inputs) =
      verdict modules artifacts a inputs Python.dialect :=
    (Validators.rust_validateAssembly env).trans (classed_validateAssembly env.iter_perm)
  have passes : validateAssembly env modules artifacts a inputs = .ok () ↔
      classed (validateAssembly env modules artifacts a inputs) = .ok () := by
    cases validateAssembly env modules artifacts a inputs with
    | ok => exact ⟨fun _ => rfl, fun _ => rfl⟩
    | error e => exact ⟨(fun same => by cases same), (fun same => by cases same)⟩
  rw [passes, answer, verdict, wellFormed_iff]
  by_cases shaped : Sound modules a ∧ NoEmptyRefs modules a
  · rw [if_pos ⟨shaped.1, fun _ => shaped.2⟩]
    by_cases unknown : FirstUnknown artifacts inputs
    · rw [if_pos unknown]
      exact ⟨(fun same => by cases same),
        fun all => absurd unknown (Validators.stocked_not_firstUnknown all.2.1)⟩
    · rw [if_neg unknown]
      split_ifs with rest
      · exact ⟨fun _ => ⟨shaped, rest⟩, fun _ => rfl⟩
      · exact ⟨(fun same => by cases same), fun all => absurd all.2 rest⟩
  · rw [if_neg fun all => shaped ⟨all.1, all.2 rfl⟩]
    exact ⟨(fun same => by cases same), fun all => absurd all.1 shaped⟩

end Pieces

theorem edges_subset (bindings : List Binding) (x : String) :
    edges bindings x ⊆ bindings.map (·.toNode) := by
  intro y member
  obtain ⟨b, listed, rfl⟩ := List.mem_map.mp member
  exact List.mem_map_of_mem (List.mem_filter.mp listed).1

/-- The validator accepts exactly the well-formed assemblies, in every order of its maps. Its visit
uses up no fuel that exceeds the nodes and bindings, nor the fuel it is given here once every
binding's target is a node, so both are the source's recursion. -/
theorem validateAssembly_wellFormed (env : Env) (modules : List ModuleSlot)
    (artifacts : KeyMap String Artifact) (a : Assembly) (inputs : List NamedArtifact) :
    let ids := a.nodes.map (·.id)
    (validateAssembly env modules artifacts a inputs = .ok () ↔
        WellFormed modules artifacts a inputs) ∧
      (∀ fuel, a.nodes.length + a.bindings.length < fuel →
        searchAll (edges a.bindings) fuel (env.iter ids) ≠ .error .fuel) ∧
      ((∀ b ∈ a.bindings, b.toNode ∈ ids) →
        searchAll (edges a.bindings) (a.nodes.length + 1) (env.iter ids) ≠ .error .fuel ∧
          visitAll (edges a.bindings) (a.nodes.length + 1) (env.iter ids) =
            (searchAll (edges a.bindings) (a.nodes.length + 1) (env.iter ids)).toOption) := by
  intro ids
  have listed : env.iter ids ⊆ ids := (env.iter_perm ids).subset
  refine ⟨validateAssembly_accepts env, fun fuel enough => ?_, fun known =>
    ⟨?_, (searchAll_toOption _ _ _).symm⟩⟩
  · refine @searchAll_ends _ _ _ (ids ++ a.bindings.map (·.toNode)) _ _ (fun x _ => ?_) ?_ ?_
    · exact fun _ edge => List.mem_append_right _ (edges_subset a.bindings x edge)
    · exact fun _ started => List.mem_append_left _ (listed started)
    · simpa [ids] using enough
  · refine @searchAll_ends _ _ _ ids _ _ (fun x _ y member => ?_) listed ?_
    · obtain ⟨b, there, rfl⟩ := List.mem_map.mp (edges_subset a.bindings x member)
      exact known b there
    · simp [ids]

end Substrate.Protocol.Acceptance
