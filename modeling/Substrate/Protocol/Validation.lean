/- ID: Substrate/Protocol/Validation
   digest: What an accepted assembly is: unique typed nodes, typed sources, port counts and no cycle. -/

import Substrate.Kernel.Assembly
import Substrate.Library.Checks

set_option autoImplicit false
set_option relaxedAutoImplicit false

namespace Substrate.Protocol.Validation

open Substrate.Kernel.Wire
open Substrate.Kernel.Hashing
open Substrate.Kernel.Memory
open Substrate.Kernel.Registry
open Substrate.Kernel.Assembly
open Substrate.Library.FiniteMap (KeyMap)
open Substrate.Library.Checks (bind_eq_ok forM_eq_ok)
open Substrate.Library.Topological (visitAll_rank)

variable {modules : List ModuleSlot} {artifacts : KeyMap String Artifact}

/-- The source of a binding covers the traits its target port requires. -/
def SourceCovers (modules : List ModuleSlot) (artifacts : KeyMap String Artifact)
    (nodes : List AssemblyNode) (inputs : List NamedArtifact) (b : Binding) (target : Port) : Prop :=
  if b.input ≠ "" then
    ∃ input r artifact, inputByName inputs b.input = some input ∧ input.artifact = some r ∧
      artifacts.lookup r.id = some artifact ∧ hasTraits artifact target.traits
  else
    ∃ node cap source, nodeById nodes b.fromNode = some node ∧
      capabilityForNode modules node = .ok cap ∧ port cap.outputs b.fromPort = some source ∧
      traitSetCovers source.traits target.traits

/-- A binding that passed its checks. -/
def BindingTyped (modules : List ModuleSlot) (artifacts : KeyMap String Artifact)
    (nodes : List AssemblyNode) (inputs : List NamedArtifact) (b : Binding) : Prop :=
  ∃ node cap target, nodeById nodes b.toNode = some node ∧
    capabilityForNode modules node = .ok cap ∧ port cap.inputs b.toPort = some target ∧
    SourceCovers modules artifacts nodes inputs b target

/-- How many bindings feed a port of a node. -/
def bindingCount (bindings : List Binding) (nodeId portName : String) : Nat :=
  bindings.countP fun b => b.toNode == nodeId && b.toPort == portName

/-- A port gets as many sources as it declares. -/
def CountFits (bindings : List Binding) (nodeId : String) (p : Port) : Prop :=
  (p.optional = false → 0 < bindingCount bindings nodeId p.name) ∧
    (p.multiple = false → bindingCount bindings nodeId p.name ≤ 1)

/-- A node resolves to one capability whose port names are distinct. -/
def NodeTyped (modules : List ModuleSlot) (node : AssemblyNode) : Prop :=
  ∃ cap, capabilityForNode modules node = .ok cap ∧ (cap.inputs.map (·.name)).Nodup ∧
    (cap.outputs.map (·.name)).Nodup

/-- The assembly names a scalar output of one of its nodes as its terminal. -/
def TerminalTyped (modules : List ModuleSlot) (assembly : Assembly) : Prop :=
  ∃ terminal node cap p, assembly.terminal = some terminal ∧
    nodeById assembly.nodes terminal.node = some node ∧ capabilityForNode modules node = .ok cap ∧
    port cap.outputs terminal.port = some p ∧ p.multiple = false

/-- A run input has a name and an artifact that is in the store. -/
def InputStored (artifacts : KeyMap String Artifact) (input : NamedArtifact) : Prop :=
  input.name ≠ "" ∧ ∃ r, input.artifact = some r ∧ r.id ∈ artifacts

theorem port_spec {ports : List Port} {name : String} {p : Port}
    (found : port ports name = some p) : p ∈ ports ∧ p.name = name := by
  refine ⟨List.mem_of_find?_eq_some found, ?_⟩
  simpa using List.find?_some found

/-- Everything validation establishes about an assembly and the inputs it starts with. -/
structure Validated (modules : List ModuleSlot) (artifacts : KeyMap String Artifact)
    (assembly : Assembly) (inputs : List NamedArtifact) : Prop where
  ids : (assembly.nodes.map (·.id)).Nodup
  named : ∀ node ∈ assembly.nodes, node.id ≠ ""
  typed : ∀ node ∈ assembly.nodes, NodeTyped modules node
  terminal : TerminalTyped modules assembly
  inputNames : (inputs.map (·.name)).Nodup
  stored : ∀ input ∈ inputs, InputStored artifacts input
  bound : ∀ b ∈ assembly.bindings, BindingTyped modules artifacts assembly.nodes inputs b
  counts : ∀ node ∈ assembly.nodes, ∀ cap, capabilityForNode modules node = .ok cap →
    ∀ p ∈ cap.inputs, CountFits assembly.bindings node.id p
  acyclic : ∃ rank : String → Nat, ∀ b ∈ assembly.bindings, b.input = "" →
    rank b.fromNode < rank b.toNode

@[simp] private theorem invalid_ne_ok {α : Type} (reason : String) (a : α) :
    invalid reason ≠ .ok a := by
  intro h
  cases h

@[simp] private theorem orInvalid_eq_ok {α : Type} {found : Option α} {reason : String} {a : α} :
    orInvalid found reason = .ok a ↔ found = some a := by
  cases found with
  | none => simp [orInvalid]
  | some b => simp [orInvalid]

private theorem validatePorts_ok {nodeId : String} {names : List String} {ports : List Port}
    (ok : validatePorts nodeId names ports = .ok ()) :
    (ports.map (·.name)).Nodup ∧ ∀ p ∈ ports, p.name ∉ names := by
  induction ports generalizing names with
  | nil => simp
  | cons p ports ih =>
      rw [validatePorts] at ok
      split_ifs at ok with bad empty
      · cases ok
      · cases ok
      · obtain ⟨distinct, fresh⟩ := ih ok
        push Not at bad
        refine ⟨?_, ?_⟩
        · rw [List.map_cons, List.nodup_cons]
          refine ⟨?_, distinct⟩
          intro member
          obtain ⟨q, hq, same⟩ := List.mem_map.mp member
          exact fresh q hq (by rw [same]; exact List.mem_cons_self)
        · intro q hq
          rcases List.mem_cons.mp hq with rfl | hq
          · exact bad.2.2
          · exact fun seen => fresh q hq (List.mem_cons_of_mem _ seen)

private theorem validateNodes_ok {seen : List String} {nodes : List AssemblyNode}
    (ok : validateNodes modules seen nodes = .ok ()) :
    (nodes.map (·.id)).Nodup ∧
      ∀ node ∈ nodes, node.id ≠ "" ∧ node.id ∉ seen ∧ NodeTyped modules node := by
  induction nodes generalizing seen with
  | nil => simp
  | cons node nodes ih =>
      rw [validateNodes] at ok
      split_ifs at ok with bad
      · cases ok
      · simp only [bind_eq_ok] at ok
        obtain ⟨cap, found, ⟨⟩, ins, ⟨⟩, outs, rest⟩ := ok
        obtain ⟨distinct, each⟩ := ih rest
        push Not at bad
        refine ⟨?_, ?_⟩
        · rw [List.map_cons, List.nodup_cons]
          refine ⟨?_, distinct⟩
          intro member
          obtain ⟨other, there, same⟩ := List.mem_map.mp member
          exact (each other there).2.1 (by rw [same]; exact List.mem_cons_self)
        · intro other there
          rcases List.mem_cons.mp there with rfl | there
          · exact ⟨bad.1, bad.2, cap, found, (validatePorts_ok ins).1, (validatePorts_ok outs).1⟩
          · obtain ⟨named, fresh, typed⟩ := each other there
            exact ⟨named, fun h => fresh (List.mem_cons_of_mem _ h), typed⟩

private theorem validateInputs_ok {seen : List String} {inputs : List NamedArtifact}
    (ok : validateInputs artifacts seen inputs = .ok ()) :
    (inputs.map (·.name)).Nodup ∧
      ∀ input ∈ inputs, input.name ∉ seen ∧ InputStored artifacts input := by
  induction inputs generalizing seen with
  | nil => simp
  | cons input inputs ih =>
      rw [validateInputs] at ok
      split_ifs at ok with bad
      · cases ok
      · rw [bind_eq_ok] at ok
        obtain ⟨r, found, rest⟩ := ok
        split_ifs at rest with present
        · obtain ⟨distinct, each⟩ := ih rest
          push Not at bad
          refine ⟨?_, ?_⟩
          · rw [List.map_cons, List.nodup_cons]
            refine ⟨?_, distinct⟩
            intro member
            obtain ⟨other, there, same⟩ := List.mem_map.mp member
            exact (each other there).1 (by rw [same]; exact List.mem_cons_self)
          · intro other there
            rcases List.mem_cons.mp there with rfl | there
            · exact ⟨bad.2, bad.1, r, orInvalid_eq_ok.mp found, present⟩
            · obtain ⟨fresh, stored⟩ := each other there
              exact ⟨fun h => fresh (List.mem_cons_of_mem _ h), stored⟩

private theorem validateBinding_ok {nodes : List AssemblyNode} {inputs : List NamedArtifact}
    {b : Binding} (ok : validateBinding modules artifacts nodes inputs b = .ok ()) :
    BindingTyped modules artifacts nodes inputs b := by
  unfold validateBinding at ok
  simp only [bind_eq_ok, orInvalid_eq_ok] at ok
  obtain ⟨node, target, cap, capOk, p, found, rest⟩ := ok
  refine ⟨node, cap, p, target, capOk, found, ?_⟩
  unfold SourceCovers
  split_ifs at rest with both external
  · cases rest
  · simp only [bind_eq_ok, orInvalid_eq_ok] at rest
    obtain ⟨input, named, rest⟩ := rest
    rw [if_pos external]
    split at rest
    · rename_i art stored
      obtain ⟨r, hr, lookup⟩ := Option.bind_eq_some_iff.mp stored
      split_ifs at rest with covered
      · exact ⟨input, r, art, named, hr, lookup, covered⟩
      · cases rest
    · cases rest
  · simp only [bind_eq_ok, orInvalid_eq_ok] at rest
    obtain ⟨source, known, sourceCap, sourceOk, out, declared, rest⟩ := rest
    rw [if_neg external]
    split_ifs at rest with covered
    · exact ⟨source, sourceCap, out, known, sourceOk, declared, covered⟩
    · cases rest

private theorem validateCounts_ok {bindings : List Binding} {nodeId : String} {ports : List Port}
    (ok : validateCounts bindings nodeId ports = .ok ()) :
    ∀ p ∈ ports, CountFits bindings nodeId p := by
  intro p hp
  have each := forM_eq_ok.mp ok p hp
  simp only at each
  split_ifs at each with unbound many
  · cases each
  · cases each
  · unfold CountFits bindingCount
    push Not at unbound many
    refine ⟨?_, ?_⟩
    · intro required
      by_contra none
      have zero : bindings.countP (fun b => b.toNode == nodeId && b.toPort == p.name) = 0 := by
        omega
      simp [unbound zero] at required
    · intro single
      by_contra exceeds
      have more := many (by omega)
      simp [more] at single

/-- An accepted assembly is validated. -/
theorem validateAssembly_ok {env : Env} {assembly : Assembly} {inputs : List NamedArtifact}
    (ok : validateAssembly env modules artifacts assembly inputs = .ok ()) :
    Validated modules artifacts assembly inputs := by
  unfold validateAssembly at ok
  split_ifs at ok
  · cases ok
  · cases ok
  · simp only [bind_eq_ok, orInvalid_eq_ok] at ok
    obtain ⟨terminal, declared, ⟨⟩, nodesOk, node, known, cap, capOk, p, output, rest⟩ := ok
    split_ifs at rest with scalar
    · cases rest
    · simp only [bind_eq_ok] at rest
      obtain ⟨⟨⟩, inputsOk, ⟨⟩, bindingsOk, ⟨⟩, countsOk, cycle⟩ := rest
      obtain ⟨distinct, each⟩ := validateNodes_ok nodesOk
      obtain ⟨names, stored⟩ := validateInputs_ok inputsOk
      have bound : ∀ b ∈ assembly.bindings,
          BindingTyped modules artifacts assembly.nodes inputs b :=
        fun b hb => validateBinding_ok (forM_eq_ok.mp bindingsOk b hb)
      refine ⟨distinct, fun n hn => (each n hn).1, fun n hn => (each n hn).2.2,
        ⟨terminal, node, cap, p, declared, known, capOk, output, by simpa using scalar⟩, names,
        fun i hi => (stored i hi).2, bound, ?_, ?_⟩
      · intro n hn found resolved
        have counted := forM_eq_ok.mp countsOk n hn
        rw [bind_eq_ok] at counted
        obtain ⟨found', resolved', fits⟩ := counted
        obtain rfl : found = found' := by
          rw [resolved] at resolved'
          exact Except.ok.inj resolved'
        exact validateCounts_ok fits
      · split at cycle
        · rename_i st accepted
          obtain ⟨rank, up⟩ := visitAll_rank accepted
          refine ⟨rank, ?_⟩
          intro b hb upstream
          obtain ⟨_, _, target, _, _, _, covers⟩ := bound b hb
          unfold SourceCovers at covers
          rw [if_neg (by simpa using upstream)] at covers
          obtain ⟨source, _, _, sourceKnown, _⟩ := covers
          have member : b.fromNode ∈ assembly.nodes.map (·.id) := by
            have at' := List.find?_some sourceKnown
            refine List.mem_map.mpr ⟨source, List.mem_of_find?_eq_some sourceKnown, ?_⟩
            simpa using at'
          refine up b.fromNode ((env.iter_perm _).mem_iff.mpr member) b.toNode ?_
          refine List.mem_map.mpr ⟨b, ?_, rfl⟩
          simp [hb, upstream]
        · cases cycle

end Substrate.Protocol.Validation
