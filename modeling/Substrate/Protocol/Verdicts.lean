/- ID: Substrate/Protocol/Verdicts
   digest: Which assemblies the checks of the Go and the Python kernel accept, and the class of every refusal. -/

import Substrate.Kernel.Sdks
import Substrate.Protocol.Validation

set_option autoImplicit false
set_option relaxedAutoImplicit false

namespace Substrate.Protocol.Verdicts

open Substrate.Kernel.Wire
open Substrate.Kernel.Hashing
open Substrate.Kernel.Memory
open Substrate.Kernel.Registry
open Substrate.Kernel.Assembly (invalid orInvalid nodeById inputByName edges)
open Substrate.Kernel.Sdks
open Substrate.Protocol.Validation
open Substrate.Library.Checks
open Substrate.Library.FiniteMap (KeyMap)
open Substrate.Library.Topological

section Classes

variable {α β : Type}

@[simp] theorem classed_ok (a : α) : classed (.ok a) = .ok a := rfl

@[simp] theorem classed_error (e : KernelError) : @classed α (.error e) = .error (classOf e) := rfl

@[simp] theorem classed_invalid (reason : String) : @classed α (invalid reason) = .error .invalid := rfl

theorem classed_bind_congr {x y : Except KernelError α} {f g : α → Except KernelError β}
    (first : classed x = classed y) (rest : ∀ a, x = .ok a → classed (f a) = classed (g a)) :
    classed (x >>= f) = classed (y >>= g) := by
  cases x with
  | ok a =>
      cases y with
      | ok b =>
          obtain rfl : a = b := Except.ok.inj first
          exact rest a rfl
      | error e => cases first
  | error e =>
      cases y with
      | ok b => cases first
      | error e' => exact congrArg Except.error (Except.error.inj first)

theorem classed_orInvalid (found : Option α) (reason reason' : String) :
    classed (orInvalid found reason) = classed (orInvalid found reason') := by
  cases found <;> rfl

theorem classed_forM_congr {f g : α → Except KernelError Unit} {l : List α}
    (each : ∀ a ∈ l, classed (f a) = classed (g a)) : classed (l.forM f) = classed (l.forM g) := by
  induction l with
  | nil => rfl
  | cons a l ih =>
      exact classed_bind_congr (each a List.mem_cons_self) fun _ _ =>
        ih fun b member => each b (List.mem_cons_of_mem a member)

/-- A check that fails with INVALID or not at all. -/
def OnlyInvalid (x : Except KernelError α) : Prop := ∀ e, x = .error e → classOf e = .invalid

theorem onlyInvalid_ok (a : α) : OnlyInvalid (.ok a) := fun _ failed => nomatch failed

theorem onlyInvalid_invalid (reason : String) : OnlyInvalid (α := α) (invalid reason) := by
  rintro e failed
  cases failed
  rfl

theorem onlyInvalid_orInvalid (found : Option α) (reason : String) :
    OnlyInvalid (orInvalid found reason) := by
  cases found with
  | none => exact onlyInvalid_invalid reason
  | some a => exact onlyInvalid_ok a

theorem onlyInvalid_bind {x : Except KernelError α} {f : α → Except KernelError β}
    (first : OnlyInvalid x) (rest : ∀ a, OnlyInvalid (f a)) : OnlyInvalid (x >>= f) := by
  cases x with
  | ok a => exact rest a
  | error e => exact fun e' failed => first e' (by cases failed; rfl)

theorem onlyInvalid_forM {f : α → Except KernelError Unit} (each : ∀ a, OnlyInvalid (f a))
    (l : List α) : OnlyInvalid (l.forM f) := by
  induction l with
  | nil => exact onlyInvalid_ok _
  | cons a l ih => exact onlyInvalid_bind (each a) fun _ => ih

theorem onlyInvalid_capability (modules : List ModuleSlot) (node : AssemblyNode) :
    OnlyInvalid (capabilityForNode modules node) := by
  rw [capabilityForNode]
  split
  · exact onlyInvalid_invalid _
  · exact onlyInvalid_ok _
  · exact onlyInvalid_invalid _

end Classes

section Checks

variable (modules : List ModuleSlot) (artifacts : KeyMap String Artifact) (a : Assembly)
  (inputs : List NamedArtifact)

/-- Named and typed ports of distinct names. -/
structure PortsTyped (ports : List Port) : Prop where
  named : ∀ p ∈ ports, p.name ≠ ""
  typed : ∀ p ∈ ports, p.traits ≠ []
  distinct : (ports.map (·.name)).Nodup

/-- What is checked before the inputs, apart from empty trait refs. -/
structure Sound : Prop where
  id : a.id ≠ ""
  nodes : a.nodes ≠ []
  ids : (a.nodes.map (·.id)).Nodup
  named : ∀ n ∈ a.nodes, n.id ≠ ""
  typed : ∀ n ∈ a.nodes, ∃ cap, capabilityForNode modules n = .ok cap ∧ PortsTyped cap.inputs ∧
    PortsTyped cap.outputs
  terminal : TerminalTyped modules a

/-- No port of the assembly's capabilities lists an empty trait ref. -/
def NoEmptyRefs : Prop :=
  ∀ n ∈ a.nodes, ∀ cap, capabilityForNode modules n = .ok cap →
    ∀ p ∈ cap.inputs ++ cap.outputs, "" ∉ p.traits

/-- Every run input has a name of its own and a stored artifact. -/
structure Stocked : Prop where
  distinct : (inputs.map (·.name)).Nodup
  stored : ∀ i ∈ inputs, InputStored artifacts i

/-- The first faulty run input is well formed but for an artifact that is not in the store. -/
def FirstUnknown : Prop :=
  ∃ before i after r, inputs = before ++ i :: after ∧ Stocked artifacts before ∧ i.name ≠ "" ∧
    i.name ∉ before.map (·.name) ∧ i.artifact = some r ∧ r.id ∉ artifacts

/-- Every binding has exactly one source, which covers its target. -/
def Wired : Prop :=
  ∀ b ∈ a.bindings, ((b.fromNode ≠ "" ∨ b.fromPort ≠ "") ↔ b.input = "") ∧
    BindingTyped modules artifacts a.nodes inputs b

/-- Every input port gets as many of the bindings that `same` counts for it as it declares. -/
def Counted (same : String × String → String × String → Bool) : Prop :=
  ∀ n ∈ a.nodes, ∀ cap, capabilityForNode modules n = .ok cap → ∀ p ∈ cap.inputs,
    let count := a.bindings.countP fun b => same (b.toNode, b.toPort) (n.id, p.name)
    (p.optional = false → 0 < count) ∧ (p.multiple = false → count ≤ 1)

/-- The upstream bindings go up in some rank. -/
def Acyclic : Prop :=
  ∃ rank : String → Nat, ∀ b ∈ a.bindings, b.input = "" → rank b.fromNode < rank b.toNode

open scoped Classical in
/-- The class of a validator's answer. -/
noncomputable def verdict (d : Dialect) : Except ErrorClass Unit :=
  if Sound modules a ∧ (d.checksTraitRefs → NoEmptyRefs modules a) then
    if FirstUnknown artifacts inputs then .error .notFound
    else if Stocked artifacts inputs ∧ Wired modules artifacts a inputs ∧
        Counted modules a d.samePort ∧ Acyclic a then .ok ()
    else .error .invalid
  else .error .invalid

end Checks

section Parts

variable {d : Dialect} {modules : List ModuleSlot} {artifacts : KeyMap String Artifact}
  {a : Assembly} {inputs : List NamedArtifact}

/-- Everything before the inputs. -/
def shape (d : Dialect) (modules : List ModuleSlot) (a : Assembly) : Except KernelError Unit :=
  if a.id = "" then invalid "assembly id is required"
  else if a.nodes = [] then invalid "assembly needs nodes and a terminal"
  else do
    let terminal ← orInvalid a.terminal "assembly needs nodes and a terminal"
    validateNodes d modules [] a.nodes
    let terminalNode ← orInvalid (nodeById a.nodes terminal.node) "terminal node does not exist"
    let terminalCap ← capabilityForNode modules terminalNode
    let terminalPort ← orInvalid (port terminalCap.outputs terminal.port)
      "terminal output does not exist"
    if terminalPort.multiple then invalid "terminal output must be scalar" else .ok ()

/-- Everything after the inputs. -/
def wiring (d : Dialect) (roots : List String → List String) (modules : List ModuleSlot)
    (artifacts : KeyMap String Artifact) (a : Assembly) (inputs : List NamedArtifact) :
    Except KernelError Unit := do
  a.bindings.forM (validateBinding modules artifacts a.nodes inputs)
  a.nodes.forM fun n => do
    let cap ← capabilityForNode modules n
    validateCounts d a.bindings n.id cap.inputs
  match visitAll (edges a.bindings) (a.nodes.length + 1) (roots (a.nodes.map (·.id))) with
  | some _ => .ok ()
  | none => invalid "assembly contains a cycle"

private theorem guard_bind {α : Type} {p : Prop} [Decidable p] {reason : String}
    {next : Unit → Except KernelError α} :
    ((if p then invalid reason else .ok ()) >>= next) = if p then invalid reason else next () := by
  split_ifs <;> rfl

theorem validateAssembly_parts (roots : List String → List String) :
    validateAssembly d roots modules artifacts a inputs =
      (do shape d modules a
          validateInputs d artifacts [] inputs
          wiring d roots modules artifacts a inputs) := by
  rw [validateAssembly, shape]
  split_ifs
  · rfl
  · rfl
  · simp only [bind_assoc, guard_bind]
    rfl

theorem onlyInvalid_guard {α : Type} {p : Prop} [Decidable p] {reason : String}
    {next : Except KernelError α} (passed : OnlyInvalid next) :
    OnlyInvalid (if p then invalid reason else next) := by
  split_ifs
  · exact onlyInvalid_invalid reason
  · exact passed

theorem onlyInvalid_require {p : Prop} [Decidable p] {reason : String} :
    OnlyInvalid (if p then .ok () else invalid reason) := by
  split_ifs
  · exact onlyInvalid_ok _
  · exact onlyInvalid_invalid reason

private theorem onlyInvalid_ports (nodeId : String) (names : List String) (ports : List Port) :
    OnlyInvalid (validatePorts d nodeId names ports) := by
  induction ports generalizing names with
  | nil => exact onlyInvalid_ok _
  | cons p ports ih => exact onlyInvalid_guard (onlyInvalid_guard (ih _))

private theorem onlyInvalid_nodes (seen : List String) (nodes : List AssemblyNode) :
    OnlyInvalid (validateNodes d modules seen nodes) := by
  induction nodes generalizing seen with
  | nil => exact onlyInvalid_ok _
  | cons n nodes ih =>
      refine onlyInvalid_guard ?_
      refine onlyInvalid_bind (onlyInvalid_capability modules n) fun cap => ?_
      refine onlyInvalid_bind (onlyInvalid_ports _ _ _) fun _ => ?_
      exact onlyInvalid_bind (onlyInvalid_ports _ _ _) fun _ => ih _

theorem onlyInvalid_shape : OnlyInvalid (shape d modules a) := by
  refine onlyInvalid_guard (onlyInvalid_guard ?_)
  refine onlyInvalid_bind (onlyInvalid_orInvalid _ _) fun terminal => ?_
  refine onlyInvalid_bind (onlyInvalid_nodes _ _) fun _ => ?_
  refine onlyInvalid_bind (onlyInvalid_orInvalid _ _) fun node => ?_
  refine onlyInvalid_bind (onlyInvalid_capability modules node) fun cap => ?_
  refine onlyInvalid_bind (onlyInvalid_orInvalid _ _) fun p => ?_
  exact onlyInvalid_guard (onlyInvalid_ok _)

private theorem onlyInvalid_binding (nodes : List AssemblyNode) (b : Binding) :
    OnlyInvalid (validateBinding modules artifacts nodes inputs b) := by
  refine onlyInvalid_bind (onlyInvalid_orInvalid _ _) fun node => ?_
  refine onlyInvalid_bind (onlyInvalid_capability modules node) fun cap => ?_
  refine onlyInvalid_bind (onlyInvalid_orInvalid _ _) fun target => ?_
  refine onlyInvalid_guard ?_
  split_ifs
  · refine onlyInvalid_bind (onlyInvalid_orInvalid _ _) fun value => ?_
    exact onlyInvalid_require
  · refine onlyInvalid_bind (onlyInvalid_orInvalid _ _) fun node => ?_
    refine onlyInvalid_bind (onlyInvalid_capability modules node) fun cap => ?_
    refine onlyInvalid_bind (onlyInvalid_orInvalid _ _) fun source => ?_
    exact onlyInvalid_require

theorem onlyInvalid_wiring (roots : List String → List String) :
    OnlyInvalid (wiring d roots modules artifacts a inputs) := by
  refine onlyInvalid_bind (onlyInvalid_forM (onlyInvalid_binding _) _) fun _ => ?_
  refine onlyInvalid_bind (onlyInvalid_forM (fun n => ?_) _) fun _ => ?_
  · refine onlyInvalid_bind (onlyInvalid_capability modules n) fun cap => ?_
    exact onlyInvalid_forM (fun p => onlyInvalid_guard (onlyInvalid_guard (onlyInvalid_ok _))) _
  · split
    · exact onlyInvalid_ok _
    · exact onlyInvalid_invalid _

theorem guard_eq_ok {α : Type} {p : Prop} [Decidable p] {reason : String}
    {next : Except KernelError α} {v : α} :
    (if p then invalid reason else next) = .ok v ↔ ¬p ∧ next = .ok v := by
  split_ifs with bad
  · exact ⟨fun failed => (nomatch failed), fun ⟨good, _⟩ => absurd bad good⟩
  · exact ⟨fun passed => ⟨bad, passed⟩, fun ⟨_, passed⟩ => passed⟩

private theorem require_eq_ok {p : Prop} [Decidable p] {reason : String} :
    (if p then .ok () else invalid reason : Except KernelError Unit) = .ok () ↔ p := by
  split_ifs with good
  · exact ⟨fun _ => good, fun _ => rfl⟩
  · exact ⟨fun failed => (nomatch failed), fun h => absurd h good⟩

theorem orInvalid_eq_ok {α : Type} {found : Option α} {reason : String} {v : α} :
    orInvalid found reason = .ok v ↔ found = some v := by
  cases found with
  | none => exact ⟨fun failed => (nomatch failed), fun absent => (nomatch absent)⟩
  | some b =>
      exact ⟨fun same => congrArg some (Except.ok.inj same),
        fun same => congrArg Except.ok (Option.some.inj same)⟩

theorem bind_unit_eq_ok {α : Type} {x : Except KernelError Unit}
    {next : Unit → Except KernelError α} {v : α} :
    (x >>= next) = .ok v ↔ x = .ok () ∧ next () = .ok v := by
  rw [bind_eq_ok]
  exact ⟨fun ⟨⟨⟩, first, rest⟩ => ⟨first, rest⟩, fun ⟨first, rest⟩ => ⟨(), first, rest⟩⟩

theorem portsTyped_cons {p : Port} {ports : List Port} :
    PortsTyped (p :: ports) ↔
      p.name ≠ "" ∧ p.traits ≠ [] ∧ p.name ∉ ports.map (·.name) ∧ PortsTyped ports := by
  constructor
  · rintro ⟨named, typed, distinct⟩
    rw [List.map_cons, List.nodup_cons] at distinct
    rw [List.forall_mem_cons] at named typed
    exact ⟨named.1, typed.1, distinct.1, named.2, typed.2, distinct.2⟩
  · rintro ⟨named, typed, fresh, rest⟩
    refine ⟨List.forall_mem_cons.mpr ⟨named, rest.named⟩,
      List.forall_mem_cons.mpr ⟨typed, rest.typed⟩, ?_⟩
    rw [List.map_cons, List.nodup_cons]
    exact ⟨fresh, rest.distinct⟩

theorem validatePorts_eq_ok {nodeId : String} {names : List String} {ports : List Port} :
    validatePorts d nodeId names ports = .ok () ↔
      PortsTyped ports ∧ (∀ p ∈ ports, p.name ∉ names) ∧
        (d.checksTraitRefs → ∀ p ∈ ports, "" ∉ p.traits) := by
  induction ports generalizing names with
  | nil =>
      exact ⟨fun _ => ⟨⟨by simp, by simp, List.nodup_nil⟩, by simp, by simp⟩, fun _ => rfl⟩
  | cons p ports ih =>
      rw [validatePorts, guard_eq_ok, guard_eq_ok, ih, portsTyped_cons]
      simp only [List.mem_cons, List.mem_map, forall_eq_or_imp, not_or, not_and, not_exists]
      grind

/-- A node that passes its checks. -/
def NodeChecked (d : Dialect) (modules : List ModuleSlot) (n : AssemblyNode) : Prop :=
  ∃ cap, capabilityForNode modules n = .ok cap ∧ PortsTyped cap.inputs ∧ PortsTyped cap.outputs ∧
    (d.checksTraitRefs → ∀ p ∈ cap.inputs ++ cap.outputs, "" ∉ p.traits)

private theorem node_eq_ok {n : AssemblyNode} {next : Except KernelError Unit} :
    (do let cap ← capabilityForNode modules n
        validatePorts d n.id [] cap.inputs
        validatePorts d n.id [] cap.outputs
        next) = .ok () ↔ NodeChecked d modules n ∧ next = .ok () := by
  rw [bind_eq_ok]
  simp only [bind_unit_eq_ok, validatePorts_eq_ok, NodeChecked, List.forall_mem_append]
  constructor
  · rintro ⟨cap, found, ⟨ins, -, inRefs⟩, ⟨outs, -, outRefs⟩, rest⟩
    exact ⟨⟨cap, found, ins, outs, fun on => ⟨inRefs on, outRefs on⟩⟩, rest⟩
  · rintro ⟨⟨cap, found, ins, outs, refs⟩, rest⟩
    exact ⟨cap, found, ⟨ins, fun _ _ => List.not_mem_nil, fun on => (refs on).1⟩,
      ⟨outs, fun _ _ => List.not_mem_nil, fun on => (refs on).2⟩, rest⟩

theorem validateNodes_eq_ok {seen : List String} {nodes : List AssemblyNode} :
    validateNodes d modules seen nodes = .ok () ↔
      (nodes.map (·.id)).Nodup ∧ (∀ n ∈ nodes, n.id ∉ seen) ∧ (∀ n ∈ nodes, n.id ≠ "") ∧
        ∀ n ∈ nodes, NodeChecked d modules n := by
  induction nodes generalizing seen with
  | nil => exact ⟨fun _ => ⟨List.nodup_nil, by simp, by simp, by simp⟩, fun _ => rfl⟩
  | cons n nodes ih =>
      rw [validateNodes, guard_eq_ok, node_eq_ok, ih]
      simp only [List.map_cons, List.nodup_cons, List.mem_cons, List.mem_map, forall_eq_or_imp,
        not_or, not_exists]
      grind

theorem shape_eq_ok :
    shape d modules a = .ok () ↔
      Sound modules a ∧ (d.checksTraitRefs → NoEmptyRefs modules a) := by
  rw [shape, guard_eq_ok, guard_eq_ok]
  simp only [bind_eq_ok, @bind_unit_eq_ok _ (validateNodes _ _ _ _), orInvalid_eq_ok, guard_eq_ok,
    validateNodes_eq_ok]
  constructor
  · rintro ⟨id, nodes, terminal, declared, ⟨ids, -, named, checked⟩, node, known, cap, found, p,
      output, scalar, -⟩
    refine ⟨⟨id, nodes, ids, named, fun n member => ?_, terminal, node, cap, p, declared, known,
      found, output, Bool.eq_false_iff.mpr scalar⟩, fun on n member cap found => ?_⟩
    · obtain ⟨cap, found, ins, outs, -⟩ := checked n member
      exact ⟨cap, found, ins, outs⟩
    · obtain ⟨cap', found', -, -, refs⟩ := checked n member
      obtain rfl : cap = cap' := Except.ok.inj (found.symm.trans found')
      exact refs on
  · rintro ⟨⟨id, nodes, ids, named, typed, terminal, node, cap, p, declared, known, found, output,
      scalar⟩, refs⟩
    refine ⟨id, nodes, terminal, declared, ⟨ids, fun _ _ => List.not_mem_nil, named,
      fun n member => ?_⟩, node, known, cap, found, p, output, Bool.eq_false_iff.mp scalar, trivial⟩
    obtain ⟨cap', found', ins, outs⟩ := typed n member
    exact ⟨cap', found', ins, outs, fun on => refs on n member cap' found'⟩

theorem stocked_cons {i : NamedArtifact} :
    Stocked artifacts (i :: inputs) ↔
      InputStored artifacts i ∧ i.name ∉ inputs.map (·.name) ∧ Stocked artifacts inputs := by
  constructor
  · rintro ⟨distinct, stored⟩
    rw [List.map_cons, List.nodup_cons] at distinct
    rw [List.forall_mem_cons] at stored
    exact ⟨stored.1, distinct.1, distinct.2, stored.2⟩
  · rintro ⟨here, fresh, distinct, stored⟩
    refine ⟨?_, List.forall_mem_cons.mpr ⟨here, stored⟩⟩
    rw [List.map_cons, List.nodup_cons]
    exact ⟨fresh, distinct⟩

private theorem validateInputs_eq_ok {seen : List String} :
    validateInputs d artifacts seen inputs = .ok () ↔
      Stocked artifacts inputs ∧ ∀ i ∈ inputs, i.name ∉ seen := by
  induction inputs generalizing seen with
  | nil => exact ⟨fun _ => ⟨⟨List.nodup_nil, by simp⟩, by simp⟩, fun _ => rfl⟩
  | cons i inputs ih =>
      rw [validateInputs, guard_eq_ok, bind_eq_ok, stocked_cons, InputStored]
      simp only [orInvalid_eq_ok, List.mem_cons, forall_eq_or_imp, List.mem_map]
      constructor
      · rintro ⟨named, r, found, rest⟩
        split_ifs at rest with present
        obtain ⟨stocked, fresh⟩ := ih.mp rest
        rw [not_or] at named
        refine ⟨⟨⟨named.1, r, found, present⟩, ?_, stocked⟩, named.2, fun j member seen => ?_⟩
        · rintro ⟨j, member, same⟩
          exact fresh j member (same ▸ List.mem_cons_self)
        · exact fresh j member (List.mem_cons_of_mem _ seen)
      · rintro ⟨⟨⟨named, r, found, present⟩, fresh, stocked⟩, new, news⟩
        refine ⟨not_or.mpr ⟨named, new⟩, r, found, ?_⟩
        rw [if_neg (not_not.mpr present), ih]
        refine ⟨stocked, fun j member seen => ?_⟩
        rcases List.mem_cons.mp seen with same | seen
        · exact fresh ⟨j, member, same⟩
        · exact news j member seen

/-- The first faulty input, after the names in `seen`, is well formed but not stored. -/
private def UnknownAfter (artifacts : KeyMap String Artifact) (seen : List String)
    (inputs : List NamedArtifact) : Prop :=
  ∃ before i after r, inputs = before ++ i :: after ∧ Stocked artifacts before ∧
    (∀ j ∈ before, j.name ∉ seen) ∧ i.name ≠ "" ∧ i.name ∉ seen ∧ i.name ∉ before.map (·.name) ∧
    i.artifact = some r ∧ r.id ∉ artifacts

private theorem unknownAfter_cons {seen : List String} {i : NamedArtifact} :
    UnknownAfter artifacts seen (i :: inputs) ↔
      ¬(i.name = "" ∨ i.name ∈ seen) ∧ ∃ r, i.artifact = some r ∧
        (r.id ∈ artifacts → UnknownAfter artifacts (i.name :: seen) inputs) := by
  constructor
  · rintro ⟨_ | ⟨first, before⟩, j, after, r, split, stocked, fresh, named, new, apart, found, absent⟩
    · obtain ⟨rfl, rfl⟩ := List.cons.inj split
      exact ⟨not_or.mpr ⟨named, new⟩, r, found, fun present => absurd present absent⟩
    · obtain ⟨rfl, rfl⟩ := List.cons.inj split
      obtain ⟨⟨named', r', found', present⟩, lone, stocked⟩ := stocked_cons.mp stocked
      refine ⟨not_or.mpr ⟨named', fresh i List.mem_cons_self⟩, r', found', fun _ => ?_⟩
      rw [List.map_cons, List.mem_cons, not_or] at apart
      refine ⟨before, j, after, r, rfl, stocked, fun k member => ?_, named, ?_, apart.2, found, absent⟩
      · rw [List.mem_cons, not_or]
        exact ⟨fun same => lone (List.mem_map.mpr ⟨k, member, same⟩),
          fresh k (List.mem_cons_of_mem i member)⟩
      · rw [List.mem_cons, not_or]
        exact ⟨apart.1, new⟩
  · rintro ⟨good, r, found, later⟩
    rw [not_or] at good
    by_cases present : r.id ∈ artifacts
    · obtain ⟨before, j, after, r', rfl, stocked, fresh, named, new, apart, found', absent⟩ :=
        later present
      have lone : i.name ∉ before.map (·.name) := by
        intro member
        obtain ⟨k, inside, same⟩ := List.mem_map.mp member
        exact fresh k inside (same ▸ List.mem_cons_self)
      rw [List.mem_cons, not_or] at new
      refine ⟨i :: before, j, after, r', rfl,
        stocked_cons.mpr ⟨⟨good.1, r, found, present⟩, lone, stocked⟩, ?_, named, new.2, ?_, found',
        absent⟩
      · exact List.forall_mem_cons.mpr
          ⟨good.2, fun k member seen => fresh k member (List.mem_cons_of_mem _ seen)⟩
      · rw [List.map_cons, List.mem_cons, not_or]
        exact ⟨new.1, apart⟩
    · exact ⟨[], i, inputs, r, rfl, ⟨List.nodup_nil, by simp⟩, by simp, good.1, good.2, by simp,
        found, present⟩

private theorem validateInputs_notFound {seen : List String} :
    classed (validateInputs d artifacts seen inputs) = .error .notFound ↔
      UnknownAfter artifacts seen inputs := by
  induction inputs generalizing seen with
  | nil =>
      refine ⟨fun failed => (nomatch failed), ?_⟩
      rintro ⟨before, _, _, _, split, -⟩
      exact absurd split.symm (by simp)
  | cons i inputs ih =>
      rw [validateInputs, unknownAfter_cons]
      by_cases bad : i.name = "" ∨ i.name ∈ seen
      · rw [if_pos bad]
        exact ⟨fun failed => (nomatch failed), fun ⟨good, _⟩ => absurd bad good⟩
      · rw [if_neg bad]
        cases found : i.artifact with
        | none => exact ⟨fun failed => (nomatch failed), fun ⟨_, _, absent, _⟩ => (nomatch absent)⟩
        | some r =>
            by_cases present : r.id ∈ artifacts
            · have step : classed (orInvalid (some r) ("input " ++ i.name ++ " has no artifact") >>=
                  fun r => if r.id ∉ artifacts then .error (.notFound r.id)
                    else validateInputs d artifacts (i.name :: seen) inputs) =
                  classed (validateInputs d artifacts (i.name :: seen) inputs) := by
                simp [orInvalid, bind, Except.bind, present]
              rw [step, ih]
              refine ⟨fun later => ⟨bad, r, rfl, fun _ => later⟩, ?_⟩
              rintro ⟨-, r', same, later⟩
              obtain rfl := Option.some.inj same
              exact later present
            · refine ⟨fun _ => ⟨bad, r, rfl, fun here => absurd here present⟩, fun _ => ?_⟩
              simp [orInvalid, bind, Except.bind, present, classOf]

theorem validateInputs_firstUnknown :
    classed (validateInputs d artifacts [] inputs) = .error .notFound ↔
      FirstUnknown artifacts inputs := by
  rw [validateInputs_notFound]
  constructor
  · rintro ⟨before, i, after, r, split, stocked, -, named, -, rest⟩
    exact ⟨before, i, after, r, split, stocked, named, rest⟩
  · rintro ⟨before, i, after, r, split, stocked, named, rest⟩
    exact ⟨before, i, after, r, split, stocked, fun _ _ => List.not_mem_nil, named,
      List.not_mem_nil, rest⟩

theorem validateInputs_stocked :
    validateInputs d artifacts [] inputs = .ok () ↔ Stocked artifacts inputs := by
  rw [validateInputs_eq_ok]
  exact ⟨And.left, fun stocked => ⟨stocked, fun _ _ => List.not_mem_nil⟩⟩

theorem validateInputs_class {seen : List String} {e : KernelError}
    (failed : validateInputs d artifacts seen inputs = .error e) :
    classOf e = .notFound ∨ classOf e = .invalid := by
  induction inputs generalizing seen with
  | nil => cases failed
  | cons i inputs ih =>
      rw [validateInputs] at failed
      split_ifs at failed
      · cases failed
        exact .inr rfl
      · cases found : i.artifact with
        | none =>
            rw [found] at failed
            cases failed
            exact .inr rfl
        | some r =>
            rw [found] at failed
            simp only [orInvalid, bind, Except.bind] at failed
            split_ifs at failed
            · exact ih failed
            · cases failed
              exact .inl rfl

private theorem external_eq_ok {b : Binding} {target : Port} :
    (do let value ← orInvalid (inputByName inputs b.input) ("unknown run input " ++ b.input)
        let covered := (value.artifact.bind fun r => artifacts.lookup r.id).any
          (hasTraits · target.traits)
        if covered then .ok ()
        else invalid ("trait set mismatch at " ++ b.toNode ++ "." ++ b.toPort)) = .ok () ↔
      ∃ input r artifact, inputByName inputs b.input = some input ∧ input.artifact = some r ∧
        artifacts.lookup r.id = some artifact ∧ hasTraits artifact target.traits := by
  simp only [bind_eq_ok, orInvalid_eq_ok, require_eq_ok, Option.any_eq_true,
    Option.bind_eq_some_iff]
  constructor
  · rintro ⟨input, named, artifact, ⟨r, found, stored⟩, covers⟩
    exact ⟨input, r, artifact, named, found, stored, covers⟩
  · rintro ⟨input, r, artifact, named, found, stored, covers⟩
    exact ⟨input, named, artifact, ⟨r, found, stored⟩, covers⟩

private theorem upstream_eq_ok {nodes : List AssemblyNode} {b : Binding} {target : Port} :
    (do let sourceNode ← orInvalid (nodeById nodes b.fromNode) ("unknown source " ++ b.fromNode)
        let sourceCap ← capabilityForNode modules sourceNode
        let source ← orInvalid (port sourceCap.outputs b.fromPort)
          ("unknown output " ++ b.fromNode ++ "." ++ b.fromPort)
        if traitSetCovers source.traits target.traits then .ok ()
        else invalid ("trait set mismatch at " ++ b.toNode ++ "." ++ b.toPort)) = .ok () ↔
      ∃ node cap source, nodeById nodes b.fromNode = some node ∧
        capabilityForNode modules node = .ok cap ∧ port cap.outputs b.fromPort = some source ∧
        traitSetCovers source.traits target.traits := by
  simp only [bind_eq_ok, orInvalid_eq_ok, require_eq_ok]
  constructor
  · rintro ⟨node, known, cap, found, source, output, covers⟩
    exact ⟨node, cap, source, known, found, output, covers⟩
  · rintro ⟨node, cap, source, known, found, output, covers⟩
    exact ⟨node, known, cap, found, source, output, covers⟩

private theorem source_eq_ok {nodes : List AssemblyNode} {b : Binding} {target : Port} :
    (if b.input ≠ "" then do
        let value ← orInvalid (inputByName inputs b.input) ("unknown run input " ++ b.input)
        let covered := (value.artifact.bind fun r => artifacts.lookup r.id).any
          (hasTraits · target.traits)
        if covered then .ok ()
        else invalid ("trait set mismatch at " ++ b.toNode ++ "." ++ b.toPort)
      else do
        let sourceNode ← orInvalid (nodeById nodes b.fromNode) ("unknown source " ++ b.fromNode)
        let sourceCap ← capabilityForNode modules sourceNode
        let source ← orInvalid (port sourceCap.outputs b.fromPort)
          ("unknown output " ++ b.fromNode ++ "." ++ b.fromPort)
        if traitSetCovers source.traits target.traits then .ok ()
        else invalid ("trait set mismatch at " ++ b.toNode ++ "." ++ b.toPort)) = .ok () ↔
      SourceCovers modules artifacts nodes inputs b target := by
  rw [SourceCovers]
  by_cases external : b.input ≠ ""
  · rw [if_pos external, if_pos external]
    exact external_eq_ok
  · rw [if_neg external, if_neg external]
    exact upstream_eq_ok

theorem validateBinding_eq_ok {nodes : List AssemblyNode} {b : Binding} :
    validateBinding modules artifacts nodes inputs b = .ok () ↔
      ((b.fromNode ≠ "" ∨ b.fromPort ≠ "") ↔ b.input = "") ∧
        BindingTyped modules artifacts nodes inputs b := by
  have sources : ¬((b.fromNode ≠ "" ∨ b.fromPort ≠ "") ↔ b.input ≠ "") ↔
      ((b.fromNode ≠ "" ∨ b.fromPort ≠ "") ↔ b.input = "") := by
    by_cases input : b.input = "" <;> by_cases node : b.fromNode = "" <;> simp [input, node]
  rw [← sources, BindingTyped, validateBinding, bind_eq_ok]
  constructor
  · rintro ⟨node, known, rest⟩
    obtain ⟨cap, found, rest⟩ := bind_eq_ok.mp rest
    obtain ⟨target, input, rest⟩ := bind_eq_ok.mp rest
    obtain ⟨one, rest⟩ := guard_eq_ok.mp rest
    exact ⟨one, node, cap, target, orInvalid_eq_ok.mp known, found, orInvalid_eq_ok.mp input,
      source_eq_ok.mp rest⟩
  · rintro ⟨one, node, cap, target, known, found, input, covers⟩
    exact ⟨node, orInvalid_eq_ok.mpr known, bind_eq_ok.mpr ⟨cap, found, bind_eq_ok.mpr
      ⟨target, orInvalid_eq_ok.mpr input, guard_eq_ok.mpr ⟨one, source_eq_ok.mpr covers⟩⟩⟩⟩

theorem validateCounts_eq_ok {nodeId : String} {ports : List Port} :
    validateCounts d a.bindings nodeId ports = .ok () ↔ ∀ p ∈ ports,
      let count := a.bindings.countP fun b => d.samePort (b.toNode, b.toPort) (nodeId, p.name)
      (p.optional = false → 0 < count) ∧ (p.multiple = false → count ≤ 1) := by
  rw [validateCounts, forM_eq_ok]
  refine forall₂_congr fun p _ => ?_
  simp only [guard_eq_ok]
  cases p.optional <;> cases p.multiple <;> simp [Nat.pos_iff_ne_zero]

private theorem nodeById_mem {nodes : List AssemblyNode} {id : String} {n : AssemblyNode}
    (known : nodeById nodes id = some n) : id ∈ nodes.map (·.id) := by
  have same := List.find?_some known
  exact List.mem_map.mpr ⟨n, List.mem_of_find?_eq_some known, by simpa using same⟩

theorem visitAll_eq_some {roots : List String → List String} (perm : ∀ ids, (roots ids).Perm ids)
    (wired : Wired modules artifacts a inputs) :
    (∃ st, visitAll (edges a.bindings) (a.nodes.length + 1) (roots (a.nodes.map (·.id))) = some st) ↔
      Acyclic a := by
  have edge : ∀ {x y : String}, y ∈ edges a.bindings x ↔
      ∃ b ∈ a.bindings, b.input = "" ∧ b.fromNode = x ∧ b.toNode = y := by
    intro x y
    simp only [edges, List.mem_map, List.mem_filter, Bool.and_eq_true, beq_iff_eq]
    exact ⟨fun ⟨b, ⟨member, upstream, source⟩, target⟩ => ⟨b, member, upstream, source, target⟩,
      fun ⟨b, member, upstream, source, target⟩ => ⟨b, ⟨member, upstream, source⟩, target⟩⟩
  constructor
  · rintro ⟨st, accepted⟩
    obtain ⟨rank, up⟩ := visitAll_rank accepted
    refine ⟨rank, fun b member upstream => ?_⟩
    obtain ⟨-, _, _, target, -, -, -, covers⟩ := wired b member
    rw [SourceCovers, if_neg (not_not.mpr upstream)] at covers
    obtain ⟨_, _, _, known, -⟩ := covers
    exact up b.fromNode ((perm _).mem_iff.mpr (nodeById_mem known)) b.toNode
      (edge.mpr ⟨b, member, upstream, rfl, rfl⟩)
  · rintro ⟨rank, up⟩
    have fuel : a.nodes.length = (a.nodes.map (·.id)).length := (List.length_map _).symm
    rw [fuel]
    refine @visitAll_accepts _ _ _ _ _ rank (fun x _ y out => ?_) (perm _).subset
    obtain ⟨b, member, upstream, rfl, rfl⟩ := edge.mp out
    obtain ⟨-, _, _, _, known, -⟩ := wired b member
    exact ⟨nodeById_mem known, up b member upstream⟩

theorem wiring_eq_ok {roots : List String → List String} (perm : ∀ ids, (roots ids).Perm ids)
    (sound : Sound modules a) :
    wiring d roots modules artifacts a inputs = .ok () ↔
      Wired modules artifacts a inputs ∧ Counted modules a d.samePort ∧ Acyclic a := by
  rw [wiring, bind_unit_eq_ok, bind_unit_eq_ok, forM_eq_ok, forM_eq_ok]
  simp only [validateBinding_eq_ok]
  refine and_congr_right fun wired => and_congr (forall₂_congr fun n member => ?_) ?_
  · rw [bind_eq_ok]
    obtain ⟨cap, found, -⟩ := sound.typed n member
    constructor
    · rintro ⟨cap', found', counted⟩ cap'' found''
      obtain rfl : cap' = cap'' := Except.ok.inj (found'.symm.trans found'')
      exact validateCounts_eq_ok.mp counted
    · exact fun counted => ⟨cap, found, validateCounts_eq_ok.mpr (counted cap found)⟩
  · rw [← visitAll_eq_some perm wired]
    cases visitAll (edges a.bindings) (a.nodes.length + 1) (roots (a.nodes.map (·.id))) with
    | none => exact ⟨fun failed => (nomatch failed), fun ⟨_, absent⟩ => (nomatch absent)⟩
    | some st => exact ⟨fun _ => ⟨st, rfl⟩, fun _ => rfl⟩

/-- A validator's answer, whatever order the last loop takes. -/
theorem classed_validateAssembly {roots : List String → List String}
    (perm : ∀ ids, (roots ids).Perm ids) :
    classed (validateAssembly d roots modules artifacts a inputs) =
      verdict modules artifacts a inputs d := by
  rw [validateAssembly_parts, verdict]
  cases shaped : shape d modules a with
  | error e =>
      have unsound : ¬(Sound modules a ∧ (d.checksTraitRefs → NoEmptyRefs modules a)) := by
        rw [← shape_eq_ok, shaped]
        exact fun failed => nomatch failed
      rw [if_neg unsound]
      exact congrArg Except.error (onlyInvalid_shape e shaped)
  | ok =>
      have sound := shape_eq_ok.mp shaped
      rw [if_pos sound]
      cases checked : validateInputs d artifacts [] inputs with
      | error e =>
          have unstocked : ¬Stocked artifacts inputs := by
            rw [← @validateInputs_stocked d, checked]
            exact fun failed => nomatch failed
          rw [← @validateInputs_firstUnknown d, checked]
          rcases validateInputs_class checked with absent | bad
          · rw [classed_error, absent, if_pos rfl]
            exact congrArg Except.error absent
          · rw [classed_error, bad, if_neg (fun same => (nomatch same)),
              if_neg (fun all => unstocked all.1)]
            exact congrArg Except.error bad
      | ok =>
          have stocked := validateInputs_stocked.mp checked
          rw [← @validateInputs_firstUnknown d, checked, if_neg (fun same => (nomatch same))]
          have passed := @wiring_eq_ok d modules artifacts a inputs roots perm sound.1
          cases wired : wiring d roots modules artifacts a inputs with
          | ok =>
              rw [if_pos ⟨stocked, passed.mp wired⟩]
              rfl
          | error e =>
              have broken : ¬(Stocked artifacts inputs ∧ Wired modules artifacts a inputs ∧
                  Counted modules a d.samePort ∧ Acyclic a) := by
                rintro ⟨-, all⟩
                rw [passed.mpr all] at wired
                cases wired
              rw [if_neg broken]
              exact congrArg Except.error (onlyInvalid_wiring roots e wired)

end Parts

end Substrate.Protocol.Verdicts
