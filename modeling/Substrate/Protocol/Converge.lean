/- ID: Substrate/Protocol/Converge
   digest: A run that is left alone and whose work succeeds never stalls before its terminal node commits. -/

import Substrate.Protocol.Single
import Substrate.Protocol.Typing

set_option autoImplicit false
set_option relaxedAutoImplicit false

namespace Substrate.Protocol.Converge

open Substrate.Kernel.Wire
open Substrate.Kernel.Hashing
open Substrate.Kernel.Memory
open Substrate.Kernel.Registry
open Substrate.Kernel.Assembly (nodeById)
open Substrate.Kernel.Schedule
open Substrate.Kernel.Runs
open Substrate.Kernel.Work
open Substrate.Kernel.Api
open Substrate.Protocol.Atoms
open Substrate.Protocol.Slots
open Substrate.Protocol.Delivery
open Substrate.Protocol.Identity
open Substrate.Protocol.Exclusive
open Substrate.Protocol.Serial (expireAct)
open Substrate.Protocol.Refine
open Substrate.Protocol.Steady
open Substrate.Protocol.Single
open Substrate.Protocol.Frozen (provides readyUnit_caps)
open Substrate.Protocol.Typing (validateOutput_ok nodeById_eq_some)
open Substrate.Protocol.Validation
open Substrate.Library.Checks
open Substrate.Library.FiniteMap
open Substrate.Library.Topological (exists_minimal)
open Substrate.Library.Transition

section Runs

variable [Sha256]

/-- The first output of a name, when it carries an artifact. -/
def outputOf (outputs : List NamedArtifact) (portName : String) : Option ArtifactRef :=
  (outputs.find? (·.name == portName)).bind (·.artifact)

/-- Every declared output of a node's derivation carries an artifact. -/
def Supplied (modules : List ModuleSlot) (node : AssemblyNode) (d : Derivation) : Prop :=
  ∀ cap, capabilityForNode modules node = .ok cap → ∀ p ∈ cap.outputs,
    ∃ r, outputOf d.outputs p.name = some r

/-- A settling run of a validated assembly whose done units are committed ones, with every declared
output, one step each. -/
structure Smooth (modules : List ModuleSlot) (runId : String) (f : Flow) : Prop where
  settling : Settling modules runId f
  valid : ∃ artifacts inputs, Validated modules artifacts f.slot.run.assembly inputs
  inputs : ∀ b ∈ f.slot.run.assembly.bindings, b.input ≠ "" →
    ∃ r, resolveBinding f.slot b = some r
  done : ∀ key ∈ f.slot.doneUnits, ∃ d ∈ f.derived, ∃ node inputs, node.id = d.nodeId ∧
    currentUnit modules f.slot node = some (inputs, key)
  outputs : ∀ d ∈ f.derived, ∀ node ∈ f.slot.run.assembly.nodes, node.id = d.nodeId →
    Supplied modules node d
  steps : f.slot.run.steps.toNat = f.derived.length

/-- A node has a derivation. -/
def Committed (f : Flow) (node : AssemblyNode) : Prop := ∃ d ∈ f.derived, d.nodeId = node.id

variable {modules : List ModuleSlot} {runId : String} {f : Flow}

omit [Sha256] in
theorem upstream_delivers {artifacts : KeyMap String Artifact} {inputs : List NamedArtifact}
    {slot : RunSlot} (valid : Validated modules artifacts slot.run.assembly inputs) {b : Binding}
    (member : b ∈ slot.run.assembly.bindings) (upstream : b.input = "")
    (committed : ∀ node ∈ slot.run.assembly.nodes, node.id = b.fromNode →
      ∃ d, slot.latest.lookup node.id = some d ∧ Supplied modules node d) :
    ∃ r, resolveBinding slot b = some r := by
  obtain ⟨_, _, target, -, -, -, covers⟩ := valid.bound b member
  unfold SourceCovers at covers
  rw [if_neg (by simpa using upstream)] at covers
  obtain ⟨source, cap, out, known, resolved, declared, -⟩ := covers
  obtain ⟨here, named⟩ := nodeById_eq_some known
  obtain ⟨d, latest, supplied⟩ := committed source here named
  obtain ⟨listed, portName⟩ := port_spec declared
  obtain ⟨r, carried⟩ := supplied cap resolved out listed
  refine ⟨r, ?_⟩
  rw [resolveBinding, if_neg (by simpa using upstream), ← named, latest, Option.bind_some, ← portName]
  exact carried

theorem unit_of_deliveries {slot : RunSlot} {node : AssemblyNode} {cap : Capability}
    (resolved : capabilityForNode modules node = .ok cap)
    (delivers : ∀ b ∈ bindingsOf slot.run.assembly node.id, ∃ r, resolveBinding slot b = some r) :
    ∃ unit, currentUnit modules slot node = some unit := by
  have resolves : ∃ given, resolveInputs slot node = some given := by
    refine mapM_isSome.mpr fun b here => ?_
    obtain ⟨r, delivered⟩ := delivers b here
    exact ⟨_, by rw [delivered]; rfl⟩
  obtain ⟨given, resolves⟩ := resolves
  obtain ⟨key, keyed⟩ := workUnitKey_some resolves cap (effectiveFiring slot node cap)
  refine ⟨(given, key), ?_⟩
  simp only [currentUnit, resolves, Option.bind_some, resolved, Except.toOption, keyed, Option.map_some]

theorem pending_unit (smooth : Smooth modules runId f)
    (open' : ∃ node ∈ f.slot.run.assembly.nodes, ¬ Committed f node) :
    ∃ node ∈ f.slot.run.assembly.nodes, ∃ inputs key,
      currentUnit modules f.slot node = some (inputs, key) ∧ key ∉ f.slot.doneUnits := by
  obtain ⟨artifacts, given, valid⟩ := smooth.valid
  obtain ⟨rank, up⟩ := valid.acyclic
  have goesUp : ∀ {x y : AssemblyNode}, x ∈ f.slot.run.assembly.nodes →
      (∃ b ∈ f.slot.run.assembly.bindings, b.input = "" ∧ b.fromNode = x.id ∧ b.toNode = y.id) →
      rank x.id < rank y.id := by
    rintro x y - ⟨b, bound, upstream, source, target⟩
    rw [← source, ← target]
    exact up b bound upstream
  obtain ⟨node, member, free, least⟩ := exists_minimal open' _ goesUp
  have delivers : ∀ b ∈ bindingsOf f.slot.run.assembly node.id,
      ∃ r, resolveBinding f.slot b = some r := by
    intro b here
    obtain ⟨bound, target⟩ := List.mem_filter.mp here
    have toNode : b.toNode = node.id := by simpa using target
    by_cases external : b.input = ""
    · refine upstream_delivers valid bound external fun source there id => ?_
      have committed : Committed f source := by
        by_contra waiting
        exact least source there ⟨b, bound, external, id.symm, toNode⟩ waiting
      obtain ⟨d, made, same⟩ := committed
      exact ⟨d, (smooth.settling.latest source.id d).mpr ⟨made, same⟩,
        smooth.outputs d made source there same.symm⟩
    · exact smooth.inputs b bound external
  obtain ⟨cap, resolved, -⟩ := valid.typed node member
  obtain ⟨⟨inputs, key⟩, unit⟩ := unit_of_deliveries resolved delivers
  refine ⟨node, member, inputs, key, unit, fun spent => free ?_⟩
  obtain ⟨d, there, node', inputs', id, unit'⟩ := smooth.done key spent
  exact ⟨d, there, id.symm.trans (currentUnit_node unit unit').symm⟩

theorem not_idle (smooth : Smooth modules runId f)
    (open' : ∃ node ∈ f.slot.run.assembly.nodes, ¬ Committed f node) :
    (∃ node ∈ f.slot.run.assembly.nodes, (readyUnit modules f.slot node).isSome) ∨
      size f.slot.claimed ≠ 0 := by
  obtain ⟨node, member, inputs, key, unit, pending⟩ := pending_unit smooth open'
  by_cases claimed : size f.slot.claimed = 0
  · refine .inl ⟨node, member, ?_⟩
    have free : unitIsClaimed f.slot key = false := by
      rw [unitIsClaimed_eq_false]
      intro id c held
      rw [size_eq_zero.mp claimed id] at held
      cases held
    rw [readyUnit_eq_some.mpr ⟨unit, pending, free⟩]
    rfl
  · exact .inr claimed

theorem isIdle_eq_false (smooth : Smooth modules runId f)
    (open' : ∃ node ∈ f.slot.run.assembly.nodes, ¬ Committed f node) :
    isIdle modules f.slot = false := by
  rcases not_idle smooth open' with ⟨node, member, ready⟩ | busy
  · have any : assemblyAnyReady modules f.slot = true := List.any_eq_true.mpr ⟨node, member, ready⟩
    simp [isIdle, any]
  · simp [isIdle, busy]

/-- The acts that use up no attempts and whose commits supply every declared output. -/
def Fruitful (modules : List ModuleSlot) (maxAttempts : UInt32) : SlotAct → Prop
  | .expire _ c => c.attempt < maxAttempts
  | .fail _ _ _ terminal => terminal = false
  | .commit c outputs => ∀ cap, capabilityForWork modules c.work = .ok cap → ∀ p ∈ cap.outputs,
      ∃ o ∈ outputs, o.name = p.name
  | _ => True

/-- The fruitful acts of a run that nobody injects into or cancels. -/
structure Gentle (modules : List ModuleSlot) (maxAttempts : UInt32) (a : SlotAct) : Prop where
  fruitful : Fruitful modules maxAttempts a
  noInject : ∀ input, a ≠ .inject input
  noCancel : a ≠ .cancel

omit [Sha256] in
theorem outputOf_supplied {artifacts : KeyMap String Artifact} {cap : Capability}
    {outputs : List NamedArtifact} (checked : validateOutputs artifacts cap outputs = .ok ())
    {name : String} (supplied : ∃ o ∈ outputs, o.name = name) :
    ∃ r, outputOf outputs name = some r := by
  simp only [validateOutputs, bind_eq_ok] at checked
  obtain ⟨-, -, accepted⟩ := checked
  obtain ⟨o, listed, named⟩ := supplied
  cases search : outputs.find? (·.name == name) with
  | none => exact absurd (List.find?_eq_none.mp search o listed) (by simp [named])
  | some first =>
      obtain ⟨-, r, -, -, carried, -⟩ :=
        validateOutput_ok (forM_eq_ok.mp accepted first (List.mem_of_find?_eq_some search))
      exact ⟨r, by rw [outputOf, search, Option.bind_some, carried]⟩

theorem doneUnits_fruitful {a : SlotAct} (fruitful : Fruitful modules f.slot.maxAttempts a)
    (noCommit : ∀ c outputs, a ≠ .commit c outputs) :
    (a.apply modules f.slot).doneUnits = f.slot.doneUnits := by
  cases a with
  | expire id c =>
      have spare : ¬ f.slot.maxAttempts ≤ c.attempt := UInt32.not_le.mpr fruitful
      exact if_neg spare
  | fail id c reason terminal =>
      obtain rfl : terminal = false := fruitful
      rfl
  | commit c outputs => exact absurd rfl (noCommit c outputs)
  | renew id leaseUntil =>
      simp only [SlotAct.apply, renewClaim]
      split <;> rfl
  | _ => rfl

private theorem external_stays {a : SlotAct} (noInject : ∀ input, a ≠ .inject input)
    {b : Binding} (external : b.input ≠ "") :
    resolveBinding (a.apply modules f.slot) b = resolveBinding f.slot b := by
  rw [resolveBinding, resolveBinding, if_pos external, if_pos external, inputs_apply noInject]

variable {a : SlotAct}

theorem smooth_apply (smooth : Smooth modules runId f)
    (guard : (flowMachine modules runId).enabled f a) (gentle : Gentle modules f.slot.maxAttempts a) :
    Smooth modules runId ((flowMachine modules runId).apply f a) := by
  have noInject := gentle.noInject
  have settling := settling_apply smooth.settling guard noInject
  have assembly := (apply_terms modules f.slot a).assembly
  have stays : ∀ {node unit}, currentUnit modules f.slot node = some unit →
      currentUnit modules (a.apply modules f.slot) node = some unit :=
    fun there => smooth.settling.unit_stays guard noInject there
  have valid : ∃ artifacts inputs,
      Validated modules artifacts (a.apply modules f.slot).run.assembly inputs := by
    rw [assembly]
    exact smooth.valid
  have inputs : ∀ b ∈ (a.apply modules f.slot).run.assembly.bindings, b.input ≠ "" →
      ∃ r, resolveBinding (a.apply modules f.slot) b = some r := by
    intro b member external
    rw [external_stays noInject external]
    exact smooth.inputs b (assembly ▸ member) external
  by_cases commits : ∃ c outputs, a = .commit c outputs
  · obtain ⟨c, outputs, rfl⟩ := commits
    obtain ⟨-, artifacts, -, held, within, cap, resolved, checked⟩ := guard
    refine ⟨settling, valid, inputs, ?_, ?_, ?_⟩
    · intro key spent
      change key ∈ ((SlotAct.commit c outputs).apply modules f.slot).doneUnits at spent
      rw [SlotAct.apply, settleSlot_doneUnits] at spent
      rcases Finset.mem_insert.mp spent with rfl | before
      · exact ⟨_, List.mem_append_right _ List.mem_cons_self, nodeOfWork c.work, c.work.inputs, rfl,
          stays (smooth.settling.claimed _ c held).2⟩
      · obtain ⟨d, member, node, given, id, unit⟩ := smooth.done key before
        exact ⟨d, List.mem_append_left _ member, node, given, id, stays unit⟩
    · intro d member node here id cap' resolved'
      have here' : node ∈ f.slot.run.assembly.nodes := assembly ▸ here
      rcases List.mem_append.mp member with old | new
      · exact smooth.outputs d old node here' id cap' resolved'
      · obtain rfl := List.mem_singleton.mp new
        obtain rfl : node = nodeOfWork c.work := List.inj_on_of_nodup_map smooth.settling.shape.ids
          here' (smooth.settling.shape.claims _ c held).node id
        obtain rfl : cap = cap' := Except.ok.inj (resolved.symm.trans resolved')
        exact fun p listed => outputOf_supplied checked (gentle.fruitful cap resolved p listed)
    · show ((SlotAct.commit c outputs).apply modules f.slot).run.steps.toNat =
        (f.derived ++ [derivationOf c.work outputs]).length
      rw [steps_commit c outputs within, smooth.steps, List.length_append, List.length_singleton]
  · push Not at commits
    have steps := (apply_books modules f.slot commits).steps
    have derived : f.derived ++ a.derivation = f.derived := by
      rw [derivation_eq_nil commits, List.append_nil]
    have done := doneUnits_fruitful gentle.fruitful commits
    refine ⟨settling, valid, inputs, ?_, ?_, ?_⟩
    · intro key spent
      obtain ⟨d, member, node, given, id, unit⟩ := smooth.done key (done ▸ spent)
      exact ⟨d, List.mem_append_left _ member, node, given, id, stays unit⟩
    · intro d member node here
      change d ∈ f.derived ++ a.derivation at member
      rw [derived] at member
      exact smooth.outputs d member node (assembly ▸ here)
    · show (a.apply modules f.slot).run.steps.toNat = (f.derived ++ a.derivation).length
      rw [steps, derived]
      exact smooth.steps

/-- The terminal node has a derivation. -/
def Answered (f : Flow) : Prop :=
  ∃ terminal, f.slot.run.assembly.terminal = some terminal ∧
    ∃ d ∈ f.derived, d.nodeId = terminal.node

/-- A smooth run with enough steps that is RUNNING until its terminal node commits and COMPLETED
from then on. -/
structure Healthy (modules : List ModuleSlot) (runId : String) (f : Flow) : Prop where
  smooth : Smooth modules runId f
  scope : isOpenClosure f.slot = false
  room : f.slot.run.assembly.nodes.length ≤ f.slot.run.maxSteps.toNat
  verdict : f.slot.run.state = .running ∧ ¬ Answered f ∨
    f.slot.run.state = .completed ∧ Answered f

theorem terminal_node (smooth : Smooth modules runId f) :
    ∃ terminal node cap p, f.slot.run.assembly.terminal = some terminal ∧
      node ∈ f.slot.run.assembly.nodes ∧ node.id = terminal.node ∧
      capabilityForNode modules node = .ok cap ∧ p ∈ cap.outputs ∧ p.name = terminal.port := by
  obtain ⟨artifacts, inputs, valid⟩ := smooth.valid
  obtain ⟨terminal, node, cap, p, declared, known, resolved, output, -⟩ := valid.terminal
  obtain ⟨member, id⟩ := nodeById_eq_some known
  obtain ⟨listed, name⟩ := port_spec output
  exact ⟨terminal, node, cap, p, declared, member, id, resolved, listed, name⟩

theorem open_node (smooth : Smooth modules runId f) (unanswered : ¬ Answered f) :
    ∃ node ∈ f.slot.run.assembly.nodes, ¬ Committed f node := by
  obtain ⟨terminal, node, -, -, declared, member, id, -⟩ := terminal_node smooth
  refine ⟨node, member, ?_⟩
  rintro ⟨d, there, same⟩
  exact unanswered ⟨terminal, declared, d, there, same.trans id⟩

theorem few_derivations (smooth : Smooth modules runId f) (unanswered : ¬ Answered f) :
    f.derived.length < f.slot.run.assembly.nodes.length := by
  obtain ⟨node, member, free⟩ := open_node smooth unanswered
  have distinct : (node.id :: f.derived.map (·.nodeId)).Nodup := by
    refine List.nodup_cons.mpr ⟨fun listed => free ?_, smooth.settling.once⟩
    obtain ⟨d, there, same⟩ := List.mem_map.mp listed
    exact ⟨d, there, same⟩
  have inside : node.id :: f.derived.map (·.nodeId) ⊆ f.slot.run.assembly.nodes.map (·.id) := by
    intro id listed
    rcases List.mem_cons.mp listed with rfl | old
    · exact List.mem_map_of_mem member
    · obtain ⟨d, there, rfl⟩ := List.mem_map.mp old
      obtain ⟨source, here, same, -⟩ := smooth.settling.committed d there
      exact List.mem_map.mpr ⟨source, here, same⟩
  simpa [Nat.succ_le_iff] using (distinct.subperm inside).length_le

omit [Sha256] in
theorem terminalAnswer_eq {assembly : Assembly} {terminal : NodeOutput} (d : Derivation)
    (declared : assembly.terminal = some terminal) :
    terminalAnswer assembly d =
      if d.nodeId = terminal.node then outputOf d.outputs terminal.port else none := by
  rw [terminalAnswer, declared, Option.filter_some]
  by_cases last : d.nodeId = terminal.node
  · rw [if_pos last, if_pos (beq_iff_eq.mpr last.symm), Option.bind_some]
    rfl
  · rw [if_neg last, if_neg (by simpa using Ne.symm last), Option.bind_none]

omit [Sha256] in
private theorem advanceRun_completed {slot : RunSlot} {d : Derivation} {terminal : NodeOutput}
    (scope : isOpenClosure slot = false) (declared : slot.run.assembly.terminal = some terminal)
    (last : d.nodeId = terminal.node) (delivers : ∃ r, outputOf d.outputs terminal.port = some r) :
    (advanceRun slot d).state = .completed := by
  obtain ⟨r, delivers⟩ := delivers
  simp [advanceRun, terminalAnswer_eq d declared, last, delivers, scope]

omit [Sha256] in
private theorem advanceRun_state {slot : RunSlot} {d : Derivation} {terminal : NodeOutput}
    (declared : slot.run.assembly.terminal = some terminal) (other : d.nodeId ≠ terminal.node)
    (spare : ¬ slot.run.maxSteps ≤ slot.run.steps + 1) :
    (advanceRun slot d).state = slot.run.state := by
  simp [advanceRun, terminalAnswer_eq d declared, other, spare]

private theorem commit_state {c : ClaimedSlot} {outputs : List NamedArtifact}
    (busy : (advanceRun f.slot (derivationOf c.work outputs)).state = .running →
      isIdle modules ((SlotAct.commit c outputs).apply modules f.slot) = false) :
    ((SlotAct.commit c outputs).apply modules f.slot).run.state =
      (advanceRun f.slot (derivationOf c.work outputs)).state := by
  simp only [SlotAct.apply, settleSlot] at busy ⊢
  split_ifs with idle
  · rw [if_pos idle] at busy
    have lively := busy idle.1
    change isIdle modules (commitSlot f.slot c (derivationOf c.work outputs)) = false at lively
    rw [lively] at idle
    cases idle.2
  · rfl

private theorem answered_commit {c : ClaimedSlot} {outputs : List NamedArtifact}
    {terminal : NodeOutput} (declared : f.slot.run.assembly.terminal = some terminal)
    (unanswered : ¬ Answered f) :
    Answered ((flowMachine modules runId).apply f (.commit c outputs)) ↔
      c.work.nodeId = terminal.node := by
  have assembly := (apply_terms modules f.slot (.commit c outputs)).assembly
  constructor
  · rintro ⟨terminal', declared', d, member, same⟩
    change ((SlotAct.commit c outputs).apply modules f.slot).run.assembly.terminal = _ at declared'
    rw [assembly, declared] at declared'
    obtain rfl := Option.some.inj declared'
    rcases List.mem_append.mp member with old | new
    · exact absurd ⟨terminal, declared, d, old, same⟩ unanswered
    · obtain rfl := List.mem_singleton.mp new
      exact same
  · intro last
    refine ⟨terminal, ?_, derivationOf c.work outputs, List.mem_append_right _ List.mem_cons_self, last⟩
    show ((SlotAct.commit c outputs).apply modules f.slot).run.assembly.terminal = _
    rw [assembly, declared]

private theorem verdict_commit (healthy : Healthy modules runId f) {c : ClaimedSlot}
    {outputs : List NamedArtifact} (running : f.slot.run.state = .running)
    (unanswered : ¬ Answered f)
    (smooth : Smooth modules runId ((flowMachine modules runId).apply f (.commit c outputs))) :
    let g := (flowMachine modules runId).apply f (.commit c outputs)
    g.slot.run.state = .running ∧ ¬ Answered g ∨ g.slot.run.state = .completed ∧ Answered g := by
  intro g
  obtain ⟨terminal, node, cap, p, declared, member, id, resolved, listed, name⟩ :=
    terminal_node healthy.smooth
  have assembly : g.slot.run.assembly = f.slot.run.assembly :=
    (apply_terms modules f.slot (.commit c outputs)).assembly
  have decided : Answered g ↔ c.work.nodeId = terminal.node := answered_commit declared unanswered
  by_cases last : c.work.nodeId = terminal.node
  · right
    have delivers := smooth.outputs _ (List.mem_append_right _ List.mem_cons_self) node
      (assembly ▸ member) (id.trans last.symm) cap resolved p listed
    rw [name] at delivers
    have completed := advanceRun_completed healthy.scope declared last delivers
    refine ⟨(commit_state fun still => ?_).trans completed, decided.mpr last⟩
    rw [completed] at still
    cases still
  · left
    have unanswered' : ¬ Answered g := fun h => last (decided.mp h)
    have room : f.derived.length + 1 < f.slot.run.maxSteps.toNat := by
      have few := few_derivations smooth unanswered'
      have grown : g.derived.length = f.derived.length + 1 := List.length_append
      rw [grown, assembly] at few
      exact lt_of_lt_of_le few healthy.room
    have spare : ¬ f.slot.run.maxSteps ≤ f.slot.run.steps + 1 := by
      have top := f.slot.run.maxSteps.toNat_lt
      rw [UInt64.le_iff_toNat_le, UInt64.toNat_add, healthy.smooth.steps]
      have small : (f.derived.length + (1 : UInt64).toNat) % 2 ^ 64 = f.derived.length + 1 :=
        Nat.mod_eq_of_lt (by simpa using by omega)
      omega
    have same := advanceRun_state (d := derivationOf c.work outputs) declared last spare
    refine ⟨?_, unanswered'⟩
    rw [← running, ← same]
    exact commit_state fun _ => isIdle_eq_false smooth (open_node smooth unanswered')

theorem healthy_apply (healthy : Healthy modules runId f)
    (guard : (flowMachine modules runId).enabled f a) (gentle : Gentle modules f.slot.maxAttempts a) :
    Healthy modules runId ((flowMachine modules runId).apply f a) := by
  have smooth := smooth_apply healthy.smooth guard gentle
  have terms := apply_terms modules f.slot a
  have unanswered : ¬ Answered f := by
    rcases healthy.verdict with ⟨-, waiting⟩ | ⟨completed, -⟩
    · exact waiting
    · rw [guard.1] at completed
      cases completed
  refine ⟨smooth, (isOpenClosure_congr terms.policy).trans healthy.scope, ?_, ?_⟩
  · show (a.apply modules f.slot).run.assembly.nodes.length ≤
      (a.apply modules f.slot).run.maxSteps.toNat
    rw [terms.assembly, terms.maxSteps]
    exact healthy.room
  · by_cases commits : ∃ c outputs, a = .commit c outputs
    · obtain ⟨c, outputs, rfl⟩ := commits
      exact verdict_commit healthy guard.1 unanswered smooth
    · push Not at commits
      left
      refine ⟨?_, ?_⟩
      · cases a with
        | commit c outputs => exact absurd rfl (commits c outputs)
        | cancel => exact absurd rfl gentle.noCancel
        | stall =>
            obtain ⟨-, artifacts, -, idle⟩ := guard
            have busy := isIdle_eq_false healthy.smooth (open_node healthy.smooth unanswered)
            rw [SlotAct.enabled, busy] at idle
            cases idle
        | renew id leaseUntil =>
            show (renewClaim leaseUntil f.slot id).run.state = .running
            unfold renewClaim
            split <;> exact guard.1
        | _ => exact guard.1
      · rintro ⟨terminal, declared, d, member, same⟩
        change d ∈ f.derived ++ a.derivation at member
        rw [derivation_eq_nil commits, List.append_nil] at member
        exact unanswered ⟨terminal, terms.assembly ▸ declared, d, member, same⟩

theorem smooth_fresh {artifacts : KeyMap String Artifact} {req : RunRequest} {assembly : Assembly}
    {maxSteps : UInt64} (valid : Validated modules artifacts assembly req.inputs) :
    Smooth modules req.id { slot := freshSlot req assembly maxSteps } := by
  refine ⟨settling_fresh valid.ids, ⟨artifacts, req.inputs, valid⟩, ?_, ?_, ?_, rfl⟩
  · intro b member external
    obtain ⟨_, _, target, -, -, -, covers⟩ := valid.bound b member
    unfold SourceCovers at covers
    rw [if_pos external] at covers
    obtain ⟨input, r, artifact, found, carried, -⟩ := covers
    change req.inputs.find? (·.name == b.input) = some input at found
    refine ⟨r, ?_⟩
    show resolveBinding (freshSlot req assembly maxSteps) b = some r
    rw [resolveBinding, if_pos external]
    show (req.inputs.find? (·.name == b.input)).bind (·.artifact) = some r
    rw [found, Option.bind_some, carried]
  · intro key spent
    simp [freshSlot] at spent
  · intro d member
    cases member

theorem healthy_path {slot : RunSlot} {g : Flow} {acts : List SlotAct} (terms : SameTerms slot f.slot)
    (healthy : Healthy modules runId f) (path : Path (flowMachine modules runId) f acts g)
    (gentle : ∀ act ∈ acts, Gentle modules slot.maxAttempts act) : Healthy modules runId g := by
  have both := path.invariant (P := fun g => Healthy modules runId g ∧ SameTerms slot g.slot)
    (Gentle modules slot.maxAttempts) ?_ gentle ⟨healthy, terms⟩
  · exact both.1
  · rintro g act soft guard ⟨healthy, terms⟩
    refine ⟨healthy_apply healthy guard ?_, terms.trans (apply_terms modules g.slot act)⟩
    rw [terms.maxAttempts]
    exact soft

variable [Prost]

/-- A call that spares a run's modules, uses up no unit's attempts and, when it commits, supplies
every declared output. -/
structure FruitfulCall (s : State) (runId : String) (slot : RunSlot) (call : Call) : Prop where
  spares : SparesCall slot.run.assembly.nodes call
  expiries : scheduledRun call = some runId → ∀ e ∈ expiring s call, e.2.attempt < slot.maxAttempts
  retryable : ∀ req, call.op = .failWork req → req.runId = runId → req.terminal = false ∧
    ∀ now c, s.runs.lookup runId = some now → now.claimed.lookup req.workId = some c →
      c.attempt < slot.maxAttempts
  supplies : ∀ submitted, call.op = .commit submitted → submitted.runId = runId →
    ∀ now c cap, s.runs.lookup runId = some now → now.claimed.lookup submitted.workId = some c →
      capabilityForWork s.modules c.work = .ok cap → ∀ p ∈ cap.outputs,
        ∃ o ∈ submitted.outputs, o.name = p.name

/-- A fruitful call that neither injects into a run nor cancels it. -/
structure Undisturbed (s : State) (runId : String) (slot : RunSlot) (call : Call) : Prop where
  fruitful : FruitfulCall s runId slot call
  noInject : ∀ req, call.op = .injectInput req → req.runId ≠ runId
  noCancel : ∀ ref, call.op = .cancelRun ref → ref.id ≠ runId

omit [Prost] in
theorem fruitful_of_allowed {s : State} {slot : RunSlot} {call : Call}
    (fruitful : FruitfulCall s runId slot call) (tracks : Tracks modules runId s f)
    (terms : SameTerms slot f.slot) (wf : WellFormed s)
    (allowed : Allowed s call (.acted runId a)) : Fruitful modules slot.maxAttempts a := by
  rcases allowed_acted allowed with ⟨req, input, -, -, -, rfl⟩ | ⟨ref, -, -, rfl⟩ | ⟨here, acts⟩
  · trivial
  · trivial
  rcases actAllowed_cases acts with ⟨e, expired, rfl⟩ | ⟨req, op, ⟨work, rfl⟩ | rfl⟩ |
    ⟨req, id, leaseUntil, op, -, rfl⟩ | ⟨req, op, rfl | ⟨now, c, reason, found, held, rfl⟩⟩ |
    ⟨submitted, now, c, op, found, held, rfl⟩
  · exact fruitful.expiries here e expired
  · trivial
  · trivial
  · trivial
  · trivial
  · have own : req.runId = runId := by simpa [scheduledRun, op] using here
    rw [own] at found
    obtain ⟨soft, spare⟩ := fruitful.retryable req op own
    obtain rfl := Option.some.inj (tracks.found.symm.trans found)
    have below : ¬ f.slot.maxAttempts ≤ c.attempt := by
      rw [terms.maxAttempts]
      exact UInt32.not_le.mpr (spare _ c found held)
    simp [Fruitful, soft, below]
  · have own : submitted.runId = runId := by simpa [scheduledRun, op] using here
    rw [own] at found
    obtain rfl := Option.some.inj (tracks.found.symm.trans found)
    intro cap resolved
    have node := ((wf runId f.slot found).claims _ c held).node
    exact fruitful.supplies submitted op own _ c cap found held ((tracks.caps _ node).trans resolved)

omit [Prost] in
theorem gentle_of_allowed {s : State} {slot : RunSlot} {call : Call}
    (undisturbed : Undisturbed s runId slot call) (tracks : Tracks modules runId s f)
    (terms : SameTerms slot f.slot) (wf : WellFormed s)
    (allowed : Allowed s call (.acted runId a)) : Gentle modules slot.maxAttempts a := by
  refine ⟨fruitful_of_allowed undisturbed.fruitful tracks terms wf allowed, ?_, ?_⟩
  · rintro input rfl
    rcases allowed_acted allowed with ⟨req, -, op, here, -⟩ | ⟨ref, -, -, same⟩ | ⟨-, acts⟩
    · exact undisturbed.noInject req op here
    · cases same
    · simpa [expireAct] using actAllowed_cases acts
  · rintro rfl
    rcases allowed_acted allowed with ⟨req, input, -, -, -, same⟩ | ⟨ref, op, here, -⟩ | ⟨-, acts⟩
    · cases same
    · exact undisturbed.noCancel ref op here
    · simpa [expireAct] using actAllowed_cases acts

/-- A run with the first closure and a step for each node, disturbed by no call, is never STALLED
or FAILED, has a unit READY or CLAIMED while it is RUNNING, and is COMPLETED exactly when its
terminal node has committed. -/
theorem undisturbed_converges (policy : ArtifactStorePolicy) {s : State} {start : Call}
    {req : RunRequest} {slot : RunSlot} (reached : Reachable policy s)
    (started : Started policy s start req slot) (scope : isOpenClosure slot = false)
    (representable : slot.run.assembly.nodes.length < 2 ^ 64)
    (limit : (req.limits.getD {}).maxSteps = 0 ∨
      slot.run.assembly.nodes.length ≤ (req.limits.getD {}).maxSteps.toNat)
    {calls : List Call}
    (undisturbed : ∀ before call after, calls = before ++ call :: after →
      Undisturbed (exec policy (step policy s start).1 before) req.id slot call) :
    let t := exec policy (step policy s start).1 calls
    ∃ now, t.runs.lookup req.id = some now ∧ now.run.state ≠ .stalled ∧ now.run.state ≠ .failed ∧
      (now.run.state = .running →
        (∃ node ∈ now.run.assembly.nodes, (readyUnit t.modules now node).isSome) ∨
          size now.claimed ≠ 0) ∧
      (now.run.state = .completed ↔ ∃ terminal, now.run.assembly.terminal = some terminal ∧
        ∃ d ∈ t.derivations, d.runId = req.id ∧ d.nodeId = terminal.node) := by
  intro t
  obtain ⟨given, assembly, -, -, accepted, rfl⟩ := started.fresh
  have valid := validateAssembly_ok accepted
  have room : assembly.nodes.length ≤ (allowedSteps req assembly).toNat := by
    have one : (UInt64.ofNat assembly.nodes.length).toNat = assembly.nodes.length :=
      UInt64.toNat_ofNat_of_lt' representable
    unfold allowedSteps orDefault
    split_ifs with unlimited
    · exact one.ge
    · exact limit.resolve_left unlimited
  have healthy : Healthy s.modules req.id
      { slot := freshSlot req assembly (allowedSteps req assembly) } := by
    refine ⟨smooth_fresh valid, scope, room, .inl ⟨rfl, ?_⟩⟩
    rintro ⟨terminal, -, d, member, -⟩
    cases member
  have opened := reachable_step start reached
  obtain ⟨g, tracked, -, -, healthy⟩ := tracks_exec policy (P := Healthy s.modules req.id) opened
    (started.tracks reached) healthy
    (fun call member => by
      obtain ⟨before, after, split⟩ := List.append_of_mem member
      exact (undisturbed before call after split).fruitful.spares)
    (fun before call after g split tracked terms _ healthy acts g' path allowed =>
      healthy_path terms healthy path fun act member =>
        gentle_of_allowed (undisturbed before call after split) tracked terms
          (reachable_wellFormed (reachable_exec before opened)) (allowed act member))
  have decided : g.slot.run.state = .completed ↔ Answered g := by
    rcases healthy.verdict with ⟨running, waiting⟩ | ⟨completed, answered⟩
    · simp [running, waiting]
    · simp [completed, answered]
  refine ⟨g.slot, tracked.found, ?_, ?_, ?_, ?_⟩
  · rcases healthy.verdict with ⟨running, -⟩ | ⟨completed, -⟩ <;> simp [*]
  · rcases healthy.verdict with ⟨running, -⟩ | ⟨completed, -⟩ <;> simp [*]
  · intro running
    have unanswered : ¬ Answered g := by
      rw [← decided, running]
      decide
    refine (not_idle healthy.smooth (open_node healthy.smooth unanswered)).imp_left ?_
    rintro ⟨node, member, ready⟩
    exact ⟨node, member, by rw [readyUnit_caps (tracked.caps node member)]; exact ready⟩
  · rw [decided, Answered, ← tracked.derived]
    simp only [List.mem_filter, beq_iff_eq, and_assoc]
    rfl

end Runs

section Echo

open Substrate.Kernel.Concrete

theorem echo_fruitful {s : State} {id : String} (slot : RunSlot)
    (fresh : expiring s (claimAt 0) = [])
    (leased : expiring (exec policy s [claimAt 0]) (commitAt 1 id (text "one")) = [])
    (outputs : ((exec policy s [claimAt 0]).runs.lookup "r").bind (fun slot =>
      (slot.claimed.lookup id).bind fun c =>
        (capabilityForWork (exec policy s [claimAt 0]).modules c.work).toOption.map (·.outputs)) =
      some [{ name := "said", traits := ["text"] }])
    {before after : List Call} {call : Call}
    (split : [claimAt 0, commitAt 1 id (text "one")] = before ++ call :: after) :
    FruitfulCall (exec policy s before) "r" slot call := by
  rcases before with _ | ⟨_, _ | ⟨_, before⟩⟩ <;>
    simp only [List.cons_append, List.nil_append, List.cons.injEq] at split
  · obtain ⟨rfl, -⟩ := split
    refine ⟨nofun, fun _ e member => ?_, nofun, nofun⟩
    rw [exec_nil, fresh] at member
    cases member
  · obtain ⟨rfl, rfl, -⟩ := split
    refine ⟨nofun, fun _ e member => ?_, nofun, ?_⟩
    · rw [leased] at member
      cases member
    · rintro submitted op - now c cap found held resolved p declared
      cases op
      rw [found, Option.bind_some, held, Option.bind_some, resolved] at outputs
      have only : cap.outputs = [{ name := "said", traits := ["text"] }] := Option.some.inj outputs
      rw [only, List.mem_singleton] at declared
      exact ⟨_, List.mem_singleton_self _, declared ▸ rfl⟩
  · simp at split

theorem undisturbed_converges_echo :
    let t := exec policy (echoing .once .unspecified) [claimAt 0, commitAt 1 "work:r/n" (text "one")]
    ∃ now, t.runs.lookup "r" = some now ∧ now.run.state ≠ .stalled ∧ now.run.state ≠ .failed ∧
      (now.run.state = .running →
        (∃ node ∈ now.run.assembly.nodes, (readyUnit t.modules now node).isSome) ∨
          size now.claimed ≠ 0) ∧
      (now.run.state = .completed ↔ ∃ terminal, now.run.assembly.terminal = some terminal ∧
        ∃ d ∈ t.derivations, d.runId = "r" ∧ d.nodeId = terminal.node) := by
  obtain ⟨slot, -, started, assembly, scope⟩ :=
    started_echo .once .unspecified false (by decide +kernel) (by decide +kernel)
  refine undisturbed_converges policy ⟨_, rfl⟩ started scope (by simp [assembly, echoes])
    (.inr (by simp [assembly, echoes, echoRequest]))
    fun before call after split => ⟨echo_fruitful slot (by decide +kernel) (by decide +kernel)
      (by decide +kernel) split, ?_, ?_⟩
  all_goals
    have member : call ∈ [claimAt 0, commitAt 1 "work:r/n" (text "one")] := by simp [split]
    simp only [List.mem_cons, List.not_mem_nil, or_false] at member
    rcases member with rfl | rfl
    all_goals rintro _ ⟨⟩

end Echo

end Substrate.Protocol.Converge
