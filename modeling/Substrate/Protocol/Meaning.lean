/- ID: Substrate/Protocol/Meaning
   source: kernel/sdk/rust/src/lib.rs
   digest: What an assembly computes, and that its runs commit exactly this, in whatever order. -/

import Substrate.Library.Dataflow
import Substrate.Protocol.Confluence
import Substrate.Protocol.Converge
import Substrate.Protocol.Reseeds
import Substrate.Protocol.Stalling

set_option autoImplicit false
set_option relaxedAutoImplicit false

namespace Substrate.Protocol.Meaning

open Substrate.Kernel.Wire
open Substrate.Kernel.Hashing
open Substrate.Kernel.Memory
open Substrate.Kernel.Registry
open Substrate.Kernel.Assembly (validateAssembly)
open Substrate.Kernel.Schedule
open Substrate.Kernel.Runs
open Substrate.Kernel.Work
open Substrate.Kernel.Api
open Substrate.Protocol.Atoms
open Substrate.Protocol.Slots
open Substrate.Protocol.Delivery
open Substrate.Protocol.Refine
open Substrate.Protocol.Steady
open Substrate.Protocol.Single
open Substrate.Protocol.Validation
open Substrate.Protocol.Confluence
open Substrate.Protocol.Converge (unit_of_deliveries)
open Substrate.Protocol.Frozen (readyUnit_caps)
open Substrate.Protocol.Reseeds
open Substrate.Protocol.Typing (EntryTyped hasTraits_of_covers nodeById_eq_some)
open Substrate.Protocol.Stalling (Idle isIdle_iff idle_apply)
open Substrate.Library.Checks
open Substrate.Library.Dataflow
open Substrate.Library.FiniteMap
open Substrate.Library.Transition

section Meaning

/-- What a worker makes of a node and its inputs; none when it has given up on the node. -/
abbrev Workers := String → List NamedArtifact → Option (List NamedArtifact)

/-- The entry that a binding makes of an artifact. -/
def entry (b : Binding) (r : ArtifactRef) : NamedArtifact := { name := b.toPort, artifact := some r }

/-- An assembly as a network: nodes read their bindings, a binding delivers a run input or the first
output of a port. -/
def network (assembly : Assembly) (inputs : List NamedArtifact) (workers : Workers) :
    Network String Binding NamedArtifact (List NamedArtifact) where
  sources := bindingsOf assembly
  origin b := if b.input ≠ "" then none else some b.fromNode
  outside b := ((inputs.find? (·.name == b.input)).bind (·.artifact)).map (entry b)
  read b outputs := ((outputs.find? (·.name == b.fromPort)).bind (·.artifact)).map (entry b)
  make := workers

/-- The inputs and the outputs of every node: an assembly's own meaning, apart from any schedule. -/
def meaning (assembly : Assembly) (inputs : List NamedArtifact) (workers : Workers) :
    String → Option (List NamedArtifact × List NamedArtifact) :=
  (network assembly inputs workers).eval assembly.nodes.length

/-- The answer that a meaning has on an assembly's terminal. -/
def answerOf (assembly : Assembly)
    (results : String → Option (List NamedArtifact × List NamedArtifact)) : Option ArtifactRef :=
  assembly.terminal.bind fun terminal => (results terminal.node).bind fun r =>
    (r.2.find? (·.name == terminal.port)).bind (·.artifact)

variable {assembly : Assembly} {inputs : List NamedArtifact} {workers : Workers}

theorem origin_eq_some {b : Binding} {m : String} :
    (network assembly inputs workers).origin b = some m ↔ b.input = "" ∧ b.fromNode = m := by
  show (if b.input ≠ "" then none else some b.fromNode) = some m ↔ b.input = "" ∧ b.fromNode = m
  by_cases external : b.input = ""
  · rw [if_neg (not_not.mpr external)]
    exact ⟨fun same => ⟨external, Option.some.inj same⟩, fun both => congrArg some both.2⟩
  · rw [if_pos external]
    exact ⟨fun same => (by cases same), fun both => absurd both.1 external⟩

theorem network_ranked {rank : String → Nat}
    (up : ∀ b ∈ assembly.bindings, b.input = "" → rank b.fromNode < rank b.toNode) :
    (network assembly inputs workers).Ranked rank := by
  intro n b member m from_
  obtain ⟨listed, target⟩ := List.mem_filter.mp member
  obtain ⟨upstream, rfl⟩ := origin_eq_some.mp from_
  rw [← beq_iff_eq.mp target]
  exact up b listed upstream

theorem source_node {modules : List ModuleSlot} {artifacts : KeyMap String Artifact}
    {given : List NamedArtifact} (valid : Validated modules artifacts assembly given) {b : Binding}
    (member : b ∈ assembly.bindings) (upstream : b.input = "") :
    ∃ node ∈ assembly.nodes, node.id = b.fromNode := by
  obtain ⟨_, _, target, -, -, -, covers⟩ := valid.bound b member
  unfold SourceCovers at covers
  rw [if_neg (not_not.mpr upstream)] at covers
  obtain ⟨source, cap, out, known, -⟩ := covers
  exact ⟨source, nodeById_eq_some known⟩

theorem network_bounded {modules : List ModuleSlot} {artifacts : KeyMap String Artifact}
    {given : List NamedArtifact} (valid : Validated modules artifacts assembly given) :
    ∃ rank, (network assembly inputs workers).Ranked rank ∧
      ∀ node ∈ assembly.nodes, rank node.id < assembly.nodes.length := by
  obtain ⟨rank, up⟩ := valid.acyclic
  have inside : ∀ n, ∀ b ∈ bindingsOf assembly n, ∀ m,
      (network assembly inputs workers).origin b = some m → m ∈ assembly.nodes.map (·.id) := by
    intro n b member m from_
    obtain ⟨upstream, rfl⟩ := origin_eq_some.mp from_
    obtain ⟨node, here, id⟩ := source_node valid (List.mem_filter.mp member).1 upstream
    exact List.mem_map.mpr ⟨node, here, id⟩
  obtain ⟨rank', ranked, below⟩ := (@network_ranked _ inputs workers _ up).bounded inside
  refine ⟨rank', ranked, fun node member => ?_⟩
  have lower := below node.id (List.mem_map_of_mem member)
  rwa [List.length_map] at lower

end Meaning

section Slots

/-- The inputs and the outputs of the nodes that a run has committed. -/
def doneOf (slot : RunSlot) : String → Option (List NamedArtifact × List NamedArtifact) :=
  fun n => (slot.latest.lookup n).map fun d => (d.inputs, d.outputs)

variable {slot : RunSlot} {workers : Workers}

theorem deliver_done (b : Binding) :
    (network slot.run.assembly slot.run.inputs workers).deliver (doneOf slot) b =
      (resolveBinding slot b).map (entry b) := by
  unfold Network.deliver resolveBinding network doneOf
  by_cases external : b.input = ""
  · simp only [external, ne_eq, not_true_eq_false, if_false]
    cases slot.latest.lookup b.fromNode <;> rfl
  · simp only [external, ne_eq, not_false_eq_true, if_true]

theorem resolve_done (node : AssemblyNode) :
    (network slot.run.assembly slot.run.inputs workers).resolve (doneOf slot) node.id =
      resolveInputs slot node :=
  mapM_congr fun b _ => deliver_done b

end Slots

section Accepted

/-- A worker that always answers. -/
def always (worker : String → List NamedArtifact → List NamedArtifact) : Workers :=
  fun n given => some (worker n given)

/-- A worker that makes outputs of a node's capability whenever its inputs are typed. -/
def Lawful (modules : List ModuleSlot) (artifacts : KeyMap String Artifact) (assembly : Assembly)
    (worker : String → List NamedArtifact → List NamedArtifact) : Prop :=
  ∀ node ∈ assembly.nodes, ∀ cap, capabilityForNode modules node = .ok cap → ∀ given,
    List.Forall₂ (EntryTyped artifacts cap) (bindingsOf assembly node.id) given →
    validateOutputs artifacts cap (worker node.id given) = .ok ()

/-- The output ports that bindings and the terminal read are not optional. -/
def ReadsRequired (modules : List ModuleSlot) (assembly : Assembly) : Prop :=
  ∀ node ∈ assembly.nodes, ∀ cap, capabilityForNode modules node = .ok cap → ∀ p ∈ cap.outputs,
    (∃ b ∈ assembly.bindings, b.input = "" ∧ b.fromNode = node.id ∧ b.fromPort = p.name) ∨
      assembly.terminal = some ⟨node.id, p.name⟩ → p.optional = false

variable {modules : List ModuleSlot} {artifacts : KeyMap String Artifact} {assembly : Assembly}
  {inputs : List NamedArtifact} {worker : String → List NamedArtifact → List NamedArtifact}

theorem output_of_checked {cap : Capability} {outputs : List NamedArtifact}
    (checked : validateOutputs artifacts cap outputs = .ok ()) {name : String} {p : Port}
    (declared : port cap.outputs name = some p) (required : p.optional = false) :
    ∃ r artifact, (outputs.find? (·.name == name)).bind (·.artifact) = some r ∧
      artifacts.lookup r.id = some artifact ∧ hasTraits artifact p.traits := by
  have fits := outputsFit_of_checked checked
  obtain ⟨listed, named⟩ := port_spec declared
  obtain ⟨o, member, same⟩ := fits.complete p listed required
  have some_ : (outputs.find? (·.name == name)).isSome = true :=
    List.find?_isSome.mpr ⟨o, member, beq_iff_eq.mpr (same.trans named)⟩
  obtain ⟨first, found⟩ := Option.isSome_iff_exists.mp some_
  obtain ⟨q, r, artifact, declared', carried, stored, traits⟩ :=
    fits.stored first (List.mem_of_find?_eq_some found)
  have name_eq : first.name = name := by simpa using List.find?_some found
  rw [name_eq, declared] at declared'
  obtain rfl := Option.some.inj declared'
  exact ⟨r, artifact, by rw [found]; exact carried, stored, traits⟩

/-- What a node of an accepted assembly means: its worker's outputs for typed inputs. -/
def MeansTyped (modules : List ModuleSlot) (artifacts : KeyMap String Artifact) (assembly : Assembly)
    (worker : String → List NamedArtifact → List NamedArtifact)
    (results : String → Option (List NamedArtifact × List NamedArtifact)) (node : AssemblyNode) :
    Prop :=
  ∃ cap given, capabilityForNode modules node = .ok cap ∧
    results node.id = some (given, worker node.id given) ∧
    List.Forall₂ (EntryTyped artifacts cap) (bindingsOf assembly node.id) given

theorem delivers_typed (valid : Validated modules artifacts assembly inputs)
    (lawful : Lawful modules artifacts assembly worker) (reads : ReadsRequired modules assembly)
    {results : String → Option (List NamedArtifact × List NamedArtifact)} {node : AssemblyNode}
    (here : node ∈ assembly.nodes) {cap : Capability}
    (resolved : capabilityForNode modules node = .ok cap) {b : Binding}
    (bound : b ∈ bindingsOf assembly node.id)
    (source : ∀ m ∈ assembly.nodes, b.input = "" → m.id = b.fromNode →
      MeansTyped modules artifacts assembly worker results m) :
    ∃ e, (network assembly inputs (always worker)).deliver results b = some e ∧
      EntryTyped artifacts cap b e := by
  obtain ⟨listed, target⟩ := List.mem_filter.mp bound
  obtain ⟨into, cap', q, known, resolved', declared, covers⟩ := valid.bound b listed
  obtain ⟨there, id⟩ := nodeById_eq_some known
  obtain rfl : into = node :=
    List.inj_on_of_nodup_map valid.ids there here (id.trans (beq_iff_eq.mp target))
  obtain rfl := Except.ok.inj (resolved.symm.trans resolved')
  have typed {r : ArtifactRef} {artifact : Artifact} (stored : artifacts.lookup r.id = some artifact)
      (traits : hasTraits artifact q.traits = true) : EntryTyped artifacts cap b (entry b r) :=
    ⟨rfl, r, artifact, q, rfl, stored, declared, traits⟩
  unfold SourceCovers at covers
  by_cases upstream : b.input = ""
  · rw [if_neg (not_not.mpr upstream)] at covers
    obtain ⟨from_, cap₁, p, known', resolved₁, output, covers⟩ := covers
    obtain ⟨among, from_id⟩ := nodeById_eq_some known'
    obtain ⟨cap₂, given, resolved₂, means, fed⟩ := source from_ among upstream from_id
    obtain rfl := Except.ok.inj (resolved₁.symm.trans resolved₂)
    obtain ⟨declared_, named⟩ := port_spec output
    have required := reads from_ among cap₁ resolved₁ p declared_
      (.inl ⟨b, listed, upstream, from_id.symm, named.symm⟩)
    obtain ⟨r, artifact, first, stored, traits⟩ :=
      output_of_checked (lawful from_ among cap₁ resolved₁ given fed) output required
    refine ⟨entry b r, ?_, typed stored (hasTraits_of_covers traits covers)⟩
    unfold Network.deliver
    rw [origin_eq_some.mpr ⟨upstream, rfl⟩]
    show (results b.fromNode).bind _ = _
    rw [← from_id, means]
    show ((_ : List NamedArtifact).find? _ |>.bind _).map _ = _
    rw [first]
    rfl
  · rw [if_pos upstream] at covers
    obtain ⟨input, r, artifact, found, carried, stored, traits⟩ := covers
    refine ⟨entry b r, ?_, typed stored traits⟩
    have first : inputs.find? (·.name == b.input) = some input := found
    unfold Network.deliver network
    simp only [upstream, ne_eq, not_false_eq_true, if_true, first, Option.bind_some, carried,
      Option.map_some]

/-- Acceptance is sound: under lawful workers every node of an accepted assembly that reads no optional
output gets typed inputs and means something, and so the assembly has a stored answer. -/
theorem accepted_means {env : Env}
    (accepted : validateAssembly env modules artifacts assembly inputs = .ok ())
    (lawful : Lawful modules artifacts assembly worker) (reads : ReadsRequired modules assembly) :
    (∀ node ∈ assembly.nodes, MeansTyped modules artifacts assembly worker
      (meaning assembly inputs (always worker)) node) ∧
    ∃ r, answerOf assembly (meaning assembly inputs (always worker)) = some r ∧ r.id ∈ artifacts := by
  have valid := validateAssembly_ok accepted
  obtain ⟨rank, ranked, below⟩ := @network_bounded _ inputs (always worker) _ _ _ valid
  have all : ∀ node ∈ assembly.nodes, MeansTyped modules artifacts assembly worker
      (meaning assembly inputs (always worker)) node := by
    intro node here
    induction height : rank node.id using Nat.strong_induction_on generalizing node with
    | _ k lower =>
        obtain ⟨cap, resolved, -⟩ := valid.typed node here
        have delivers : ∀ b ∈ bindingsOf assembly node.id, ∃ e,
            (network assembly inputs (always worker)).deliver
                (meaning assembly inputs (always worker)) b = some e ∧ EntryTyped artifacts cap b e := by
          intro b bound
          refine delivers_typed valid lawful reads here resolved bound fun m among upstream id => ?_
          refine lower _ ?_ m among rfl
          rw [← height, id]
          exact ranked node.id b bound _ (origin_eq_some.mpr ⟨upstream, rfl⟩)
        obtain ⟨given, made⟩ := mapM_isSome.mpr fun b bound => (delivers b bound).imp fun e => And.left
        refine ⟨cap, given, resolved, ?_, ?_⟩
        · rw [meaning, ← Network.eval_fixed ranked (below node here)]
          exact Network.step_eq_some.mpr ⟨made, rfl⟩
        · have entries := (List.forall₂_and_left _ _).mpr ⟨fun b bound => bound, mapM_eq_some.mp made⟩
          refine entries.imp fun b e ⟨bound, delivered⟩ => ?_
          obtain ⟨e', delivered', typed⟩ := delivers b bound
          obtain rfl := Option.some.inj (delivered.symm.trans delivered')
          exact typed
  obtain ⟨terminal, node, cap, p, named, known, resolved, output, -⟩ := valid.terminal
  obtain ⟨here, id⟩ := nodeById_eq_some known
  obtain ⟨cap', given, resolved', means, fed⟩ := all node here
  obtain rfl := Except.ok.inj (resolved.symm.trans resolved')
  obtain ⟨listed, port⟩ := port_spec output
  have required := reads node here cap resolved p listed (.inr (by rw [named, id, port]))
  obtain ⟨r, artifact, first, stored, -⟩ :=
    output_of_checked (lawful node here cap resolved given fed) output required
  refine ⟨all, r, ?_, mem_of_lookup stored⟩
  rw [answerOf, named, Option.bind_some, ← id, means]
  exact first

end Accepted

section Runs

variable [Sha256]

/-- A node whose unit is done without a derivation: its work was given up. -/
def givenUp (modules : List ModuleSlot) (slot : RunSlot) (n : String) : Bool :=
  (slot.latest.lookup n).isNone && slot.run.assembly.nodes.any fun node =>
    node.id == n && (currentUnit modules slot node).any fun unit => unit.2 ∈ slot.doneUnits

/-- A worker that has given up on some nodes. -/
def leaving (worker : String → List NamedArtifact → List NamedArtifact) (gone : String → Bool) :
    Workers :=
  fun n given => if gone n then none else some (worker n given)

/-- Nothing of a run is in flight or READY. -/
def Quiet (modules : List ModuleSlot) (slot : RunSlot) : Prop :=
  (∀ id, id ∉ slot.claimed) ∧ ∀ node ∈ slot.run.assembly.nodes, readyUnit modules slot node = none

variable {worker : String → List NamedArtifact → List NamedArtifact} {modules : List ModuleSlot}
  {runId : String} {start : RunSlot} {f : Flow}

theorem functional_consistent (functional : Functional worker modules runId start f)
    (gone : String → Bool) (stays : ∀ n d, f.slot.latest.lookup n = some d → gone n = false) :
    (network f.slot.run.assembly f.slot.run.inputs (leaving worker gone)).Consistent
      (doneOf f.slot) := by
  intro n r here
  obtain ⟨d, latest, rfl⟩ := Option.map_eq_some_iff.mp here
  obtain ⟨member, rfl⟩ := (functional.settling.latest n d).mp latest
  obtain ⟨node, -, id, key, unit, -⟩ := functional.settling.committed d member
  refine Network.step_eq_some.mpr ⟨?_, ?_⟩
  · rw [← id, resolve_done]
    exact currentUnit_resolves unit
  · show leaving worker gone d.nodeId d.inputs = some d.outputs
    rw [leaving, stays _ d latest, functional.outputs d member]
    rfl

theorem derivation_meaning (functional : Functional worker modules runId start f)
    {artifacts : KeyMap String Artifact} {given : List NamedArtifact}
    (valid : Validated modules artifacts f.slot.run.assembly given) {d : Derivation}
    (member : d ∈ f.derived) :
    meaning f.slot.run.assembly f.slot.run.inputs (always worker) d.nodeId =
      some (d.inputs, d.outputs) := by
  have consistent := functional_consistent functional (fun _ => false) fun _ _ _ => rfl
  obtain ⟨rank, ranked, below⟩ := @network_bounded _ f.slot.run.inputs (always worker) _ _ _ valid
  obtain ⟨node, here, id, -⟩ := functional.settling.committed d member
  refine consistent.sound ranked ?_ (id ▸ below node here)
  rw [doneOf, (functional.settling.latest d.nodeId d).mpr ⟨member, rfl⟩]
  rfl

theorem quiet_settled (functional : Functional worker modules runId start f)
    {artifacts : KeyMap String Artifact} {given : List NamedArtifact}
    (valid : Validated modules artifacts f.slot.run.assembly given) (quiet : Quiet modules f.slot)
    {node : AssemblyNode} (here : node ∈ f.slot.run.assembly.nodes) :
    meaning f.slot.run.assembly f.slot.run.inputs (leaving worker (givenUp modules f.slot)) node.id =
      doneOf f.slot node.id := by
  have consistent := functional_consistent functional (givenUp modules f.slot) fun n d found => by
    rw [givenUp, found]
    rfl
  obtain ⟨rank, ranked, below⟩ := @network_bounded _ f.slot.run.inputs
    (leaving worker (givenUp modules f.slot)) _ _ _ valid
  have settled : (network f.slot.run.assembly f.slot.run.inputs
      (leaving worker (givenUp modules f.slot))).Settled
        (· ∈ f.slot.run.assembly.nodes.map (·.id)) (doneOf f.slot) := by
    intro n member made
    obtain ⟨node, here, rfl⟩ := List.mem_map.mp member
    obtain ⟨r, made⟩ := Option.isSome_iff_exists.mp made
    obtain ⟨resolved, made⟩ := Network.step_eq_some.mp made
    rw [resolve_done] at resolved
    cases latest : f.slot.latest.lookup node.id with
    | some d =>
        rw [doneOf, latest]
        rfl
    | none =>
        exfalso
        obtain ⟨cap, pinned, -⟩ := valid.typed node here
        obtain ⟨⟨inputs, key⟩, unit⟩ := unit_of_deliveries pinned fun b bound =>
          resolveBinding_isSome resolved bound
        have spent : key ∈ f.slot.doneUnits := by
          by_contra waiting
          have ready : readyUnit modules f.slot node = some (inputs, key) := by
            refine readyUnit_eq_some.mpr ⟨unit, waiting, unitIsClaimed_eq_false.mpr ?_⟩
            exact fun id c held => absurd (mem_of_lookup held) (quiet.1 id)
          rw [quiet.2 node here] at ready
          cases ready
        have gone : givenUp modules f.slot node.id = true := by
          rw [givenUp, latest, Option.isNone_none, Bool.true_and, List.any_eq_true]
          exact ⟨node, here, by simp [unit, spent]⟩
        change leaving worker _ node.id r.1 = some r.2 at made
        rw [leaving, gone] at made
        cases made
  refine settled.complete consistent ranked ?_ (List.mem_map_of_mem here) (below node here)
  intro n _ b member m from_
  obtain ⟨upstream, rfl⟩ := origin_eq_some.mp from_
  obtain ⟨node, here, id⟩ := source_node valid (List.mem_filter.mp member).1 upstream
  exact List.mem_map.mpr ⟨node, here, id⟩

/-- The answer of a run is that of its derivations, a run of default closure that has one is COMPLETED,
and a STALLED run is idle. -/
structure Reported (modules : List ModuleSlot) (f : Flow) : Prop where
  answer : ∀ r, f.slot.run.answer = some r ↔
    ∃ d ∈ f.derived, terminalAnswer f.slot.run.assembly d = some r
  silent : isOpenClosure f.slot = false → f.slot.run.state ≠ .completed → f.slot.run.answer = none
  idle : f.slot.run.state = .stalled → Idle modules f.slot

omit [Sha256] in
theorem terminalAnswer_node {assembly : Assembly} {d : Derivation} {r : ArtifactRef}
    (answer : terminalAnswer assembly d = some r) :
    assembly.terminal.map (·.node) = some d.nodeId := by
  obtain ⟨terminal, here, -⟩ := Option.bind_eq_some_iff.mp answer
  obtain ⟨named, node⟩ := Option.filter_eq_some_iff.mp here
  rw [named, Option.map_some, beq_iff_eq.mp node]

omit [Sha256] in
theorem advanceRun_reports (slot : RunSlot) (d : Derivation) :
    (advanceRun slot d).answer = (terminalAnswer slot.run.assembly d).or slot.run.answer ∧
      ((terminalAnswer slot.run.assembly d).isSome = true → isOpenClosure slot = false →
        (advanceRun slot d).state = .completed) := by
  unfold advanceRun
  refine ⟨by simp only; split_ifs <;> rfl, fun some closed => ?_⟩
  simp only
  rw [if_pos (by rw [some, closed]; rfl)]

theorem settleSlot_answer (slot : RunSlot) :
    (settleSlot modules slot).run.answer = slot.run.answer ∧
      (slot.run.state = .completed → (settleSlot modules slot).run.state = .completed) := by
  unfold settleSlot
  split_ifs with idle
  · refine ⟨rfl, fun completed => ?_⟩
    rw [completed] at idle
    cases idle.1
  · exact ⟨rfl, id⟩

theorem answer_apply {a : SlotAct} (noCommit : ∀ c outputs, a ≠ .commit c outputs) :
    (a.apply modules f.slot).run.answer = f.slot.run.answer := by
  cases a with
  | commit c outputs => exact absurd rfl (noCommit c outputs)
  | renew id leaseUntil =>
      simp only [SlotAct.apply, renewClaim]
      split <;> rfl
  | _ => rfl

theorem reported_apply {a : SlotAct} (functional : Functional worker modules runId start f)
    (guard : (flowMachine modules runId).enabled f a) (scripted : Scripted worker a)
    (reported : Reported modules f) :
    Reported modules ((flowMachine modules runId).apply f a) := by
  have after := functional_apply functional guard scripted
  have terms := apply_terms modules f.slot a
  have closure : isOpenClosure (a.apply modules f.slot) = isOpenClosure f.slot :=
    isOpenClosure_congr terms.policy
  have idle : (a.apply modules f.slot).run.state = .stalled →
      Idle modules (a.apply modules f.slot) := by
    obtain ⟨running, artifacts, -, possible⟩ := guard
    exact idle_apply running possible
  have silent : isOpenClosure f.slot = false → f.slot.run.answer = none := fun closed =>
    reported.silent closed (by rw [guard.1]; decide)
  by_cases commits : ∃ c outputs, a = .commit c outputs
  · obtain ⟨c, outputs, rfl⟩ := commits
    let d := derivationOf c.work outputs
    obtain ⟨settled, done⟩ := @settleSlot_answer _ modules (commitSlot f.slot c d)
    obtain ⟨advanced, completes⟩ := advanceRun_reports f.slot d
    have given : ((SlotAct.commit c outputs).apply modules f.slot).run.answer =
        (terminalAnswer f.slot.run.assembly d).or f.slot.run.answer := settled.trans advanced
    refine ⟨fun r => ?_, fun closed open' => ?_, idle⟩
    · show ((SlotAct.commit c outputs).apply modules f.slot).run.answer = some r ↔
        ∃ e ∈ f.derived ++ [d],
          terminalAnswer ((SlotAct.commit c outputs).apply modules f.slot).run.assembly e = some r
      rw [given, terms.assembly]
      cases now : terminalAnswer f.slot.run.assembly d with
      | none =>
          rw [Option.none_or, reported.answer r]
          constructor
          · rintro ⟨e, member, answer⟩
            exact ⟨e, List.mem_append_left _ member, answer⟩
          · rintro ⟨e, member, answer⟩
            rcases List.mem_append.mp member with old | new
            · exact ⟨e, old, answer⟩
            · obtain rfl := List.mem_singleton.mp new
              rw [now] at answer
              cases answer
      | some r' =>
          rw [Option.some_or]
          constructor
          · intro same
            exact ⟨d, List.mem_append_right _ List.mem_cons_self, now.trans same⟩
          · rintro ⟨e, member, answer⟩
            have node : e.nodeId = d.nodeId := Option.some.inj
              ((terminalAnswer_node answer).symm.trans (terminalAnswer_node now))
            obtain rfl : e = d := List.inj_on_of_nodup_map after.settling.once member
              (List.mem_append_right _ List.mem_cons_self) node
            exact now.symm.trans answer
    · show ((SlotAct.commit c outputs).apply modules f.slot).run.answer = none
      rw [given]
      have closed' : isOpenClosure f.slot = false := closure ▸ closed
      cases now : terminalAnswer f.slot.run.assembly d with
      | none => exact silent closed'
      | some r => exact absurd (done (completes (by rw [now]; rfl) closed')) open'
  · push Not at commits
    have same := @answer_apply _ modules f a commits
    refine ⟨fun r => ?_, fun closed _ => ?_, idle⟩
    · show (a.apply modules f.slot).run.answer = some r ↔ ∃ e ∈ f.derived ++ a.derivation,
        terminalAnswer (a.apply modules f.slot).run.assembly e = some r
      rw [same, terms.assembly, derivation_eq_nil commits, List.append_nil]
      exact reported.answer r
    · show (a.apply modules f.slot).run.answer = none
      rw [same]
      exact silent (closure ▸ closed)

theorem answer_done (functional : Functional worker modules runId start f)
    (reported : Reported modules f) :
    f.slot.run.answer = answerOf f.slot.run.assembly (doneOf f.slot) := by
  refine Option.ext fun r => ?_
  rw [reported.answer r, answerOf]
  constructor
  · rintro ⟨d, member, answer⟩
    obtain ⟨terminal, here, found⟩ := Option.bind_eq_some_iff.mp answer
    obtain ⟨named, node⟩ := Option.filter_eq_some_iff.mp here
    rw [named, Option.bind_some, doneOf, beq_iff_eq.mp node,
      (functional.settling.latest d.nodeId d).mpr ⟨member, rfl⟩]
    exact found
  · intro answer
    obtain ⟨terminal, named, answer⟩ := Option.bind_eq_some_iff.mp answer
    obtain ⟨r', here, found⟩ := Option.bind_eq_some_iff.mp answer
    obtain ⟨d, latest, rfl⟩ := Option.map_eq_some_iff.mp here
    obtain ⟨member, node⟩ := (functional.settling.latest _ d).mp latest
    refine ⟨d, member, ?_⟩
    rw [terminalAnswer, named, Option.filter_some, if_pos (beq_iff_eq.mpr node.symm)]
    exact found

theorem quiet_caps {modules' : List ModuleSlot} {slot : RunSlot}
    (same : ResolvesAs modules' modules slot.run.assembly.nodes) :
    (Quiet modules' slot ↔ Quiet modules slot) ∧ givenUp modules' slot = givenUp modules slot := by
  refine ⟨and_congr_right' (forall₂_congr fun node here => ?_), funext fun n => ?_⟩
  · rw [readyUnit_caps (same node here)]
  · unfold givenUp currentUnit
    congr 1
    rw [Bool.eq_iff_iff, List.any_eq_true, List.any_eq_true]
    refine exists_congr fun node => and_congr_right fun here => ?_
    rw [same node here]

omit [Sha256] in
theorem answerOf_congr {assembly : Assembly}
    {results results' : String → Option (List NamedArtifact × List NamedArtifact)}
    (same : ∀ terminal, assembly.terminal = some terminal →
      results terminal.node = results' terminal.node) :
    answerOf assembly results = answerOf assembly results' := by
  unfold answerOf
  cases named : assembly.terminal with
  | none => rfl
  | some terminal => rw [Option.bind_some, Option.bind_some, same terminal named]

omit [Sha256] in
theorem terminal_node {artifacts : KeyMap String Artifact} {assembly : Assembly}
    {given : List NamedArtifact} (valid : Validated modules artifacts assembly given)
    {terminal : NodeOutput} (named : assembly.terminal = some terminal) :
    ∃ node ∈ assembly.nodes, node.id = terminal.node := by
  obtain ⟨terminal', node, -, -, named', known, -⟩ := valid.terminal
  obtain rfl := Option.some.inj (named.symm.trans named')
  exact ⟨node, nodeById_eq_some known⟩

theorem answer_meaning (functional : Functional worker modules runId start f)
    (reported : Reported modules f) {artifacts : KeyMap String Artifact}
    {given : List NamedArtifact} (valid : Validated modules artifacts f.slot.run.assembly given)
    {r : ArtifactRef} (answer : f.slot.run.answer = some r) :
    answerOf f.slot.run.assembly
      (meaning f.slot.run.assembly f.slot.run.inputs (always worker)) = some r := by
  rw [answer_done functional reported] at answer
  rw [← answer]
  refine answerOf_congr fun terminal named => ?_
  rw [answerOf, named, Option.bind_some] at answer
  obtain ⟨result, here, -⟩ := Option.bind_eq_some_iff.mp answer
  obtain ⟨d, latest, rfl⟩ := Option.map_eq_some_iff.mp here
  obtain ⟨member, node⟩ := (functional.settling.latest _ d).mp latest
  rw [here, ← node]
  exact derivation_meaning functional valid member

variable [Prost]

/-- What a slot and the derivations of its run owe to an assembly over inputs and a worker. -/
structure Computed (worker : String → List NamedArtifact → List NamedArtifact) (assembly : Assembly)
    (inputs : List NamedArtifact) (runId : String) (t : State) (now : RunSlot) : Prop where
  derived : ∀ d ∈ t.derivations, d.runId = runId →
    meaning assembly inputs (always worker) d.nodeId = some (d.inputs, d.outputs)
  answers : ∀ r, now.run.answer = some r →
    answerOf assembly (meaning assembly inputs (always worker)) = some r
  finished : now.run.state = .completed → now.run.answer.isSome = true
  settled : Quiet t.modules now → ∀ node ∈ assembly.nodes,
    doneOf now node.id = meaning assembly inputs (leaving worker (givenUp t.modules now)) node.id
  stalled : now.run.state = .stalled → Quiet t.modules now ∧
    answerOf assembly (meaning assembly inputs (leaving worker (givenUp t.modules now))) = none

theorem exec_computed (policy : ArtifactStorePolicy) {s : State} {call : Call} {req : RunRequest}
    (reached : Reachable policy s) (started : Started policy s call req start)
    (plain : ∀ node ∈ start.run.assembly.nodes, PlainId node.id) {calls : List Call}
    (served : ∀ before next after, calls = before ++ next :: after →
      Served policy worker req.id start.run.assembly.nodes (step policy s call).1 before next) :
    ∃ now, (exec policy (step policy s call).1 calls).runs.lookup req.id = some now ∧
      Computed worker start.run.assembly req.inputs req.id
        (exec policy (step policy s call).1 calls) now := by
  obtain ⟨given, assembly, -, -, accepted, fresh⟩ := started.fresh
  have first : start.run.inputs = req.inputs ∧ start.run.assembly = assembly := by
    rw [fresh]
    exact ⟨rfl, rfl⟩
  obtain ⟨f, tracks, functional, reported⟩ := scripted_exec policy (P := Reported s.modules) reached
    started plain served (by
      refine ⟨fun r => ?_, fun _ _ => by rw [fresh]; rfl, fun stalled => ?_⟩
      · rw [fresh]
        simp [freshSlot]
      · rw [fresh] at stalled
        cases stalled)
    fun f a functional guard scripted before => reported_apply functional guard scripted before
  have inputs : f.slot.run.inputs = req.inputs := functional.inputs.trans first.1
  have valid : Validated s.modules s.artifacts f.slot.run.assembly req.inputs := by
    rw [functional.terms.assembly, first.2]
    exact validateAssembly_ok accepted
  have quiet := quiet_caps tracks.caps
  rw [← inputs, ← functional.terms.assembly]
  refine ⟨f.slot, tracks.found, ⟨?_, ?_, ?_, ?_, ?_⟩⟩
  · intro d member own
    refine derivation_meaning functional valid ?_
    rw [← tracks.derived]
    exact List.mem_filter.mpr ⟨member, beq_iff_eq.mpr own⟩
  · intro r answer
    exact answer_meaning functional reported valid answer
  · intro completed
    obtain ⟨d, -, r, -, answer⟩ := functional.answer completed
    rw [answer]
    rfl
  · intro idle node here
    rw [quiet.2]
    exact (quiet_settled functional valid (quiet.1.mp idle) here).symm
  · intro stalled
    have idle := reported.idle stalled
    have silent := reported.silent idle.closure (by rw [stalled]; decide)
    have still : Quiet s.modules f.slot := ⟨idle.claimed, idle.ready⟩
    refine ⟨quiet.1.mpr still, ?_⟩
    rw [quiet.2, ← silent, answer_done functional reported]
    refine answerOf_congr fun terminal named => ?_
    obtain ⟨node, here, id⟩ := terminal_node valid named
    rw [← id]
    exact quiet_settled functional valid still here

/-- A run that takes no injections and is served by a fixed worker computes its assembly, whatever the
schedule: every derivation is what the assembly means at its node, an answer is the assembly's answer,
and a COMPLETED run has one. Once nothing is in flight or READY, it has committed exactly what the
assembly means without the nodes whose work was given up; a STALLED run is such a run, and the assembly
has no answer without these nodes. -/
theorem runs_compute (policy : ArtifactStorePolicy) {s : State} {call : Call} {req : RunRequest}
    (reached : Reachable policy s) (started : Started policy s call req start)
    (plain : ∀ node ∈ start.run.assembly.nodes, PlainId node.id) {calls : List Call}
    (served : ∀ before next after, calls = before ++ next :: after →
      Served policy worker req.id start.run.assembly.nodes (step policy s call).1 before next) :
    let t := exec policy (step policy s call).1 calls
    let means := meaning start.run.assembly req.inputs
    ∃ now, t.runs.lookup req.id = some now ∧
      (∀ d ∈ t.derivations, d.runId = req.id →
        means (always worker) d.nodeId = some (d.inputs, d.outputs)) ∧
      (∀ r, now.run.answer = some r →
        answerOf start.run.assembly (means (always worker)) = some r) ∧
      (now.run.state = .completed → now.run.answer.isSome = true) ∧
      (Quiet t.modules now → ∀ node ∈ start.run.assembly.nodes,
        doneOf now node.id = means (leaving worker (givenUp t.modules now)) node.id) ∧
      (now.run.state = .stalled → Quiet t.modules now ∧
        answerOf start.run.assembly (means (leaving worker (givenUp t.modules now))) = none) := by
  obtain ⟨now, found, computed⟩ := exec_computed policy reached started plain served
  exact ⟨now, found, computed.derived, computed.answers, computed.finished, computed.settled,
    computed.stalled⟩

end Runs

section Relay

open Substrate.Kernel.Concrete

/-- The first line of the relay has an answer to it. -/
theorem relay_means :
    let s := exec policy {} (stocked .once)
    ∃ r, answerOf relay (meaning relay [given "line" (text "one")] (always sayOne)) = some r ∧
      r.id ∈ s.artifacts := by
  have caps : ∀ node ∈ relay.nodes, capabilityForNode (exec policy {} (stocked .once)).modules node =
      .ok { name := "say", inputs := [{ name := "heard", traits := ["text"] }]
            outputs := [{ name := "said", traits := ["text"] }], firing := Firing.once.asI32 } := by
    decide +kernel
  have checked : validateOutputs (exec policy {} (stocked .once)).artifacts
      { name := "say", inputs := [{ name := "heard", traits := ["text"] }]
        outputs := [{ name := "said", traits := ["text"] }], firing := Firing.once.asI32 }
      [given "said" (text "one")] = .ok () := by decide +kernel
  have accepted : validateAssembly (envAt 0) (exec policy {} (stocked .once)).modules
      (exec policy {} (stocked .once)).artifacts relay [given "line" (text "one")] = .ok () := by
    decide +kernel
  refine (accepted_means accepted ?_ ?_).2
  · intro node here cap resolved given _
    obtain rfl := Except.ok.inj ((caps node here).symm.trans resolved)
    exact checked
  · intro node here cap resolved p output _
    obtain rfl := Except.ok.inj ((caps node here).symm.trans resolved)
    obtain rfl := List.mem_singleton.mp output
    rfl

/-- Both echoes of the relay have said what the relay means, and its answer is that of the relay. -/
theorem relay_computes :
    let t := exec policy (step policy (exec policy {} (stocked .once)) startRelay).1 relayed
    let means := meaning relay [given "line" (text "one")]
    ∃ now, t.runs.lookup "r" = some now ∧
      (∀ d ∈ t.derivations, d.runId = "r" →
        means (always sayOne) d.nodeId = some (d.inputs, d.outputs)) ∧
      ∃ r, now.run.answer = some r ∧ answerOf relay (means (always sayOne)) = some r := by
  have completed : ((exec policy (step policy (exec policy {} (stocked .once)) startRelay).1
      relayed).runs.lookup "r").map (·.run.state) = some .completed := by decide +kernel
  obtain ⟨slot, started, assembly⟩ := relay_started
  obtain ⟨now, found, derived, answers, finished, -⟩ := @runs_compute _ sayOne slot _ policy _
    startRelay relayRequest ⟨_, rfl⟩ started (by rw [assembly]; simp [relay, PlainId]) relayed
    (relay_serving _)
  rw [assembly] at derived answers
  obtain ⟨held, same, state⟩ := Option.map_eq_some_iff.mp completed
  obtain rfl := Option.some.inj (found.symm.trans same)
  obtain ⟨r, answer⟩ := Option.isSome_iff_exists.mp (finished state)
  exact ⟨now, found, derived, r, answer, answers r answer⟩

end Relay

end Substrate.Protocol.Meaning
