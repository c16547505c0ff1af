/- ID: Substrate/Protocol/Rewired
   source: framework/sdk/rust/src/cut.rs
   digest: Cutting an assembly and seeding it from a run preserves what its nodes mean. -/

import Substrate.Protocol.Meaning

set_option autoImplicit false
set_option relaxedAutoImplicit false

namespace Substrate.Protocol.Rewired

open Substrate.Kernel.Wire
open Substrate.Kernel.Hashing
open Substrate.Kernel.Memory
open Substrate.Kernel.Registry
open Substrate.Kernel.Schedule
open Substrate.Kernel.Work
open Substrate.Kernel.Api
open Substrate.Framework.Cut
open Substrate.Framework.Policy (NodePlan)
open Substrate.Protocol.Refine
open Substrate.Protocol.Steady
open Substrate.Protocol.Single
open Substrate.Protocol.Confluence
open Substrate.Protocol.Meaning
open Substrate.Protocol.Reseeds
open Substrate.Protocol.Seeds
open Substrate.Protocol.Validation (validateAssembly_ok)
open Substrate.Library.Checks
open Substrate.Library.Dataflow
open Substrate.Library.FiniteMap

section Networks

variable {modules : List ModuleSlot} {artifacts : KeyMap String Artifact} {assembly : Assembly}
  {given base : List NamedArtifact} {cut : AssemblyCut} {derivations : List Derivation}
  {seeds : List NamedArtifact} {worker : String → List NamedArtifact → List NamedArtifact}

theorem binding_rewires (seeded : Seeded modules artifacts assembly given base cut derivations seeds)
    (present : validateSeedsPresent cut (mergeInputs base seeds) = .ok ())
    (agrees : ∀ d ∈ derivations, meaning assembly given (always worker) d.nodeId =
      some (d.inputs, d.outputs)) {b : Binding} (listed : b ∈ assembly.bindings)
    (target : b.toNode ∈ cut.keptNodeIds) :
    Network.Rewires (network assembly given (always worker))
      (network cut.assembly (mergeInputs base seeds) (always worker)) assembly.nodes.length
      (· ∈ cut.keptNodeIds) b (rewrite cut.keptNodeIds b) := by
  by_cases external : b.input ≠ ""
  · have stays : rewrite cut.keptNodeIds b = b := if_neg fun both => external both.1
    obtain ⟨i, among, name, found⟩ := seeded.authored_fed
      (List.mem_filter.mpr ⟨listed, decide_eq_true ⟨target, external⟩⟩)
    have here : given.find? (·.name == b.input) = some i :=
      (find?_eq_some_iff_of_nodup seeded.formed.inputNames).mpr ⟨seeded.among.subset among, name⟩
    have there : (mergeInputs base seeds).find? (·.name == b.input) = some i := found
    rw [stays]
    refine .inr ⟨if_pos external, ?_⟩
    unfold Network.deliver network
    simp only [external, ne_eq, not_false_eq_true, if_true, here, there]
  · have upstream : b.input = "" := not_not.mp external
    by_cases kept : b.fromNode ∈ cut.keptNodeIds
    · rw [rewrite, if_neg fun both => both.2 kept]
      exact .inl ⟨b.fromNode, kept, origin_eq_some.mpr ⟨upstream, rfl⟩,
        origin_eq_some.mpr ⟨upstream, rfl⟩, fun _ => rfl⟩
    · have crosses : b ∈ crossingBindings assembly cut :=
        mem_crossingBindings.mpr ⟨listed, target, upstream, kept⟩
      obtain ⟨o, first, found⟩ := seeded.crossing_fed present crosses
      obtain ⟨d, last, output⟩ := Option.bind_eq_some_iff.mp first
      obtain ⟨among, same⟩ := List.mem_filter.mp (List.mem_of_getLast? last)
      have means := agrees d among
      rw [beq_iff_eq.mp same] at means
      have there : (mergeInputs base seeds).find? (·.name == (rewrite cut.keptNodeIds b).input) =
          some { name := seedName (b.fromNode, b.fromPort), artifact := o.artifact } := by
        rw [rewrite_crossing crosses]
        exact found
      have seed : (rewrite cut.keptNodeIds b).input ≠ "" := by
        rw [rewrite_crossing crosses]
        exact seedName_ne _
      refine .inr ⟨if_pos seed, ?_⟩
      have delivers : (network assembly given (always worker)).deliver
          (meaning assembly given (always worker)) b = o.artifact.map (entry b) := by
        unfold Network.deliver
        rw [origin_eq_some.mpr ⟨upstream, rfl⟩]
        show (meaning assembly given (always worker) b.fromNode).bind _ = _
        rw [means]
        show ((d.outputs.find? (·.name == b.fromPort)).bind (·.artifact)).map (entry b) = _
        rw [output]
        rfl
      refine Eq.trans ?_ delivers.symm
      show (((mergeInputs base seeds).find? (·.name == (rewrite cut.keptNodeIds b).input)).bind
        (·.artifact)).map (entry (rewrite cut.keptNodeIds b)) = _
      rw [there]
      unfold entry
      rw [(rewrite_target _ b).2]
      rfl

theorem seeded_means (env : Env)
    (seeded : Seeded modules artifacts assembly given base cut derivations seeds)
    (present : validateSeedsPresent cut (mergeInputs base seeds) = .ok ())
    (agrees : ∀ d ∈ derivations, meaning assembly given (always worker) d.nodeId =
      some (d.inputs, d.outputs)) {n : String} (kept : n ∈ cut.keptNodeIds) :
    meaning cut.assembly (mergeInputs base seeds) (always worker) n =
      meaning assembly given (always worker) n := by
  obtain ⟨terminal, closed⟩ := seeded.closed
  obtain ⟨plan, made⟩ := seeded.made
  have nodes := (Cuts.materialize_slice closed made).nodes
  have valid := validateAssembly_ok ((Acceptance.validateAssembly_accepts env).mpr seeded.formed)
  have valid' := validateAssembly_ok
    ((Acceptance.validateAssembly_accepts env).mpr (seeded.wellFormed present))
  obtain ⟨rank, ranked, below⟩ := @network_bounded _ given (always worker) _ _ _ valid
  obtain ⟨rank', ranked', below'⟩ :=
    @network_bounded _ (mergeInputs base seeds) (always worker) _ _ _ valid'
  have known : ∀ m ∈ cut.keptNodeIds, ∃ node ∈ assembly.nodes, node.id = m := by
    obtain ⟨among, resolved, same⟩ := (Cuts.materialize_rebinds closed made).1
    exact fun m member =>
      List.mem_map.mp ((Cuts.kept_among closed resolved).2 ((same m).mp member))
  obtain ⟨node, here, rfl⟩ := known n kept
  have here' : node ∈ cut.assembly.nodes := by
    rw [nodes]
    exact List.mem_filter.mpr ⟨here, decide_eq_true kept⟩
  -- the ranks of both networks are below the sum, where both have settled
  rw [meaning, meaning, Network.eval_stable ranked' (below' node here')
    (Nat.lt_of_lt_of_le (below' node here') (Nat.le_add_left _ assembly.nodes.length))]
  refine @Network.rewired_eval _ _ _ _ _ _ (· ∈ cut.keptNodeIds) rank ranked _ ?_ ?_ ?_ _ kept _
    (Nat.lt_of_lt_of_le (below node here) (Nat.le_add_right _ _))
  · intro m member
    obtain ⟨node, here, rfl⟩ := known m member
    exact below node here
  · intro m member
    show List.Forall₂ _ (bindingsOf assembly m) (bindingsOf cut.assembly m)
    rw [seeded.bindingsOf_cut member, List.forall₂_map_right_iff, List.forall₂_same]
    intro b bound
    obtain ⟨listed, target⟩ := List.mem_filter.mp bound
    exact binding_rewires seeded present agrees listed (by rw [beq_iff_eq.mp target]; exact member)
  · exact fun _ _ => rfl

theorem seeded_answer (env : Env)
    (seeded : Seeded modules artifacts assembly given base cut derivations seeds)
    (present : validateSeedsPresent cut (mergeInputs base seeds) = .ok ())
    (agrees : ∀ d ∈ derivations, meaning assembly given (always worker) d.nodeId =
      some (d.inputs, d.outputs)) :
    answerOf cut.assembly (meaning cut.assembly (mergeInputs base seeds) (always worker)) =
      answerOf assembly (meaning assembly given (always worker)) := by
  obtain ⟨terminal, closed⟩ := seeded.closed
  obtain ⟨plan, made⟩ := seeded.made
  have slice := Cuts.materialize_slice closed made
  have declared := closed.declared
  have same : cut.assembly.terminal = assembly.terminal := slice.declared
  unfold answerOf
  rw [same]
  cases named : assembly.terminal with
  | none => rfl
  | some t =>
      rw [named] at declared
      obtain rfl : t.node = terminal := Option.some.inj declared
      rw [Option.bind_some, Option.bind_some,
        seeded_means env seeded present agrees slice.keeps]

end Networks

section Runs

variable [Sha256] [Prost] {policy : ArtifactStorePolicy} {s : State} {start : Call} {req : RunRequest}
  {slot : RunSlot} {worker : String → List NamedArtifact → List NamedArtifact}

theorem means_among (reached : Reachable policy s) (started : Started policy s start req slot)
    (plain : PlainIds slot.run.assembly.nodes) {base : List NamedArtifact}
    (among : base.Sublist req.inputs) (named : ∀ i ∈ base, isSeedInputName i.name = false)
    {calls : List Call}
    (served : Serving policy worker req.id slot.run.assembly.nodes (step policy s start).1 calls)
    {plan : NodePlan} {cut : AssemblyCut} (made : materializeCut slot.run.assembly plan = .ok cut)
    (reads : ∀ b ∈ authoredBindings slot.run.assembly cut, ∃ i ∈ base, i.name = b.input)
    {seeds : List NamedArtifact}
    (seedsMade : seedsOfRun req.id ((exec policy (step policy s start).1 calls).derivations.filter
      (·.runId == req.id)) (cut.skipped.map (·.nodeId)) = .ok seeds)
    (present : validateSeedsPresent cut (mergeInputs base seeds) = .ok ()) :
    (∀ n ∈ cut.keptNodeIds, meaning cut.assembly (mergeInputs base seeds) (always worker) n =
        meaning slot.run.assembly req.inputs (always worker) n) ∧
      answerOf cut.assembly (meaning cut.assembly (mergeInputs base seeds) (always worker)) =
        answerOf slot.run.assembly (meaning slot.run.assembly req.inputs (always worker)) := by
  obtain ⟨asked, assembly, -, -, accepted, fresh⟩ := started.fresh
  have first : slot.run.inputs = req.inputs := by rw [fresh]; rfl
  have frozen : slot.run.assembly = assembly := by rw [fresh]; rfl
  obtain ⟨f, tracks, functional⟩ := functional_exec policy reached started
    (fun _ member => plain.plainId member) served
  have inputs : f.slot.run.inputs = req.inputs := functional.inputs.trans first
  have whole : f.slot.run.assembly = slot.run.assembly := functional.terms.assembly
  have valid : Validation.Validated s.modules s.artifacts f.slot.run.assembly req.inputs := by
    rw [whole, frozen]
    exact validateAssembly_ok accepted
  rw [tracks.derived] at seedsMade
  have seeded := seeded_among reached started plain (first ▸ among) named made reads tracks
    functional.terms (fun d member => member) seedsMade
  rw [first] at seeded
  have agrees : ∀ d ∈ f.derived, meaning slot.run.assembly req.inputs (always worker) d.nodeId =
      some (d.inputs, d.outputs) := by
    intro d member
    rw [← whole, ← inputs]
    exact derivation_meaning functional valid member
  exact ⟨fun n kept => seeded_means start.env seeded present agrees kept,
    seeded_answer start.env seeded present agrees⟩

/-- Cutting preserves meaning: let a run that takes no injections be served by a fixed worker. A cut of
its assembly whose seeds come from the run's derivations and lack none means on every kept node what
the assembly means there, and has the assembly's answer. -/
theorem cut_means (reached : Reachable policy s) (started : Started policy s start req slot)
    (plain : PlainIds slot.run.assembly.nodes)
    (named : ∀ i ∈ req.inputs, isSeedInputName i.name = false) {calls : List Call}
    (served : Serving policy worker req.id slot.run.assembly.nodes (step policy s start).1 calls)
    {plan : NodePlan} {cut : AssemblyCut} (made : materializeCut slot.run.assembly plan = .ok cut)
    {seeds : List NamedArtifact}
    (seedsMade : seedsOfRun req.id ((exec policy (step policy s start).1 calls).derivations.filter
      (·.runId == req.id)) (cut.skipped.map (·.nodeId)) = .ok seeds)
    (present : validateSeedsPresent cut (mergeInputs req.inputs seeds) = .ok ()) :
    let means := meaning slot.run.assembly req.inputs (always worker)
    let meansCut := meaning cut.assembly (mergeInputs req.inputs seeds) (always worker)
    (∀ n ∈ cut.keptNodeIds, meansCut n = means n) ∧
      answerOf cut.assembly meansCut = answerOf slot.run.assembly means := by
  obtain ⟨asked, assembly, -, -, accepted, fresh⟩ := started.fresh
  refine means_among reached started plain (.refl _) named served made (fun b reads => ?_) seedsMade
    present
  have formed := (Acceptance.validateAssembly_accepts start.env).mp accepted
  rw [fresh] at reads
  exact authored_given formed reads

end Runs

section Relay

open Substrate.Kernel.Concrete

/-- The second echo alone, given what the first one said, has the answer of both. -/
theorem relay_cut_means :
    answerOf relayCut.assembly (meaning relayCut.assembly
        (mergeInputs [given "line" (text "one")] [given "__seed/n/said" (text "one")])
        (always sayOne)) =
      answerOf relay (meaning relay [given "line" (text "one")] (always sayOne)) := by
  obtain ⟨slot, started, assembly⟩ := relay_started
  have means := @cut_means _ _ policy _ startRelay relayRequest slot sayOne ⟨_, rfl⟩ started
    (by rw [assembly]; unfold PlainIds; decide) (by decide) relayed (relay_serving _) (.after "n")
    relayCut (by rw [assembly]; rfl) _ relay_seeds relay_present
  rw [assembly] at means
  exact means.2

end Relay

end Substrate.Protocol.Rewired
