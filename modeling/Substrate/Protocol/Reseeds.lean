/- ID: Substrate/Protocol/Reseeds
   source: framework/sdk/rust/src/cut.rs, kernel/sdk/rust/src/lib.rs
   digest: A cut that is seeded from a run is accepted, and commits what the run has committed. -/

import Substrate.Protocol.Acceptance
import Substrate.Protocol.Confluence
import Substrate.Protocol.Seeds
import Substrate.Protocol.WorkIds

set_option autoImplicit false
set_option relaxedAutoImplicit false

namespace Substrate.Protocol.Reseeds

open Substrate.Kernel.Wire
open Substrate.Kernel.Hashing
open Substrate.Kernel.Memory
open Substrate.Kernel.Registry
open Substrate.Kernel.Assembly (inputByName materializeAssembly validateAssembly)
open Substrate.Kernel.Schedule
open Substrate.Kernel.Work
open Substrate.Kernel.Api
open Substrate.Framework.Cut
open Substrate.Framework.Policy (NodePlan)
open Substrate.Framework.Steps (FrameworkError)
open Substrate.Protocol.Atoms
open Substrate.Protocol.Slots
open Substrate.Protocol.Delivery
open Substrate.Protocol.Refine
open Substrate.Protocol.Steady
open Substrate.Protocol.Single
open Substrate.Protocol.Typing
open Substrate.Protocol.Confluence
open Substrate.Protocol.Cuts (Closed materialize_rebinds port_rebinds)
open Substrate.Protocol.Seeds
open Substrate.Protocol.Validation (validateAssembly_ok)
open Substrate.Library.Checks
open Substrate.Library.FiniteMap
open Substrate.Library.Transition

section Outputs

variable [Sha256]

/-- The node that a derivation was made for. -/
def nodeOf (d : Derivation) : AssemblyNode :=
  { id := d.nodeId, module := d.module, moduleVersion := d.moduleVersion,
    capability := d.capability }

/-- Outputs of a capability: one at least on every port that is not optional, and each stored, with the
traits of the declared port it goes by. -/
structure OutputsFit (artifacts : KeyMap String Artifact) (cap : Capability)
    (outputs : List NamedArtifact) : Prop where
  complete : ∀ p ∈ cap.outputs, p.optional = false → ∃ o ∈ outputs, o.name = p.name
  stored : ∀ o ∈ outputs, ∃ p r artifact, port cap.outputs o.name = some p ∧
    o.artifact = some r ∧ artifacts.lookup r.id = some artifact ∧ hasTraits artifact p.traits

omit [Sha256] in
theorem outputsFit_of_checked {artifacts : KeyMap String Artifact} {cap : Capability}
    {outputs : List NamedArtifact} (checked : validateOutputs artifacts cap outputs = .ok ()) :
    OutputsFit artifacts cap outputs := by
  obtain ⟨⟨⟩, counts, each⟩ := bind_eq_ok.mp checked
  refine ⟨fun p listed required => ?_, fun o listed =>
    validateOutput_ok (forM_eq_ok.mp each o listed)⟩
  have fits := forM_eq_ok.mp counts p listed
  unfold validateOutputCounts at fits
  dsimp only at fits
  split_ifs at fits with absent
  have some_ : 0 < outputs.countP (·.name == p.name) :=
    Nat.pos_of_ne_zero fun none_ => absent ⟨none_, by simp [required]⟩
  obtain ⟨o, among, same⟩ := List.countP_pos_iff.mp some_
  exact ⟨o, among, beq_iff_eq.mp same⟩

variable [Prost]

/-- What is known of the derivations of a kernel: their outputs fit what is pinned for their nodes, and
these are of their runs. -/
def Fitting (s : State) : Prop :=
  ∀ d ∈ s.derivations,
    (∃ cap, pinned s.modules (nodeOf d) = some cap ∧ OutputsFit s.artifacts cap d.outputs) ∧
      ∃ slot, s.runs.lookup d.runId = some slot ∧ nodeOf d ∈ slot.run.assembly.nodes

private theorem fitting_apply {s : State} {a : Atom} (guard : a.enabled s) (wf : WellFormed s)
    (before : Fitting s) : Fitting (a.apply s) := by
  have persists := WorkIds.persists_path (.cons guard (.nil _))
  intro d member
  have known : (∃ cap, pinned s.modules (nodeOf d) = some cap ∧
      OutputsFit s.artifacts cap d.outputs) ∧
        ∃ slot, s.runs.lookup d.runId = some slot ∧ nodeOf d ∈ slot.run.assembly.nodes := by
    rw [derivations_apply guard] at member
    rcases List.mem_append.mp member with old | new
    · exact before d old
    · cases a with
      | acted runId act =>
          obtain ⟨slot, found, -, possible⟩ := guard
          cases act with
          | commit c outputs =>
              obtain rfl := List.mem_singleton.mp new
              obtain ⟨held, -, cap, resolved, checked⟩ := possible
              have claim := (wf runId slot found).claims _ c held
              exact ⟨⟨cap, pinned_of_resolved resolved, outputsFit_of_checked checked⟩, slot,
                (congrArg s.runs.lookup claim.runId).trans found, claim.node⟩
          | _ => cases new
      | _ => cases new
  obtain ⟨⟨cap, pin, outputs⟩, slot, found, node⟩ := known
  obtain ⟨after, found', terms⟩ := persists.terms _ slot found
  refine ⟨⟨cap, persists.pinned _ cap pin, outputs.complete, fun o listed => ?_⟩, after, found', by
    rw [terms.assembly]
    exact node⟩
  obtain ⟨p, r, artifact, declared, carried, stored, traits⟩ := outputs.stored o listed
  exact ⟨p, r, artifact, declared, carried, artifact_persists guard stored, traits⟩

theorem reachable_fitting {policy : ArtifactStorePolicy} {s : State}
    (reached : Reachable policy s) : Fitting s :=
  reachable_invariant (fun _ member => absurd member List.not_mem_nil)
    (fun _ _ guard wf before => fitting_apply guard wf before) reached

end Outputs

section Accepting

variable {modules modules' : List ModuleSlot} {artifacts artifacts' : KeyMap String Artifact}
  {assembly : Assembly} {base : List NamedArtifact}

private theorem resolves_as {nodes : List AssemblyNode} (caps : ResolvesAs modules' modules nodes)
    {n : AssemblyNode} (member : n ∈ nodes) {cap : Capability} :
    Acceptance.Resolves modules' n cap ↔ Acceptance.Resolves modules n cap := by
  rw [← Acceptance.capabilityForNode_eq_ok, ← Acceptance.capabilityForNode_eq_ok, caps n member]

private theorem portOf_as (caps : ResolvesAs modules' modules assembly.nodes)
    {side : Capability → List Port} {nodeId portName : String} {p : Port} :
    Acceptance.PortOf modules' assembly side nodeId portName p ↔
      Acceptance.PortOf modules assembly side nodeId portName p :=
  exists_congr fun _ => and_congr_right fun member => exists_congr fun _ =>
    and_congr_left fun _ => resolves_as caps member

theorem wellFormed_grown (formed : Acceptance.WellFormed modules artifacts assembly base)
    (caps : ResolvesAs modules' modules assembly.nodes)
    (grown : ∀ id artifact, artifacts.lookup id = some artifact →
      artifacts'.lookup id = some artifact) :
    Acceptance.WellFormed modules' artifacts' assembly base where
  id := formed.id
  nodes := formed.nodes
  named := formed.named
  distinct := formed.distinct
  resolved n member := by
    obtain ⟨cap, resolves, ports⟩ := formed.resolved n member
    exact ⟨cap, (resolves_as caps member).mpr resolves, ports⟩
  terminal := by
    obtain ⟨t, p, declared, output, scalar⟩ := formed.terminal
    exact ⟨t, p, declared, (portOf_as caps).mpr output, scalar⟩
  inputNames := formed.inputNames
  stored i member := by
    obtain ⟨named, r, carried, stored⟩ := formed.stored i member
    obtain ⟨artifact, found⟩ := lookup_of_mem stored
    exact ⟨named, r, carried, mem_of_lookup (grown _ artifact found)⟩
  bindings b member := by
    obtain ⟨target, input, source⟩ := formed.bindings b member
    refine ⟨target, (portOf_as caps).mpr input, source.imp ?_ ?_⟩
    · rintro ⟨external, node, port, i, given, r, artifact, name, carried, stored, traits⟩
      exact ⟨external, node, port, i, given, r, artifact, name, carried, grown _ _ stored, traits⟩
    · rintro ⟨upstream, some_, source, output, covers⟩
      exact ⟨upstream, some_, source, (portOf_as caps).mpr output, covers⟩
  bound n member cap resolves := formed.bound n member cap ((resolves_as caps member).mp resolves)
  single n member cap resolves := formed.single n member cap ((resolves_as caps member).mp resolves)
  acyclic := formed.acyclic

variable {given : List NamedArtifact} {cut : AssemblyCut} {derivations : List Derivation}
  {seeds : List NamedArtifact}

/-- A cut of an assembly that is well-formed over `given`, with the seeds of a run's derivations. No id
has a slash in it, no input of `base` is called like a seed, and these have all that kept nodes read. -/
structure Seeded (modules : List ModuleSlot) (artifacts : KeyMap String Artifact)
    (assembly : Assembly) (given base : List NamedArtifact) (cut : AssemblyCut)
    (derivations : List Derivation) (seeds : List NamedArtifact) : Prop where
  formed : Acceptance.WellFormed modules artifacts assembly given
  slashless : Slashless assembly
  among : base.Sublist given
  plain : ∀ i ∈ base, isSeedInputName i.name = false
  reads : ∀ b ∈ authoredBindings assembly cut, ∃ i ∈ base, i.name = b.input
  made : ∃ plan, materializeCut assembly plan = .ok cut
  fits : ∀ d ∈ derivations, nodeOf d ∈ assembly.nodes ∧
    ∃ cap, pinned modules (nodeOf d) = some cap ∧ OutputsFit artifacts cap d.outputs
  seeded : ∃ runId, seedsOfRun runId derivations (cut.skipped.map (·.nodeId)) = .ok seeds

/-- A cut lacks an output: one of its bindings reads an optional port of a dropped node, on which the
node has put nothing. -/
def Lacks (modules : List ModuleSlot) (assembly : Assembly) (cut : AssemblyCut)
    (derivations : List Derivation) : Prop :=
  ∃ b ∈ crossingBindings assembly cut, ∃ p,
    Acceptance.PortOf modules assembly Capability.outputs b.fromNode b.fromPort p ∧
      p.optional = true ∧ firstOutput derivations (b.fromNode, b.fromPort) = none

theorem rewrite_target (kept : List String) (b : Binding) :
    (rewrite kept b).toNode = b.toNode ∧ (rewrite kept b).toPort = b.toPort := by
  unfold rewrite
  split_ifs <;> exact ⟨rfl, rfl⟩

namespace Seeded

variable (seeded : Seeded modules artifacts assembly given base cut derivations seeds)
include seeded

theorem closed : ∃ terminal, Closed assembly terminal := closed_of_wellFormed seeded.formed

theorem bindingsOf_cut {n : String} (kept : n ∈ cut.keptNodeIds) :
    Kernel.Schedule.bindingsOf cut.assembly n =
      (Kernel.Schedule.bindingsOf assembly n).map (rewrite cut.keptNodeIds) := by
  obtain ⟨terminal, closed⟩ := seeded.closed
  obtain ⟨plan, made⟩ := seeded.made
  unfold Kernel.Schedule.bindingsOf
  rw [materialize_rewrites closed made, List.filter_map, List.filter_filter]
  congr 1
  refine List.filter_congr fun b _ => ?_
  rw [Function.comp_apply, (rewrite_target _ b).1]
  by_cases target : b.toNode = n
  · simp [target, kept]
  · simp [target]

theorem distinct : (base.map (·.name)).Nodup :=
  seeded.formed.inputNames.sublist (seeded.among.map _)

private theorem slashless_id {x : String} (known : x ∈ Cuts.ids assembly) : '/' ∉ x.toList := by
  obtain ⟨n, member, rfl⟩ := List.mem_map.mp known
  exact seeded.slashless n member

theorem node_fits {d : Derivation} (among : d ∈ derivations) :
    ∃ cap, OutputsFit artifacts cap d.outputs ∧ ∀ portName p,
      Acceptance.PortOf modules assembly Capability.outputs d.nodeId portName p →
        p ∈ cap.outputs ∧ p.name = portName ∧ port cap.outputs portName = some p := by
  obtain ⟨node, cap, pin, outputs⟩ := seeded.fits d among
  refine ⟨cap, outputs, ?_⟩
  rintro portName p ⟨n, member, cap', resolves, id, listed, named⟩
  obtain rfl : nodeOf d = n :=
    List.inj_on_of_nodup_map seeded.formed.distinct node member id.symm
  have pin' := pinned_of_resolved (Acceptance.capabilityForNode_eq_ok.mpr resolves)
  obtain rfl := Option.some.inj (pin.symm.trans pin')
  obtain ⟨full, resolves', -, ports⟩ := seeded.formed.resolved _ node
  obtain rfl := (List.cons.inj (resolves'.symm.trans resolves)).1
  exact ⟨listed, named, (find?_eq_some_iff_of_nodup ports.distinct).mpr ⟨listed, named⟩⟩

theorem output_stored {p : OutputPort} {o : NamedArtifact}
    (first : firstOutput derivations p = some o) :
    ∃ r artifact, o.artifact = some r ∧ artifacts.lookup r.id = some artifact ∧
      ∀ source, Acceptance.PortOf modules assembly Capability.outputs p.1 p.2 source →
        hasTraits artifact source.traits := by
  obtain ⟨d, here, output⟩ := Option.bind_eq_some_iff.mp first
  obtain ⟨among, same⟩ := List.mem_filter.mp (List.mem_of_getLast? here)
  obtain ⟨cap, outputs, ports⟩ := seeded.node_fits among
  obtain ⟨declared, r, artifact, found, carried, stored, traits⟩ :=
    outputs.stored o (List.mem_of_find?_eq_some output)
  refine ⟨r, artifact, carried, stored, fun source there => ?_⟩
  have name : o.name = p.2 := by simpa using List.find?_some output
  rw [← beq_iff_eq.mp same] at there
  rw [name, (ports p.2 source there).2.2] at found
  obtain rfl := Option.some.inj found
  exact traits

theorem output_there {p : OutputPort} {source : Port} (derived : ∃ d ∈ derivations, d.nodeId = p.1)
    (there : Acceptance.PortOf modules assembly Capability.outputs p.1 p.2 source)
    (required : source.optional = false) : (firstOutput derivations p).isSome = true := by
  obtain ⟨d, member, here⟩ := derived
  have some_ : derivations.filter (·.nodeId == p.1) ≠ [] :=
    List.ne_nil_of_mem (List.mem_filter.mpr ⟨member, beq_iff_eq.mpr here⟩)
  unfold firstOutput latest
  cases found : (derivations.filter (·.nodeId == p.1)).getLast? with
  | none => exact absurd (List.getLast?_eq_none_iff.mp found) some_
  | some last =>
      obtain ⟨among, same⟩ := List.mem_filter.mp (List.mem_of_getLast? found)
      obtain ⟨cap, outputs, ports⟩ := seeded.node_fits among
      rw [← beq_iff_eq.mp same] at there
      obtain ⟨listed, named, -⟩ := ports p.2 source there
      obtain ⟨o, output, name⟩ := outputs.complete source listed required
      exact List.find?_isSome.mpr ⟨o, output, beq_iff_eq.mpr (name.trans named)⟩

theorem unconfused : Unconfused assembly cut (produced derivations cut) := by
  obtain ⟨terminal, closed⟩ := seeded.closed
  obtain ⟨plan, made⟩ := seeded.made
  refine unconfused_of (fun p member => seeded.slashless_id
    (((Cuts.materialize_slice closed made).skipped p.1).mp (mem_produced.mp member).1).1) ?_
  intro b reads
  obtain ⟨i, there, name⟩ := seeded.reads b reads
  rw [← name]
  exact seeded.plain i there

theorem own : OwnSeeds assembly cut derivations seeds := by
  obtain ⟨runId, made⟩ := seeded.seeded
  exact (ownSeeds_iff made).mpr seeded.unconfused

theorem crossing_present {inputs : List NamedArtifact}
    (present : validateSeedsPresent cut inputs = .ok ()) {b : Binding}
    (crosses : b ∈ crossingBindings assembly cut) :
    ∃ i ∈ inputs, i.name = seedName (b.fromNode, b.fromPort) := by
  obtain ⟨terminal, closed⟩ := seeded.closed
  obtain ⟨plan, made⟩ := seeded.made
  obtain ⟨listed, target, input, gone⟩ := mem_crossingBindings.mp crosses
  obtain ⟨after, -, ⟨-, stays⟩ | ⟨-, -, -, s, required, node, port, -⟩⟩ :=
    (forall₂_mem (materialize_rebinds closed made).2).1 b
      (List.mem_filter.mpr ⟨listed, decide_eq_true target⟩)
  · exact (stays.elim (· input) gone).elim
  have none_missing : cut.requiredSeeds.filterMap (missingSeed inputs) = [] := by
    unfold validateSeedsPresent at present
    generalize cut.requiredSeeds.filterMap (missingSeed inputs) = missing at present
    cases missing with
    | nil => rfl
    | cons first rest => cases present
  have there := List.filterMap_eq_nil_iff.mp none_missing s required
  unfold missingSeed at there
  cases found : inputs.reverse.find? (·.name == s.inputName) with
  | none =>
      rw [found] at there
      cases there
  | some i =>
      refine ⟨i, List.mem_reverse.mp (List.mem_of_find?_eq_some found), ?_⟩
      have name : i.name = s.inputName := by simpa using List.find?_some found
      rw [name, Cuts.required_named made s required, node, port]
      rfl

theorem lacks_of_refused (derived : ∀ x ∈ cut.skipped, ∃ d ∈ derivations, d.nodeId = x.nodeId)
    {e : FrameworkError}
    (refused : validateSeedsPresent cut (mergeInputs base seeds) = .error e) :
    Lacks modules assembly cut derivations := by
  obtain ⟨terminal, closed⟩ := seeded.closed
  obtain ⟨plan, made⟩ := seeded.made
  have missing : cut.requiredSeeds.filterMap (missingSeed (mergeInputs base seeds)) ≠ [] := by
    intro none_
    unfold validateSeedsPresent at refused
    rw [none_] at refused
    cases refused
  obtain ⟨text, member⟩ := List.exists_mem_of_ne_nil _ missing
  obtain ⟨spec, required, absent⟩ := List.mem_filterMap.mp member
  obtain ⟨b, listed, target, input, gone, node, port⟩ := Cuts.required_crosses closed made required
  have crosses : b ∈ crossingBindings assembly cut :=
    mem_crossingBindings.mpr ⟨listed, target, input, gone⟩
  obtain ⟨-, -, ⟨external, -⟩ | ⟨-, -, source, output, -⟩⟩ := seeded.formed.bindings b listed
  · exact absurd input external
  have none_ : firstOutput derivations (b.fromNode, b.fromPort) = none := by
    by_contra some_
    have named : b.fromPort ≠ "" := by
      obtain ⟨n, member, cap, resolves, -, among, name⟩ := output
      obtain ⟨full, resolves', -, ports⟩ := seeded.formed.resolved n member
      obtain rfl := (List.cons.inj (resolves'.symm.trans resolves)).1
      exact name ▸ ports.named source among
    have member : (b.fromNode, b.fromPort) ∈ produced derivations cut :=
      mem_produced.mpr ⟨((Cuts.materialize_slice closed made).skipped b.fromNode).mpr
        ⟨closed.sources b listed input, gone⟩, named, Option.isSome_iff_ne_none.mpr some_⟩
    obtain ⟨o, first, found⟩ := seeded.own.fed base _ (List.mem_map_of_mem crosses) member
    obtain ⟨r, artifact, carried, -⟩ := seeded.output_stored first
    have name := Cuts.required_named made spec required
    rw [← node, ← port] at name
    have distinct : ((mergeInputs base seeds).reverse.map (·.name)).Nodup := by
      rw [List.map_reverse]
      exact List.nodup_reverse.mpr (merged_names base seeds)
    have here : (mergeInputs base seeds).reverse.find? (·.name == spec.inputName) =
        some { name := seedName (b.fromNode, b.fromPort), artifact := o.artifact } :=
      (find?_eq_some_iff_of_nodup distinct).mpr
        ⟨List.mem_reverse.mpr (List.mem_of_find?_eq_some found), name.symm⟩
    unfold missingSeed at absent
    rw [here, carried] at absent
    cases absent
  refine ⟨b, crosses, source, output, ?_, none_⟩
  by_contra required'
  have skipped := ((Cuts.materialize_slice closed made).skipped b.fromNode).mpr
    ⟨closed.sources b listed input, gone⟩
  obtain ⟨x, among, same⟩ := List.mem_map.mp skipped
  obtain ⟨d, held, here⟩ := derived x among
  have there := @output_there _ _ _ _ _ _ _ _ seeded (b.fromNode, b.fromPort) source
    ⟨d, held, here.trans same⟩ output (Bool.eq_false_iff.mpr required')
  rw [none_] at there
  cases there

variable (present : validateSeedsPresent cut (mergeInputs base seeds) = .ok ())
include present

theorem crossing_fed {b : Binding} (crosses : b ∈ crossingBindings assembly cut) :
    ∃ o, firstOutput derivations (b.fromNode, b.fromPort) = some o ∧
      inputByName (mergeInputs base seeds) (seedName (b.fromNode, b.fromPort)) =
        some { name := seedName (b.fromNode, b.fromPort), artifact := o.artifact } := by
  obtain ⟨terminal, closed⟩ := seeded.closed
  obtain ⟨plan, made⟩ := seeded.made
  obtain ⟨runId, seedsMade⟩ := seeded.seeded
  obtain ⟨listed, -, input, -⟩ := mem_crossingBindings.mp crosses
  refine seeded.own.fed base _ (List.mem_map_of_mem crosses) ?_
  obtain ⟨i, member, name⟩ := seeded.crossing_present present crosses
  rcases mem_merged member with given | seed
  · have plain := seeded.plain i given
    rw [name, seedName_isSeed] at plain
    cases plain
  · obtain ⟨q, among, -, name', -⟩ := (seedsOfRun_ok seedsMade).2.1 i seed
    have skipped := ((Cuts.materialize_slice closed made).skipped q.1).mp (mem_produced.mp among).1
    rcases (seedName_eq_iff _ _).mp (name.symm.trans name') with same | confused
    · rw [same]
      exact among
    · exact absurd confused (not_confused (seeded.slashless_id (closed.sources b listed input))
        (seeded.slashless_id skipped.1))

omit present in
theorem authored_fed {b : Binding} (reads : b ∈ authoredBindings assembly cut) :
    ∃ i ∈ base, i.name = b.input ∧ inputByName (mergeInputs base seeds) b.input = some i := by
  obtain ⟨i, there, name⟩ := seeded.reads b reads
  refine ⟨i, there, name, ?_⟩
  rw [seeded.own.spared base b reads, ← name]
  exact merged_base seeded.distinct there fun s member => absurd member List.not_mem_nil

omit present in
theorem binding_of_cut {after : Binding} (member : after ∈ cut.assembly.bindings) :
    ∃ b ∈ assembly.bindings, b.toNode ∈ cut.keptNodeIds ∧ after = rewrite cut.keptNodeIds b := by
  obtain ⟨terminal, closed⟩ := seeded.closed
  obtain ⟨plan, made⟩ := seeded.made
  rw [materialize_rewrites closed made] at member
  obtain ⟨b, listed, rfl⟩ := List.mem_map.mp member
  obtain ⟨listed, target⟩ := List.mem_filter.mp listed
  exact ⟨b, listed, of_decide_eq_true target, rfl⟩

omit present in
theorem portOf_cut {side : Capability → List Port} {nodeId portName : String} {p : Port}
    (kept : nodeId ∈ cut.keptNodeIds)
    (there : Acceptance.PortOf modules assembly side nodeId portName p) :
    Acceptance.PortOf modules cut.assembly side nodeId portName p := by
  obtain ⟨terminal, closed⟩ := seeded.closed
  obtain ⟨plan, made⟩ := seeded.made
  obtain ⟨n, member, cap, resolves, id, port⟩ := there
  refine ⟨n, ?_, cap, resolves, id, port⟩
  rw [(Cuts.materialize_slice closed made).nodes]
  exact List.mem_filter.mpr ⟨member, decide_eq_true (id ▸ kept)⟩

theorem source_of_cut {b : Binding} (listed : b ∈ assembly.bindings)
    (target : b.toNode ∈ cut.keptNodeIds) {p : Port}
    (source : Acceptance.OneSource modules artifacts assembly given b p) :
    Acceptance.OneSource modules artifacts cut.assembly (mergeInputs base seeds)
      (rewrite cut.keptNodeIds b) p := by
  rcases source with ⟨external, node, port, carries⟩ | ⟨upstream, some_, q, output, covers⟩
  · have stays : rewrite cut.keptNodeIds b = b := if_neg fun both => external both.1
    obtain ⟨i, there, name, found⟩ := seeded.authored_fed
      (List.mem_filter.mpr ⟨listed, decide_eq_true ⟨target, external⟩⟩)
    obtain ⟨j, there', r, artifact, name', rest⟩ := carries
    obtain rfl : i = j := List.inj_on_of_nodup_map seeded.formed.inputNames
      (seeded.among.subset there) there' (name.trans name'.symm)
    rw [stays]
    exact .inl ⟨external, node, port, i, List.mem_of_find?_eq_some found, r, artifact, name', rest⟩
  · by_cases kept : b.fromNode ∈ cut.keptNodeIds
    · rw [rewrite, if_neg fun both => both.2 kept]
      exact .inr ⟨upstream, some_, q, seeded.portOf_cut kept output, covers⟩
    · have crosses : b ∈ crossingBindings assembly cut :=
        mem_crossingBindings.mpr ⟨listed, target, upstream, kept⟩
      obtain ⟨o, first, found⟩ := seeded.crossing_fed present crosses
      obtain ⟨r, artifact, carried, stored, traits⟩ := seeded.output_stored first
      rw [rewrite, if_pos ⟨upstream, kept⟩]
      exact .inl ⟨seedName_ne (b.fromNode, b.fromPort), rfl, rfl, _,
        List.mem_of_find?_eq_some found, r, artifact, rfl, carried, stored,
        fun t needed => List.all_eq_true.mp (traits q output) t (covers needed)⟩

theorem wellFormed : Acceptance.WellFormed modules artifacts cut.assembly (mergeInputs base seeds) := by
  obtain ⟨terminal, closed⟩ := seeded.closed
  obtain ⟨plan, made⟩ := seeded.made
  have slice := Cuts.materialize_slice closed made
  have listed {n : AssemblyNode} (member : n ∈ cut.assembly.nodes) :
      n ∈ assembly.nodes ∧ n.id ∈ cut.keptNodeIds := by
    rw [slice.nodes] at member
    exact ⟨(List.mem_filter.mp member).1, of_decide_eq_true (List.mem_filter.mp member).2⟩
  have counts {n : AssemblyNode} (member : n ∈ cut.assembly.nodes) (portName : String) :
      (Acceptance.bindingsOf assembly n.id portName).length =
        (Acceptance.bindingsOf cut.assembly n.id portName).length :=
    (port_rebinds closed made (listed member).2 portName).length_eq
  obtain ⟨t, p, declared, output, scalar⟩ := seeded.formed.terminal
  have kept : t.node ∈ cut.keptNodeIds := by
    have same := closed.declared
    rw [declared] at same
    rw [show t.node = terminal from Option.some.inj same]
    exact slice.keeps
  have ending := seeded.portOf_cut kept output
  constructor
  · rw [slice.id]
    exact seeded.formed.id
  · obtain ⟨n, member, -⟩ := ending
    exact List.ne_nil_of_mem member
  · exact fun n member => seeded.formed.named n (listed member).1
  · rw [slice.nodes]
    exact seeded.formed.distinct.sublist (List.filter_sublist.map _)
  · exact fun n member => seeded.formed.resolved n (listed member).1
  · exact ⟨t, p, slice.declared.trans declared, ending, scalar⟩
  · exact merged_names base seeds
  · intro i member
    rcases mem_merged member with there | seed
    · exact seeded.formed.stored i (seeded.among.subset there)
    · obtain ⟨runId, seedsMade⟩ := seeded.seeded
      obtain ⟨q, -, o, name, first, artifact⟩ := (seedsOfRun_ok seedsMade).2.1 i seed
      obtain ⟨r, found, carried, stored, -⟩ := seeded.output_stored first
      exact ⟨fun nameless => seedName_ne q (name.symm.trans nameless), r, artifact.trans carried,
        mem_of_lookup stored⟩
  · intro after member
    obtain ⟨b, there, target, rfl⟩ := seeded.binding_of_cut member
    obtain ⟨q, input, source⟩ := seeded.formed.bindings b there
    have same : (rewrite cut.keptNodeIds b).toNode = b.toNode ∧
        (rewrite cut.keptNodeIds b).toPort = b.toPort := by
      unfold rewrite
      split_ifs <;> exact ⟨rfl, rfl⟩
    refine ⟨q, ?_, seeded.source_of_cut present there target source⟩
    rw [same.1, same.2]
    exact seeded.portOf_cut target input
  · intro n member cap resolves q input required unbound
    have bound := seeded.formed.bound n (listed member).1 cap resolves q input required
    refine bound (List.length_eq_zero_iff.mp ?_)
    rw [counts member, unbound]
    rfl
  · intro n member cap resolves q input scalar
    rw [← counts member]
    exact seeded.formed.single n (listed member).1 cap resolves q input scalar
  · intro x loop
    refine seeded.formed.acyclic x (Relation.TransGen.mono ?_ x x loop)
    rintro y z ⟨after, member, upstream, from_, to_⟩
    obtain ⟨b, there, -, rfl⟩ := seeded.binding_of_cut member
    unfold rewrite at upstream from_ to_
    split_ifs at upstream from_ to_ with crosses
    · exact absurd upstream (seedName_ne (b.fromNode, b.fromPort))
    · exact ⟨b, there, upstream, from_, to_⟩

end Seeded

end Accepting

section Agreeing

variable [Sha256] {worker : String → List NamedArtifact → List NamedArtifact}
  {modules modules' : List ModuleSlot} {runId runId' : String} {f g : Flow}
  {start start' : RunSlot} {cut : AssemblyCut}

/-- A run and a run of its cut with the seeds of what the first has derived, as one worker leaves
them. -/
structure Paired (worker : String → List NamedArtifact → List NamedArtifact)
    (modules modules' : List ModuleSlot) (runId runId' : String) (start start' : RunSlot)
    (cut : AssemblyCut) (f g : Flow) : Prop where
  prior : Functional worker modules runId start f
  rest : Functional worker modules' runId' start' g
  assembly : start'.run.assembly = cut.assembly
  seeded : ∃ catalog artifacts derivations seeds,
    Seeded catalog artifacts start.run.assembly start.run.inputs start.run.inputs cut derivations
      seeds ∧
      validateSeedsPresent cut (mergeInputs start.run.inputs seeds) = .ok () ∧
      start'.run.inputs = mergeInputs start.run.inputs seeds ∧ derivations ⊆ f.derived

variable (paired : Paired worker modules modules' runId runId' start start' cut f g)
include paired

theorem Paired.cut_delivers {b : Binding} (listed : b ∈ start.run.assembly.bindings)
    (target : b.toNode ∈ cut.keptNodeIds)
    (source : b.input = "" → ∀ d ∈ f.derived, ∀ e ∈ g.derived, d.nodeId = b.fromNode →
      e.nodeId = b.fromNode → d.outputs = e.outputs)
    (delivered : ∃ r, resolveBinding f.slot b = some r)
    (delivered' : ∃ r, resolveBinding g.slot (rewrite cut.keptNodeIds b) = some r) :
    resolveBinding f.slot b = resolveBinding g.slot (rewrite cut.keptNodeIds b) := by
  obtain ⟨catalog, artifacts, derivations, seeds, seeded, present, given, known⟩ := paired.seeded
  have inputs : g.slot.run.inputs = mergeInputs start.run.inputs seeds :=
    paired.rest.inputs.trans given
  by_cases external : b.input ≠ ""
  · obtain ⟨i, there, name, found⟩ := seeded.authored_fed
      (List.mem_filter.mpr ⟨listed, decide_eq_true ⟨target, external⟩⟩)
    have here : inputByName start.run.inputs b.input = some i :=
      (find?_eq_some_iff_of_nodup seeded.formed.inputNames).mpr ⟨there, name⟩
    have stays : rewrite cut.keptNodeIds b = b := if_neg fun both => external both.1
    unfold inputByName at found here
    rw [stays, resolveBinding, resolveBinding, if_pos external, if_pos external,
      paired.prior.inputs, inputs, found, here]
  have upstream : b.input = "" := not_not.mp external
  by_cases kept : b.fromNode ∈ cut.keptNodeIds
  · have stays : rewrite cut.keptNodeIds b = b := if_neg fun both => both.2 kept
    rw [stays] at delivered' ⊢
    exact upstream_same paired.prior.settling paired.rest.settling upstream (source upstream)
      delivered delivered'
  · have crosses : b ∈ crossingBindings start.run.assembly cut :=
      mem_crossingBindings.mpr ⟨listed, target, upstream, kept⟩
    obtain ⟨o, first, found⟩ := seeded.crossing_fed present crosses
    obtain ⟨d, here, output⟩ := Option.bind_eq_some_iff.mp first
    obtain ⟨among, same⟩ := List.mem_filter.mp (List.mem_of_getLast? here)
    have latest : f.slot.latest.lookup b.fromNode = some d :=
      (paired.prior.settling.latest _ d).mpr ⟨known among, beq_iff_eq.mp same⟩
    have seed : (rewrite cut.keptNodeIds b).input ≠ "" := by
      rw [rewrite_crossing crosses]
      exact seedName_ne _
    unfold inputByName at found
    rw [resolveBinding, resolveBinding, if_neg external, if_pos seed, rewrite_crossing crosses,
      inputs, found, latest]
    show (d.outputs.find? (·.name == b.fromPort)).bind (·.artifact) = o.artifact
    rw [show d.outputs.find? (·.name == b.fromPort) = some o from output]
    rfl

theorem Paired.cut_agree {rank : String → Nat}
    (up : ∀ b ∈ start.run.assembly.bindings, b.input = "" → rank b.fromNode < rank b.toNode)
    {d e : Derivation} (member : d ∈ f.derived) (member' : e ∈ g.derived)
    (same : d.nodeId = e.nodeId) : d.inputs = e.inputs ∧ d.outputs = e.outputs := by
  suffices inputs : d.inputs = e.inputs by
    refine ⟨inputs, ?_⟩
    rw [paired.prior.outputs d member, paired.rest.outputs e member', same, inputs]
  obtain ⟨catalog, artifacts, derivations, seeds, seeded, -⟩ := id paired.seeded
  obtain ⟨terminal, closed⟩ := seeded.closed
  obtain ⟨plan, made⟩ := seeded.made
  have slice := Cuts.materialize_slice closed made
  induction height : rank d.nodeId using Nat.strong_induction_on generalizing d e with
  | _ n below =>
      obtain ⟨node, here, id, key, unit, -⟩ := paired.prior.settling.committed d member
      obtain ⟨node', here', id', key', unit', -⟩ := paired.rest.settling.committed e member'
      rw [paired.prior.terms.assembly] at here
      rw [paired.rest.terms.assembly, paired.assembly, slice.nodes] at here'
      obtain ⟨here', kept⟩ := List.mem_filter.mp here'
      obtain rfl : node = node' :=
        List.inj_on_of_nodup_map closed.distinct here here' (id.trans (same.trans id'.symm))
      have kept := of_decide_eq_true kept
      have resolves := currentUnit_resolves unit
      have resolves' := currentUnit_resolves unit'
      have equal : resolveInputs f.slot node = resolveInputs g.slot node := by
        unfold resolveInputs
        rw [paired.prior.terms.assembly, paired.rest.terms.assembly, paired.assembly,
          seeded.bindingsOf_cut kept, List.mapM_map]
        refine mapM_congr fun b bound => ?_
        obtain ⟨listed, target⟩ := List.mem_filter.mp bound
        have target : b.toNode = node.id := beq_iff_eq.mp target
        have delivered := resolveBinding_isSome resolves
          (by rw [paired.prior.terms.assembly]; exact bound)
        have delivered' := resolveBinding_isSome resolves'
          (by
            rw [paired.rest.terms.assembly, paired.assembly, seeded.bindingsOf_cut kept]
            exact List.mem_map_of_mem bound)
        rw [Function.comp_apply, (rewrite_target _ b).2,
          paired.cut_delivers listed (target ▸ kept) ?_ delivered delivered']
        intro upstream x hx y hy from' from''
        have lower : rank x.nodeId < n := by
          rw [from', ← height, ← id, ← target]
          exact up b listed upstream
        rw [paired.prior.outputs x hx, paired.rest.outputs y hy, from', from'',
          below _ lower hx hy (from'.trans from''.symm) rfl]
      rw [resolves, resolves'] at equal
      exact Option.some.inj equal

theorem Paired.cut_answers {rank : String → Nat}
    (up : ∀ b ∈ start.run.assembly.bindings, b.input = "" → rank b.fromNode < rank b.toNode)
    (completed : f.slot.run.state = .completed) (completed' : g.slot.run.state = .completed) :
    ∃ r, f.slot.run.answer = some r ∧ g.slot.run.answer = some r := by
  obtain ⟨catalog, artifacts, derivations, seeds, seeded, -⟩ := id paired.seeded
  obtain ⟨terminal, closed⟩ := seeded.closed
  obtain ⟨plan, made⟩ := seeded.made
  obtain ⟨d, member, r, answer, given⟩ := paired.prior.answer completed
  obtain ⟨e, member', r', answer', given'⟩ := paired.rest.answer completed'
  refine ⟨r, given, ?_⟩
  rw [paired.prior.terms.assembly] at answer
  rw [paired.rest.terms.assembly, paired.assembly] at answer'
  have declared := (Cuts.materialize_slice closed made).declared
  exact given'.trans (congrArg some (terminal_same declared answer answer'
    fun same => (paired.cut_agree up member member' same).2).symm)

end Agreeing

section Runs

variable [Sha256] [Prost] {policy : ArtifactStorePolicy}
  {worker : String → List NamedArtifact → List NamedArtifact}

/-- Calls that a run is served by, each after those before it. -/
def Serving (policy : ArtifactStorePolicy)
    (worker : String → List NamedArtifact → List NamedArtifact) (runId : String)
    (nodes : List AssemblyNode) (s : State) (calls : List Call) : Prop :=
  ∀ before next after, calls = before ++ next :: after →
    Served policy worker runId nodes s before next

/-- Ids that are free of the characters that seed names and work ids are put together with. -/
def PlainIds (nodes : List AssemblyNode) : Prop :=
  ∀ n ∈ nodes, '/' ∉ n.id.toList ∧ ':' ∉ n.id.toList

omit [Sha256] [Prost] in
theorem PlainIds.plainId {nodes : List AssemblyNode} (plain : PlainIds nodes) {n : AssemblyNode}
    (member : n ∈ nodes) : PlainId n.id := by
  have colon := (plain n member).2
  refine ⟨fun starts => colon (starts.subset ?_), fun starts => colon (starts.subset ?_)⟩ <;> decide

variable {s : State} {start : Call} {req : RunRequest} {slot : RunSlot}

theorem formed_later (reached : Reachable policy s) (started : Started policy s start req slot)
    {calls : List Call} {f : Flow}
    (tracks : Tracks s.modules req.id (exec policy (step policy s start).1 calls) f)
    (terms : SameTerms slot f.slot) :
    let t := exec policy (step policy s start).1 calls
    Acceptance.WellFormed t.modules t.artifacts slot.run.assembly slot.run.inputs := by
  intro t
  obtain ⟨given, assembly, -, -, accepted, fresh⟩ := started.fresh
  have frozen : slot.run.assembly = assembly := by rw [fresh]; rfl
  have inputs : slot.run.inputs = req.inputs := by rw [fresh]; rfl
  obtain ⟨atoms, path⟩ := exec_path policy (reachable_wellFormed reached) (start :: calls)
  rw [inputs]
  refine @wellFormed_grown s.modules _ s.artifacts _ _ _ ?_ ?_ ?_
  · rw [frozen]
    exact (Acceptance.validateAssembly_accepts start.env).mp accepted
  · have caps := tracks.caps
    rw [terms.assembly] at caps
    exact caps
  · exact fun id artifact found => path.keeps
      (P := fun u : State => u.artifacts.lookup id = some artifact)
      (fun u a guard before => artifact_persists guard before) found

private theorem derivations_later (reached : Reachable policy s) (calls : List Call) :
    s.derivations ⊆ (exec policy s calls).derivations := by
  obtain ⟨atoms, path⟩ := exec_path policy (reachable_wellFormed reached) calls
  refine path.keeps (P := fun t : State => s.derivations ⊆ t.derivations) ?_ (List.Subset.refl _)
  intro t a guard before
  show s.derivations ⊆ (a.apply t).derivations
  rw [derivations_apply guard]
  exact List.subset_append_of_subset_left _ before

theorem seeded_among (reached : Reachable policy s) (started : Started policy s start req slot)
    (plain : PlainIds slot.run.assembly.nodes) {base : List NamedArtifact}
    (among : base.Sublist slot.run.inputs) (named : ∀ i ∈ base, isSeedInputName i.name = false)
    {plan : NodePlan} {cut : AssemblyCut} (made : materializeCut slot.run.assembly plan = .ok cut)
    (reads : ∀ b ∈ authoredBindings slot.run.assembly cut, ∃ i ∈ base, i.name = b.input)
    {calls : List Call} {f : Flow}
    (tracks : Tracks s.modules req.id (exec policy (step policy s start).1 calls) f)
    (terms : SameTerms slot f.slot) {derivations : List Derivation}
    (known : derivations ⊆ f.derived) {runId : String} {seeds : List NamedArtifact}
    (seedsMade : seedsOfRun runId derivations (cut.skipped.map (·.nodeId)) = .ok seeds) :
    let t := exec policy (step policy s start).1 calls
    Seeded t.modules t.artifacts slot.run.assembly slot.run.inputs base cut derivations seeds := by
  intro t
  refine ⟨formed_later reached started tracks terms, fun n member => (plain n member).1, among, named,
    reads, ⟨plan, made⟩, fun d member => ?_, ⟨runId, seedsMade⟩⟩
  have fitting := reachable_fitting (reachable_exec calls (reachable_step start reached))
  have held := known member
  rw [← tracks.derived, List.mem_filter] at held
  obtain ⟨held, own⟩ := held
  obtain ⟨⟨cap, pin, fits⟩, other, found, node⟩ := fitting d held
  rw [beq_iff_eq.mp own, tracks.found] at found
  obtain rfl := Option.some.inj found
  rw [← terms.assembly]
  exact ⟨node, cap, pin, fits⟩

theorem seeded_later (reached : Reachable policy s) (started : Started policy s start req slot)
    (plain : PlainIds slot.run.assembly.nodes)
    (named : ∀ i ∈ slot.run.inputs, isSeedInputName i.name = false) {plan : NodePlan}
    {cut : AssemblyCut} (made : materializeCut slot.run.assembly plan = .ok cut) {calls : List Call}
    {f : Flow} (tracks : Tracks s.modules req.id (exec policy (step policy s start).1 calls) f)
    (terms : SameTerms slot f.slot) {derivations : List Derivation}
    (known : derivations ⊆ f.derived) {runId : String} {seeds : List NamedArtifact}
    (seedsMade : seedsOfRun runId derivations (cut.skipped.map (·.nodeId)) = .ok seeds) :
    let t := exec policy (step policy s start).1 calls
    Seeded t.modules t.artifacts slot.run.assembly slot.run.inputs slot.run.inputs cut derivations
      seeds :=
  seeded_among reached started plain (.refl _) named made
    (fun _ reads => authored_given (formed_later reached started tracks terms) reads) tracks terms
    known seedsMade

theorem started_whole (started : Started policy s start req slot) {assembly : Assembly}
    (given : req.assembly = some assembly) (whole : req.includeNodes = []) :
    slot.run.assembly = assembly ∧ slot.run.inputs = req.inputs := by
  obtain ⟨given', frozen, asked, made, -, fresh⟩ := started.fresh
  obtain rfl := Option.some.inj (given.symm.trans asked)
  rw [materializeAssembly, if_pos whole] at made
  obtain rfl := Except.ok.inj made
  exact ⟨by rw [fresh]; rfl, by rw [fresh]; rfl⟩

theorem paired_later (reached : Reachable policy s) (started : Started policy s start req slot)
    (plain : PlainIds slot.run.assembly.nodes)
    (named : ∀ i ∈ slot.run.inputs, isSeedInputName i.name = false) {plan : NodePlan}
    {cut : AssemblyCut} (made : materializeCut slot.run.assembly plan = .ok cut) {calls : List Call}
    {f : Flow} (tracks : Tracks s.modules req.id (exec policy (step policy s start).1 calls) f)
    (terms : SameTerms slot f.slot) {derivations : List Derivation}
    (known : derivations ⊆ f.derived) {seeds : List NamedArtifact}
    (seedsMade : seedsOfRun req.id derivations (cut.skipped.map (·.nodeId)) = .ok seeds)
    (present : validateSeedsPresent cut (mergeInputs slot.run.inputs seeds) = .ok ())
    {again : Call} {req' : RunRequest} {slot' : RunSlot}
    (started' : Started policy (exec policy (step policy s start).1 calls) again req' slot')
    (cutGiven : req'.assembly = some cut.assembly) (whole : req'.includeNodes = [])
    (inputsGiven : req'.inputs = mergeInputs slot.run.inputs seeds) {more : List Call}
    (serving : Serving policy worker req.id slot.run.assembly.nodes (step policy s start).1
      (calls ++ again :: more))
    (servingCut : Serving policy worker req'.id cut.assembly.nodes
      (step policy (exec policy (step policy s start).1 calls) again).1 more) :
    let t := exec policy (step policy s start).1 calls
    let w := exec policy (step policy t again).1 more
    ∃ h k, Tracks s.modules req.id w h ∧ Tracks t.modules req'.id w k ∧
      Paired worker s.modules t.modules req.id req'.id slot slot' cut h k := by
  intro t w
  have seeded := seeded_later reached started plain named made tracks terms known seedsMade
  obtain ⟨cutAssembly, cutInputs⟩ := started_whole started' cutGiven whole
  have reached' := reachable_exec calls (reachable_step start reached)
  have cutIds : ∀ node ∈ slot'.run.assembly.nodes, PlainId node.id := by
    obtain ⟨terminal, closed⟩ := seeded.closed
    rw [cutAssembly, (Cuts.materialize_slice closed made).nodes]
    exact fun node member => plain.plainId (List.mem_filter.mp member).1
  rw [← cutAssembly] at servingCut
  obtain ⟨h, tracksPrior, prior⟩ :=
    functional_exec policy reached started (fun _ member => plain.plainId member) serving
  obtain ⟨k, tracksCut, rest⟩ := functional_exec policy reached' started' cutIds servingCut
  rw [show exec policy (step policy s start).1 (calls ++ again :: more) = w from
    exec_append _ _ _ _] at tracksPrior
  refine ⟨h, k, tracksPrior, tracksCut, prior, rest, cutAssembly, t.modules, t.artifacts,
    derivations, seeds, seeded, present, cutInputs.trans inputsGiven, fun d member => ?_⟩
  have held := known member
  rw [← tracks.derived, List.mem_filter] at held
  rw [← tracksPrior.derived]
  exact List.mem_filter.mpr ⟨derivations_later reached' (again :: more) held.1, held.2⟩

/-- Let a run that takes no injections be served by a fixed worker, and let every node that a cut of its
assembly drops have a derivation. Then the run has seeds for the cut. Either a required one is missing,
for want of an optional output; or the kernel accepts the cut with the run's inputs and the seeds, now
and after any further calls that do not register a module which a node of the run pins, and in every run
of it that the same worker serves, a node that the first run has committed too has the same inputs and
outputs, and the answer is the same once both are COMPLETED. -/
theorem cut_preserves_results (reached : Reachable policy s)
    (started : Started policy s start req slot) (plain : PlainIds slot.run.assembly.nodes)
    (named : ∀ i ∈ req.inputs, isSeedInputName i.name = false) {calls : List Call}
    (served : Serving policy worker req.id slot.run.assembly.nodes (step policy s start).1 calls)
    {prior : RunSlot}
    (found : (exec policy (step policy s start).1 calls).runs.lookup req.id = some prior)
    {plan : NodePlan} {cut : AssemblyCut}
    (made : materializeCut prior.run.assembly plan = .ok cut) :
    let t := exec policy (step policy s start).1 calls
    let done := t.derivations.filter (·.runId == req.id)
    (∀ x ∈ cut.skipped, ∃ d ∈ done, d.nodeId = x.nodeId) →
    ∃ seeds, seedsOfRun req.id done (cut.skipped.map (·.nodeId)) = .ok seeds ∧
      let inputs := mergeInputs prior.run.inputs seeds
      ((∃ e, validateSeedsPresent cut inputs = .error e) ∧
          Lacks t.modules prior.run.assembly cut done ∨
        ∀ between, Serving policy worker req.id slot.run.assembly.nodes (step policy s start).1
            (calls ++ between) →
          let u := exec policy (step policy s start).1 (calls ++ between)
          (∀ env, validateAssembly env u.modules u.artifacts cut.assembly inputs = .ok ()) ∧
          ∀ again req' slot', Started policy u again req' slot' →
            req'.assembly = some cut.assembly → req'.includeNodes = [] → req'.inputs = inputs →
            ∀ more, Serving policy worker req.id slot.run.assembly.nodes (step policy s start).1
                (calls ++ between ++ again :: more) →
              Serving policy worker req'.id cut.assembly.nodes (step policy u again).1 more →
              let w := exec policy (step policy u again).1 more
              (∀ d ∈ w.derivations, ∀ e ∈ w.derivations, d.runId = req.id → e.runId = req'.id →
                d.nodeId = e.nodeId → d.inputs = e.inputs ∧ d.outputs = e.outputs) ∧
              ∀ now now', w.runs.lookup req.id = some now → w.runs.lookup req'.id = some now' →
                now.run.state = .completed → now'.run.state = .completed →
                ∃ r, now.run.answer = some r ∧ now'.run.answer = some r) := by
  intro t done derived
  obtain ⟨given, assembly, -, -, accepted, fresh⟩ := started.fresh
  have frozen : slot.run.assembly = assembly := by rw [fresh]; rfl
  have first : slot.run.inputs = req.inputs := by rw [fresh]; rfl
  rw [← first] at named
  have plainId : ∀ node ∈ slot.run.assembly.nodes, PlainId node.id :=
    fun node member => plain.plainId member
  obtain ⟨f, tracks, functional⟩ := functional_exec policy reached started plainId served
  obtain rfl := Option.some.inj (tracks.found.symm.trans found)
  have reached' := reachable_exec calls (reachable_step start reached)
  have carried : ∀ d ∈ done, ∀ o ∈ d.outputs, o.artifact.isSome = true := by
    intro d member o output
    obtain ⟨⟨cap, -, outputs⟩, -⟩ := reachable_fitting reached' d (List.mem_filter.mp member).1
    obtain ⟨p, r, artifact, -, carries, -⟩ := outputs.stored o output
    rw [carries]
    rfl
  have dropped : ∀ x ∈ cut.skipped.map (·.nodeId), ∃ d ∈ done, d.nodeId = x :=
    List.forall_mem_map.mpr derived
  obtain ⟨seeds, seedsMade⟩ := @seedsOfRun_total done req.id cut dropped carried
  refine ⟨seeds, seedsMade, ?_⟩
  rw [functional.terms.assembly] at made ⊢
  rw [functional.inputs]
  intro inputs
  cases present : validateSeedsPresent cut inputs with
  | error e =>
      have seeded := seeded_later reached started plain named made tracks functional.terms
        (fun d member => tracks.derived ▸ member) seedsMade
      exact .inl ⟨⟨e, rfl⟩, seeded.lacks_of_refused derived present⟩
  | ok passed =>
      right
      intro between serving u
      obtain ⟨g, tracks', functional'⟩ := functional_exec policy reached started plainId serving
      have known : done ⊆ g.derived := by
        intro d member
        obtain ⟨held, own⟩ := List.mem_filter.mp member
        rw [← tracks'.derived, exec_append]
        exact List.mem_filter.mpr ⟨derivations_later reached' between held, own⟩
      have seeded := seeded_later reached started plain named made tracks' functional'.terms known
        seedsMade
      refine ⟨fun env => (Acceptance.validateAssembly_accepts env).mpr (seeded.wellFormed present),
        ?_⟩
      intro again req' slot' started' cutGiven whole inputsGiven more serving' servingCut w
      obtain ⟨h, k, tracksPrior, tracksCut, paired⟩ := paired_later reached started plain named made
        tracks' functional'.terms known seedsMade present started' cutGiven whole inputsGiven
        serving' servingCut
      obtain ⟨rank, up⟩ := (validateAssembly_ok accepted).acyclic
      rw [← frozen] at up
      have among {runId : String} {x : Flow} {modules : List ModuleSlot}
          (tracked : Tracks modules runId w x) {d : Derivation} (held : d ∈ w.derivations)
          (own : d.runId = runId) : d ∈ x.derived := by
        rw [← tracked.derived]
        exact List.mem_filter.mpr ⟨held, beq_iff_eq.mpr own⟩
      refine ⟨fun d held e held' own own' same =>
        paired.cut_agree up (among tracksPrior held own) (among tracksCut held' own') same, ?_⟩
      intro now now' foundPrior foundCut completed completed'
      obtain rfl := Option.some.inj (tracksPrior.found.symm.trans foundPrior)
      obtain rfl := Option.some.inj (tracksCut.found.symm.trans foundCut)
      exact paired.cut_answers up completed completed'

theorem Serving.nil {runId : String} {nodes : List AssemblyNode} {s : State} :
    Serving policy worker runId nodes s [] := by
  rintro before next after split
  simp at split

theorem Serving.snoc {runId : String} {nodes : List AssemblyNode} {s : State} {calls : List Call}
    {last : Call} (serving : Serving policy worker runId nodes s calls)
    (served : Served policy worker runId nodes s calls last) :
    Serving policy worker runId nodes s (calls ++ [last]) := by
  intro before next after split
  rcases after.eq_nil_or_concat with rfl | ⟨after, other, rfl⟩
  · obtain ⟨rfl, same⟩ := List.append_inj' split rfl
    obtain rfl := List.head_eq_of_cons_eq same
    exact served
  · rw [List.concat_eq_append, ← List.cons_append, ← List.append_assoc] at split
    obtain ⟨rfl, -⟩ := List.append_inj' split rfl
    exact serving before next after rfl

end Runs

section Relay

open Substrate.Kernel.Concrete

/-- The node `m` hears what the node `n` says. -/
def relay : Assembly :=
  { id := "relay", nodes := [⟨"n", "echo", "1", "say"⟩, ⟨"m", "echo", "1", "say"⟩]
    bindings := [{ toNode := "n", toPort := "heard", input := "line" },
      { toNode := "m", toPort := "heard", fromNode := "n", fromPort := "said" }]
    terminal := some ⟨"m", "said"⟩ }

/-- The relay after `n`. -/
def relayCut : AssemblyCut :=
  { assembly :=
      { relay with
        nodes := [⟨"m", "echo", "1", "say"⟩]
        bindings := [{ toNode := "m", toPort := "heard", input := "__seed/n/said" }] }
    skipped := [⟨"n", "echo", "say", "1"⟩]
    requiredSeeds := [⟨"__seed/n/said", "n", "said", "m", "heard"⟩]
    keptNodeIds := ["m"] }

def relayRequest : RunRequest := { echoRequest .unspecified with assembly := some relay }

def startRelay : Call := callAt 0 (.startRun relayRequest)

/-- Both echoes are claimed and say the line. -/
def relayed : List Call :=
  [claimAt 0, commitAt 1 "work:r/n" (text "one"), claimAt 2, commitAt 3 "work:r/m" (text "one")]

/-- A worker that says the line it knows. -/
def sayOne : String → List NamedArtifact → List NamedArtifact := fun _ _ => [given "said" (text "one")]

def claimOf (runId : String) (ms : Int64) : Call := callAt ms (.claimReady { runId })

def commitOf (runId : String) (ms : Int64) (workId : String) : Call :=
  callAt ms (.commit { runId, workId, outputs := [given "said" (text "one")] })

private theorem relay_claimed (runId other : String) (nodes : List AssemblyNode) (s : State)
    (before : List Call) (ms : Int64) :
    Served policy sayOne runId nodes s before (claimOf other ms) :=
  ⟨by simp [SparesCall, claimOf, callAt], by simp [claimOf, callAt], by simp [claimOf, callAt]⟩

private theorem relay_begun (runId : String) (nodes : List AssemblyNode) (s : State)
    (before : List Call) (ms : Int64) (req : RunRequest) :
    Served policy sayOne runId nodes s before (callAt ms (.startRun req)) :=
  ⟨by simp [SparesCall, callAt], by simp [callAt], by simp [callAt]⟩

private theorem relay_committed {runId : String} (nodes : List AssemblyNode) {s : State}
    {before : List Call} {ms : Int64} {id : String}
    (issued : (issuedOf policy runId s before).any (·.id == id) = true) :
    Served policy sayOne runId nodes s before (commitOf runId ms id) := by
  refine ⟨by simp [SparesCall, commitOf, callAt], by simp [commitOf, callAt], ?_⟩
  intro submitted op _
  obtain rfl := Op.commit.inj op
  obtain ⟨w, handed, named⟩ := List.any_eq_true.mp issued
  exact ⟨w, handed, beq_iff_eq.mp named, rfl⟩

private theorem relay_elsewhere {runId other : String} (apart : other ≠ runId)
    (nodes : List AssemblyNode) (s : State) (before : List Call) (ms : Int64) (id : String) :
    Served policy sayOne runId nodes s before (commitOf other ms id) := by
  refine ⟨by simp [SparesCall, commitOf, callAt], by simp [commitOf, callAt], ?_⟩
  intro submitted op own
  obtain rfl := Op.commit.inj op
  exact absurd own apart

theorem relay_started :
    ∃ slot, Started policy (exec policy {} (stocked .once)) startRelay relayRequest slot ∧
      slot.run.assembly = relay := by
  have accepted : ((step policy (exec policy {} (stocked .once)) startRelay).1.runs.lookup "r").map
      (·.run.assembly) = some relay := by decide +kernel
  have absent : "r" ∉ (exec policy {} (stocked .once)).runs := by decide +kernel
  obtain ⟨slot, found, assembly⟩ := Option.map_eq_some_iff.mp accepted
  exact ⟨slot, ⟨rfl, absent, found⟩, assembly⟩

theorem relay_serving (nodes : List AssemblyNode) :
    Serving policy sayOne "r" nodes (step policy (exec policy {} (stocked .once)) startRelay).1
      relayed := by
  have first : (issuedOf policy "r" (step policy (exec policy {} (stocked .once)) startRelay).1
      [claimAt 0]).any (·.id == "work:r/n") = true := by decide +kernel
  have second : (issuedOf policy "r" (step policy (exec policy {} (stocked .once)) startRelay).1
      [claimAt 0, commitAt 1 "work:r/n" (text "one"), claimAt 2]).any (·.id == "work:r/m") =
        true := by decide +kernel
  exact (((Serving.nil.snoc (relay_claimed "r" "r" nodes _ _ 0)).snoc
    (relay_committed nodes first)).snoc (relay_claimed "r" "r" nodes _ _ 2)).snoc
      (relay_committed nodes second)

theorem relay_seeds :
    seedsOfRun "r" ((exec policy (step policy (exec policy {} (stocked .once)) startRelay).1
      relayed).derivations.filter (·.runId == "r")) ["n"] =
        .ok [given "__seed/n/said" (text "one")] := by decide +kernel

theorem relay_present : validateSeedsPresent relayCut (mergeInputs [given "line" (text "one")]
    [given "__seed/n/said" (text "one")]) = .ok () := by decide +kernel

/-- What is left of the relay is run under another id. -/
def restRequest : RunRequest :=
  { relayRequest with
    id := "q"
    assembly := some relayCut.assembly
    inputs := [given "__seed/n/said" (text "one"), given "line" (text "one")] }

def startRest : Call := callAt 4 (.startRun restRequest)

def restCalls : List Call := [claimOf "q" 5, commitOf "q" 6 "work:q/m"]

/-- The kernel after the relay, and after both. -/
def afterRelay : State := exec policy (step policy (exec policy {} (stocked .once)) startRelay).1 relayed

def afterBoth : State := exec policy (step policy afterRelay startRest).1 restCalls

private theorem rest_started :
    ∃ slot, Started policy afterRelay startRest restRequest slot := by
  have accepted : ((step policy afterRelay startRest).1.runs.lookup "q").isSome = true := by
    decide +kernel
  have absent : "q" ∉ afterRelay.runs := by decide +kernel
  obtain ⟨slot, found⟩ := Option.isSome_iff_exists.mp accepted
  exact ⟨slot, rfl, absent, found⟩

private theorem rest_serving (nodes : List AssemblyNode) :
    Serving policy sayOne "q" nodes (step policy afterRelay startRest).1 restCalls := by
  have issued : (issuedOf policy "q" (step policy afterRelay startRest).1 [claimOf "q" 5]).any
      (·.id == "work:q/m") = true := by decide +kernel
  exact (Serving.nil.snoc (relay_claimed "q" "q" nodes _ _ 5)).snoc (relay_committed nodes issued)

private theorem both_serving (nodes : List AssemblyNode) :
    Serving policy sayOne "r" nodes (step policy (exec policy {} (stocked .once)) startRelay).1
      (relayed ++ startRest :: restCalls) :=
  (((relay_serving nodes).snoc (relay_begun "r" nodes _ _ 4 restRequest)).snoc
    (relay_claimed "r" "q" nodes _ _ 5)).snoc (relay_elsewhere (by decide) nodes _ _ 6 "work:q/m")

/-- The second echo alone is accepted with the first one's line, and says what it has said in the
relay. -/
theorem relay_preserved :
    (∀ env, validateAssembly env afterRelay.modules afterRelay.artifacts relayCut.assembly
      restRequest.inputs = .ok ()) ∧
    (∃ d ∈ afterBoth.derivations, ∃ e ∈ afterBoth.derivations, d.runId = "r" ∧ e.runId = "q" ∧
      d.nodeId = "m" ∧ e.nodeId = "m" ∧ d.inputs = e.inputs ∧ d.outputs = e.outputs) ∧
    ∃ now now' r, afterBoth.runs.lookup "r" = some now ∧ afterBoth.runs.lookup "q" = some now' ∧
      now.run.answer = some r ∧ now'.run.answer = some r := by
  have finished : (afterRelay.runs.lookup "r").map (fun prior => (prior.run.assembly,
      prior.run.inputs)) = some (relay, [given "line" (text "one")]) := by decide +kernel
  have derived : afterRelay.derivations.any (fun d => d.runId == "r" && d.nodeId == "n") = true := by
    decide +kernel
  have completed : (afterBoth.runs.lookup "r").map (·.run.state) = some .completed := by
    decide +kernel
  have completed' : (afterBoth.runs.lookup "q").map (·.run.state) = some .completed := by
    decide +kernel
  have first : afterBoth.derivations.any (fun d => d.runId == "r" && d.nodeId == "m") = true := by
    decide +kernel
  have second : afterBoth.derivations.any (fun d => d.runId == "q" && d.nodeId == "m") = true := by
    decide +kernel
  obtain ⟨slot, started, assembly⟩ := relay_started
  obtain ⟨prior, held, same⟩ := Option.map_eq_some_iff.mp finished
  obtain ⟨same, inputs⟩ := Prod.mk.inj same
  obtain ⟨chosen, made, kept⟩ := @cut_preserves_results _ _ policy sayOne _ startRelay relayRequest
    slot ⟨_, rfl⟩ started (by rw [assembly]; unfold PlainIds; decide) (by decide) relayed
    (relay_serving _) prior held (.after "n") relayCut (by rw [same]; rfl) (by
      obtain ⟨d, member, both⟩ := List.any_eq_true.mp derived
      obtain ⟨own, node⟩ := Bool.and_eq_true_iff.mp both
      exact List.forall_mem_singleton.mpr ⟨d, List.mem_filter.mpr ⟨member, own⟩, beq_iff_eq.mp node⟩)
  obtain rfl := Except.ok.inj (relay_seeds.symm.trans made)
  rw [inputs] at kept
  rcases kept with ⟨⟨e, refused⟩, -⟩ | kept
  · rw [relay_present] at refused
    cases refused
  · obtain ⟨accepted, runs⟩ := kept [] (by rw [List.append_nil]; exact relay_serving _)
    rw [List.append_nil] at accepted runs
    obtain ⟨slot', started'⟩ := rest_started
    obtain ⟨results, answers⟩ := runs startRest restRequest slot' started' rfl rfl
      (by decide +kernel) restCalls (both_serving _) (rest_serving _)
    refine ⟨accepted, ?_, ?_⟩
    · obtain ⟨d, member, own⟩ := List.any_eq_true.mp first
      obtain ⟨e, member', own'⟩ := List.any_eq_true.mp second
      rw [Bool.and_eq_true, beq_iff_eq, beq_iff_eq] at own own'
      exact ⟨d, member, e, member', own.1, own'.1, own.2, own'.2,
        results d member e member' own.1 own'.1 (own.2.trans own'.2.symm)⟩
    · obtain ⟨now, found, done⟩ := Option.map_eq_some_iff.mp completed
      obtain ⟨now', found', done'⟩ := Option.map_eq_some_iff.mp completed'
      obtain ⟨r, answer, answer'⟩ := answers now now' found found' done done'
      exact ⟨now, now', r, found, found', answer, answer'⟩

end Relay

end Substrate.Protocol.Reseeds
