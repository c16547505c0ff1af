/- ID: Substrate/Protocol/Typing
   digest: Work that is handed out carries one well-typed entry for each binding of its node. -/

import Substrate.Kernel.Concrete
import Substrate.Protocol.Content
import Substrate.Protocol.Frozen

set_option autoImplicit false
set_option relaxedAutoImplicit false

namespace Substrate.Protocol.Typing

open Substrate.Kernel.Wire
open Substrate.Kernel.Hashing
open Substrate.Kernel.Memory
open Substrate.Kernel.Registry
open Substrate.Kernel.Assembly (nodeById inputByName)
open Substrate.Kernel.Schedule
open Substrate.Kernel.Runs
open Substrate.Kernel.Work
open Substrate.Kernel.Api
open Substrate.Protocol.Atoms
open Substrate.Protocol.Slots
open Substrate.Protocol.Delivery
open Substrate.Protocol.Refine
open Substrate.Protocol.Content (artifacts_apply)
open Substrate.Protocol.Frozen (providers_append providers_setLifecycle)
open Substrate.Protocol.Validation
open Substrate.Library.Checks
open Substrate.Library.FiniteMap
open Substrate.Library.Transition

/-- The first capability registered at a node's coordinate: what a started run validated against. -/
def pinned (modules : List ModuleSlot) (node : AssemblyNode) : Option Capability :=
  (providers modules node).head?

theorem pinned_of_resolved {modules : List ModuleSlot} {node : AssemblyNode} {cap : Capability}
    (resolved : capabilityForNode modules node = .ok cap) : pinned modules node = some cap := by
  unfold capabilityForNode at resolved
  unfold pinned
  split at resolved
  · cases resolved
  · rename_i found single
    rw [single, Except.ok.inj resolved]
    rfl
  · cases resolved

theorem pinned_append {modules more : List ModuleSlot} {node : AssemblyNode} {cap : Capability}
    (known : pinned modules node = some cap) : pinned (modules ++ more) node = some cap := by
  unfold pinned at known ⊢
  rw [providers_append, List.head?_append, known]
  rfl

theorem resolved_of_append {modules more : List ModuleSlot} {node : AssemblyNode}
    {cap cap' : Capability} (known : pinned modules node = some cap)
    (resolved : capabilityForNode (modules ++ more) node = .ok cap') :
    capabilityForNode modules node = .ok cap' := by
  have only : providers (modules ++ more) node = [cap'] := by
    unfold capabilityForNode at resolved
    split at resolved
    · cases resolved
    · rename_i found single
      rw [single, Except.ok.inj resolved]
    · cases resolved
  rw [providers_append] at only
  unfold pinned at known
  cases here : providers modules node with
  | nil => simp [here] at known
  | cons first rest =>
      rw [here, List.cons_append, List.cons.injEq, List.append_eq_nil_iff] at only
      obtain ⟨rfl, rfl, -⟩ := only
      unfold capabilityForNode
      rw [here]

/-- Every atom keeps what is pinned, and resolves nothing that was not resolved. -/
theorem pinned_apply [Sha256] [Prost] (s : State) (a : Atom) {node : AssemblyNode}
    {cap : Capability} (known : pinned s.modules node = some cap) :
    pinned (a.apply s).modules node = some cap ∧
      ∀ cap', capabilityForNode (a.apply s).modules node = .ok cap' →
        capabilityForNode s.modules node = .ok cap' := by
  cases a with
  | registered manifest =>
      exact ⟨pinned_append known, fun cap' resolved => resolved_of_append known resolved⟩
  | advanced name target =>
      have same := providers_setLifecycle name target s.modules node
      refine ⟨?_, fun cap' resolved => ?_⟩
      · unfold pinned at known ⊢
        show (providers (setLifecycle name target s.modules) node).head? = some cap
        rw [same, known]
      · have step := Frozen.capabilityForNode_congr same
        rw [← step]
        exact resolved
  | acted runId act =>
      simp only [Atom.apply]
      split
      · simp only [recordAll_modules]
        exact ⟨known, fun _ h => h⟩
      · exact ⟨known, fun _ h => h⟩
  | _ => exact ⟨known, fun _ h => h⟩

/-- An artifact that is in the store and has every trait the target port of a binding requires. -/
def Fits (modules : List ModuleSlot) (artifacts : KeyMap String Artifact)
    (nodes : List AssemblyNode) (b : Binding) (r : ArtifactRef) : Prop :=
  ∃ artifact, artifacts.lookup r.id = some artifact ∧
    ∀ node ∈ nodes, node.id = b.toNode → ∀ cap, capabilityForNode modules node = .ok cap →
      ∀ p, port cap.inputs b.toPort = some p → hasTraits artifact p.traits

/-- A pinned node of that id with a port of that name. -/
def PinnedPort (modules : List ModuleSlot) (nodes : List AssemblyNode) (side : Capability → List Port)
    (nodeId portName : String) (p : Port) : Prop :=
  ∃ node ∈ nodes, node.id = nodeId ∧ ∃ cap, pinned modules node = some cap ∧
    port (side cap) portName = some p

/-- What typing a slot keeps: pinned nodes with their port counts, bindings between pinned ports,
and deliveries that fit. -/
structure TypedSlot (modules : List ModuleSlot) (artifacts : KeyMap String Artifact)
    (slot : RunSlot) : Prop where
  counts : ∀ node ∈ slot.run.assembly.nodes, ∃ cap, pinned modules node = some cap ∧
    ∀ p ∈ cap.inputs, CountFits slot.run.assembly.bindings node.id p
  bound : ∀ b ∈ slot.run.assembly.bindings, ∃ target,
    PinnedPort modules slot.run.assembly.nodes (·.inputs) b.toNode b.toPort target ∧
      (b.input = "" → ∃ source,
        PinnedPort modules slot.run.assembly.nodes (·.outputs) b.fromNode b.fromPort source ∧
          traitSetCovers source.traits target.traits)
  delivered : ∀ b ∈ slot.run.assembly.bindings, ∀ r, resolveBinding slot b = some r →
    Fits modules artifacts slot.run.assembly.nodes b r

theorem hasTraits_of_covers {artifact : Artifact} {available need : List String}
    (traits : hasTraits artifact available) (covers : traitSetCovers available need) :
    hasTraits artifact need := by
  simp only [hasTraits, traitSetCovers, List.all_eq_true, List.any_eq_true, beq_iff_eq] at *
  intro n member
  obtain ⟨h, there, rfl⟩ := covers n member
  exact traits h there

private theorem node_unique {nodes : List AssemblyNode} (ids : (nodes.map (·.id)).Nodup)
    {a b : AssemblyNode} (ha : a ∈ nodes) (hb : b ∈ nodes) (same : a.id = b.id) : a = b :=
  List.inj_on_of_nodup_map ids ha hb same

theorem nodeById_eq_some {nodes : List AssemblyNode} {id : String} {node : AssemblyNode}
    (found : nodeById nodes id = some node) : node ∈ nodes ∧ node.id = id := by
  refine ⟨List.mem_of_find?_eq_some found, ?_⟩
  simpa using List.find?_some found

theorem typed_fresh {modules : List ModuleSlot} {artifacts : KeyMap String Artifact}
    {assembly : Assembly} {req : RunRequest} {maxSteps : UInt64}
    (valid : Validated modules artifacts assembly req.inputs) :
    TypedSlot modules artifacts (freshSlot req assembly maxSteps) := by
  refine ⟨?_, ?_, ?_⟩
  · intro node member
    obtain ⟨cap, resolved, -⟩ := valid.typed node member
    exact ⟨cap, pinned_of_resolved resolved, valid.counts node member cap resolved⟩
  · intro b member
    obtain ⟨node, cap, target, known, resolved, declared, covers⟩ := valid.bound b member
    obtain ⟨here, named⟩ := nodeById_eq_some known
    refine ⟨target, ⟨node, here, named, cap, pinned_of_resolved resolved, declared⟩, ?_⟩
    intro upstream
    unfold SourceCovers at covers
    rw [if_neg (by simpa using upstream)] at covers
    obtain ⟨source, sourceCap, out, known', resolved', declared', covered⟩ := covers
    obtain ⟨here', named'⟩ := nodeById_eq_some known'
    exact ⟨out, ⟨source, here', named', sourceCap, pinned_of_resolved resolved', declared'⟩, covered⟩
  · intro b member r delivered
    have external : b.input ≠ "" := by
      intro upstream
      simp [resolveBinding, upstream, freshSlot] at delivered
    obtain ⟨node, cap, target, known, resolved, declared, covers⟩ := valid.bound b member
    obtain ⟨here, named⟩ := nodeById_eq_some known
    unfold SourceCovers at covers
    rw [if_pos external] at covers
    obtain ⟨input, r', artifact, found, carried, stored, traits⟩ := covers
    rw [resolveBinding, if_pos external] at delivered
    change ((req.inputs.find? (·.name == b.input)).bind (·.artifact)) = some r at delivered
    unfold inputByName at found
    rw [found, Option.bind_some, carried] at delivered
    obtain rfl := Option.some.inj delivered
    refine ⟨artifact, stored, ?_⟩
    intro other there id cap' resolved' p declared'
    obtain rfl := node_unique valid.ids here there (named.trans id.symm)
    rw [resolved] at resolved'
    obtain rfl := Except.ok.inj resolved'
    rw [declared] at declared'
    obtain rfl := Option.some.inj declared'
    exact traits

/-- An input whose artifact fits every binding it feeds. -/
def InputFits (modules : List ModuleSlot) (artifacts : KeyMap String Artifact) (slot : RunSlot)
    (input : NamedArtifact) : Prop :=
  ∀ b ∈ slot.run.assembly.bindings, b.input = input.name → ∀ r, input.artifact = some r →
    Fits modules artifacts slot.run.assembly.nodes b r

theorem find_admitInput (input : NamedArtifact) (inputs : List NamedArtifact) (name : String) :
    (admitInput input inputs).find? (·.name == name) =
      if name = input.name then some input else inputs.find? (·.name == name) := by
  induction inputs with
  | nil =>
      by_cases here : name = input.name
      · simp [admitInput, here]
      · simp [admitInput, here, Ne.symm here]
  | cons i rest ih =>
      unfold admitInput
      by_cases replaced : i.name = input.name
      · by_cases here : name = input.name
        · simp [replaced, here]
        · simp [replaced, here, Ne.symm here]
      · by_cases here : name = input.name
        · subst here
          have skip : (i.name == input.name) = false := by simpa using replaced
          simp only [replaced, if_false, List.find?_cons, ih, skip, if_true]
        · simp only [replaced, if_false, List.find?_cons, ih, here]

section Calls

variable [Sha256]

theorem resolveBinding_apply {modules : List ModuleSlot} {slot : RunSlot} {a : SlotAct}
    {b : Binding} {r : ArtifactRef} (delivered : resolveBinding (a.apply modules slot) b = some r) :
    resolveBinding slot b = some r ∨
      (∃ input, a = .inject input ∧ b.input = input.name ∧ input.artifact = some r) ∨
      ∃ c outputs o, a = .commit c outputs ∧ b.input = "" ∧ b.fromNode = c.work.nodeId ∧
        o ∈ outputs ∧ o.name = b.fromPort ∧ o.artifact = some r := by
  cases a with
  | inject input =>
      by_cases external : b.input ≠ ""
      · rw [resolveBinding, if_pos external] at delivered ⊢
        change ((admitInput input slot.run.inputs).find? (·.name == b.input)).bind (·.artifact) =
          some r at delivered
        rw [find_admitInput] at delivered
        split_ifs at delivered with here
        · exact .inr (.inl ⟨input, rfl, here, delivered⟩)
        · exact .inl delivered
      · rw [resolveBinding, if_neg external] at delivered ⊢
        exact .inl delivered
  | commit c outputs =>
      by_cases external : b.input ≠ ""
      · rw [resolveBinding, if_pos external] at delivered ⊢
        rw [inputs_apply (by simp)] at delivered
        exact .inl delivered
      · rw [resolveBinding, if_neg external] at delivered ⊢
        simp only [SlotAct.apply, settleSlot_latest, commitSlot, lookup_insert_of] at delivered
        split_ifs at delivered with here
        · obtain ⟨o, found, carried⟩ := Option.bind_eq_some_iff.mp delivered
          rw [Option.bind_some] at found
          refine .inr (.inr ⟨c, outputs, o, rfl, by simpa using external, here,
            List.mem_of_find?_eq_some found, by simpa using List.find?_some found, carried⟩)
        · exact .inl delivered
  | renew id leaseUntil =>
      rw [resolveBinding_congr (apply_deliveries (by simp) (by simp))] at delivered
      exact .inl delivered
  | _ => exact .inl delivered

omit [Sha256] in
/-- An accepted output carries a stored artifact with the traits of its declared port. -/
theorem validateOutput_ok {artifacts : KeyMap String Artifact} {cap : Capability}
    {o : NamedArtifact} (ok : validateOutput artifacts cap o = .ok ()) :
    ∃ expected r artifact, port cap.outputs o.name = some expected ∧ o.artifact = some r ∧
      artifacts.lookup r.id = some artifact ∧ hasTraits artifact expected.traits := by
  unfold validateOutput at ok
  split at ok
  · cases ok
  · rename_i expected declared
    split at ok
    · cases ok
    · rename_i r carried
      split at ok
      · cases ok
      · rename_i artifact stored
        split_ifs at ok with traits
        exact ⟨expected, r, artifact, declared, carried, stored, traits⟩

omit [Sha256] in
theorem PinnedPort.resolved {modules : List ModuleSlot} {nodes : List AssemblyNode}
    {side : Capability → List Port} {nodeId portName : String} {p : Port}
    (known : PinnedPort modules nodes side nodeId portName p) (ids : (nodes.map (·.id)).Nodup)
    {node : AssemblyNode} (member : node ∈ nodes) (id : node.id = nodeId) {cap : Capability}
    (resolved : capabilityForNode modules node = .ok cap) : port (side cap) portName = some p := by
  obtain ⟨other, there, id', cap', frozen, declared⟩ := known
  obtain rfl := node_unique ids member there (id.trans id'.symm)
  rw [pinned_of_resolved resolved] at frozen
  obtain rfl := Option.some.inj frozen
  exact declared

theorem typed_act {modules : List ModuleSlot} {artifacts : KeyMap String Artifact} {runId : String}
    {slot : RunSlot} {a : SlotAct} (guard : a.enabled modules artifacts runId slot)
    (shape : SlotShape runId slot) (typed : TypedSlot modules artifacts slot)
    (fits : ∀ input, a = .inject input → InputFits modules artifacts slot input) :
    TypedSlot modules artifacts (a.apply modules slot) := by
  have assembly := (apply_terms modules slot a).assembly
  refine ⟨by rw [assembly]; exact typed.counts, by rw [assembly]; exact typed.bound, ?_⟩
  rw [assembly]
  intro b member r delivered
  rcases resolveBinding_apply delivered with old | ⟨input, rfl, fed, carried⟩ |
    ⟨c, outputs, o, rfl, upstream, from', listed, named, carried⟩
  · exact typed.delivered b member r old
  · exact fits input rfl b member fed r carried
  · obtain ⟨held, -, cap, resolved, checked⟩ := guard
    obtain ⟨⟨⟩, -, outputsOk⟩ := bind_eq_ok.mp checked
    obtain ⟨expected, r', artifact, declared, carried', stored, traits⟩ :=
      validateOutput_ok (forM_eq_ok.mp outputsOk o listed)
    rw [carried] at carried'
    obtain rfl := Option.some.inj carried'
    obtain ⟨target, known, covered⟩ := typed.bound b member
    obtain ⟨source, sourceKnown, covers⟩ := covered upstream
    have output := sourceKnown.resolved shape.ids (shape.claims _ c held).node from'.symm resolved
    rw [← named, declared] at output
    obtain rfl := Option.some.inj output
    refine ⟨artifact, stored, ?_⟩
    intro node there id cap' resolved' p declared'
    rw [known.resolved shape.ids there id resolved'] at declared'
    obtain rfl := Option.some.inj declared'
    exact hasTraits_of_covers traits covers

variable [Prost]

/-- Every slot of the kernel is in shape and typed. -/
def KeptTyped (s : State) : Prop :=
  WellFormed s ∧ ∀ runId slot, s.runs.lookup runId = some slot →
    TypedSlot s.modules s.artifacts slot

/-- A stored artifact stays. -/
theorem artifact_persists {s : State} {a : Atom} (guard : a.enabled s) {id : String}
    {artifact : Artifact} (stored : s.artifacts.lookup id = some artifact) :
    (a.apply s).artifacts.lookup id = some artifact := by
  rcases artifacts_apply s a with same | ⟨b, rfl, inserted⟩
  · rw [same, stored]
  · rw [inserted, lookup_insert_of, if_neg, stored]
    rintro rfl
    exact guard.2.1 (mem_of_lookup stored)

private theorem typed_frame {s : State} {a : Atom} (guard : a.enabled s) {slot : RunSlot}
    (typed : TypedSlot s.modules s.artifacts slot) :
    TypedSlot (a.apply s).modules (a.apply s).artifacts slot := by
  have kept : ∀ {side nodeId portName p},
      PinnedPort s.modules slot.run.assembly.nodes side nodeId portName p →
      PinnedPort (a.apply s).modules slot.run.assembly.nodes side nodeId portName p := by
    rintro side nodeId portName p ⟨node, member, id, cap, known, declared⟩
    exact ⟨node, member, id, cap, (pinned_apply s a known).1, declared⟩
  refine ⟨?_, ?_, ?_⟩
  · intro node member
    obtain ⟨cap, known, fits⟩ := typed.counts node member
    exact ⟨cap, (pinned_apply s a known).1, fits⟩
  · intro b member
    obtain ⟨target, known, covered⟩ := typed.bound b member
    refine ⟨target, kept known, fun upstream => ?_⟩
    obtain ⟨source, sourceKnown, covers⟩ := covered upstream
    exact ⟨source, kept sourceKnown, covers⟩
  · intro b member r delivered
    obtain ⟨artifact, stored, traits⟩ := typed.delivered b member r delivered
    refine ⟨artifact, artifact_persists guard stored, ?_⟩
    intro node there id cap resolved
    obtain ⟨frozen, known, -⟩ := typed.counts node there
    exact traits node there id cap ((pinned_apply s a known).2 cap resolved)

theorem keptTyped_apply {s : State} {a : Atom} (guard : a.enabled s) (before : KeptTyped s)
    (fits : ∀ runId input slot, a = .acted runId (.inject input) →
      s.runs.lookup runId = some slot → InputFits s.modules s.artifacts slot input) :
    KeptTyped (a.apply s) := by
  refine ⟨wellFormed_apply guard before.1, ?_⟩
  refine slots_apply (I := fun s _ slot => TypedSlot s.modules s.artifacts slot) guard
    (fun _ _ typed => typed_frame guard typed) ?_ ?_ before.2
  · rintro slot - ⟨env, req, assembly, maxSteps, rfl, -, ok⟩
    exact typed_fresh (validateAssembly_ok ok)
  · intro runId slot act same found _ possible typed
    refine typed_act possible (before.1 runId slot found) typed ?_
    rintro input rfl
    exact fits runId input slot same found

/-- An injection supplies an artifact with the traits that the ports it feeds require. -/
def InjectTyped (s : State) (call : Call) : Prop :=
  ∀ req input slot, call.op = .injectInput req → req.input = some input →
    s.runs.lookup req.runId = some slot → InputFits s.modules s.artifacts slot input

private theorem acted_frame (s : State) (runId : String) (act : SlotAct) :
    ((Atom.acted runId act).apply s).modules = s.modules ∧
      ((Atom.acted runId act).apply s).artifacts = s.artifacts := by
  simp only [Atom.apply]
  split
  · exact ⟨recordAll_modules _ _ _ _ _, recordAll_artifacts _ _ _ _ _⟩
  · exact ⟨rfl, rfl⟩

omit [Prost] in
theorem allowed_inject {s : State} {call : Call} {runId : String} {input : NamedArtifact}
    (allowed : Allowed s call (.acted runId (.inject input))) : ∃ req, call.op = .injectInput req := by
  rcases allowed_acted allowed with ⟨req, -, op, -⟩ | ⟨ref, -, -, same⟩ | ⟨-, ok⟩
  · exact ⟨req, op⟩
  · cases same
  · rcases actAllowed_cases ok with ⟨e, -, same⟩ | ⟨req, -, ⟨work, same⟩ | same⟩ |
      ⟨req, id, leaseUntil, -, -, same⟩ | ⟨req, -, same | ⟨slot, c, reason, -, -, same⟩⟩ |
      ⟨submitted, slot, c, -, -, -, same⟩ <;> cases same

theorem keptTyped_step (policy : ArtifactStorePolicy) {s : State} {call : Call}
    (before : KeptTyped s) (typed : InjectTyped s call) : KeptTyped (step policy s call).1 := by
  obtain ⟨atoms, path, allowed, -⟩ := step_explained policy before.1 call
  by_cases injects : ∃ req, call.op = .injectInput req
  · obtain ⟨req, op⟩ := injects
    -- an injection's own acts leave registry, store and assembly as the call found them
    have all := path.invariant (P := fun u => KeptTyped u ∧ u.modules = s.modules ∧
        u.artifacts = s.artifacts ∧ ∀ slot, u.runs.lookup req.runId = some slot →
          ∃ old, s.runs.lookup req.runId = some old ∧ slot.run.assembly = old.run.assembly)
      (fun a => ∃ input, req.input = some input ∧ a = .acted req.runId (.inject input)) ?_ ?_
      ⟨before, rfl, rfl, fun slot found => ⟨slot, found, rfl⟩⟩
    · exact all.1
    · rintro u a ⟨input, given, rfl⟩ guard ⟨kept, modules, artifacts, frozen⟩
      obtain ⟨sameModules, sameArtifacts⟩ := acted_frame u req.runId (.inject input)
      refine ⟨keptTyped_apply guard kept ?_, sameModules.trans modules,
        sameArtifacts.trans artifacts, ?_⟩
      · intro runId input' slot same found
        cases same
        obtain ⟨old, was, assembly⟩ := frozen slot found
        have fits := typed req input old op given was
        unfold InputFits
        rw [modules, artifacts, assembly]
        exact fits
      · intro slot found
        rcases runs_apply (s := u) (a := .acted req.runId (.inject input)) guard found with
          ⟨there, -⟩ | ⟨slot', act, same, there, -, -, rfl⟩ | ⟨same, -⟩
        · exact frozen slot there
        · obtain ⟨old, was, assembly⟩ := frozen slot' there
          exact ⟨old, was, (apply_terms u.modules slot' act).assembly.trans assembly⟩
        · cases same
    · intro a member
      have here := allowed a member
      obtain ⟨op', ctx, env⟩ := call
      subst op
      exact here
  · refine path.invariant (P := KeptTyped) (fun a => ∀ runId input, a ≠ .acted runId (.inject input))
      ?_ ?_ before
    · intro u a quiet guard kept
      exact keptTyped_apply guard kept fun runId input slot same _ =>
        absurd same (quiet runId input)
    · rintro a member runId input rfl
      obtain ⟨req, op⟩ := allowed_inject (allowed _ member)
      exact injects ⟨req, op⟩

/-- One input of a work item against the binding it comes from. -/
def EntryTyped (artifacts : KeyMap String Artifact) (cap : Capability) (b : Binding)
    (entry : NamedArtifact) : Prop :=
  entry.name = b.toPort ∧ ∃ r artifact p, entry.artifact = some r ∧
    artifacts.lookup r.id = some artifact ∧ port cap.inputs b.toPort = some p ∧
    hasTraits artifact p.traits

/-- How many entries of a work item carry a port's name. -/
def entryCount (inputs : List NamedArtifact) (portName : String) : Nat :=
  inputs.countP (·.name == portName)

/-- A work item of a run: one typed entry for each binding of its node, in binding order, and as
many entries a port as it declares. -/
def WorkTyped (s : State) (work : WorkItem) : Prop :=
  ∃ slot node cap, s.runs.lookup work.runId = some slot ∧ node ∈ slot.run.assembly.nodes ∧
    nodeOfWork work = node ∧ capabilityForNode s.modules node = .ok cap ∧
    List.Forall₂ (EntryTyped s.artifacts cap) (bindingsOf slot.run.assembly node.id) work.inputs ∧
    ∀ p ∈ cap.inputs, (p.optional = false → 0 < entryCount work.inputs p.name) ∧
      (p.multiple = false → entryCount work.inputs p.name ≤ 1)

omit [Sha256] [Prost] in
private theorem entryCount_eq {artifacts : KeyMap String Artifact} {cap : Capability}
    {bindings : List Binding} {inputs : List NamedArtifact}
    (typed : List.Forall₂ (EntryTyped artifacts cap) bindings inputs) (portName : String) :
    entryCount inputs portName = bindings.countP (·.toPort == portName) := by
  unfold entryCount
  induction typed with
  | nil => rfl
  | cons first _ ih => rw [List.countP_cons, List.countP_cons, ih, first.1]

omit [Sha256] [Prost] in
private theorem bindingCount_eq (assembly : Assembly) (nodeId portName : String) :
    (bindingsOf assembly nodeId).countP (·.toPort == portName) =
      bindingCount assembly.bindings nodeId portName := by
  rw [bindingsOf, List.countP_filter, bindingCount]
  refine List.countP_congr fun b _ => ?_
  simp [and_comm]

omit [Prost] in
private theorem claim_typed {s : State} {slot : RunSlot} {runId : String} {env : Env}
    {node : AssemblyNode} {inputs : List NamedArtifact} {unitKey : String}
    (typed : TypedSlot s.modules s.artifacts slot)
    (ids : (slot.run.assembly.nodes.map (·.id)).Nodup)
    (found : s.runs.lookup runId = some slot) (member : node ∈ slot.run.assembly.nodes)
    (ready : readyUnit s.modules slot node = some (inputs, unitKey)) :
    WorkTyped s (claimWork env runId slot (node, inputs, unitKey)) := by
  have unit := (readyUnit_eq_some.mp ready).1
  simp only [currentUnit, Option.bind_eq_some_iff, Option.map_eq_some_iff, Prod.mk.injEq] at unit
  obtain ⟨given, resolves, cap, resolved, key, -, rfl, rfl⟩ := unit
  have known : capabilityForNode s.modules node = .ok cap := by
    cases answer : capabilityForNode s.modules node with
    | error e => rw [answer] at resolved; cases resolved
    | ok c => rw [answer] at resolved; exact congrArg _ (Option.some.inj resolved)
  have entries : List.Forall₂ (EntryTyped s.artifacts cap)
      (bindingsOf slot.run.assembly node.id) given := by
    refine ((List.forall₂_and_left _ _).mpr ⟨?_, mapM_eq_some.mp resolves⟩).imp
      (R := fun b entry => b ∈ bindingsOf slot.run.assembly node.id ∧ _) ?_
    · exact fun b here => here
    · rintro b entry ⟨here, made⟩
      obtain ⟨r, delivered, rfl⟩ := Option.map_eq_some_iff.mp made
      obtain ⟨bound, target⟩ := List.mem_filter.mp here
      have id : node.id = b.toNode := (by simpa using target : b.toNode = node.id).symm
      obtain ⟨p, port', -⟩ := typed.bound b bound
      obtain ⟨artifact, stored, traits⟩ := typed.delivered b bound r delivered
      have declared := port'.resolved ids member id known
      exact ⟨rfl, r, artifact, p, rfl, stored, declared, traits node member id cap known p declared⟩
  refine ⟨slot, node, cap, found, member, rfl, known, entries, ?_⟩
  intro p here
  obtain ⟨cap', frozen, fits⟩ := typed.counts node member
  rw [pinned_of_resolved known] at frozen
  obtain rfl := Option.some.inj frozen
  obtain ⟨required, single⟩ := fits p here
  have count : entryCount given p.name = bindingCount slot.run.assembly.bindings node.id p.name :=
    (entryCount_eq entries p.name).trans (bindingCount_eq _ _ _)
  exact ⟨fun mandatory => by rw [← count] at required; exact required mandatory,
    fun scalar => by rw [← count] at single; exact single scalar⟩

private theorem workTyped_acted {s : State} {runId : String} {act : SlotAct} {work : WorkItem}
    (guard : (Atom.acted runId act).enabled s) (typed : WorkTyped s work) :
    WorkTyped ((Atom.acted runId act).apply s) work := by
  obtain ⟨slot, node, cap, found, member, same, resolved, entries, counts⟩ := typed
  obtain ⟨modules, artifacts⟩ := acted_frame s runId act
  have persists : ∃ after, ((Atom.acted runId act).apply s).runs.lookup work.runId = some after ∧
      after.run.assembly = slot.run.assembly := by
    rcases runs_persist guard found with ⟨still, -⟩ | ⟨act', -, -, -, after⟩
    · exact ⟨slot, still, rfl⟩
    · exact ⟨_, after, (apply_terms s.modules slot act').assembly⟩
  obtain ⟨after, there, assembly⟩ := persists
  refine ⟨after, node, cap, there, by rw [assembly]; exact member, same, ?_, ?_, counts⟩
  · rw [modules]
    exact resolved
  · rw [artifacts, assembly]
    exact entries

omit [Prost] in
private theorem allowed_claim {s : State} {call : Call} {runId : String} {work : WorkItem}
    (claim : Allowed s call (.acted runId (.claim work))) {a : Atom} (allowed : Allowed s call a) :
    ∃ rid act, a = .acted rid act ∧ ∀ input, act ≠ .inject input := by
  have claims : ∃ req, call.op = .claimReady req := by
    rcases allowed_acted claim with ⟨req, input, -, -, -, same⟩ | ⟨ref, -, -, same⟩ | ⟨-, ok⟩
    · cases same
    · cases same
    · rcases actAllowed_cases ok with ⟨e, -, same⟩ | ⟨req, op, -⟩ |
        ⟨req, id, leaseUntil, -, -, same⟩ | ⟨req, -, same | ⟨slot, c, reason, -, -, same⟩⟩ |
        ⟨submitted, slot, c, -, -, -, same⟩
      · cases same
      · exact ⟨req, op⟩
      all_goals cases same
  obtain ⟨req, op⟩ := claims
  have acted : ∃ act, a = .acted req.runId act := by
    obtain ⟨op', ctx, env⟩ := call
    subst op
    obtain ⟨act, same, -⟩ := allowed
    exact ⟨act, same⟩
  obtain ⟨act, rfl⟩ := acted
  refine ⟨req.runId, act, rfl, ?_⟩
  rintro input rfl
  obtain ⟨req', op'⟩ := allowed_inject allowed
  rw [op] at op'
  cases op'

theorem handedOut_typed {policy : ArtifactStorePolicy} {s : State} (before : KeptTyped s)
    (call : Call) {work : WorkItem} (handed : work ∈ handedOut (step policy s call).2) :
    WorkTyped (step policy s call).1 work := by
  obtain ⟨atoms, path, allowed, items⟩ := step_explained policy before.1 call
  rw [← items, List.mem_filterMap] at handed
  obtain ⟨a, member, claims⟩ := handed
  obtain ⟨runId, rfl⟩ := Atom.handsOut_eq_some claims
  obtain ⟨pre, post, mid, split, first, guard, rest⟩ := path.split member
  have acts : ∀ b ∈ atoms, ∃ rid act, b = .acted rid act ∧ ∀ input, act ≠ .inject input :=
    fun b here => allowed_claim (allowed _ member) (allowed b here)
  have kept : KeptTyped mid := by
    refine first.invariant (P := KeptTyped) (· ∈ atoms) ?_ ?_ before
    · intro u b here possible typed
      obtain ⟨rid, act, rfl, quiet⟩ := acts b here
      refine keptTyped_apply possible typed fun runId input slot same _ => ?_
      cases same
      exact absurd rfl (quiet input)
    · intro b here
      rw [split]
      exact List.mem_append_left _ here
  have later := (Path.cons guard rest).invariant (P := fun u => WorkTyped u work) (· ∈ atoms) ?_ ?_ ?_
  · exact later
  · intro u b here possible typed
    obtain ⟨rid, act, rfl, -⟩ := acts b here
    exact workTyped_acted possible typed
  · intro b here
    rw [split]
    exact List.mem_append_right _ here
  · obtain ⟨slot, found, -, -, env, node, here, inputs, unitKey, ready, rfl⟩ := guard
    exact claim_typed (kept.2 runId slot found) (kept.1 runId slot found).ids found here ready

omit [Sha256] [Prost] in
private theorem keptTyped_empty : KeptTyped {} := by
  refine ⟨?_, ?_⟩
  · intro runId slot found
    simp at found
  · intro runId slot found
    simp at found

/-- Work that a call hands out is typed, over any history whose injections are. -/
theorem handedOut_port_typed (policy : ArtifactStorePolicy) (history : List Call) (call : Call)
    (typed : ∀ pre inject post, history = pre ++ inject :: post →
      InjectTyped (exec policy {} pre) inject) :
    ∀ work ∈ handedOut (step policy (exec policy {} history) call).2,
      WorkTyped (step policy (exec policy {} history) call).1 work := by
  have kept : KeptTyped (exec policy {} history) := by
    refine run_invariant keptTyped_empty fun pre inject post split before => ?_
    exact keptTyped_step policy before (typed pre inject post split)
  exact fun work handed => handedOut_typed kept call handed

end Calls

section Untyped

open Substrate.Kernel.Concrete

/-- Every entry of a work item is of an artifact with the traits of its port. -/
def entriesFit (s : State) (work : WorkItem) : Bool :=
  work.inputs.all fun entry =>
    (entry.artifact.bind fun r => s.artifacts.lookup r.id).any fun artifact =>
      ((capabilityForWork s.modules work).toOption.bind (port ·.inputs entry.name)).any fun p =>
        hasTraits artifact p.traits

theorem WorkTyped.entriesFit {s : State} {work : WorkItem} (typed : WorkTyped s work) :
    entriesFit s work = true := by
  obtain ⟨slot, node, cap, -, -, rfl, resolved, entries, -⟩ := typed
  refine List.all_eq_true.mpr fun entry member => ?_
  obtain ⟨b, -, named, r, artifact, p, carried, stored, declared, traits⟩ :=
    (forall₂_mem entries).2 entry member
  simp [capabilityForWork, resolved, carried, stored, named, declared, traits, Except.toOption]

def injectAt (ms : Int64) (artifact : Artifact) : Call :=
  callAt ms (.injectInput { runId := "r", input := some (given "line" artifact) })

def picture : Artifact := { traits := .singleton "image" { body := asBytes "one" } }

/-- Injecting a picture where a line is heard: the next item carries the picture. -/
theorem handedOut_untyped :
    ∃ work ∈ handedOut (step policy (exec policy {} (opening .once .unspecified ++
        [callAt 0 (.putArtifact picture), injectAt 0 picture])) (claimAt 0)).2,
      ¬ WorkTyped (step policy (exec policy {} (opening .once .unspecified ++
        [callAt 0 (.putArtifact picture), injectAt 0 picture])) (claimAt 0)).1 work := by
  have unfit : ((handedOut (step policy (exec policy {} (opening .once .unspecified ++
      [callAt 0 (.putArtifact picture), injectAt 0 picture])) (claimAt 0)).2).any fun work =>
        !entriesFit (step policy (exec policy {} (opening .once .unspecified ++
          [callAt 0 (.putArtifact picture), injectAt 0 picture])) (claimAt 0)).1 work) = true := by
    decide +kernel
  obtain ⟨work, handed, unfit⟩ := List.any_eq_true.mp unfit
  refine ⟨work, handed, fun typed => ?_⟩
  rw [typed.entriesFit] at unfit
  cases unfit

private theorem line_fits {s : State} (modules : s.modules = [⟨echo .once, .registered⟩])
    (stored : s.artifacts.lookup (artifactIdOf (text "one")) =
      some { text "one" with id := artifactIdOf (text "one") }) {slot : RunSlot}
    (assembly : slot.run.assembly = echoes) :
    InputFits s.modules s.artifacts slot (given "line" (text "one")) := by
  intro b member _ r carried
  obtain rfl := Option.some.inj carried
  refine ⟨_, stored, ?_⟩
  rw [assembly] at member ⊢
  simp only [echoes, List.mem_singleton, modules] at member ⊢
  subst member
  rintro node rfl - cap resolved p declared
  obtain rfl := Except.ok.inj resolved
  obtain rfl := Option.some.inj declared
  rfl

theorem handedOut_line_typed :
    (handedOut (step policy (exec policy {} (opening .once .unspecified ++
        [injectAt 0 (text "one")])) (claimAt 0)).2).length = 1 ∧
      ∀ work ∈ handedOut (step policy (exec policy {} (opening .once .unspecified ++
          [injectAt 0 (text "one")])) (claimAt 0)).2,
        WorkTyped (step policy (exec policy {} (opening .once .unspecified ++
          [injectAt 0 (text "one")])) (claimAt 0)).1 work := by
  refine ⟨by decide +kernel, handedOut_port_typed policy _ _ ?_⟩
  intro pre inject post split req input slot op carried found
  rcases pre with _ | ⟨_, _ | ⟨_, _ | ⟨_, _ | ⟨_, pre⟩⟩⟩⟩ <;>
    simp only [opening, stocked, List.cons_append, List.nil_append, List.cons.injEq] at split
  · rw [← split.1] at op
    cases op
  · rw [← split.2.1] at op
    cases op
  · rw [← split.2.2.1] at op
    cases op
  · obtain ⟨rfl, rfl, rfl, rfl, -⟩ := split
    cases op
    obtain rfl := Option.some.inj carried
    refine line_fits (by decide +kernel) (by decide +kernel) ?_
    have frozen : ((exec policy {} (opening .once .unspecified)).runs.lookup "r").map
        (·.run.assembly) = some echoes := by decide +kernel
    have started : (exec policy {} (opening .once .unspecified)).runs.lookup "r" = some slot := found
    rw [started] at frozen
    exact Option.some.inj frozen
  · simp at split

end Untyped

end Substrate.Protocol.Typing
