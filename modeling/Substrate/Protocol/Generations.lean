/- ID: Substrate/Protocol/Generations
   source: kernel/sdk/rust/src/lib.rs
   digest: What an ALWAYS node's unit key tells about the deliveries to its bindings. -/

import Substrate.Protocol.Integrity
import Substrate.Protocol.Stream
import Substrate.Protocol.Units

set_option autoImplicit false
set_option relaxedAutoImplicit false

namespace Substrate.Protocol.Generations

open Substrate.Kernel.Wire
open Substrate.Kernel.Hashing
open Substrate.Kernel.Memory
open Substrate.Kernel.Schedule
open Substrate.Kernel.Runs
open Substrate.Kernel.Work
open Substrate.Kernel.Api
open Substrate.Protocol.Atoms
open Substrate.Protocol.Slots
open Substrate.Protocol.Delivery
open Substrate.Protocol.Exclusive
open Substrate.Protocol.Identity
open Substrate.Protocol.Refine
open Substrate.Protocol.Accounting (derivationsOf derivationsOf_acted derivationsOf_other)
open Substrate.Protocol.Integrity (reachable_referenced stored_of_resolved)
open Substrate.Protocol.Provenance (run_origin terms_step derivationsOf_extend)
open Substrate.Protocol.Single
open Substrate.Protocol.Steady
open Substrate.Protocol.Stream
open Substrate.Protocol.Typing (find_admitInput allowed_inject pinned)
open Substrate.Protocol.Units
open Substrate.Protocol.WorkIds
open Substrate.Library.Checks
open Substrate.Library.FiniteMap
open Substrate.Library.Transition

section Slots

variable [Sha256]

/-- An act that delivers to a binding: an injection of its run input, or a commit of its upstream
node. -/
inductive Feeds (b : Binding) : SlotAct → Prop
  | inject {input : NamedArtifact} (external : b.input ≠ "") (same : input.name = b.input) :
      Feeds b (.inject input)
  | commit {c : ClaimedSlot} {outputs : List NamedArtifact} (internal : b.input = "")
      (same : c.work.nodeId = b.fromNode) : Feeds b (.commit c outputs)

theorem binding_apply {modules : List ModuleSlot} {slot : RunSlot} {a : SlotAct} {b : Binding}
    (quiet : ¬ Feeds b a) : resolveBinding (a.apply modules slot) b = resolveBinding slot b ∧
      bindingEpoch (a.apply modules slot) b = bindingEpoch slot b := by
  by_cases injects : ∃ input, a = .inject input
  · obtain ⟨input, rfl⟩ := injects
    by_cases external : b.input ≠ ""
    · have other : b.input ≠ input.name := fun same => quiet (.inject external same.symm)
      rw [resolveBinding, resolveBinding, bindingEpoch, bindingEpoch, if_pos external,
        if_pos external, if_pos external, if_pos external]
      constructor
      · show ((admitInput input slot.run.inputs).find? (·.name == b.input)).bind (·.artifact) = _
        rw [find_admitInput, if_neg other]
      · show ((injectSlot slot input).inputEpochs.lookup b.input).getD 0 = _
        rw [epoch_inject, if_neg other]
    · rw [resolveBinding, resolveBinding, bindingEpoch, bindingEpoch, if_neg external,
        if_neg external, if_neg external, if_neg external]
      exact ⟨rfl, rfl⟩
  by_cases commits : ∃ c outputs, a = .commit c outputs
  · obtain ⟨c, outputs, rfl⟩ := commits
    by_cases external : b.input ≠ ""
    · rw [resolveBinding, resolveBinding, bindingEpoch, bindingEpoch, if_pos external,
        if_pos external, if_pos external, if_pos external, inputs_apply (by simp), SlotAct.apply,
        settleSlot_inputEpochs]
      exact ⟨rfl, rfl⟩
    · have other : b.fromNode ≠ c.work.nodeId :=
        fun same => quiet (.commit (not_not.mp external) same.symm)
      rw [resolveBinding, resolveBinding, bindingEpoch, bindingEpoch, if_neg external,
        if_neg external, if_neg external, if_neg external, SlotAct.apply, settleSlot_latest,
        settleSlot_nodeCommits, commitSlot, lookup_insert_of, if_neg other, lookup_insert_of,
        if_neg other]
      exact ⟨rfl, rfl⟩
  push Not at injects commits
  have same := @apply_deliveries _ modules slot a injects commits
  refine ⟨resolveBinding_congr same b, ?_⟩
  rw [bindingEpoch, bindingEpoch, same.inputEpochs, same.nodeCommits]

end Slots

section Calls

variable [Sha256] [Prost]

/-- The run input that a call injects, when the call is accepted. -/
def injectedBy (policy : ArtifactStorePolicy) (runId : String) (s : State) (call : Call) :
    List String :=
  match call.op, (step policy s call).2 with
  | .injectInput req, .run _ => if req.runId = runId then (req.input.map (·.name)).toList else []
  | _, _ => []

/-- The run inputs that calls inject after others, in order. -/
def injectedAfter (policy : ArtifactStorePolicy) (runId : String) (before later : List Call) :
    List String :=
  emitted (injectedBy policy runId) (fun s call => (step policy s call).1)
    (exec policy {} before) later

/-- The derivations that calls add to a run after others, in order. -/
def committedAfter (policy : ArtifactStorePolicy) (runId : String) (before later : List Call) :
    List Derivation :=
  (derivationsOf (exec policy {} (before ++ later)) runId).drop
    (derivationsOf (exec policy {} before) runId).length

/-- Calls deliver to a binding after others: they inject its run input, or commit its upstream
node. -/
def Delivered (policy : ArtifactStorePolicy) (runId : String) (before later : List Call)
    (b : Binding) : Prop :=
  if b.input ≠ "" then b.input ∈ injectedAfter policy runId before later
  else ∃ d ∈ committedAfter policy runId before later, d.nodeId = b.fromNode

private theorem injectInputCtx_cases (env : Env) (req : InjectInputRequest) (ctx : RequestContext)
    (s : State) : (∃ e, injectInputCtx env req ctx s = (s, .error e)) ∨
      ∃ input slot, req.input = some input ∧ s.runs.lookup req.runId = some slot ∧
        injectInputCtx env req ctx s = (record s req.runId (injectSlot slot input)
          [("run.input_injected", slot.run.id, encodeToVec (.namedArtifact input))],
            .ok (injectSlot slot input).run) := by
  rw [injectInputCtx]
  cases checkDeadline env ctx with
  | error e => exact .inl ⟨e, rfl⟩
  | ok u =>
      rw [orReturn]
      cases given : req.input with
      | none => exact .inl ⟨_, rfl⟩
      | some input =>
          by_cases unnamed : input.name = ""
          · exact .inl ⟨_, if_pos unnamed⟩
          simp only [if_neg unnamed]
          cases input.artifact with
          | none => exact .inl ⟨_, rfl⟩
          | some r =>
              by_cases stored : r.id ∉ s.artifacts
              · exact .inl ⟨_, if_pos stored⟩
              simp only [if_neg stored]
              cases running : runningSlot s req.runId with
              | error e => exact .inl ⟨e, rfl⟩
              | ok slot =>
                  by_cases bound : slot.run.assembly.bindings.any (·.input == input.name)
                  · exact .inr ⟨input, slot, rfl, (runningSlot_ok.mp running).1, if_pos bound⟩
                  · exact .inl ⟨_, if_neg bound⟩

theorem inject_step (policy : ArtifactStorePolicy) (s : State) {call : Call}
    {req : InjectInputRequest} (op : call.op = .injectInput req) :
    ((step policy s call).1 = s ∧ ∀ runId, injectedBy policy runId s call = []) ∨
      ∃ input slot, req.input = some input ∧ s.runs.lookup req.runId = some slot ∧
        (step policy s call).1.runs = s.runs.replace req.runId (injectSlot slot input) ∧
        (step policy s call).1.derivations = s.derivations ∧
        ∀ runId, injectedBy policy runId s call = if req.runId = runId then [input.name] else [] := by
  obtain ⟨op', ctx, env⟩ := call
  obtain rfl : op' = .injectInput req := op
  rcases injectInputCtx_cases env req ctx s with ⟨e, refused⟩ | ⟨input, slot, given, found, taken⟩
  · refine .inl ⟨?_, fun runId => ?_⟩
    · simp only [step, refused, reply]
    · simp only [injectedBy, step, refused, reply]
  · refine .inr ⟨input, slot, given, found, ?_, ?_, fun runId => ?_⟩
    · simp only [step, taken, reply, record_eq]
    · simp only [step, taken, reply, record_eq]
    · simp only [injectedBy, step, taken, reply, given]
      rfl

theorem injectedBy_other {policy : ArtifactStorePolicy} {s : State} {call : Call}
    (other : ∀ req, call.op ≠ .injectInput req) (runId : String) :
    injectedBy policy runId s call = [] := by
  unfold injectedBy
  split
  · exact absurd ‹_› (other _)
  · rfl

theorem committedAfter_spec (policy : ArtifactStorePolicy) (runId : String)
    (before later : List Call) : derivationsOf (exec policy {} (before ++ later)) runId =
      derivationsOf (exec policy {} before) runId ++ committedAfter policy runId before later := by
  obtain ⟨more, same⟩ := derivationsOf_extend policy before later runId
  rw [committedAfter, ← same, List.drop_left]

theorem committedAfter_append (policy : ArtifactStorePolicy) (runId : String)
    (before mid later : List Call) : committedAfter policy runId before (mid ++ later) =
      committedAfter policy runId before mid ++ committedAfter policy runId (before ++ mid) later := by
  have all := committedAfter_spec policy runId before (mid ++ later)
  rw [← List.append_assoc, committedAfter_spec policy runId (before ++ mid) later,
    committedAfter_spec policy runId before mid, List.append_assoc] at all
  exact (List.append_cancel_left all).symm

theorem injectedAfter_append (policy : ArtifactStorePolicy) (runId : String)
    (before mid later : List Call) : injectedAfter policy runId before (mid ++ later) =
      injectedAfter policy runId before mid ++ injectedAfter policy runId (before ++ mid) later := by
  rw [injectedAfter, emitted_append, injectedAfter, injectedAfter, exec_append]
  rfl

theorem delivered_append {policy : ArtifactStorePolicy} {runId : String}
    {before mid later : List Call} {b : Binding} :
    Delivered policy runId before (mid ++ later) b ↔ Delivered policy runId before mid b ∨
      Delivered policy runId (before ++ mid) later b := by
  unfold Delivered
  split_ifs
  · rw [injectedAfter_append, List.mem_append]
  · rw [committedAfter_append]
    simp only [List.mem_append, or_and_right, exists_or]

theorem injectedAfter_single (policy : ArtifactStorePolicy) (runId : String) (before : List Call)
    (call : Call) : injectedAfter policy runId before [call] =
      injectedBy policy runId (exec policy {} before) call :=
  List.append_nil _

private theorem commit_added {s t : State} {atoms : List Atom} (path : Path kernel s atoms t)
    (wf : WellFormed s) {runId : String} {c : ClaimedSlot} {outputs : List NamedArtifact}
    (member : .acted runId (.commit c outputs) ∈ atoms) :
    derivationOf c.work outputs ∈ (derivationsOf t runId).drop (derivationsOf s runId).length := by
  obtain ⟨pre, post, mid, -, first, guard, -⟩ := path.split member
  have wf' : WellFormed mid :=
    first.keeps (P := WellFormed) (fun _ _ guard before => wellFormed_apply guard before) wf
  obtain ⟨slot, found, -, held, -⟩ := guard
  have owner := ((wf' runId slot found).claims _ c held).runId
  have grown : derivationsOf t runId = derivationsOf s runId ++
      (atoms.flatMap Atom.derivation).filter (·.runId == runId) := by
    rw [derivationsOf, path_derivations path, List.filter_append]
    rfl
  rw [grown, List.drop_left]
  exact List.mem_filter.mpr
    ⟨List.mem_flatMap.mpr ⟨_, member, List.mem_singleton_self _⟩, beq_iff_eq.mpr owner⟩

private theorem binding_step {policy : ArtifactStorePolicy} {before : List Call} {call : Call}
    {runId : String} {slot after : RunSlot} {b : Binding}
    (found : (exec policy {} before).runs.lookup runId = some slot)
    (there : (exec policy {} (before ++ [call])).runs.lookup runId = some after)
    (quiet : ¬ Delivered policy runId before [call] b) :
    resolveBinding after b = resolveBinding slot b ∧ bindingEpoch after b = bindingEpoch slot b := by
  have wf := reachable_wellFormed (⟨before, rfl⟩ : Reachable policy _)
  rw [Delivered, injectedAfter_single, committedAfter, exec_snoc] at quiet
  rw [exec_snoc] at there
  generalize exec policy {} before = s at found there quiet wf
  by_cases injects : ∃ req, call.op = .injectInput req
  · obtain ⟨req, op⟩ := injects
    rcases inject_step policy s op with ⟨same, -⟩ | ⟨input, old, -, was, runs, -, names⟩
    · rw [same] at there
      obtain rfl := Option.some.inj (found.symm.trans there)
      exact ⟨rfl, rfl⟩
    · rw [runs, lookup_replace was] at there
      split_ifs at there with here
      · subst here
        obtain rfl := Option.some.inj there
        obtain rfl := Option.some.inj (found.symm.trans was)
        refine @binding_apply _ s.modules slot (.inject input) b ?_
        rintro ⟨external, same⟩
        rw [if_pos external, names, if_pos rfl, same] at quiet
        exact quiet (List.mem_singleton_self _)
      · obtain rfl := Option.some.inj (found.symm.trans there)
        exact ⟨rfl, rfl⟩
  · obtain ⟨atoms, path, allowed, -⟩ := step_explained policy wf call
    have kept := path.invariant (fun a => ∀ act, a = .acted runId act → ¬ Feeds b act)
      (P := fun u => ∃ mid, u.runs.lookup runId = some mid ∧
        resolveBinding mid b = resolveBinding slot b ∧ bindingEpoch mid b = bindingEpoch slot b)
      ?_ ?_ ⟨slot, found, rfl, rfl⟩
    · obtain ⟨mid, found', same⟩ := kept
      obtain rfl := Option.some.inj (there.symm.trans found')
      exact same
    · rintro u a still guard ⟨mid, found', same, epoch⟩
      rcases runs_persist guard found' with ⟨stays, -⟩ | ⟨act, rfl, -, -, next⟩
      · exact ⟨mid, stays, same, epoch⟩
      · obtain ⟨same', epoch'⟩ := @binding_apply _ u.modules mid act b (still act rfl)
        exact ⟨_, next, same'.trans same, epoch'.trans epoch⟩
    · rintro a member act rfl feeds
      cases feeds with
      | @inject input external same => exact injects (allowed_inject (allowed _ member))
      | @commit c outputs internal same =>
          rw [if_neg (not_not.mpr internal)] at quiet
          exact quiet ⟨_, commit_added path wf member, same⟩

theorem binding_quiet {policy : ArtifactStorePolicy} {before later : List Call} {runId : String}
    {slot after : RunSlot} {b : Binding}
    (found : (exec policy {} before).runs.lookup runId = some slot)
    (there : (exec policy {} (before ++ later)).runs.lookup runId = some after)
    (quiet : ¬ Delivered policy runId before later b) :
    resolveBinding after b = resolveBinding slot b ∧ bindingEpoch after b = bindingEpoch slot b := by
  induction later using List.reverseRecOn generalizing after with
  | nil =>
      rw [List.append_nil] at there
      obtain rfl := Option.some.inj (found.symm.trans there)
      exact ⟨rfl, rfl⟩
  | append_singleton later call ih =>
      rw [delivered_append, not_or] at quiet
      obtain ⟨mid, found', -⟩ := Provenance.terms_exec policy (⟨before, rfl⟩ : Reachable policy _)
        later found
      rw [← exec_append] at found'
      rw [← List.append_assoc] at there
      obtain ⟨same, epoch⟩ := binding_step found' there quiet.2
      obtain ⟨same', epoch'⟩ := ih found' quiet.1
      exact ⟨same.trans same', epoch.trans epoch'⟩

/-- A run has made one step a derivation, and counted the commits of every node. -/
structure Tallied (s : State) (runId : String) (slot : RunSlot) : Prop where
  steps : slot.run.steps.toNat = (derivationsOf s runId).length
  commits : ∀ node, ((slot.nodeCommits.lookup node).getD 0).toNat =
    (derivationsOf s runId).countP (·.nodeId == node)

private theorem tallied_act {s : State} {runId : String} {slot : RunSlot} {act : SlotAct}
    (guard : (Atom.acted runId act).enabled s) (shape : SlotShape runId slot)
    (possible : act.enabled s.modules s.artifacts runId slot) (tallied : Tallied s runId slot) :
    Tallied ((Atom.acted runId act).apply s) runId (act.apply s.modules slot) := by
  have grown := derivationsOf_acted guard shape possible
  by_cases commits : ∃ c outputs, act = .commit c outputs
  · obtain ⟨c, outputs, rfl⟩ := commits
    have within : slot.run.steps < slot.run.maxSteps := possible.2.1
    have counted := @steps_commit _ s.modules slot c outputs within
    refine ⟨?_, fun node => ?_⟩
    · rw [counted, grown, List.length_append, tallied.steps]
      rfl
    · rw [(commit_run s.modules slot c outputs).2.2, grown, List.countP_append, ← tallied.commits,
        lookup_insert_of]
      have one : List.countP (·.nodeId == node) [derivationOf c.work outputs] =
          if node = c.work.nodeId then 1 else 0 := by
        rw [List.countP_singleton]
        have same : ((derivationOf c.work outputs).nodeId == node) = true ↔ node = c.work.nodeId :=
          beq_iff_eq.trans eq_comm
        simp only [same]
      rw [SlotAct.derivation, one]
      split_ifs with here
      · subst here
        rw [Option.getD_some]
        refine succ_toNat ?_
        have below := UInt64.lt_iff_toNat_lt.mp within
        have top := slot.run.maxSteps.toNat_lt
        have few := @List.countP_le_length _ (·.nodeId == c.work.nodeId) (derivationsOf s runId)
        rw [tallied.commits]
        rw [tallied.steps] at below
        omega
      · rfl
  · push Not at commits
    obtain ⟨steps, -, -, counts⟩ := apply_books s.modules slot commits
    rw [derivation_eq_nil commits, List.append_nil] at grown
    exact ⟨by rw [steps, grown, tallied.steps], fun node => by rw [counts, grown, tallied.commits]⟩

theorem reachable_tallied {policy : ArtifactStorePolicy} {s : State} (reached : Reachable policy s)
    {runId : String} {slot : RunSlot} (found : s.runs.lookup runId = some slot) :
    Tallied s runId slot := by
  have all : Owned s ∧ ∀ runId slot, s.runs.lookup runId = some slot → Tallied s runId slot := by
    refine reachable_invariant (P := fun s => Owned s ∧ ∀ runId slot,
      s.runs.lookup runId = some slot → Tallied s runId slot) ⟨fun d member => ?_, ?_⟩ ?_ reached
    · cases member
    · intro runId slot found
      simp at found
    · rintro s a guard wf ⟨owned, before⟩
      refine ⟨owned_apply guard wf owned, fun runId after found => ?_⟩
      rcases runs_apply guard found with ⟨old, others⟩ |
        ⟨slot, act, rfl, there, -, possible, rfl⟩ | ⟨rfl, rfl, absent, fresh⟩
      · obtain ⟨steps, commits⟩ := before runId after old
        have same := derivationsOf_other guard wf others
        exact ⟨by rw [same, steps], fun node => by rw [same, commits]⟩
      · exact tallied_act guard (wf runId slot there) possible (before runId slot there)
      · have none : derivationsOf (Atom.apply s (.started after)) after.run.id = [] := by
          rw [derivationsOf_other guard wf fun act h => by cases h]
          refine List.filter_eq_nil_iff.mpr fun d member same => absent ?_
          rw [← beq_iff_eq.mp same]
          exact owned d member
        obtain ⟨-, req, assembly, maxSteps, rfl, -⟩ := fresh
        exact ⟨by rw [none]; rfl, fun node => by rw [none]; simp [freshSlot]⟩
  exact all.2 runId slot found

omit [Sha256] [Prost] in
private theorem fresh_epoch (inputs : List NamedArtifact) (epochs : KeyMap String UInt64)
    (zero : ∀ name, (epochs.lookup name).getD 0 = 0) (name : String) :
    ((inputs.foldl (fun epochs input => epochs.insert input.name 0) epochs).lookup name).getD 0 =
      0 := by
  induction inputs generalizing epochs with
  | nil => exact zero name
  | cons input inputs ih =>
      refine ih _ fun name => ?_
      rw [lookup_insert_of]
      split_ifs
      · rfl
      · exact zero name

omit [Sha256] [Prost] in
private theorem saturatingSucc_toNat (n : UInt64) :
    (saturatingSucc n).toNat = min (n.toNat + 1) (2 ^ 64 - 1) := by
  have top := n.toNat_lt
  unfold saturatingSucc
  split_ifs with small
  · rw [succ_toNat small]
    omega
  · omega

/-- What a run that is there or not has counted of its injections: all, up to the last number. -/
private def Counted (s : State) (runId : String) (names : List String) : Prop :=
  match s.runs.lookup runId with
  | none => names = []
  | some slot => ∀ name, ((slot.inputEpochs.lookup name).getD 0).toNat =
      min (names.count name) (2 ^ 64 - 1)

private theorem counted_other {policy : ArtifactStorePolicy} {s : State}
    (reached : Reachable policy s) {call : Call} (other : ∀ req, call.op ≠ .injectInput req)
    {runId : String} {names : List String} (counted : Counted s runId names) :
    Counted (step policy s call).1 runId names := by
  have wf := reachable_wellFormed reached
  unfold Counted at counted ⊢
  cases there : (step policy s call).1.runs.lookup runId with
  | none =>
      cases found : s.runs.lookup runId with
      | none =>
          rw [found] at counted
          exact counted
      | some slot =>
          obtain ⟨after, there', -⟩ := terms_step policy wf call found
          rw [there] at there'
          cases there'
  | some after =>
      rcases run_origin policy wf call there with ⟨slot, found, -⟩ | ⟨req, rfl, started⟩
      · rw [found] at counted
        obtain ⟨atoms, path, allowed, -⟩ := step_explained policy wf call
        have kept := path.invariant (fun a => ∀ act, a = .acted runId act → ∀ input, act ≠ .inject input)
          (P := fun u => ∃ mid, u.runs.lookup runId = some mid ∧ mid.inputEpochs = slot.inputEpochs)
          ?_ ?_ ⟨slot, found, rfl⟩
        · obtain ⟨mid, found', same⟩ := kept
          obtain rfl := Option.some.inj (there.symm.trans found')
          intro name
          rw [same]
          exact counted name
        · rintro u a quiet guard ⟨mid, found', same⟩
          rcases runs_persist guard found' with ⟨stays, -⟩ | ⟨act, rfl, -, -, next⟩
          · exact ⟨mid, stays, same⟩
          · exact ⟨_, next, (epochs_apply (quiet act rfl)).trans same⟩
        · rintro a member act rfl input rfl
          obtain ⟨req, op⟩ := allowed_inject (allowed _ member)
          exact other req op
      · have absent : s.runs.lookup req.id = none := AList.lookup_eq_none.mpr started.absent
        rw [absent] at counted
        obtain rfl := counted
        obtain ⟨given, assembly, -, -, -, rfl⟩ := started.fresh
        intro name
        have zero := fresh_epoch req.inputs ∅ (fun name => by simp) name
        exact congrArg UInt64.toNat zero

private theorem counted_exec (policy : ArtifactStorePolicy) (calls : List Call) (runId : String) :
    Counted (exec policy {} calls) runId (injectedAfter policy runId [] calls) := by
  induction calls using List.reverseRecOn with
  | nil => exact rfl
  | append_singleton calls call ih =>
      rw [injectedAfter_append, injectedAfter_single, List.nil_append, exec_snoc]
      by_cases injects : ∃ req, call.op = .injectInput req
      · obtain ⟨req, op⟩ := injects
        rcases inject_step policy (exec policy {} calls) op with
          ⟨same, none⟩ | ⟨input, slot, -, found, runs, -, names⟩
        · rw [same, none, List.append_nil]
          exact ih
        · rw [names]
          unfold Counted at ih ⊢
          rw [runs, lookup_replace found]
          by_cases here : req.runId = runId
          · subst here
            rw [found] at ih
            rw [if_pos rfl, if_pos rfl]
            intro name
            rw [epoch_inject, List.count_append, List.count_singleton]
            by_cases same : name = input.name
            · rw [if_pos same, if_pos (beq_iff_eq.mpr same.symm), saturatingSucc_toNat, ih]
              omega
            · rw [if_neg same, if_neg (fun equal => same (beq_iff_eq.mp equal).symm), ih, Nat.add_zero]
          · rw [if_neg (Ne.symm here), if_neg here, List.append_nil]
            exact ih
      · push Not at injects
        rw [injectedBy_other injects, List.append_nil]
        exact counted_other ⟨calls, rfl⟩ injects ih

theorem binding_delivered {policy : ArtifactStorePolicy} {before later : List Call} {runId : String}
    {slot after : RunSlot} {b : Binding}
    (few : (injectedAfter policy runId [] (before ++ later)).length < 2 ^ 64)
    (found : (exec policy {} before).runs.lookup runId = some slot)
    (there : (exec policy {} (before ++ later)).runs.lookup runId = some after)
    (delivered : Delivered policy runId before later b) :
    bindingEpoch slot b ≠ bindingEpoch after b := by
  intro same
  have same := congrArg UInt64.toNat same
  unfold Delivered at delivered
  unfold bindingEpoch at same
  split_ifs at delivered same
  · have first := counted_exec policy before runId
    have last := counted_exec policy (before ++ later) runId
    unfold Counted at first last
    rw [found] at first
    rw [there] at last
    have some := List.count_pos_iff.mpr delivered
    have total := @List.count_le_length _ _ b.input (injectedAfter policy runId [] (before ++ later))
    rw [first, last, injectedAfter_append, List.count_append, List.nil_append] at same
    rw [injectedAfter_append, List.count_append, List.nil_append] at total
    rw [injectedAfter_append, List.nil_append] at few
    omega
  · have first := (reachable_tallied (⟨before, rfl⟩ : Reachable policy _) found).commits b.fromNode
    have last := (reachable_tallied (⟨_, rfl⟩ : Reachable policy _) there).commits b.fromNode
    rw [first, last, committedAfter_spec, List.countP_append] at same
    obtain ⟨d, member, node⟩ := delivered
    have some : 0 < (committedAfter policy runId before later).countP (·.nodeId == b.fromNode) :=
      List.countP_pos_iff.mpr ⟨d, member, beq_iff_eq.mpr node⟩
    omega

variable {policy : ArtifactStorePolicy} {calls before later : List Call} {runId : String}
  {slot old : RunSlot} {node : AssemblyNode} {cap : Capability}

private theorem sized_of_reachable {s : State} (reached : Reachable policy s)
    (found : s.runs.lookup runId = some slot) : Sized slot := fun _ r delivered =>
  (reachable_coherent reached).addressed r.id
    (Integrity.stored_of_delivered ((reachable_referenced reached).slots runId slot found) delivered)

omit [Prost] in
private theorem always_rows {inputs : List NamedArtifact} {key : String}
    (keyed : workUnitKey slot node cap .always inputs = some key) :
    ∃ rows, deliveryRows slot node inputs = some rows ∧
      key = (UnitIdent.always node.id (deliveryBytes rows)).spell := by
  rw [workUnitKey, deliveryFingerprint, Option.map_map, Option.map_eq_some_iff] at keyed
  obtain ⟨rows, delivered, rfl⟩ := keyed
  exact ⟨rows, delivered, rfl⟩

private theorem key_eq_iff (run : Fires policy (before ++ later) runId slot node cap .always)
    (few : (injectedAfter policy runId [] (before ++ later)).length < 2 ^ 64)
    (free : Set.InjOn Sha256.digest (fingerprinted policy runId {} (before ++ later)))
    (found : (exec policy {} before).runs.lookup runId = some old)
    {inputs inputs' : List NamedArtifact} {key key' : String}
    (resolves : resolveInputs old node = some inputs)
    (resolves' : resolveInputs slot node = some inputs')
    (keyed : workUnitKey old node cap .always inputs = some key)
    (keyed' : workUnitKey slot node cap .always inputs' = some key') :
    key = key' ↔ ∀ b ∈ bindingsOf slot.run.assembly node.id,
      ¬ Delivered policy runId before later b := by
  have terms := terms_at found run.found
  rw [terms.assembly]
  constructor
  · rintro rfl b bound delivered
    obtain ⟨rows, made, rfl⟩ := always_rows keyed
    obtain ⟨rows', made', same⟩ := always_rows keyed'
    obtain ⟨ports, epochs⟩ := rows_shape made
    obtain ⟨ports', epochs'⟩ := rows_shape made'
    have sized := sized_of_reachable ⟨before, rfl⟩ found
    have sized' := sized_of_reachable ⟨_, rfl⟩ run.found
    have bytes := free
      (inside_fingerprinted policy rfl found node (run.earlier found).member _ _ resolves made)
      (inside_fingerprinted policy (List.append_nil _).symm run.found node run.member _ _ resolves'
        made') (UnitIdent.spell_inj same).2
    have equal := deliveryBytes_inj (by rw [ports, ports', terms.assembly])
      (fun row member => rows_sized sized resolves made member)
      (fun row member => rows_sized sized' resolves' made' member) bytes
    rw [equal, epochs', terms.assembly] at epochs
    exact binding_delivered few found run.found delivered (List.map_inj_left.mp epochs b bound).symm
  · intro quiet
    have same := fun b bound => binding_quiet found run.found (quiet b bound)
    have inputs := inputs_of_bindings terms.assembly fun b bound => (same b bound).1
    rw [resolves', resolves] at inputs
    obtain rfl := Option.some.inj inputs
    rw [key_of_bindings terms.assembly (fun b bound => (same b bound).2), keyed] at keyed'
    exact Option.some.inj keyed'

private theorem unready_quiet (run : Fires policy (before ++ later) runId slot node cap .always)
    (few : (injectedAfter policy runId [] (before ++ later)).length < 2 ^ 64)
    (free : Set.InjOn Sha256.digest (fingerprinted policy runId {} (before ++ later)))
    (found : (exec policy {} before).runs.lookup runId = some old)
    {unit : List NamedArtifact × String}
    (current : currentUnit (exec policy {} before).modules old node = some unit)
    (committed : (runId, some unit.2) ∈ emitted (appliedCommit policy)
      (fun s call => (step policy s call).1) {} (before ++ later))
    (quiet : ∀ b ∈ bindingsOf slot.run.assembly node.id, ¬ Delivered policy runId before later b) :
    readyUnit (exec policy {} (before ++ later)).modules slot node = none := by
  have done : Done (exec policy {} (before ++ later)) runId unit.2 := by
    obtain ⟨first, commit, rest, split, applied⟩ := mem_emitted.mp committed
    obtain ⟨key, named, -, done⟩ := appliedCommit_spec (keptApart_exec policy first) applied
    obtain rfl := Option.some.inj named
    rw [split, exec_append, exec_cons]
    exact done_exec (keptApart_step policy commit (keptApart_exec policy first)) rest done
  obtain ⟨slot', found', spent⟩ := done
  obtain rfl := Option.some.inj (run.found.symm.trans found')
  cases ready : readyUnit (exec policy {} (before ++ later)).modules slot node with
  | none => rfl
  | some unit' =>
      obtain ⟨current', pending, -⟩ := readyUnit_eq_some.mp ready
      obtain ⟨resolves, keyed⟩ := currentUnit_key (run.earlier found).known current
      obtain ⟨resolves', keyed'⟩ := currentUnit_key run.known current'
      rw [(run.earlier found).fires] at keyed
      rw [run.fires] at keyed'
      have same := (key_eq_iff run few free found resolves resolves' keyed keyed').mpr quiet
      exact absurd (same ▸ spent) pending

private theorem ready_delivered {call : Call} {rest : List Call}
    (run : Fires policy (before ++ call :: rest) runId slot node cap .always)
    (few : (injectedAfter policy runId [] (before ++ call :: rest)).length < 2 ^ 64)
    (free : Set.InjOn Sha256.digest (fingerprinted policy runId {} (before ++ call :: rest)))
    {b : Binding} (bound : b ∈ bindingsOf slot.run.assembly node.id)
    (delivered : Delivered policy runId before [call] b)
    (others : ∀ mid next post, rest = mid ++ next :: post →
      ∀ work ∈ handedOut (step policy (exec policy {} (before ++ call :: mid)) next).2,
        work.runId = runId → work.nodeId ≠ node.id) {unit : List NamedArtifact × String}
    (current : currentUnit (exec policy {} (before ++ call :: rest)).modules slot node = some unit) :
    readyUnit (exec policy {} (before ++ call :: rest)).modules slot node = some unit := by
  refine ready_of_untaken (untaken_exec policy _ run.found fun work handed same => ?_) current
  obtain ⟨first, claim, last, split, given, rfl⟩ := mem_handedTo.mp handed
  have own : work.nodeId = node.id := by
    obtain ⟨slot', -, -, taken⟩ := handed_current given
    rw [same] at taken
    exact currentUnit_node taken current
  -- what was handed out before the delivery is a unit of other generations
  have fresh : ∀ mid, before ≠ first ++ mid := by
    rintro mid rfl
    have here : claim :: last = mid ++ call :: rest := by
      rw [List.append_assoc] at split
      exact (List.append_cancel_left split).symm
    rw [List.append_assoc, ← here] at run few free current
    obtain ⟨slot', found, taken⟩ := handed_unit run.found run.member given own
    obtain ⟨resolves, keyed⟩ := currentUnit_key (run.earlier found).known taken
    obtain ⟨resolves', keyed'⟩ := currentUnit_key run.known current
    rw [(run.earlier found).fires] at keyed
    rw [run.fires] at keyed'
    refine (key_eq_iff run few free found resolves resolves' keyed keyed').mp same b bound ?_
    have pieces : claim :: last = mid ++ ([call] ++ rest) := here
    rw [pieces, delivered_append, delivered_append]
    exact .inr (.inl delivered)
  rcases List.append_eq_append_iff.mp split with ⟨more, rfl, tail⟩ | ⟨more, same', -⟩
  · cases more with
    | nil => exact fresh [] (by simp)
    | cons next more =>
        obtain ⟨rfl, rfl⟩ := List.cons.inj tail
        exact others more claim last rfl work given rfl own
  · exact fresh more same'

/-- Of a node that fires always, with fewer injections than there are generations: its unit keys in
two states of the run are the same exactly when nothing was delivered to its bindings between them;
a unit that was committed is not READY again without a delivery; and a delivery to any binding leaves
the node READY until it is handed out. -/
theorem always_once_per_delivery (run : Fires policy calls runId slot node cap .always)
    (few : (injectedAfter policy runId [] calls).length < 2 ^ 64)
    (free : Set.InjOn Sha256.digest (fingerprinted policy runId {} calls)) :
    (∀ before later old inputs inputs', calls = before ++ later →
      (exec policy {} before).runs.lookup runId = some old → resolveInputs old node = some inputs →
      resolveInputs slot node = some inputs' →
      ∃ key key', workUnitKey old node cap (effectiveFiring old node cap) inputs = some key ∧
        workUnitKey slot node cap (effectiveFiring slot node cap) inputs' = some key' ∧
        (key = key' ↔ ∀ b ∈ bindingsOf slot.run.assembly node.id,
          ¬ Delivered policy runId before later b)) ∧
    (∀ before later old unit, calls = before ++ later →
      (exec policy {} before).runs.lookup runId = some old →
      currentUnit (exec policy {} before).modules old node = some unit →
      (runId, some unit.2) ∈ emitted (appliedCommit policy) (fun s call => (step policy s call).1)
        {} calls →
      (∀ b ∈ bindingsOf slot.run.assembly node.id, ¬ Delivered policy runId before later b) →
      readyUnit (exec policy {} calls).modules slot node = none) ∧
    ∀ before call rest b unit, calls = before ++ call :: rest →
      b ∈ bindingsOf slot.run.assembly node.id → Delivered policy runId before [call] b →
      (∀ mid next post, rest = mid ++ next :: post →
        ∀ work ∈ handedOut (step policy (exec policy {} (before ++ call :: mid)) next).2,
          work.runId = runId → work.nodeId ≠ node.id) →
      currentUnit (exec policy {} calls).modules slot node = some unit →
      readyUnit (exec policy {} calls).modules slot node = some unit := by
  refine ⟨?_, ?_, ?_⟩
  · rintro before later old inputs inputs' rfl found resolves resolves'
    obtain ⟨key, keyed⟩ := workUnitKey_some resolves cap .always
    obtain ⟨key', keyed'⟩ := workUnitKey_some resolves' cap .always
    rw [(run.earlier found).fires, run.fires]
    exact ⟨key, key', keyed, keyed', key_eq_iff run few free found resolves resolves' keyed keyed'⟩
  · rintro before later old unit rfl found current committed quiet
    exact unready_quiet run few free found current committed quiet
  · rintro before call rest b unit rfl bound delivered others current
    exact ready_delivered run few free bound delivered others current

end Calls

section Echo

open Substrate.Kernel.Concrete

/-- One line answered, and the same line given once more. -/
def repeated : List Call :=
  opening .always .open ++
    [claimAt 1, commitAt 2 (((handedTo policy "r" (opening .always .open ++ [claimAt 1])).map
        (·.id)).getLastD "") (text "one"),
      callAt 3 (.injectInput { runId := "r", input := some (given "line" (text "one")) })]

/-- What the fingerprints of a run hash after each of the calls. -/
def hashedBy (calls : List Call) : List Bytes :=
  calls.inits.flatMap fun before =>
    ((exec policy {} before).runs.lookup "r").toList.flatMap fun slot =>
      slot.run.assembly.nodes.filterMap fun node => (resolveInputs slot node).bind fun inputs =>
        (deliveryRows slot node inputs).map deliveryBytes

private theorem mem_hashedBy {calls : List Call} {bytes : Bytes}
    (member : bytes ∈ fingerprinted policy "r" {} calls) : bytes ∈ hashedBy calls := by
  obtain ⟨before, after, slot, node, inputs, rows, rfl, found, pinned, resolved, made, rfl⟩ := member
  refine List.mem_flatMap.mpr ⟨before, (List.mem_inits before _).mpr (List.prefix_append _ _), ?_⟩
  rw [found]
  refine List.mem_flatMap.mpr ⟨slot, List.mem_singleton_self slot, ?_⟩
  refine List.mem_filterMap.mpr ⟨node, pinned, ?_⟩
  rw [resolved, Option.bind_some, made, Option.map_some]

private theorem repeated_free :
    Set.InjOn Sha256.digest (fingerprinted policy "r" {} repeated) := by
  have apart : ∀ x ∈ hashedBy repeated, ∀ y ∈ hashedBy repeated,
      Sha256.digest x = Sha256.digest y → x = y := by
    decide +kernel
  exact fun x hx y hy => apart x (mem_hashedBy hx) y (mem_hashedBy hy)

theorem always_once_per_delivery_repeated : ∃ slot node inputs key,
    (exec policy {} repeated).runs.lookup "r" = some slot ∧ slot.run.assembly.nodes = [node] ∧
      resolveInputs slot node = some inputs ∧
      (slot.latest.lookup node.id).map (·.inputs) = some inputs ∧
      readyUnit (exec policy {} repeated).modules slot node = some (inputs, key) := by
  have present : ((exec policy {} repeated).runs.lookup "r").isSome = true := by decide +kernel
  obtain ⟨slot, found⟩ := Option.isSome_iff_exists.mp present
  have facts : ((exec policy {} repeated).runs.lookup "r").map (fun slot =>
      (slot.run.assembly.nodes, effectiveFiring slot speaker (speaking .always),
        (currentUnit (exec policy {} repeated).modules slot speaker).map (·.1),
        (slot.latest.lookup "n").map (·.inputs))) =
      some ([speaker], .always, some [given "heard" (text "one")],
        some [given "heard" (text "one")]) := by decide +kernel
  have bound : ((exec policy {} repeated).runs.lookup "r").map (fun slot =>
      bindingsOf slot.run.assembly "n") =
      some [{ toNode := "n", toPort := "heard", input := "line" }] := by decide +kernel
  have known : pinned (exec policy {} repeated).modules speaker = some (speaking .always) := by
    decide +kernel
  have injected : injectedAfter policy "r" [] repeated = ["line"] := by decide +kernel
  have last : injectedAfter policy "r" (repeated.take 5) (repeated.drop 5) = ["line"] := by
    decide +kernel
  rw [found, Option.map_some, Option.some.injEq] at facts bound
  simp only [Prod.mk.injEq, Option.map_eq_some_iff] at facts
  obtain ⟨nodes, fires, ⟨⟨inputs, key⟩, current, rfl⟩, latest⟩ := facts
  have run : Fires policy repeated "r" slot speaker (speaking .always) .always :=
    ⟨found, nodes ▸ List.mem_singleton_self _, known, fires⟩
  obtain ⟨-, -, refires⟩ := always_once_per_delivery run
    (by rw [injected]; decide) repeated_free
  refine ⟨slot, speaker, _, key, found, nodes, (currentUnit_key known current).1,
    Option.map_eq_some_iff.mpr latest, ?_⟩
  refine refires (repeated.take 5) _ [] { toNode := "n", toPort := "heard", input := "line" }
    (_, key) rfl (bound ▸ List.mem_singleton_self _) ?_ ?_ current
  · rw [Delivered, if_pos (by decide)]
    exact last ▸ List.mem_singleton_self _
  · intro mid next post none
    simp at none

end Echo

end Substrate.Protocol.Generations
