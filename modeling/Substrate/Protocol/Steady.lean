/- ID: Substrate/Protocol/Steady
   digest: One run on its own: a kernel whose registrations spare a run moves it like a one-run machine. -/

import Substrate.Kernel.Concrete
import Substrate.Protocol.Content
import Substrate.Protocol.Exclusive
import Substrate.Protocol.Frozen

set_option autoImplicit false
set_option relaxedAutoImplicit false

namespace Substrate.Protocol.Steady

open Substrate.Kernel.Wire
open Substrate.Kernel.Hashing
open Substrate.Kernel.Memory
open Substrate.Kernel.Registry
open Substrate.Kernel.Schedule
open Substrate.Kernel.Assembly (materializeAssembly validateAssembly)
open Substrate.Kernel.Runs
open Substrate.Kernel.Work
open Substrate.Kernel.Api
open Substrate.Protocol.Atoms
open Substrate.Protocol.Slots
open Substrate.Protocol.Delivery
open Substrate.Protocol.Identity (asBytes_artifactIdOf)
open Substrate.Protocol.Refine
open Substrate.Protocol.Content (StoreSound storeSound_apply reachable_storeSound)
open Substrate.Protocol.Frozen
open Substrate.Library.FiniteMap
open Substrate.Library.Transition

section Machine

/-- A run with the work it has handed out and the derivations it has committed, oldest first. -/
structure Flow where
  slot : RunSlot
  issued : List WorkItem := []
  derived : List Derivation := []

variable [Sha256]

/-- Artifacts are stored under ids of the length of a content address. -/
def Addressed (artifacts : KeyMap String Artifact) : Prop :=
  ∀ id ∈ artifacts, (asBytes id).length = 71

/-- The acts of one run over a fixed registry; artifacts may be stored at any time. -/
def flowMachine (modules : List ModuleSlot) (runId : String) : Machine Flow SlotAct where
  enabled f a := f.slot.run.state = .running ∧
    ∃ artifacts, Addressed artifacts ∧ a.enabled modules artifacts runId f.slot
  apply f a :=
    { slot := a.apply modules f.slot, issued := f.issued ++ a.handsOut.toList
      derived := f.derived ++ a.derivation }

/-- A registry resolves the nodes of a run like another one does. -/
def ResolvesAs (modules modules' : List ModuleSlot) (nodes : List AssemblyNode) : Prop :=
  ∀ node ∈ nodes, capabilityForNode modules node = capabilityForNode modules' node

theorem enabled_caps {modules modules' : List ModuleSlot} {artifacts : KeyMap String Artifact}
    {runId : String} {slot : RunSlot} {a : SlotAct} (shape : SlotShape runId slot)
    (same : ResolvesAs modules modules' slot.run.assembly.nodes)
    (guard : a.enabled modules artifacts runId slot) : a.enabled modules' artifacts runId slot := by
  cases a with
  | claim work =>
      obtain ⟨room, env, node, member, inputs, unitKey, ready, made⟩ := guard
      rw [readyUnit_caps (same node member)] at ready
      exact ⟨room, env, node, member, inputs, unitKey, ready, made⟩
  | commit c outputs =>
      obtain ⟨held, within, cap, resolved, checked⟩ := guard
      refine ⟨held, within, cap, ?_, checked⟩
      rw [← resolved]
      exact (same _ (shape.claims _ c held).node).symm
  | stall =>
      show isIdle modules' slot = true
      rw [← isIdle_caps same]
      exact guard
  | inject input => exact guard
  | renew id leaseUntil => exact guard
  | expire id c => exact guard
  | fail id c reason terminal => exact guard
  | cancel => exact guard

theorem apply_caps {modules modules' : List ModuleSlot} {slot : RunSlot}
    (same : ResolvesAs modules modules' slot.run.assembly.nodes) (a : SlotAct) :
    a.apply modules slot = a.apply modules' slot := by
  cases a with
  | commit c outputs =>
      refine settleSlot_caps ?_
      have assembly := (advanceRun_terms slot (derivationOf c.work outputs)).2.1
      show ∀ node ∈ (advanceRun slot _).assembly.nodes, _
      rw [assembly]
      exact same
  | _ => rfl

theorem flow_terms {modules : List ModuleSlot} {runId : String} {f g : Flow} {acts : List SlotAct}
    (path : Path (flowMachine modules runId) f acts g) : SameTerms f.slot g.slot := by
  induction path with
  | nil f => exact .refl f.slot
  | @cons f g a as _ _ ih => exact (apply_terms modules f.slot a).trans ih

variable [Prost]

/-- A registration that provides none of the coordinates the nodes pin. -/
def Spares (nodes : List AssemblyNode) : Atom → Prop
  | .registered manifest => ∀ node ∈ nodes, provides manifest node = false
  | _ => True

/-- What every reachable state keeps for its runs: slots in shape and a sound artifact store. -/
structure Coherent (s : State) : Prop where
  shape : WellFormed s
  sound : StoreSound s

theorem coherent_apply {s : State} {a : Atom} (guard : a.enabled s) (before : Coherent s) :
    Coherent (a.apply s) :=
  ⟨wellFormed_apply guard before.shape, storeSound_apply guard before.sound⟩

theorem reachable_coherent {policy : ArtifactStorePolicy} {s : State} (reached : Reachable policy s) :
    Coherent s :=
  ⟨reachable_wellFormed reached, reachable_storeSound reached⟩

omit [Prost] in
theorem Coherent.addressed {s : State} (coherent : Coherent s) : Addressed s.artifacts := by
  intro id stored
  obtain ⟨artifact, found⟩ := lookup_of_mem stored
  rw [(coherent.sound id artifact found).1]
  exact asBytes_artifactIdOf artifact

/-- The kernel holds a run as the one-run machine does. -/
structure Tracks (modules : List ModuleSlot) (runId : String) (s : State) (f : Flow) : Prop where
  found : s.runs.lookup runId = some f.slot
  caps : ResolvesAs s.modules modules f.slot.run.assembly.nodes
  derived : s.derivations.filter (·.runId == runId) = f.derived

omit [Prost] in
theorem act_runId {modules : List ModuleSlot} {artifacts : KeyMap String Artifact}
    {runId : String} {slot : RunSlot} {act : SlotAct} (shape : SlotShape runId slot)
    (guard : act.enabled modules artifacts runId slot) :
    (∀ d ∈ act.derivation, d.runId = runId) ∧ ∀ w, act.handsOut = some w → w.runId = runId := by
  cases act with
  | commit c outputs =>
      refine ⟨?_, fun w h => by cases h⟩
      intro d made
      rw [SlotAct.derivation, List.mem_singleton] at made
      rw [made]
      exact (shape.claims _ c guard.1).runId
  | claim work =>
      obtain ⟨-, env, node, -, inputs, unitKey, -, rfl⟩ := guard
      refine ⟨fun d h => by simp [SlotAct.derivation] at h, ?_⟩
      intro w made
      cases made
      rfl
  | _ => exact ⟨fun d h => by simp [SlotAct.derivation] at h, fun w h => by cases h⟩

omit [Sha256] [Prost] in
theorem filter_run {ds : List Derivation} {runId rid : String}
    (owned : ∀ d ∈ ds, d.runId = rid) :
    ds.filter (·.runId == runId) = if rid = runId then ds else [] := by
  split_ifs with same
  · subst same
    exact List.filter_eq_self.mpr fun d member => by simpa using owned d member
  · refine List.filter_eq_nil_iff.mpr fun d member => ?_
    rw [owned d member]
    simpa using same

theorem resolves_apply {s : State} {a : Atom} {nodes : List AssemblyNode} (guard : a.enabled s)
    (spares : Spares nodes a) : ResolvesAs (a.apply s).modules s.modules nodes := by
  intro node member
  cases a with
  | registered manifest => exact capabilityForNode_congr (providers_register (spares node member))
  | advanced name target => exact capabilityForNode_congr (providers_setLifecycle _ _ _ _)
  | acted runId act =>
      obtain ⟨slot, found, -⟩ := guard
      simp only [Atom.apply, found, recordAll_modules]
  | _ => rfl

variable {modules : List ModuleSlot} {runId : String}

theorem tracks_apply {s : State} {f : Flow} {a : Atom} (coherent : Coherent s) (guard : a.enabled s)
    (tracks : Tracks modules runId s f) (spares : Spares f.slot.run.assembly.nodes a) :
    (Tracks modules runId (a.apply s) f ∧ ∀ act, a ≠ .acted runId act) ∨
      ∃ act, a = .acted runId act ∧ (flowMachine modules runId).enabled f act ∧
        Tracks modules runId (a.apply s) ((flowMachine modules runId).apply f act) := by
  have caps : ResolvesAs (a.apply s).modules modules f.slot.run.assembly.nodes :=
    fun node member => (resolves_apply guard spares node member).trans (tracks.caps node member)
  have ds := derivations_apply guard
  rcases runs_persist guard tracks.found with ⟨still, others⟩ | ⟨act, rfl, running, possible, after⟩
  · refine .inl ⟨⟨still, caps, ?_⟩, others⟩
    have silent : a.derivation.filter (·.runId == runId) = [] := by
      cases a with
      | acted rid act =>
          obtain ⟨slot, found, -, possible⟩ := guard
          rw [Atom.derivation, filter_run (act_runId (coherent.shape rid slot found) possible).1, if_neg]
          rintro rfl
          exact others act rfl
      | _ => rfl
    rw [ds, List.filter_append, tracks.derived, silent, List.append_nil]
  · have shape := coherent.shape runId f.slot tracks.found
    have enabled : (flowMachine modules runId).enabled f act :=
      ⟨running, s.artifacts, coherent.addressed, enabled_caps shape tracks.caps possible⟩
    refine .inr ⟨act, rfl, enabled, ?_, ?_, ?_⟩
    · show _ = some (act.apply modules f.slot)
      rw [after, apply_caps tracks.caps]
    · show ResolvesAs _ modules (act.apply modules f.slot).run.assembly.nodes
      rw [(apply_terms modules f.slot act).assembly]
      exact caps
    · rw [ds, List.filter_append, tracks.derived, Atom.derivation,
        filter_run (act_runId shape possible).1, if_pos rfl]
      rfl

theorem tracks_path {s t : State} {f : Flow} {atoms : List Atom} (path : Path kernel s atoms t)
    (coherent : Coherent s) (tracks : Tracks modules runId s f)
    (spares : ∀ a ∈ atoms, Spares f.slot.run.assembly.nodes a) :
    ∃ acts f', Path (flowMachine modules runId) f acts f' ∧ Tracks modules runId t f' ∧
      (∀ act ∈ acts, .acted runId act ∈ atoms) ∧
      f'.issued = f.issued ++ (atoms.filterMap Atom.handsOut).filter (·.runId == runId) := by
  induction path generalizing f with
  | nil s => exact ⟨[], f, .nil f, tracks, by simp, (List.append_nil _).symm⟩
  | @cons s t a as guard rest ih =>
      have coherent' := coherent_apply guard coherent
      have later : ∀ b ∈ as, Spares f.slot.run.assembly.nodes b :=
        fun b h => spares b (List.mem_cons_of_mem _ h)
      rcases tracks_apply coherent guard tracks (spares a List.mem_cons_self) with
        ⟨same, others⟩ | ⟨act, rfl, possible, moved⟩
      · obtain ⟨acts, f', flow, tracks', from', issued⟩ := ih coherent' same later
        refine ⟨acts, f', flow, tracks', fun act h => List.mem_cons_of_mem _ (from' act h), ?_⟩
        rw [issued, List.filterMap_cons]
        cases made : a.handsOut with
        | none => rfl
        | some work =>
            have foreign : (work.runId == runId) = false := by
              cases a with
              | acted rid act =>
                  obtain ⟨slot, found, -, possible⟩ := guard
                  rw [(act_runId (coherent.shape rid slot found) possible).2 work made]
                  refine beq_false_of_ne ?_
                  rintro rfl
                  exact others act rfl
              | _ => cases made
            rw [List.filter_cons_of_neg (by simp [foreign])]
      · have nodes : ((flowMachine modules runId).apply f act).slot.run.assembly.nodes =
            f.slot.run.assembly.nodes := by
          show (act.apply modules f.slot).run.assembly.nodes = _
          rw [(apply_terms modules f.slot act).assembly]
        obtain ⟨acts, f', flow, tracks', from', issued⟩ :=
          ih coherent' moved (by rw [nodes]; exact later)
        refine ⟨act :: acts, f', .cons possible flow, tracks', ?_, ?_⟩
        · intro b member
          rcases List.mem_cons.mp member with rfl | h
          · exact List.mem_cons_self
          · exact List.mem_cons_of_mem _ (from' b h)
        · rw [issued, List.filterMap_cons]
          show (f.issued ++ act.handsOut.toList) ++ _ = _
          cases made : act.handsOut with
          | none => simp [Atom.handsOut, made]
          | some work =>
              obtain ⟨slot, found, -, possible'⟩ := guard
              have own := (act_runId (coherent.shape runId slot found) possible').2 work made
              simp [Atom.handsOut, made, own]

/-- A call that registers none of the coordinates the nodes pin. -/
def SparesCall (nodes : List AssemblyNode) (call : Call) : Prop :=
  ∀ manifest, call.op = .register manifest → ∀ node ∈ nodes, provides manifest node = false

omit [Prost] in
theorem spares_of_allowed {s : State} {call : Call} {a : Atom} {nodes : List AssemblyNode}
    (spares : SparesCall nodes call) (allowed : Allowed s call a) : Spares nodes a := by
  cases a with
  | registered manifest => exact spares manifest (allowed_registered allowed)
  | _ => trivial

/-- The work a run has been handed out over a list of calls, oldest first. -/
def issuedOf (policy : ArtifactStorePolicy) (runId : String) (s : State) (calls : List Call) :
    List WorkItem :=
  (emitted (fun s call => handedOut (step policy s call).2) (fun s call => (step policy s call).1) s
    calls).filter (·.runId == runId)

/-- What a tracked run has at first and every call keeps, over the acts the call may take, holds of
the run after all calls. -/
theorem tracks_exec (policy : ArtifactStorePolicy) {P : Flow → Prop} {s : State} {f : Flow}
    {calls : List Call} (reached : Reachable policy s) (tracks : Tracks modules runId s f) (start : P f)
    (spares : ∀ call ∈ calls, SparesCall f.slot.run.assembly.nodes call)
    (kept : ∀ pre call post g, calls = pre ++ call :: post →
      Tracks modules runId (exec policy s pre) g → SameTerms f.slot g.slot →
      g.issued = f.issued ++ issuedOf policy runId s pre → P g →
      ∀ acts g', Path (flowMachine modules runId) g acts g' →
        (∀ act ∈ acts, Allowed (exec policy s pre) call (.acted runId act)) → P g') :
    ∃ g, Tracks modules runId (exec policy s calls) g ∧ SameTerms f.slot g.slot ∧
      g.issued = f.issued ++ issuedOf policy runId s calls ∧ P g := by
  have each : ∀ pre post, calls = pre ++ post →
      ∃ g, Tracks modules runId (exec policy s pre) g ∧ SameTerms f.slot g.slot ∧
        g.issued = f.issued ++ issuedOf policy runId s pre ∧ P g := by
    intro pre
    induction pre using List.reverseRecOn with
    | nil => exact fun _ _ => ⟨f, tracks, .refl _, (List.append_nil _).symm, start⟩
    | append_singleton pre call ih =>
        intro post split
        have split' : calls = pre ++ call :: post := by rw [split, List.append_assoc]; rfl
        obtain ⟨g, tracked, terms, issued, holds⟩ := ih (call :: post) split'
        have shaped := reachable_coherent (reachable_exec pre reached)
        obtain ⟨atoms, path, allowed, items⟩ := step_explained policy shaped.shape call
        have mine := spares call (by rw [split']; exact List.mem_append_right _ List.mem_cons_self)
        rw [← terms.assembly] at mine
        obtain ⟨acts, g', flow, tracked', from', issued'⟩ := tracks_path path shaped tracked
          fun a member => spares_of_allowed mine (allowed a member)
        have last := exec_snoc policy s pre call
        refine ⟨g', by rw [last]; exact tracked', ?_, ?_, ?_⟩
        · exact terms.trans (flow_terms flow)
        · rw [issued', issued, items, List.append_assoc, issuedOf, issuedOf, emitted_snoc,
            List.filter_append]
          rfl
        · exact kept pre call post g split' tracked terms issued holds acts g' flow
            fun act member => allowed _ (from' act member)
  exact each calls [] (List.append_nil _).symm

/-- The steps a request allows: its own limit, or one for each node. -/
def allowedSteps (req : RunRequest) (assembly : Assembly) : UInt64 :=
  orDefault (req.limits.getD {}).maxSteps (UInt64.ofNat assembly.nodes.length)

/-- A request that a kernel accepted: the run is new and `slot` is what it started as. -/
structure Started (policy : ArtifactStorePolicy) (s : State) (start : Call) (req : RunRequest)
    (slot : RunSlot) : Prop where
  op : start.op = .startRun req
  absent : req.id ∉ s.runs
  found : (step policy s start).1.runs.lookup req.id = some slot

theorem Started.fresh {policy : ArtifactStorePolicy} {s : State} {start : Call} {req : RunRequest}
    {slot : RunSlot} (started : Started policy s start req slot) :
    ∃ given assembly, req.assembly = some given ∧
      materializeAssembly start.env given req.includeNodes = .ok assembly ∧
      validateAssembly start.env s.modules s.artifacts assembly req.inputs = .ok () ∧
      slot = freshSlot req assembly (allowedSteps req assembly) := by
  obtain ⟨op, absent, found⟩ := started
  obtain ⟨op', ctx, env⟩ := start
  subst op
  have unchanged : s.runs.lookup req.id ≠ some slot := fun held => absent (mem_of_lookup held)
  change (startRunCtx env req ctx s).1.runs.lookup req.id = some slot at found
  simp only [startRunCtx, orReturn] at found
  split at found
  · split at found
    · exact absurd found unchanged
    · split_ifs at found with unnamed
      · exact absurd found unchanged
      · cases given : req.assembly with
        | none =>
            rw [given] at found
            exact absurd found unchanged
        | some assembly =>
            simp only [given] at found
            split at found
            · rename_i frozen materialized
              split at found
              · rename_i valid
                split_ifs at found with zero
                · exact absurd found unchanged
                · rw [idempotentPut_runs] at found
                  change (s.runs.insert req.id _).lookup req.id = some slot at found
                  rw [lookup_insert_of, if_pos rfl] at found
                  exact ⟨assembly, frozen, rfl, materialized, valid, (Option.some.inj found).symm⟩
              · exact absurd found unchanged
            · exact absurd found unchanged
  · exact absurd found unchanged

/-- Derivations belong to runs the kernel knows. -/
def Owned (s : State) : Prop := ∀ d ∈ s.derivations, d.runId ∈ s.runs

theorem owned_apply {s : State} {a : Atom} (guard : a.enabled s) (wf : WellFormed s)
    (owned : Owned s) : Owned (a.apply s) := by
  intro d member
  have stays : ∀ runId, runId ∈ s.runs → runId ∈ (a.apply s).runs := by
    intro runId known
    obtain ⟨slot, found⟩ := lookup_of_mem known
    rcases runs_persist guard found with ⟨still, -⟩ | ⟨act, -, -, -, after⟩
    · exact mem_of_lookup still
    · exact mem_of_lookup after
  rw [derivations_apply guard] at member
  rcases List.mem_append.mp member with old | new
  · exact stays _ (owned d old)
  · cases a with
    | acted runId act =>
        obtain ⟨slot, found, -, possible⟩ := guard
        have own := (act_runId (wf runId slot found) possible).1 d new
        exact stays _ (own ▸ mem_of_lookup found)
    | _ => cases new

theorem reachable_owned {policy : ArtifactStorePolicy} {s : State} (reached : Reachable policy s) :
    Owned s := by
  refine reachable_invariant ?_ (fun _ _ guard wf owned => owned_apply guard wf owned) reached
  intro d member
  cases member

theorem Started.tracks {policy : ArtifactStorePolicy} {s : State} {start : Call} {req : RunRequest}
    {slot : RunSlot} (started : Started policy s start req slot) (reached : Reachable policy s) :
    Tracks s.modules req.id (step policy s start).1 { slot } := by
  have wf := reachable_wellFormed reached
  obtain ⟨atoms, path, allowed, -⟩ := step_explained policy wf start
  have frame := path.invariant (P := fun u => u.modules = s.modules ∧ u.derivations = s.derivations)
    (Allowed s start) ?_ allowed ⟨rfl, rfl⟩
  · refine ⟨started.found, fun node _ => by rw [frame.1], ?_⟩
    rw [frame.2]
    refine List.filter_eq_nil_iff.mpr fun d member same => started.absent ?_
    rw [← beq_iff_eq.mp same]
    exact reachable_owned reached d member
  · rintro u a ok - ⟨modules, derivations⟩
    obtain ⟨op, ctx, env⟩ := start
    obtain rfl := started.op
    rcases ok with ⟨slot', rfl, -⟩ | ⟨key, r, rfl⟩
    · exact ⟨modules, derivations⟩
    · exact ⟨modules, derivations⟩

end Machine

section Echo

open Substrate.Kernel.Concrete

/-- The kernel just after the run of `echo` started. -/
def echoing (firing : Firing) (closure : Closure) : State :=
  (step policy (exec policy {} (stocked firing)) (startCall closure)).1

/-- Once `echo` is registered and its line stored, the request starts a run of it. -/
theorem started_echo (firing : Firing) (closure : Closure) (scope : Bool)
    (accepted : ((echoing firing closure).runs.lookup "r").map
      (fun slot => (slot.run.assembly, isOpenClosure slot)) = some (echoes, scope))
    (absent : "r" ∉ (exec policy {} (stocked firing)).runs) :
    ∃ slot, (echoing firing closure).runs.lookup "r" = some slot ∧
      Started policy (exec policy {} (stocked firing)) (startCall closure) (echoRequest closure) slot ∧
      slot.run.assembly = echoes ∧ isOpenClosure slot = scope := by
  obtain ⟨slot, found, same⟩ := Option.map_eq_some_iff.mp accepted
  obtain ⟨assembly, closed⟩ := Prod.mk.inj same
  refine ⟨slot, found, ⟨rfl, absent, ?_⟩, assembly, closed⟩
  rw [echoing] at found
  exact found

end Echo

end Substrate.Protocol.Steady
