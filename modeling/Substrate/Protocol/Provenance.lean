/- ID: Substrate/Protocol/Provenance
   digest: Every derivation records the claim it answers, and what that claim saw of the run before. -/

import Substrate.Kernel.Concrete
import Substrate.Library.Checks
import Substrate.Protocol.Accounting
import Substrate.Protocol.Single
import Substrate.Protocol.Stalling

set_option autoImplicit false
set_option relaxedAutoImplicit false

namespace Substrate.Protocol.Provenance

open Substrate.Kernel.Wire
open Substrate.Kernel.Hashing
open Substrate.Kernel.Memory
open Substrate.Kernel.Registry
open Substrate.Kernel.Schedule
open Substrate.Kernel.Runs
open Substrate.Kernel.Work
open Substrate.Kernel.Api
open Substrate.Protocol.Atoms
open Substrate.Protocol.Slots
open Substrate.Protocol.Delivery
open Substrate.Protocol.Serial
open Substrate.Protocol.Refine
open Substrate.Protocol.Steady (Started Started.fresh reachable_owned)
open Substrate.Protocol.Single (currentUnit_resolves)
open Substrate.Protocol.Stalling (claimReady_slot isIdle_iff)
open Substrate.Protocol.Accounting (derivationsOf derivationsOf_acted)
open Substrate.Library.Checks (mapM_eq_some)
open Substrate.Library.FiniteMap
open Substrate.Library.Transition

section Calls

variable [Sha256] [Prost]

omit [Sha256] [Prost] in
/-- The call that gives a run an input: its start or an injection. -/
def Gives (call : Call) (runId : String) (input : NamedArtifact) : Prop :=
  (∃ req, call.op = .startRun req ∧ req.id = runId ∧ input ∈ req.inputs) ∨
    ∃ req, call.op = .injectInput req ∧ req.runId = runId ∧ req.input = some input

/-- The run's start or an injection among the calls gave the run this input. -/
def GivenBy (policy : ArtifactStorePolicy) (calls : List Call) (runId : String)
    (input : NamedArtifact) : Prop :=
  ∃ before call after, calls = before ++ call :: after ∧ Gives call runId input ∧
    ∃ slot, (exec policy {} (before ++ [call])).runs.lookup runId = some slot ∧
      input ∈ slot.run.inputs

/-- A binding delivers an input: the artifact its run input holds in `slot`, or the first one on its
port of an earlier derivation of its upstream node. -/
def Delivers (policy : ArtifactStorePolicy) (calls : List Call) (runId : String) (slot : RunSlot)
    (earlier : List Derivation) (b : Binding) (input : NamedArtifact) : Prop :=
  input.name = b.toPort ∧ ∃ r, input.artifact = some r ∧
    if b.input ≠ "" then ∃ given, slot.run.inputs.find? (·.name == b.input) = some given ∧
      given.artifact = some r ∧ GivenBy policy calls runId given
    else ∃ e ∈ earlier, e.nodeId = b.fromNode ∧ ∃ output,
      e.outputs.find? (·.name == b.fromPort) = some output ∧ output.artifact = some r

/-- A claim made after `before` hands out `work` for a node of the assembly, with what its bindings
deliver there and then. -/
structure Handing (policy : ArtifactStorePolicy) (runId : String) (assembly : Assembly)
    (before : List Call) (claim : Call) (work : WorkItem) : Prop where
  handed : work ∈ handedOut (step policy (exec policy {} before) claim).2
  run : work.runId = runId
  node : nodeOfWork work ∈ assembly.nodes
  inputs : ∃ slot, (exec policy {} before).runs.lookup runId = some slot ∧
    List.Forall₂ (Delivers policy before runId slot (derivationsOf (exec policy {} before) runId))
      (bindingsOf assembly work.nodeId) work.inputs

/-- None of the calls `mid`, made after `before`, hands out the work id again. -/
def NotAgain (policy : ArtifactStorePolicy) (runId : String) (before mid : List Call)
    (id : String) : Prop :=
  ∀ first call rest, mid = first ++ call :: rest →
    ∀ work ∈ handedOut (step policy (exec policy {} (before ++ first)) call).2,
      work.runId = runId → work.id ≠ id

/-- The last item that the calls handed out under its id. -/
def Outstanding (policy : ArtifactStorePolicy) (runId : String) (assembly : Assembly)
    (calls : List Call) (work : WorkItem) : Prop :=
  ∃ before claim after, calls = before ++ claim :: after ∧
    Handing policy runId assembly before claim work ∧
    NotAgain policy runId (before ++ [claim]) after work.id

/-- The same work item, but for its lease. -/
def Renewed (w w' : WorkItem) : Prop := w' = { w with leaseUntilUnixMs := w'.leaseUntilUnixMs }

omit [Sha256] [Prost] in
theorem Renewed.refl (w : WorkItem) : Renewed w w := rfl

omit [Sha256] [Prost] in
theorem Renewed.trans {a b c : WorkItem} (ab : Renewed a b) (bc : Renewed b c) : Renewed a c := by
  unfold Renewed at *
  rw [ab] at bc
  exact bc

omit [Sha256] [Prost] in
theorem claimUnits_lookup {env : Env} {runId : String} {slot : RunSlot} {cs : List Candidate}
    {id : String} {c : ClaimedSlot}
    (held : (claimUnits env runId slot cs).1.claimed.lookup id = some c) :
    (∃ work ∈ (claimUnits env runId slot cs).2, work.id = id ∧ c = claimOf work) ∨
      (slot.claimed.lookup id = some c ∧ ∀ work ∈ (claimUnits env runId slot cs).2, work.id ≠ id) := by
  induction cs generalizing slot with
  | nil => exact .inr ⟨held, fun _ member => by cases member⟩
  | cons cand cs ih =>
      rcases ih held with ⟨work, member, same, rfl⟩ | ⟨before, others⟩
      · exact .inl ⟨work, List.mem_cons_of_mem _ member, same, rfl⟩
      · rw [claimSlot_claimed, lookup_insert_of] at before
        split_ifs at before with here
        · exact .inl ⟨_, List.mem_cons_self, here.symm, (Option.some.inj before).symm⟩
        · refine .inr ⟨before, fun work member => ?_⟩
          rcases List.mem_cons.mp member with rfl | later
          · exact Ne.symm here
          · exact others work later

omit [Sha256] [Prost] in
/-- The items of a batch are made of its candidates. -/
theorem claimUnits_item {env : Env} {runId : String} {slot : RunSlot} {cs : List Candidate}
    {work : WorkItem} (member : work ∈ (claimUnits env runId slot cs).2) :
    ∃ c ∈ cs, ∃ slot', work = claimWork env runId slot' c := by
  induction cs generalizing slot with
  | nil => cases member
  | cons cand cs ih =>
      rcases List.mem_cons.mp member with rfl | later
      · exact ⟨cand, List.mem_cons_self, slot, rfl⟩
      · obtain ⟨c, listed, same⟩ := ih later
        exact ⟨c, List.mem_cons_of_mem _ listed, same⟩

omit [Sha256] [Prost] in
theorem reapSlot_deliveries (env : Env) (slot : RunSlot) :
    SameDeliveries (reapSlot env slot) slot := by
  unfold reapSlot
  generalize expiredClaims env slot = expired
  induction expired generalizing slot with
  | nil => exact .refl slot
  | cons e expired ih =>
      obtain ⟨h1, h2, h3, h4, h5, h6⟩ := ih (expireClaim slot e)
      exact ⟨h1, h2, h3, h4, h5, h6⟩

/-- Only claims hand out work. -/
theorem handedOut_claims {policy : ArtifactStorePolicy} {s : State} {call : Call} {work : WorkItem}
    (handed : work ∈ handedOut (step policy s call).2) :
    ∃ req slot cs, call.op = .claimReady req ∧ s.runs.lookup req.runId = some slot ∧
      cs ⊆ readyCandidates s.modules (reapSlot call.env slot) req ∧
      handedOut (step policy s call).2 =
        (claimUnits call.env req.runId (reapSlot call.env slot) cs).2 ∧
      (step policy s call).1.runs.lookup req.runId =
        some (if isIdle s.modules (reapSlot call.env slot) then stallSlot (reapSlot call.env slot)
          else (claimUnits call.env req.runId (reapSlot call.env slot) cs).1) := by
  obtain ⟨op, ctx, env⟩ := call
  have silent : ∀ {α : Type} {wrap : α → Reply} (result : State × Except KernelError α),
      (∀ a, handedOut (wrap a) = []) → work ∉ handedOut (reply wrap result).2 := by
    rintro α wrap ⟨t, outcome⟩ none member
    cases outcome with
    | ok a =>
        change work ∈ handedOut (wrap a) at member
        rw [none a] at member
        cases member
    | error e => cases member
  cases op with
  | claimReady req =>
      cases late : checkDeadline env ctx with
      | error e =>
          simp only [step, late, orReturn] at handed
          cases handed
      | ok u =>
          simp only [step, late, orReturn] at handed ⊢
          cases running : runningSlot s req.runId with
          | error e =>
              simp only [claimReady, running, orReturn, reply] at handed
              cases handed
          | ok slot =>
              obtain ⟨found, running⟩ := runningSlot_ok.mp running
              obtain ⟨-, cs, listed, items, lookup⟩ := claimReady_slot env found running
              refine ⟨req, slot, cs, rfl, found, listed, ?_, lookup⟩
              simp only [reply, items]
              rfl
  | register manifest => cases handed
  | hasBlob req => cases handed
  | publish event => cases handed
  | append req => cases handed
  | snapshot => cases handed
  | transition req => exact absurd handed (silent _ fun _ => rfl)
  | putArtifact artifact => exact absurd handed (silent _ fun _ => rfl)
  | getArtifact ref => exact absurd handed (silent _ fun _ => rfl)
  | putBlob req => exact absurd handed (silent _ fun _ => rfl)
  | getBlob req => exact absurd handed (silent _ fun _ => rfl)
  | putContract contract => exact absurd handed (silent _ fun _ => rfl)
  | startRun req => exact absurd handed (silent _ fun _ => rfl)
  | injectInput req => exact absurd handed (silent _ fun _ => rfl)
  | heartbeat req => exact absurd handed (silent _ fun _ => rfl)
  | failWork req => exact absurd handed (silent _ fun _ => rfl)
  | commit submitted => exact absurd handed (silent _ fun _ => rfl)
  | getRun ref => exact absurd handed (silent _ fun _ => rfl)
  | cancelRun ref => exact absurd handed (silent _ fun _ => rfl)
  | listDerivations ref => exact absurd handed (silent _ fun _ => rfl)

theorem claims_quiet {s t : State} {atoms : List Atom} (path : Path kernel s atoms t) {runId : String}
    (quiet : ∀ a ∈ atoms, ∀ work, a ≠ .acted runId (.claim work)) {after : RunSlot} {id : String}
    {c : ClaimedSlot} (found : t.runs.lookup runId = some after)
    (held : after.claimed.lookup id = some c) :
    ∃ slot c0, s.runs.lookup runId = some slot ∧ slot.claimed.lookup id = some c0 ∧
      Renewed c0.work c.work := by
  refine path.invariant (fun a => ∀ work, a ≠ .acted runId (.claim work))
    (P := fun u => ∀ after id c, u.runs.lookup runId = some after →
      after.claimed.lookup id = some c → ∃ slot c0, s.runs.lookup runId = some slot ∧
        slot.claimed.lookup id = some c0 ∧ Renewed c0.work c.work) ?_ quiet ?_ after id c found held
  · intro u a silent guard before after id c found held
    rcases runs_apply guard found with ⟨old, -⟩ | ⟨slot, act, rfl, there, -, -, rfl⟩ |
      ⟨-, -, -, env, req, assembly, maxSteps, rfl, -⟩
    · exact before after id c old held
    · rcases claimed_apply held with old | ⟨work, rfl, -⟩ | ⟨leaseUntil, old, rfl, was, rfl⟩
      · exact before slot id c there old
      · exact absurd rfl (silent work)
      · obtain ⟨slot', c0, found', held', same⟩ := before slot id old there was
        exact ⟨slot', c0, found', held', same.trans rfl⟩
    · simp [freshSlot] at held
  · exact fun after id c found held => ⟨after, c, found, held, .refl _⟩

theorem claims_step (policy : ArtifactStorePolicy) {s : State} (wf : WellFormed s) (call : Call)
    {runId : String} {after : RunSlot} {id : String} {c : ClaimedSlot}
    (found : (step policy s call).1.runs.lookup runId = some after)
    (held : after.claimed.lookup id = some c) :
    (∃ work ∈ handedOut (step policy s call).2, work.runId = runId ∧ work.id = id ∧ c.work = work ∧
      ∃ slot, s.runs.lookup runId = some slot ∧ nodeOfWork work ∈ slot.run.assembly.nodes ∧
        resolveInputs slot (nodeOfWork work) = some work.inputs) ∨
      ∃ slot c0, s.runs.lookup runId = some slot ∧ slot.claimed.lookup id = some c0 ∧
        Renewed c0.work c.work ∧
        ∀ work ∈ handedOut (step policy s call).2, work.runId = runId → work.id ≠ id := by
  obtain ⟨atoms, path, allowed, items⟩ := step_explained policy wf call
  by_cases silent : ∀ work ∈ handedOut (step policy s call).2, work.runId ≠ runId
  · have quiet : ∀ a ∈ atoms, ∀ work, a ≠ .acted runId (.claim work) := by
      rintro a member work rfl
      obtain ⟨_, _, _, -, -, ⟨_, -, -, -, _, _, -, _, _, -, made⟩, -⟩ := path.split member
      refine silent work ?_ (by rw [made]; rfl)
      rw [← items]
      exact List.mem_filterMap.mpr ⟨_, member, rfl⟩
    obtain ⟨slot, c0, found', held', same⟩ := claims_quiet path quiet found held
    exact .inr ⟨slot, c0, found', held', same,
      fun work member mine => absurd mine (silent work member)⟩
  · push Not at silent
    obtain ⟨work, handed, rfl⟩ := silent
    obtain ⟨req, slot, cs, op, found', listed, handing, lookup⟩ := handedOut_claims handed
    rw [handing] at handed ⊢
    have here : ∀ work ∈ (claimUnits call.env req.runId (reapSlot call.env slot) cs).2,
        work.runId = req.runId := by
      intro work member
      obtain ⟨c, -, slot', rfl⟩ := claimUnits_item member
      rfl
    rw [here work handed] at found ⊢
    obtain rfl := Option.some.inj (found.symm.trans lookup)
    split_ifs at held with idle
    · exact absurd (mem_of_lookup held) ((isIdle_iff.mp idle).claimed id)
    rcases claimUnits_lookup held with ⟨work', member, same, rfl⟩ | ⟨before, others⟩
    · refine .inl ⟨work', member, here work' member, same, rfl, slot, found', ?_⟩
      obtain ⟨cand, taken, slot', rfl⟩ := claimUnits_item member
      obtain ⟨there, -, ready⟩ := mem_readyCandidates.mp (listed taken)
      have resolves := currentUnit_resolves (readyUnit_eq_some.mp ready).1
      rw [reapSlot_run] at there
      rw [resolveInputs_congr (reapSlot_deliveries call.env slot)] at resolves
      exact ⟨there, resolves⟩
    · exact .inr ⟨slot, c, found', reapSlot_lookup before, .refl _,
        fun work' member _ => others work' member⟩

theorem derivations_step (policy : ArtifactStorePolicy) {s : State} (wf : WellFormed s) (call : Call) :
    ∃ ds, (step policy s call).1.derivations = s.derivations ++ ds ∧
      ∀ d ∈ ds, ∃ submitted slot c, call.op = .commit submitted ∧
        s.runs.lookup submitted.runId = some slot ∧
        slot.claimed.lookup submitted.workId = some c ∧ d = derivationOf c.work submitted.outputs := by
  obtain ⟨atoms, path, allowed, -⟩ := step_explained policy wf call
  refine ⟨_, path_derivations path, ?_⟩
  intro d made
  obtain ⟨a, member, here⟩ := List.mem_flatMap.mp made
  cases a with
  | acted runId act =>
      cases act with
      | commit c outputs =>
          obtain rfl := List.mem_singleton.mp here
          rcases allowed_acted (allowed _ member) with ⟨_, _, -, -, -, same⟩ | ⟨_, -, -, same⟩ | ⟨-, ok⟩
          · cases same
          · cases same
          rcases actAllowed_cases ok with ⟨_, -, same⟩ | ⟨_, -, ⟨_, same⟩ | same⟩ |
            ⟨_, _, _, -, -, same⟩ | ⟨_, -, same | ⟨_, _, _, -, -, same⟩⟩ |
            ⟨submitted, slot, c', op, found, held, same⟩
          case inr.inr.inr.inr =>
            cases same
            exact ⟨submitted, slot, c, op, found, held, rfl⟩
          all_goals cases same
      | _ => cases here
  | _ => cases here

/-- The deliveries a run holds are derivations of its own nodes. -/
def LatestCommitted (s : State) : Prop :=
  ∀ runId slot, s.runs.lookup runId = some slot → ∀ node e, slot.latest.lookup node = some e →
    e ∈ derivationsOf s runId ∧ e.nodeId = node

theorem latest_apply {s : State} {a : Atom} (guard : a.enabled s) (wf : WellFormed s)
    (before : LatestCommitted s) : LatestCommitted (a.apply s) := by
  have grown : ∀ runId e, e ∈ derivationsOf s runId → e ∈ derivationsOf (a.apply s) runId := by
    intro runId e member
    rw [derivationsOf, derivations_apply guard, List.filter_append]
    exact List.mem_append_left _ member
  refine slots_apply (I := fun t runId slot => ∀ node e, slot.latest.lookup node = some e →
    e ∈ derivationsOf (a.apply s) runId ∧ e.nodeId = node) guard (fun _ _ h => h) ?_ ?_ ?_
  · rintro slot - ⟨env, req, assembly, maxSteps, rfl, -⟩ node e latest
    simp [freshSlot] at latest
  · rintro runId slot act rfl found - possible kept node e latest
    rcases latest_origin latest with old | ⟨c, outputs, rfl, rfl, rfl⟩
    · exact kept node e old
    · refine ⟨?_, rfl⟩
      rw [derivationsOf_acted guard (wf runId slot found) possible]
      exact List.mem_append_right _ (List.mem_singleton_self _)
  · intro runId slot found node e latest
    obtain ⟨member, same⟩ := before runId slot found node e latest
    exact ⟨grown runId e member, same⟩

theorem reachable_latest {policy : ArtifactStorePolicy} {s : State} (reached : Reachable policy s) :
    LatestCommitted s := by
  refine reachable_invariant ?_ (fun _ _ guard wf before => latest_apply guard wf before) reached
  intro runId slot found
  simp at found

omit [Prost] in
private theorem inputs_act {s u : State} {call : Call} {runId : String} {slot : RunSlot}
    {act : SlotAct} (allowed : Allowed s call (.acted runId act)) {input : NamedArtifact}
    (member : input ∈ (act.apply u.modules slot).run.inputs) :
    input ∈ slot.run.inputs ∨ Gives call runId input := by
  by_cases injects : ∃ given, act = .inject given
  · obtain ⟨given, rfl⟩ := injects
    rcases mem_admitInput member with rfl | old
    · rcases allowed_acted allowed with ⟨req, other, op, here, named, same⟩ | ⟨_, -, -, same⟩ | ⟨-, ok⟩
      · cases same
        exact .inr (.inr ⟨req, op, here, named⟩)
      · cases same
      · rcases actAllowed_cases ok with ⟨_, -, same⟩ | ⟨_, -, ⟨_, same⟩ | same⟩ |
          ⟨_, _, _, -, -, same⟩ | ⟨_, -, same | ⟨_, _, _, -, -, same⟩⟩ |
          ⟨_, _, _, -, -, -, same⟩ <;> cases same
    · exact .inl old
  · push Not at injects
    rw [inputs_apply injects] at member
    exact .inl member

theorem inputs_step (policy : ArtifactStorePolicy) {s : State} (wf : WellFormed s) (call : Call)
    {runId : String} {after : RunSlot}
    (found : (step policy s call).1.runs.lookup runId = some after) {input : NamedArtifact}
    (member : input ∈ after.run.inputs) :
    (∃ slot, s.runs.lookup runId = some slot ∧ input ∈ slot.run.inputs) ∨
      Gives call runId input := by
  obtain ⟨atoms, path, allowed, -⟩ := step_explained policy wf call
  have traced := path.invariant (Allowed s call) (P := fun u =>
    (∀ id ∈ s.runs, id ∈ u.runs) ∧ ∀ slot, u.runs.lookup runId = some slot →
      (∀ input ∈ slot.run.inputs, (∃ old, s.runs.lookup runId = some old ∧
        input ∈ old.run.inputs) ∨ Gives call runId input) ∨
      (runId ∉ s.runs ∧ ∃ req, call.op = .startRun req ∧ req.id = runId)) ?_ allowed ?_
  · rcases traced.2 after found with each | ⟨absent, req, op, rfl⟩
    · exact each input member
    · obtain ⟨given, assembly, -, -, -, rfl⟩ := Started.fresh ⟨op, absent, found⟩
      exact .inr (.inl ⟨req, op, rfl, member⟩)
  · rintro u a ok guard ⟨grown, before⟩
    refine ⟨?_, ?_⟩
    · intro id known
      obtain ⟨slot, there⟩ := lookup_of_mem (grown id known)
      rcases runs_persist guard there with ⟨still, -⟩ | ⟨act, -, -, -, after⟩
      · exact mem_of_lookup still
      · exact mem_of_lookup after
    · intro after found
      rcases runs_apply guard found with ⟨old, -⟩ | ⟨slot, act, rfl, there, -, -, rfl⟩ |
        ⟨rfl, rfl, absent, -⟩
      · exact before after old
      · refine (before slot there).imp_left fun each input member => ?_
        rcases inputs_act ok member with old | given
        · exact each input old
        · exact .inr given
      · obtain ⟨req, op, same⟩ := allowed_started ok
        exact .inr ⟨fun known => absent (grown _ known), req, op, same.symm⟩
  · exact ⟨fun _ known => known, fun slot found => .inl fun input member =>
      .inl ⟨slot, found, member⟩⟩

theorem terms_step (policy : ArtifactStorePolicy) {s : State} (wf : WellFormed s) (call : Call)
    {runId : String} {slot : RunSlot} (before : s.runs.lookup runId = some slot) :
    ∃ after, (step policy s call).1.runs.lookup runId = some after ∧ SameTerms slot after := by
  obtain ⟨atoms, path, -⟩ := step_explained policy wf call
  refine path.keeps (P := fun u => ∃ after, u.runs.lookup runId = some after ∧
    SameTerms slot after) ?_ ⟨slot, before, .refl slot⟩
  rintro u a guard ⟨mid, there, same⟩
  rcases runs_persist guard there with ⟨still, -⟩ | ⟨act, -, -, -, after⟩
  · exact ⟨mid, still, same⟩
  · exact ⟨_, after, same.trans (apply_terms u.modules mid act)⟩

theorem terms_exec (policy : ArtifactStorePolicy) {s : State} (reached : Reachable policy s)
    (calls : List Call) {runId : String} {slot : RunSlot}
    (before : s.runs.lookup runId = some slot) :
    ∃ after, (exec policy s calls).runs.lookup runId = some after ∧ SameTerms slot after := by
  induction calls generalizing s slot with
  | nil => exact ⟨slot, before, .refl slot⟩
  | cons call calls ih =>
      obtain ⟨mid, there, same⟩ := terms_step policy (reachable_wellFormed reached) call before
      obtain ⟨after, found, same'⟩ := ih (reachable_step call reached) there
      exact ⟨after, by rwa [exec_cons], same.trans same'⟩

theorem assembly_step (policy : ArtifactStorePolicy) {s : State} (wf : WellFormed s) (call : Call)
    {runId : String} {slot after : RunSlot} (before : s.runs.lookup runId = some slot)
    (found : (step policy s call).1.runs.lookup runId = some after) :
    after.run.assembly = slot.run.assembly := by
  obtain ⟨after', found', same⟩ := terms_step policy wf call before
  obtain rfl := Option.some.inj (found.symm.trans found')
  exact same.assembly

/-- A run after a call was there before, or the call is what starts it. -/
theorem run_origin (policy : ArtifactStorePolicy) {s : State} (wf : WellFormed s) (call : Call)
    {runId : String} {after : RunSlot}
    (found : (step policy s call).1.runs.lookup runId = some after) :
    (∃ slot, s.runs.lookup runId = some slot ∧ SameTerms slot after) ∨
      ∃ req, req.id = runId ∧ Started policy s call req after := by
  by_cases known : runId ∈ s.runs
  · obtain ⟨slot, before⟩ := lookup_of_mem known
    obtain ⟨after', found', same⟩ := terms_step policy wf call before
    obtain rfl := Option.some.inj (found.symm.trans found')
    exact .inl ⟨slot, before, same⟩
  · obtain ⟨atoms, path, allowed, -⟩ := step_explained policy wf call
    have origin := path.invariant (Allowed s call) (P := fun u => runId ∈ u.runs →
      ∃ req, call.op = .startRun req ∧ req.id = runId) ?_ allowed fun member => absurd member known
    · obtain ⟨req, op, rfl⟩ := origin (mem_of_lookup found)
      exact .inr ⟨req, rfl, op, known, found⟩
    · rintro u a ok guard before member
      obtain ⟨slot, there⟩ := lookup_of_mem member
      rcases runs_apply guard there with ⟨old, -⟩ | ⟨old, act, -, was, -⟩ | ⟨rfl, rfl, -⟩
      · exact before (mem_of_lookup old)
      · exact before (mem_of_lookup was)
      · obtain ⟨req, op, same⟩ := allowed_started ok
        exact ⟨req, op, same.symm⟩

/-- A derivation answers the claim of `work`: no later claim took its id before the commit, and all
that the claim could see of the run stands before it in the list. -/
structure Answers (policy : ArtifactStorePolicy) (runId : String) (assembly : Assembly)
    (earlier : List Derivation) (d : Derivation) (before : List Call) (claim : Call)
    (mid : List Call) (commit : Call) (work : WorkItem) : Prop where
  handing : Handing policy runId assembly before claim work
  last : NotAgain policy runId (before ++ [claim]) mid work.id
  submitted : ∃ submitted, commit.op = .commit submitted ∧ submitted.runId = runId ∧
    submitted.workId = work.id ∧ d.outputs = submitted.outputs
  inputs : d.inputs = work.inputs
  node : d.nodeId = work.nodeId ∧ d.module = work.module ∧ d.moduleVersion = work.moduleVersion ∧
    d.capability = work.capability
  seen : derivationsOf (exec policy {} before) runId <+: earlier

/-- Some claim and commit of the history made the derivation. -/
def Traced (policy : ArtifactStorePolicy) (calls : List Call) (runId : String) (assembly : Assembly)
    (earlier : List Derivation) (d : Derivation) : Prop :=
  ∃ before claim mid commit rest work, calls = before ++ claim :: (mid ++ commit :: rest) ∧
    Answers policy runId assembly earlier d before claim mid commit work

/-- What the history says about a run as the kernel holds it. -/
structure Recorded (policy : ArtifactStorePolicy) (calls : List Call) (runId : String)
    (slot : RunSlot) : Prop where
  inputs : ∀ input ∈ slot.run.inputs, GivenBy policy calls runId input
  claims : ∀ id c, slot.claimed.lookup id = some c → ∃ work, work.id = id ∧ Renewed work c.work ∧
    Outstanding policy runId slot.run.assembly calls work
  derivations : ∀ pre d post, derivationsOf (exec policy {} calls) runId = pre ++ d :: post →
    Traced policy calls runId slot.run.assembly pre d

section Extend

variable {policy : ArtifactStorePolicy} {calls : List Call} {call : Call} {runId : String}
  {assembly : Assembly}

theorem givenBy_snoc {input : NamedArtifact} (given : GivenBy policy calls runId input) :
    GivenBy policy (calls ++ [call]) runId input := by
  obtain ⟨before, giver, after, rfl, gives, held⟩ := given
  exact ⟨before, giver, after ++ [call], by simp, gives, held⟩

theorem traced_snoc {earlier : List Derivation} {d : Derivation}
    (traced : Traced policy calls runId assembly earlier d) :
    Traced policy (calls ++ [call]) runId assembly earlier d := by
  obtain ⟨before, claim, mid, commit, rest, work, rfl, answers⟩ := traced
  exact ⟨before, claim, mid, commit, rest ++ [call], work, by simp, answers⟩

theorem outstanding_snoc {work : WorkItem} (held : Outstanding policy runId assembly calls work)
    (others : ∀ other ∈ handedOut (step policy (exec policy {} calls) call).2,
      other.runId = runId → other.id ≠ work.id) :
    Outstanding policy runId assembly (calls ++ [call]) work := by
  obtain ⟨before, claim, after, rfl, handing, last⟩ := held
  refine ⟨before, claim, after ++ [call], by simp, handing, ?_⟩
  intro first call' rest split
  rcases List.eq_nil_or_concat rest with rfl | ⟨rest, final, rfl⟩
  · obtain ⟨rfl, same⟩ := List.append_inj' split rfl
    obtain rfl := List.singleton_inj.mp same
    simpa using others
  · have longer : after ++ [call] = (first ++ call' :: rest) ++ [final] := by simp [split]
    obtain ⟨same, -⟩ := List.append_inj' longer rfl
    exact last first call' rest same

theorem delivers_of_resolved {slot : RunSlot} {work : WorkItem}
    (found : (exec policy {} calls).runs.lookup runId = some slot)
    (recorded : Recorded policy calls runId slot)
    (resolves : resolveInputs slot (nodeOfWork work) = some work.inputs) :
    List.Forall₂ (Delivers policy calls runId slot (derivationsOf (exec policy {} calls) runId))
      (bindingsOf slot.run.assembly work.nodeId) work.inputs := by
  have reached : Reachable policy (exec policy {} calls) := ⟨calls, rfl⟩
  have latest := reachable_latest reached runId slot found
  refine (mapM_eq_some.mp resolves).imp fun b input delivered => ?_
  obtain ⟨r, resolved, rfl⟩ := Option.map_eq_some_iff.mp delivered
  refine ⟨rfl, r, rfl, ?_⟩
  unfold resolveBinding at resolved
  split_ifs at resolved ⊢ with external
  · obtain ⟨given, named, holds⟩ := Option.bind_eq_some_iff.mp resolved
    exact ⟨given, named, holds, recorded.inputs given (List.mem_of_find?_eq_some named)⟩
  · obtain ⟨output, named, holds⟩ := Option.bind_eq_some_iff.mp resolved
    obtain ⟨e, last, port⟩ := Option.bind_eq_some_iff.mp named
    obtain ⟨member, node⟩ := latest b.fromNode e last
    exact ⟨e, member, node, output, port, holds⟩

end Extend

omit [Sha256] [Prost] in
private theorem split_append {α : Type} {xs ys pre post : List α} {a : α}
    (split : xs ++ ys = pre ++ a :: post) :
    (∃ more, xs = pre ++ a :: more) ∨ ∃ more, pre = xs ++ more ∧ a ∈ ys := by
  rcases List.append_eq_append_iff.mp split with ⟨more, same, tail⟩ | ⟨more, same, tail⟩
  · exact .inr ⟨more, same, by simp [tail]⟩
  · cases more with
    | nil =>
        rw [List.nil_append] at tail
        exact .inr ⟨[], by simpa using same.symm, by simp [← tail]⟩
    | cons b more =>
        obtain ⟨rfl, -⟩ := List.cons_eq_cons.mp tail
        exact .inl ⟨more, same⟩

theorem derivationsOf_extend (policy : ArtifactStorePolicy) (calls later : List Call)
    (runId : String) : derivationsOf (exec policy {} calls) runId <+:
      derivationsOf (exec policy {} (calls ++ later)) runId := by
  induction later using List.reverseRecOn with
  | nil => simp
  | append_singleton later call ih =>
      have wf := reachable_wellFormed (⟨calls ++ later, rfl⟩ : Reachable policy _)
      obtain ⟨ds, grown, -⟩ := derivations_step policy wf call
      have more : (exec policy {} (calls ++ later)).derivations <+:
          (step policy (exec policy {} (calls ++ later)) call).1.derivations := ⟨ds, grown.symm⟩
      rw [← List.append_assoc, exec_snoc policy {} (calls ++ later) call]
      exact ih.trans (more.filter _)

private theorem recorded_snoc {policy : ArtifactStorePolicy} {calls : List Call}
    (before : ∀ runId slot, (exec policy {} calls).runs.lookup runId = some slot →
      Recorded policy calls runId slot) (call : Call) {runId : String} {after : RunSlot}
    (found : (exec policy {} (calls ++ [call])).runs.lookup runId = some after) :
    Recorded policy (calls ++ [call]) runId after := by
  have reached : Reachable policy (exec policy {} calls) := ⟨calls, rfl⟩
  have wf := reachable_wellFormed reached
  have last := exec_snoc policy {} calls call
  have stepped := found
  rw [last] at stepped
  refine ⟨?_, ?_, ?_⟩
  · intro input member
    rcases inputs_step policy wf call stepped member with ⟨slot, there, old⟩ | gives
    · exact givenBy_snoc ((before runId slot there).inputs input old)
    · exact ⟨calls, call, [], rfl, gives, after, found, member⟩
  · intro id c held
    rcases claims_step policy wf call stepped held with
      ⟨work, handed, run, rfl, same, slot, there, node, resolves⟩ |
      ⟨slot, c0, there, held', same, others⟩
    · have assembly := assembly_step policy wf call there stepped
      refine ⟨work, rfl, same ▸ .refl _, calls, call, [], rfl, ⟨handed, run, ?_, slot, there, ?_⟩, ?_⟩
      · rw [assembly]
        exact node
      · rw [assembly]
        exact delivers_of_resolved there (before runId slot there) resolves
      · intro first call' rest split
        simp at split
    · have assembly := assembly_step policy wf call there stepped
      obtain ⟨work, rfl, renewed, outstanding⟩ := (before runId slot there).claims id c0 held'
      refine ⟨work, rfl, renewed.trans same, ?_⟩
      rw [assembly]
      exact outstanding_snoc outstanding others
  · intro pre d post split
    obtain ⟨ds, grown, committed⟩ := derivations_step policy wf call
    rw [derivationsOf, last, grown, List.filter_append] at split
    rcases split_append split with ⟨more, old⟩ | ⟨more, rfl, new⟩
    · change derivationsOf (exec policy {} calls) runId = _ at old
      have member : d ∈ derivationsOf (exec policy {} calls) runId := by simp [old]
      obtain ⟨there, mine⟩ := List.mem_filter.mp member
      obtain ⟨slot, there⟩ := lookup_of_mem (reachable_owned reached d there)
      rw [show d.runId = runId by simpa using mine] at there
      rw [assembly_step policy wf call there stepped]
      exact traced_snoc ((before runId slot there).derivations pre d more old)
    · obtain ⟨made, mine⟩ := List.mem_filter.mp new
      obtain ⟨submitted, slot, c, op, there, held, rfl⟩ := committed d made
      have claim := (wf _ slot there).claims _ c held
      have run : submitted.runId = runId := claim.runId.symm.trans (beq_iff_eq.mp mine)
      subst run
      obtain ⟨work, same, renewed, before', claim', mid, rfl, handing, lasts⟩ :=
        (before _ slot there).claims _ c held
      refine ⟨before', claim', mid, call, [], work, by simp, ?_⟩
      rw [assembly_step policy wf call there stepped]
      have copied : ∀ w : WorkItem, Renewed work w → w.inputs = work.inputs ∧
          w.nodeId = work.nodeId ∧ w.module = work.module ∧
          w.moduleVersion = work.moduleVersion ∧ w.capability = work.capability := by
        intro w same
        rw [same]
        exact ⟨rfl, rfl, rfl, rfl, rfl⟩
      obtain ⟨inputs, node⟩ := copied c.work renewed
      exact ⟨handing, lasts, ⟨submitted, op, rfl, same.symm, rfl⟩, inputs, node,
        (derivationsOf_extend policy before' _ _).trans (List.prefix_append _ _)⟩

theorem recorded (policy : ArtifactStorePolicy) (calls : List Call) :
    ∀ runId slot, (exec policy {} calls).runs.lookup runId = some slot →
      Recorded policy calls runId slot := by
  induction calls using List.reverseRecOn with
  | nil =>
      intro runId slot found
      simp at found
  | append_singleton calls call ih => exact fun runId slot found => recorded_snoc ih call found

private theorem Delivers.grow {policy : ArtifactStorePolicy} {calls : List Call} {runId : String}
    {slot : RunSlot} {earlier more : List Derivation} {b : Binding} {input : NamedArtifact}
    (delivered : Delivers policy calls runId slot earlier b input) (grown : earlier <+: more) :
    Delivers policy calls runId slot more b input := by
  obtain ⟨named, r, carried, source⟩ := delivered
  refine ⟨named, r, carried, ?_⟩
  split_ifs at source ⊢
  · exact source
  · obtain ⟨e, member, rest⟩ := source
    exact ⟨e, grown.subset member, rest⟩

/-- Every derivation of a run answers one claim of the history, the last of its work id before the
commit: it is of a node of the run's assembly, has the inputs that the claim handed out, binding by
binding those of the run inputs at the claim and of derivations earlier in the list, and takes nothing
but its outputs from what was submitted. -/
theorem provenance_closure (policy : ArtifactStorePolicy) (calls : List Call) {runId : String}
    {slot : RunSlot} (found : (exec policy {} calls).runs.lookup runId = some slot)
    {pre post : List Derivation} {d : Derivation}
    (split : derivationsOf (exec policy {} calls) runId = pre ++ d :: post) :
    ∃ before claim mid commit rest work submitted held,
      calls = before ++ claim :: (mid ++ commit :: rest) ∧
      work ∈ handedOut (step policy (exec policy {} before) claim).2 ∧ work.runId = runId ∧
      NotAgain policy runId (before ++ [claim]) mid work.id ∧
      commit.op = .commit submitted ∧ submitted.runId = runId ∧ submitted.workId = work.id ∧
      d.outputs = submitted.outputs ∧ d.inputs = work.inputs ∧
      (⟨d.nodeId, d.module, d.moduleVersion, d.capability⟩ : AssemblyNode) ∈
        slot.run.assembly.nodes ∧
      (exec policy {} before).runs.lookup runId = some held ∧
      List.Forall₂ (Delivers policy before runId held pre)
        (bindingsOf slot.run.assembly d.nodeId) d.inputs := by
  obtain ⟨before, claim, mid, commit, rest, work, made, answers⟩ :=
    (recorded policy calls runId slot found).derivations pre d post split
  obtain ⟨submitted, op, run, id, outputs⟩ := answers.submitted
  obtain ⟨node, module, version, capability⟩ := answers.node
  obtain ⟨held, there, delivered⟩ := answers.handing.inputs
  refine ⟨before, claim, mid, commit, rest, work, submitted, held, made, answers.handing.handed,
    answers.handing.run, answers.last, op, run, id, outputs, answers.inputs, ?_, there, ?_⟩
  · rw [node, module, version, capability]
    exact answers.handing.node
  · rw [node, answers.inputs]
    exact delivered.imp fun b input source => source.grow answers.seen

end Calls

section Echo

open Substrate.Kernel.Concrete

/-- The run of `echo`, claimed late and answered. -/
def echoed : List Call :=
  opening .once .unspecified ++ [claimAt 0, claimAt 60000, commitAt 60001 "work:r/n" (text "one")]

theorem provenance_closure_echo :
    ∃ slot d, (exec policy {} echoed).runs.lookup "r" = some slot ∧
      derivationsOf (exec policy {} echoed) "r" = [d] ∧
      ∃ before claim work, work ∈ handedOut (step policy (exec policy {} before) claim).2 ∧
        d.inputs = work.inputs ∧
        (⟨d.nodeId, d.module, d.moduleVersion, d.capability⟩ : AssemblyNode) ∈
          slot.run.assembly.nodes := by
  have present : "r" ∈ (exec policy {} echoed).runs := by decide +kernel
  have one : (derivationsOf (exec policy {} echoed) "r").length = 1 := by decide +kernel
  obtain ⟨slot, found⟩ := lookup_of_mem present
  obtain ⟨d, only⟩ := List.length_eq_one_iff.mp one
  have split : derivationsOf (exec policy {} echoed) "r" = [] ++ d :: [] := only
  obtain ⟨before, claim, _, _, _, work, _, _, -, handed, -, -, -, -, -, -, inputs, node, -⟩ :=
    provenance_closure policy echoed found split
  exact ⟨slot, d, found, only, before, claim, work, handed, inputs, node⟩

end Echo

end Substrate.Protocol.Provenance
