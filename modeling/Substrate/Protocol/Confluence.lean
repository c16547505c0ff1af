/- ID: Substrate/Protocol/Confluence
   digest: Two schedules of one request commit the same inputs and outputs and give the same answer. -/

import Substrate.Protocol.Single
import Substrate.Protocol.Validation

set_option autoImplicit false
set_option relaxedAutoImplicit false

namespace Substrate.Protocol.Confluence

open Substrate.Kernel.Wire
open Substrate.Kernel.Hashing
open Substrate.Kernel.Memory
open Substrate.Kernel.Registry
open Substrate.Kernel.Assembly (materializeAssembly orInvalid)
open Substrate.Kernel.Schedule
open Substrate.Kernel.Runs
open Substrate.Kernel.Work
open Substrate.Kernel.Api
open Substrate.Protocol.Atoms
open Substrate.Protocol.Slots
open Substrate.Protocol.Delivery
open Substrate.Protocol.Identity
open Substrate.Protocol.Refine
open Substrate.Protocol.Steady
open Substrate.Protocol.Single
open Substrate.Protocol.Validation
open Substrate.Library.Checks
open Substrate.Library.FiniteMap
open Substrate.Library.Transition

section Schedules

variable [Sha256]

/-- A node id that no unit key of another mode can be read as. -/
def PlainId (id : String) : Prop :=
  ¬ "always:".toList <+: id.toList ∧ ¬ "key:".toList <+: id.toList

theorem workId_spell (runId : String) (u : UnitIdent) :
    workId runId u.node u.spell = "work:" ++ runId ++ "/" ++
      match u with
      | .once node => node
      | _ => u.spell := by
  cases u <;> simp [workId, UnitIdent.spell, UnitIdent.node]

private theorem plain_ne_spell {id : String} (plain : PlainId id) {u : UnitIdent}
    (mode : ∀ node, u ≠ .once node) : id ≠ u.spell := by
  rintro rfl
  cases u with
  | once node => exact mode node rfl
  | always node rows => exact plain.1 (by simp [UnitIdent.spell, List.append_assoc])
  | key node pairs => exact plain.2 (by simp [UnitIdent.spell, List.append_assoc])

theorem workId_node {runId : String} {u v : UnitIdent} (plain : PlainId u.node)
    (plain' : PlainId v.node) (same : workId runId u.node u.spell = workId runId v.node v.spell) :
    u.node = v.node := by
  rw [workId_spell, workId_spell] at same
  have tails := (String.append_right_inj _).mp same
  cases u with
  | once a =>
      cases v with
      | once b => exact tails
      | always b y => exact absurd tails (plain_ne_spell plain (by simp))
      | key b y => exact absurd tails (plain_ne_spell plain (by simp))
  | always a x =>
      cases v with
      | once b => exact absurd tails.symm (plain_ne_spell plain' (by simp))
      | always b y => exact (UnitIdent.spell_inj tails).node_eq
      | key b y => exact (UnitIdent.spell_inj tails).node_eq
  | key a x =>
      cases v with
      | once b => exact absurd tails.symm (plain_ne_spell plain' (by simp))
      | always b y => exact (UnitIdent.spell_inj tails).node_eq
      | key b y => exact (UnitIdent.spell_inj tails).node_eq

variable {modules : List ModuleSlot} {runId : String} {f : Flow}

theorem issued_of_claim (settling : Settling modules runId f)
    (plain : ∀ node ∈ f.slot.run.assembly.nodes, PlainId node.id) {id : String} {c : ClaimedSlot}
    (held : f.slot.claimed.lookup id = some c) {w : WorkItem} (issued : w ∈ f.issued)
    (named : w.id = id) : w.nodeId = c.work.nodeId ∧ w.inputs = c.work.inputs := by
  obtain ⟨member, wid, unit⟩ := settling.issued w issued
  obtain ⟨cid, unit'⟩ := settling.claimed id c held
  have claim := settling.shape.claims id c held
  obtain ⟨u, key, node⟩ := currentUnit_spell unit
  obtain ⟨v, key', node'⟩ := currentUnit_spell unit'
  change u.node = w.nodeId at node
  change v.node = c.work.nodeId at node'
  have same : w.nodeId = c.work.nodeId := by
    rw [← node, ← node']
    refine workId_node ?_ ?_ (?_ : workId runId _ _ = workId runId _ _)
    · rw [node]
      exact plain _ member
    · rw [node']
      exact plain _ claim.node
    · rw [node, node', ← key, ← key', ← wid, ← cid, named, claim.id]
  have nodes : nodeOfWork w = nodeOfWork c.work :=
    List.inj_on_of_nodup_map settling.shape.ids member claim.node same
  rw [nodes, unit'] at unit
  exact ⟨same, (Prod.mk.inj (Option.some.inj unit)).1.symm⟩

/-- The acts of a run that takes no injections and whose commits are what a fixed worker makes of
the node and its inputs. -/
def Scripted (worker : String → List NamedArtifact → List NamedArtifact) : SlotAct → Prop
  | .inject _ => False
  | .commit c outputs => outputs = worker c.work.nodeId c.work.inputs
  | _ => True

/-- A run as a fixed worker leaves it: every derivation is the worker's, and the answer of a
COMPLETED run is its terminal node's. -/
structure Functional (worker : String → List NamedArtifact → List NamedArtifact)
    (modules : List ModuleSlot) (runId : String) (start : RunSlot) (f : Flow) : Prop where
  settling : Settling modules runId f
  terms : SameTerms start f.slot
  inputs : f.slot.run.inputs = start.run.inputs
  outputs : ∀ d ∈ f.derived, d.outputs = worker d.nodeId d.inputs
  answer : f.slot.run.state = .completed → ∃ d ∈ f.derived, ∃ r,
    terminalAnswer f.slot.run.assembly d = some r ∧ f.slot.run.answer = some r

variable {worker : String → List NamedArtifact → List NamedArtifact} {start : RunSlot}

omit [Sha256] in
private theorem advanceRun_answer {slot : RunSlot} {d : Derivation}
    (running : slot.run.state = .running) (completed : (advanceRun slot d).state = .completed) :
    ∃ r, terminalAnswer slot.run.assembly d = some r ∧ (advanceRun slot d).answer = some r := by
  simp only [advanceRun] at completed ⊢
  split_ifs at completed ⊢ with last spent
  · obtain ⟨r, answer⟩ := Option.isSome_iff_exists.mp (Bool.and_eq_true_iff.mp last).1
    exact ⟨r, answer, by rw [answer]; rfl⟩
  · rw [running] at completed
    cases completed

private theorem answer_commit {c : ClaimedSlot} {outputs : List NamedArtifact}
    (running : f.slot.run.state = .running)
    (completed : ((SlotAct.commit c outputs).apply modules f.slot).run.state = .completed) :
    ∃ r, terminalAnswer f.slot.run.assembly (derivationOf c.work outputs) = some r ∧
      ((SlotAct.commit c outputs).apply modules f.slot).run.answer = some r := by
  simp only [SlotAct.apply, settleSlot] at completed ⊢
  split_ifs at completed ⊢ with idle
  · cases completed
  · exact advanceRun_answer running completed

private theorem not_completed {a : SlotAct} (running : f.slot.run.state = .running)
    (noCommit : ∀ c outputs, a ≠ .commit c outputs) :
    (a.apply modules f.slot).run.state ≠ .completed := by
  cases a with
  | commit c outputs => exact absurd rfl (noCommit c outputs)
  | renew id leaseUntil =>
      simp only [SlotAct.apply, renewClaim]
      split <;> simp [running]
  | stall => simp [SlotAct.apply, stallSlot]
  | cancel => simp [SlotAct.apply, cancelSlot]
  | _ => simp [SlotAct.apply, injectSlot, claimSlot, expireClaim, failSlot, running]

theorem functional_apply {a : SlotAct} (functional : Functional worker modules runId start f)
    (guard : (flowMachine modules runId).enabled f a) (scripted : Scripted worker a) :
    Functional worker modules runId start ((flowMachine modules runId).apply f a) := by
  have noInject : ∀ input, a ≠ .inject input := by
    rintro input rfl
    exact scripted
  have terms := apply_terms modules f.slot a
  refine ⟨settling_apply functional.settling guard noInject, functional.terms.trans terms,
    (inputs_apply noInject).trans functional.inputs, ?_, ?_⟩
  · intro d member
    rcases List.mem_append.mp member with old | new
    · exact functional.outputs d old
    · cases a with
      | commit c outputs =>
          obtain rfl := List.mem_singleton.mp new
          exact scripted
      | _ => cases new
  · intro completed
    by_cases commits : ∃ c outputs, a = .commit c outputs
    · obtain ⟨c, outputs, rfl⟩ := commits
      obtain ⟨r, answer, given⟩ := answer_commit guard.1 completed
      refine ⟨derivationOf c.work outputs, List.mem_append_right _ List.mem_cons_self, r, ?_, given⟩
      show terminalAnswer ((SlotAct.commit c outputs).apply modules f.slot).run.assembly _ = some r
      rw [terms.assembly]
      exact answer
    · push Not at commits
      exact absurd completed (not_completed guard.1 commits)

variable {modules' : List ModuleSlot} {runId' : String} {g : Flow}

theorem upstream_same (settling : Settling modules runId f) (settling' : Settling modules' runId' g)
    {b : Binding} (upstream : b.input = "")
    (source : ∀ d ∈ f.derived, ∀ e ∈ g.derived, d.nodeId = b.fromNode → e.nodeId = b.fromNode →
      d.outputs = e.outputs)
    (delivered : ∃ r, resolveBinding f.slot b = some r)
    (delivered' : ∃ r, resolveBinding g.slot b = some r) :
    resolveBinding f.slot b = resolveBinding g.slot b := by
  have internal : ¬b.input ≠ "" := not_not.mpr upstream
  obtain ⟨r, delivered⟩ := delivered
  obtain ⟨r', delivered'⟩ := delivered'
  simp only [resolveBinding, if_neg internal] at delivered delivered' ⊢
  cases latest : f.slot.latest.lookup b.fromNode with
  | none => simp [latest] at delivered
  | some d =>
      cases latest' : g.slot.latest.lookup b.fromNode with
      | none => simp [latest'] at delivered'
      | some e =>
          obtain ⟨member, node⟩ := (settling.latest _ d).mp latest
          obtain ⟨member', node'⟩ := (settling'.latest _ e).mp latest'
          simp only [Option.bind_some, source d member e member' node node']

private theorem delivers_same (functional : Functional worker modules runId start f)
    (functional' : Functional worker modules' runId' start g) {b : Binding}
    (source : b.input = "" → ∀ d ∈ f.derived, ∀ e ∈ g.derived, d.nodeId = b.fromNode →
      e.nodeId = b.fromNode → d.outputs = e.outputs)
    (delivered : ∃ r, resolveBinding f.slot b = some r)
    (delivered' : ∃ r, resolveBinding g.slot b = some r) :
    resolveBinding f.slot b = resolveBinding g.slot b := by
  by_cases external : b.input ≠ ""
  · rw [resolveBinding, resolveBinding, if_pos external, if_pos external, functional.inputs,
      functional'.inputs]
  · have upstream : b.input = "" := not_not.mp external
    exact upstream_same functional.settling functional'.settling upstream (source upstream)
      delivered delivered'

theorem derivations_agree (functional : Functional worker modules runId start f)
    (functional' : Functional worker modules' runId' start g) {rank : String → Nat}
    (up : ∀ b ∈ start.run.assembly.bindings, b.input = "" → rank b.fromNode < rank b.toNode)
    {d e : Derivation} (member : d ∈ f.derived) (member' : e ∈ g.derived)
    (same : d.nodeId = e.nodeId) : d.inputs = e.inputs ∧ d.outputs = e.outputs := by
  suffices inputs : d.inputs = e.inputs by
    refine ⟨inputs, ?_⟩
    rw [functional.outputs d member, functional'.outputs e member', same, inputs]
  induction height : rank d.nodeId using Nat.strong_induction_on generalizing d e with
  | _ n below =>
      obtain ⟨node, here, id, key, unit, -⟩ := functional.settling.committed d member
      obtain ⟨node', here', id', key', unit', -⟩ := functional'.settling.committed e member'
      have assembly := functional.terms.assembly
      have assembly' := functional'.terms.assembly
      rw [assembly] at here
      rw [assembly'] at here'
      have ids := functional.settling.shape.ids
      rw [assembly] at ids
      obtain rfl : node = node' :=
        List.inj_on_of_nodup_map ids here here' (id.trans (same.trans id'.symm))
      have resolves := currentUnit_resolves unit
      have resolves' := currentUnit_resolves unit'
      have equal : resolveInputs f.slot node = resolveInputs g.slot node := by
        unfold resolveInputs
        rw [assembly, assembly']
        refine mapM_congr fun b bound => ?_
        have delivered := resolveBinding_isSome resolves (by rw [assembly]; exact bound)
        have delivered' := resolveBinding_isSome resolves' (by rw [assembly']; exact bound)
        obtain ⟨listed, target⟩ := List.mem_filter.mp bound
        rw [delivers_same functional functional' ?_ delivered delivered']
        intro upstream x hx y hy from' from''
        have lower : rank x.nodeId < n := by
          rw [from', ← height, ← id, ← beq_iff_eq.mp target]
          exact up b listed upstream
        rw [functional.outputs x hx, functional'.outputs y hy, from', from'',
          below _ lower hx hy (from'.trans from''.symm) rfl]
      rw [resolves, resolves'] at equal
      exact Option.some.inj equal

omit [Sha256] in
theorem terminal_same {assembly assembly' : Assembly} {d e : Derivation} {r r' : ArtifactRef}
    (declared : assembly'.terminal = assembly.terminal)
    (answer : terminalAnswer assembly d = some r) (answer' : terminalAnswer assembly' e = some r')
    (outputs : d.nodeId = e.nodeId → d.outputs = e.outputs) : r = r' := by
  unfold terminalAnswer at answer answer'
  rw [declared] at answer'
  obtain ⟨terminal, here, found⟩ := Option.bind_eq_some_iff.mp answer
  obtain ⟨terminal', here', found'⟩ := Option.bind_eq_some_iff.mp answer'
  obtain ⟨named, node⟩ := Option.filter_eq_some_iff.mp here
  obtain ⟨named', node'⟩ := Option.filter_eq_some_iff.mp here'
  obtain rfl := Option.some.inj (named.symm.trans named')
  rw [outputs ((beq_iff_eq.mp node).symm.trans (beq_iff_eq.mp node'))] at found
  exact Option.some.inj (found.symm.trans found')

theorem answers_agree (functional : Functional worker modules runId start f)
    (functional' : Functional worker modules' runId' start g) {rank : String → Nat}
    (up : ∀ b ∈ start.run.assembly.bindings, b.input = "" → rank b.fromNode < rank b.toNode)
    (completed : f.slot.run.state = .completed) (completed' : g.slot.run.state = .completed) :
    ∃ r, f.slot.run.answer = some r ∧ g.slot.run.answer = some r := by
  obtain ⟨d, member, r, answer, given⟩ := functional.answer completed
  obtain ⟨e, member', r', answer', given'⟩ := functional'.answer completed'
  rw [functional.terms.assembly] at answer
  rw [functional'.terms.assembly] at answer'
  have same : r = r' := terminal_same rfl answer answer' fun node =>
    (derivations_agree functional functional' up member member' node).2
  exact ⟨r, given, same ▸ given'⟩

omit [Sha256] in
theorem materializeAssembly_env {env env' : Env} {given assembly assembly' : Assembly}
    {includeNodes : List String} (made : materializeAssembly env given includeNodes = .ok assembly)
    (made' : materializeAssembly env' given includeNodes = .ok assembly') : assembly = assembly' := by
  unfold materializeAssembly at made made'
  by_cases all : includeNodes = []
  · rw [if_pos all] at made made'
    exact Except.ok.inj (made.symm.trans made')
  rw [if_neg all] at made made'
  by_cases distinct : includeNodes.Nodup
  · simp only [distinct, not_true_eq_false, if_false, bind_eq_ok] at made made'
    obtain ⟨-, -, terminal, declared, kept⟩ := made
    obtain ⟨-, -, terminal', declared', kept'⟩ := made'
    obtain rfl := Except.ok.inj (declared.symm.trans declared')
    exact Except.ok.inj (kept.symm.trans kept')
  · rw [if_pos distinct] at made
    cases made

variable [Prost]

/-- A call that spares a run's modules, injects nothing into the run, and commits only what the
worker makes of an item the run has handed out. -/
structure Served (policy : ArtifactStorePolicy)
    (worker : String → List NamedArtifact → List NamedArtifact) (runId : String)
    (nodes : List AssemblyNode) (s : State) (before : List Call) (call : Call) : Prop where
  spares : SparesCall nodes call
  noInject : ∀ req, call.op = .injectInput req → req.runId ≠ runId
  works : ∀ submitted, call.op = .commit submitted → submitted.runId = runId →
    ∃ w ∈ issuedOf policy runId s before, w.id = submitted.workId ∧
      submitted.outputs = worker w.nodeId w.inputs

theorem scripted_of_allowed {policy : ArtifactStorePolicy} {s t : State} {before : List Call}
    {call : Call} {a : SlotAct} (served : Served policy worker runId start.run.assembly.nodes s before call)
    (tracks : Tracks modules runId t f) (functional : Functional worker modules runId start f)
    (issued : f.issued = issuedOf policy runId s before)
    (plain : ∀ node ∈ start.run.assembly.nodes, PlainId node.id)
    (allowed : Allowed t call (.acted runId a)) : Scripted worker a := by
  rcases allowed_acted allowed with ⟨req, input, op, here, -⟩ | ⟨ref, op, here, rfl⟩ | ⟨here, acts⟩
  · exact absurd here (served.noInject req op)
  · trivial
  rcases actAllowed_cases acts with ⟨e, expired, rfl⟩ | ⟨req, op, ⟨work, rfl⟩ | rfl⟩ |
    ⟨req, id, leaseUntil, op, -, rfl⟩ | ⟨req, op, rfl | ⟨now, c, reason, found, held, rfl⟩⟩ |
    ⟨submitted, now, c, op, found, held, rfl⟩
  case inr.inr.inr.inr =>
    have own : submitted.runId = runId := by simpa [scheduledRun, op] using here
    rw [own] at found
    obtain rfl := Option.some.inj (tracks.found.symm.trans found)
    obtain ⟨w, handed, named, made⟩ := served.works submitted op own
    rw [← functional.terms.assembly] at plain
    obtain ⟨node, inputs⟩ :=
      issued_of_claim functional.settling plain held (issued ▸ handed) named
    rw [Scripted, made, node, inputs]
  all_goals trivial

theorem scripted_exec (policy : ArtifactStorePolicy) {P : Flow → Prop} {s : State} {call : Call}
    {req : RunRequest} (reached : Reachable policy s) (started : Started policy s call req start)
    (plain : ∀ node ∈ start.run.assembly.nodes, PlainId node.id) {calls : List Call}
    (served : ∀ before next after, calls = before ++ next :: after →
      Served policy worker req.id start.run.assembly.nodes (step policy s call).1 before next)
    (first : P { slot := start })
    (kept : ∀ f a, Functional worker s.modules req.id start f →
      (flowMachine s.modules req.id).enabled f a → Scripted worker a → P f →
      P ((flowMachine s.modules req.id).apply f a)) :
    ∃ g, Tracks s.modules req.id (exec policy (step policy s call).1 calls) g ∧
      Functional worker s.modules req.id start g ∧ P g := by
  obtain ⟨given, assembly, -, -, accepted, rfl⟩ := started.fresh
  have valid := validateAssembly_ok accepted
  have fresh : Functional worker s.modules req.id
      (freshSlot req assembly (allowedSteps req assembly))
      { slot := freshSlot req assembly (allowedSteps req assembly) } := by
    refine ⟨settling_fresh valid.ids, .refl _, rfl, ?_, ?_⟩
    · intro d member
      cases member
    · intro completed
      cases completed
  let Kept : Flow → Prop := fun g =>
    Functional worker s.modules req.id (freshSlot req assembly (allowedSteps req assembly)) g ∧ P g
  obtain ⟨g, tracked, -, -, functional, holds⟩ := tracks_exec policy (P := Kept)
    (reachable_step call reached) (started.tracks reached) ⟨fresh, first⟩
    (fun next member => by
      obtain ⟨before, after, split⟩ := List.append_of_mem member
      exact (served before next after split).spares)
    (fun before next after g split tracked _ issued both acts g' path allowed => by
      refine path.invariant (P := Kept) (Scripted worker) ?_ ?_ both
      · rintro f a ok guard ⟨now, holds⟩
        exact ⟨functional_apply now guard ok, kept f a now guard ok holds⟩
      · exact fun act member => scripted_of_allowed (served before next after split) tracked both.1
          issued plain (allowed act member))
  exact ⟨g, tracked, functional, holds⟩

theorem functional_exec (policy : ArtifactStorePolicy) {s : State} {call : Call} {req : RunRequest}
    (reached : Reachable policy s) (started : Started policy s call req start)
    (plain : ∀ node ∈ start.run.assembly.nodes, PlainId node.id) {calls : List Call}
    (served : ∀ before next after, calls = before ++ next :: after →
      Served policy worker req.id start.run.assembly.nodes (step policy s call).1 before next) :
    ∃ g, Tracks s.modules req.id (exec policy (step policy s call).1 calls) g ∧
      Functional worker s.modules req.id start g := by
  obtain ⟨g, tracked, functional, -⟩ := scripted_exec policy (P := fun _ => True) reached started
    plain served trivial fun _ _ _ _ _ _ => trivial
  exact ⟨g, tracked, functional⟩

/-- One request started in two kernels and served by one worker: whatever the two schedules, no
node is committed twice, a node committed in both has the same inputs and outputs, and two
COMPLETED runs have the same answer. -/
theorem schedules_agree (policy policy' : ArtifactStorePolicy) {s s' : State} {call call' : Call}
    {req : RunRequest} {slot slot' : RunSlot} (reached : Reachable policy s)
    (reached' : Reachable policy' s') (started : Started policy s call req slot)
    (started' : Started policy' s' call' req slot')
    (plain : ∀ node ∈ slot.run.assembly.nodes, PlainId node.id) {calls calls' : List Call}
    (served : ∀ before next after, calls = before ++ next :: after →
      Served policy worker req.id slot.run.assembly.nodes (step policy s call).1 before next)
    (served' : ∀ before next after, calls' = before ++ next :: after →
      Served policy' worker req.id slot.run.assembly.nodes (step policy' s' call').1 before next) :
    let t := exec policy (step policy s call).1 calls
    let t' := exec policy' (step policy' s' call').1 calls'
    let ds := t.derivations.filter (·.runId == req.id)
    let ds' := t'.derivations.filter (·.runId == req.id)
    (ds.map (·.nodeId)).Nodup ∧ (ds'.map (·.nodeId)).Nodup ∧
      (∀ d ∈ ds, ∀ d' ∈ ds', d.nodeId = d'.nodeId → d.inputs = d'.inputs ∧ d.outputs = d'.outputs) ∧
      ∀ now now', t.runs.lookup req.id = some now → t'.runs.lookup req.id = some now' →
        now.run.state = .completed → now'.run.state = .completed →
        ∃ r, now.run.answer = some r ∧ now'.run.answer = some r := by
  intro t t' ds ds'
  obtain ⟨given, assembly, asked, made, accepted, fresh⟩ := started.fresh
  obtain ⟨given', assembly', asked', made', -, fresh'⟩ := started'.fresh
  obtain rfl := Option.some.inj (asked.symm.trans asked')
  obtain rfl := materializeAssembly_env made made'
  obtain rfl : slot = slot' := fresh.trans fresh'.symm
  obtain ⟨rank, up⟩ := (validateAssembly_ok accepted).acyclic
  have frozen : slot.run.assembly = assembly := by rw [fresh]; rfl
  rw [← frozen] at up
  obtain ⟨g, tracked, functional⟩ := functional_exec policy reached started plain served
  obtain ⟨g', tracked', functional'⟩ := functional_exec policy' reached' started' plain served'
  have all : ds = g.derived := tracked.derived
  have all' : ds' = g'.derived := tracked'.derived
  rw [all, all']
  refine ⟨functional.settling.once, functional'.settling.once, ?_, ?_⟩
  · exact fun d member d' member' same =>
      derivations_agree functional functional' up member member' same
  · intro now now' found found' completed completed'
    obtain rfl := Option.some.inj (tracked.found.symm.trans found)
    obtain rfl := Option.some.inj (tracked'.found.symm.trans found')
    exact answers_agree functional functional' up completed completed'

end Schedules

section Echo

open Substrate.Kernel.Concrete

private theorem echo_served {claims : List Call} {ms : Int64}
    (claiming : ∀ call ∈ claims, ∃ req, call.op = .claimReady req)
    (issued : (issuedOf policy "r" (echoing .once .unspecified) claims).any
      (·.id == "work:r/n") = true) (nodes : List AssemblyNode) (before : List Call) (next : Call)
    (after : List Call)
    (split : claims ++ [commitAt ms "work:r/n" (text "one")] = before ++ next :: after) :
    Served policy (fun _ _ => [given "said" (text "one")]) "r" nodes (echoing .once .unspecified)
      before next := by
  rcases after.eq_nil_or_concat with rfl | ⟨after, last, rfl⟩
  · obtain ⟨rfl, same⟩ := List.append_inj' split rfl
    obtain rfl := List.head_eq_of_cons_eq same
    refine ⟨nofun, nofun, fun submitted op _ => ?_⟩
    cases op
    obtain ⟨w, handed, named⟩ := List.any_eq_true.mp issued
    exact ⟨w, handed, beq_iff_eq.mp named, rfl⟩
  · rw [List.concat_eq_append, ← List.cons_append, ← List.append_assoc] at split
    obtain ⟨rfl, -⟩ := List.append_inj' split rfl
    obtain ⟨req, op⟩ := claiming next (by simp)
    exact ⟨by simp [SparesCall, op], by simp [op], by simp [op]⟩

/-- One schedule commits the first attempt, the other the second after the lease ran out. -/
theorem schedules_agree_echo :
    let s := echoing .once .unspecified
    let t := exec policy s ([claimAt 0] ++ [commitAt 1 "work:r/n" (text "one")])
    let t' := exec policy s ([claimAt 0, claimAt 60001] ++ [commitAt 60002 "work:r/n" (text "one")])
    let ds := t.derivations.filter (·.runId == "r")
    let ds' := t'.derivations.filter (·.runId == "r")
    (ds.map (·.nodeId)).Nodup ∧ (ds'.map (·.nodeId)).Nodup ∧
      (∀ d ∈ ds, ∀ d' ∈ ds', d.nodeId = d'.nodeId → d.inputs = d'.inputs ∧ d.outputs = d'.outputs) ∧
      ∀ now now', t.runs.lookup "r" = some now → t'.runs.lookup "r" = some now' →
        now.run.state = .completed → now'.run.state = .completed →
        ∃ r, now.run.answer = some r ∧ now'.run.answer = some r := by
  obtain ⟨slot, -, started, assembly, -⟩ :=
    started_echo .once .unspecified false (by decide +kernel) (by decide +kernel)
  refine schedules_agree policy policy ⟨_, rfl⟩ ⟨_, rfl⟩ started started ?_
    (echo_served (by simp [claimAt, callAt]) (by decide +kernel) _)
    (echo_served (by simp [claimAt, callAt]) (by decide +kernel) _)
  rw [assembly]
  simp [echoes, PlainId]

end Echo

end Substrate.Protocol.Confluence
