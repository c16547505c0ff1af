/- ID: Substrate/Protocol/Drives
   source: framework/sdk/rust/src/lib.rs
   digest: A host with plugins that are functions of their inputs computes what its assemblies mean. -/

import Substrate.Protocol.Meaning
import Substrate.Protocol.Memos

set_option autoImplicit false
set_option relaxedAutoImplicit false

namespace Substrate.Protocol.Drives

open Substrate.Kernel.Wire
open Substrate.Kernel.Hashing
open Substrate.Kernel.Memory
open Substrate.Kernel.Registry
open Substrate.Kernel.Assembly (nodeById)
open Substrate.Kernel.Schedule
open Substrate.Kernel.Work
open Substrate.Kernel.Api (Op Call Reachable step exec exec_append exec_cons exec_snoc reachable_exec
  reachable_step)
open Substrate.Framework.Steps
open Substrate.Framework.Policy
open Substrate.Framework.Calls
open Substrate.Framework.Drive
open Substrate.Framework.Sessions
open Substrate.Framework.InProcess
open Substrate.Library.Checks
open Substrate.Library.FiniteMap
open Substrate.Library.Histories
open Substrate.Library.Resumption
open Substrate.Library.Resumption.Prog (Environment)
open Substrate.Library.Transition
open Substrate.Protocol.Atoms
open Substrate.Protocol.Slots
open Substrate.Protocol.Refine
open Substrate.Protocol.Steady
open Substrate.Protocol.Confluence
open Substrate.Protocol.Commits
open Substrate.Protocol.Meaning
open Substrate.Protocol.Memos
open Substrate.Protocol.Reseeds (Serving)
open Substrate.Protocol.Draining (opOf inProcess_kernel)
open Substrate.Protocol.Orphans (Told)

variable {host : Host}

section Plugins

/-- What a module, a version and a capability make of a list of inputs. -/
abbrev Plugins := String → String → String → List (String × String) → List PortBody

/-- Plugins return what goes by the module, the version, the capability and the inputs of their units. -/
def Pure (f : Plugins) (told : Told) : Prop :=
  ∀ work output, Ran told work output →
    output.outputs = f work.module work.moduleVersion work.capability (pairsOf work.inputs)

variable [Sha256]

/-- Values of output ports as they are named once they are put. -/
def putAs (module : String) (outs : List PortBody) : List NamedArtifact :=
  outs.map fun out => { name := out.port, artifact := some ⟨artifactIdOf (outputArtifact module out)⟩ }

/-- The worker that plugins are for the nodes of an assembly. -/
def workerOf (f : Plugins) (assembly : Assembly) (n : String) (given : List NamedArtifact) :
    List NamedArtifact :=
  (nodeById assembly.nodes n).elim [] fun node =>
    putAs node.module (f node.module node.moduleVersion node.capability (pairsOf given))

theorem putAs_of_stored {module : String} {outs : List PortBody} {named : List NamedArtifact}
    (stored : List.Forall₂ (fun out na => na =
      { name := out.port, artifact := some ⟨artifactIdOf (outputArtifact module out)⟩ }) outs named) :
    named = putAs module outs := by
  induction stored with
  | nil => rfl
  | cons here _ ih => rw [here, ih, putAs, putAs, List.map_cons]

theorem workerOf_work {f : Plugins} {assembly : Assembly} (ids : (assembly.nodes.map (·.id)).Nodup)
    {work : WorkItem} (member : nodeOfWork work ∈ assembly.nodes) :
    workerOf f assembly work.nodeId work.inputs =
      putAs work.module (f work.module work.moduleVersion work.capability (pairsOf work.inputs)) := by
  have found : nodeById assembly.nodes work.nodeId = some (nodeOfWork work) :=
    (find?_eq_some_iff_of_nodup ids).mpr ⟨member, rfl⟩
  rw [workerOf, found]
  rfl

end Plugins

section Moments

variable [Sha256] [Prost] {store : ArtifactStorePolicy} {s : State}

/-- An exchange, with the clock as it was read for it. -/
abbrev Moment := Env × Exchange Query Answer

/-- The call that an exchange makes to the kernel. -/
def callIn (m : Moment) : Option Call := (opOf m.2.1).map fun p => ⟨p.1, p.2, m.1⟩

omit [Sha256] [Prost] in
theorem callIn_eq_some {m : Moment} {call : Call} (made : callIn m = some call) :
    opOf m.2.1 = some (call.op, call.ctx) := by
  obtain ⟨p, op, rfl⟩ := Option.map_eq_some_iff.mp made
  exact op

omit [Sha256] [Prost] in
theorem opOf_cases {q : Query} {op : Op} {ctx : RequestContext} (made : opOf q = some (op, ctx)) :
    (∀ manifest, op ≠ .register manifest) ∧ (∀ req, op = .injectInput req → q = .injectInput req ctx) ∧
      ∀ submitted, op = .commit submitted → q = .commit submitted ctx := by
  cases q <;> cases made <;>
    exact ⟨fun _ same => (by cases same), fun _ same => (by cases same; try rfl),
      fun _ same => (by cases same; try rfl)⟩

/-- What a host is told fits, by a kernel that hands out what the Rust kernel does after the same calls,
and that names artifacts by their content. -/
structure Heard (host : Host) (store : ArtifactStorePolicy) (s : State) (moments : List Moment) :
    Prop where
  fits : Orderly (fun past m => Fits host (past.map Prod.snd) m.2) [] moments
  claims : Orderly (fun past m => ∀ req ctx resp, m.2 = ⟨.claimReady req ctx, .ok resp⟩ →
    ∀ work ∈ resp.1.items, work ∈ handedOut (step store (exec store s (past.filterMap callIn))
      ⟨.claimReady req, ctx, m.1⟩).2) [] moments
  puts : ∀ m ∈ moments, ∀ artifact r, m.2 = ⟨.putArtifact artifact host.ctx, .ok r⟩ →
    r = ⟨artifactIdOf artifact⟩

variable {moments first rest : List Moment} {m : Moment} {req : RunRequest} {ctx : RequestContext}
  {slot : RunSlot}

theorem heard_issued (reached : Reachable store s) (heard : Heard host store s moments)
    (split : moments = first ++ m :: rest) (asked : m.2.1 = .startRun req ctx)
    (started : Started store (exec store s (first.filterMap callIn)) ⟨.startRun req, ctx, m.1⟩ req slot)
    {mid later : List Moment} (here : rest = mid ++ later)
    {work : WorkItem} (handed : Handed host ((first ++ m :: mid).map Prod.snd) req.id work) :
    work ∈ issuedOf store req.id (step store (exec store s (first.filterMap callIn))
        ⟨.startRun req, ctx, m.1⟩).1 (mid.filterMap callIn) ∧
      nodeOfWork work ∈ slot.run.assembly.nodes := by
  have each := orderly_iff.mp heard.claims
  have made : callIn m = some ⟨.startRun req, ctx, m.1⟩ := by
    rw [callIn, asked]
    rfl
  obtain ⟨claim, resp, told, own, listed⟩ := handed
  obtain ⟨x, member, exchange⟩ := List.mem_map.mp told
  rcases List.mem_append.mp member with before | after
  · exfalso
    obtain ⟨p, q, rfl⟩ := List.append_of_mem before
    have handed := each p x (q ++ m :: rest) (by rw [split, List.append_assoc]; rfl) _ _ _ exchange
      work listed
    obtain ⟨claim', run, cs, op, found, -⟩ := Provenance.handedOut_claims handed
    obtain rfl := Op.claimReady.inj op
    rw [List.nil_append] at found
    obtain ⟨after, found', -⟩ := (WorkIds.persists_exec store
      (reachable_wellFormed (reachable_exec (p.filterMap callIn) reached))
      ((x :: q).filterMap callIn)).terms _ run found
    rw [← exec_append, ← List.filterMap_append, own] at found'
    exact started.absent (mem_of_lookup found')
  · rcases List.mem_cons.mp after with rfl | among
    · rw [exchange] at asked
      cases asked
    · obtain ⟨p, q, rfl⟩ := List.append_of_mem among
      have handed := each (first ++ m :: p) x (q ++ later)
        (by rw [split, here, List.append_assoc, List.append_assoc]; rfl) _ _ _ exchange work listed
      have called : callIn x = some ⟨.claimReady claim, host.ctx, x.1⟩ := by
        rw [callIn, exchange]
        rfl
      rw [List.nil_append, List.filterMap_append, List.filterMap_cons, made, exec_append,
        exec_cons] at handed
      have issued := handed
      obtain ⟨claim', run, cs, op, found, within, items, -⟩ := Provenance.handedOut_claims handed
      obtain rfl := Op.claimReady.inj op
      rw [items] at handed
      obtain ⟨c, taken, slot', rfl⟩ := Provenance.claimUnits_item handed
      obtain ⟨node, -⟩ := Serial.mem_readyCandidates.mp (within taken)
      refine ⟨List.mem_filter.mpr ⟨?_, beq_iff_eq.mpr own⟩, ?_⟩
      · rw [List.filterMap_append, List.filterMap_cons, called]
        exact mem_emitted.mpr ⟨_, _, _, rfl, issued⟩
      · have reached' := reachable_exec (first.filterMap callIn) reached
        obtain ⟨after, found', terms⟩ := (WorkIds.persists_exec store
          (reachable_wellFormed (reachable_step ⟨.startRun req, ctx, m.1⟩ reached'))
          (p.filterMap callIn)).terms _ slot started.found
        rw [← own, found] at found'
        obtain rfl := Option.some.inj found'
        rw [← terms.assembly]
        rw [Serial.reapSlot_run] at node
        exact node

theorem heard_ref (heard : Heard host store s moments) {module : String} {out : PortBody}
    {na : NamedArtifact} (stored : Stored host (moments.map Prod.snd) module out na) :
    na = { name := out.port, artifact := some ⟨artifactIdOf (outputArtifact module out)⟩ } := by
  obtain ⟨named, r, before, after, ref, -, split⟩ := stored
  have put : (⟨.putArtifact (outputArtifact module out) host.ctx, .ok r⟩ : Exchange Query Answer) ∈
      moments.map Prod.snd := split ▸ List.mem_append_right _ List.mem_cons_self
  obtain ⟨x, member, exchange⟩ := List.mem_map.mp put
  have address := heard.puts x member _ r exchange
  obtain ⟨name, artifact⟩ := na
  obtain rfl : name = out.port := named
  obtain rfl : artifact = some r := ref
  rw [← address]

theorem heard_serving {f : Plugins} (reached : Reachable store s)
    (heard : Heard host store s moments)
    (split : moments = first ++ m :: rest) (asked : m.2.1 = .startRun req ctx)
    (started : Started store (exec store s (first.filterMap callIn)) ⟨.startRun req, ctx, m.1⟩ req slot)
    (pure_ : Pure f (moments.map Prod.snd))
    (unmemoized : ∀ key record, (⟨.memoGet key, .ok (some record)⟩ : Exchange Query Answer) ∉
      moments.map Prod.snd)
    (uninjected : ∀ e ∈ moments.map Prod.snd,
      ∀ given ctx', e.1 = .injectInput given ctx' → given.runId ≠ req.id) :
    Serving store (workerOf f slot.run.assembly) req.id slot.run.assembly.nodes
      (step store (exec store s (first.filterMap callIn)) ⟨.startRun req, ctx, m.1⟩).1
      (rest.filterMap callIn) := by
  intro before next after calls_
  obtain ⟨mid, tail, here, rfl, tails⟩ := List.filterMap_eq_append_iff.mp calls_
  obtain ⟨idle, x, later, rfl, silent, made, -⟩ := List.filterMap_eq_cons_iff.mp tails
  have idles : (mid ++ idle).filterMap callIn = mid.filterMap callIn := by
    rw [List.filterMap_append, List.filterMap_eq_nil_iff.mpr silent, List.append_nil]
  rw [← idles]
  rw [← List.append_assoc] at here
  generalize mid ++ idle = mid at here
  have op := callIn_eq_some made
  have member : x.2 ∈ moments.map Prod.snd := by
    rw [split, here]
    exact List.mem_map_of_mem (by simp)
  obtain ⟨unregistered, injects, commits⟩ := opOf_cases op
  refine ⟨fun manifest registers => absurd registers (unregistered manifest),
    fun given same => uninjected _ member given _ (injects given same), ?_⟩
  intro submitted same own
  have fits := orderly_iff.mp heard.fits (first ++ m :: mid) x later
    (by rw [split, here, List.append_assoc]; rfl)
  obtain ⟨env, q, answer⟩ := x
  obtain rfl : q = _ := commits submitted same
  obtain ⟨work, handed, named, source⟩ := fits
  rw [List.nil_append] at handed source
  rw [own] at handed
  obtain ⟨issued, node⟩ := heard_issued reached heard split asked started here handed
  have ids : (slot.run.assembly.nodes.map (·.id)).Nodup := by
    obtain ⟨given, assembly, -, -, accepted, rfl⟩ := started.fresh
    exact (Validation.validateAssembly_ok accepted).ids
  refine ⟨work, issued, named.symm, ?_⟩
  rw [workerOf_work ids node]
  have later_ : moments.map Prod.snd = (first ++ m :: mid).map Prod.snd ++
      ((⟨env, ⟨.commit submitted next.ctx, answer⟩⟩ : Moment) :: later).map Prod.snd := by
    rw [split, here, ← List.map_append, List.append_assoc]
    rfl
  rcases source with ⟨output, ran, stored⟩ | ⟨digest, record, looked, -⟩
  · rw [← pure_ work output (later_ ▸ ran_lasting work output _ _ ran)]
    exact putAs_of_stored (stored.imp fun out na there =>
      heard_ref heard (later_ ▸ stored_lasting work.module out na _ _ there))
  · exact absurd (later_ ▸ List.mem_append_left _ looked.recalled) (unmemoized _ record)

theorem heard_computed {f : Plugins} (reached : Reachable store s)
    (heard : Heard host store s moments)
    (split : moments = first ++ m :: rest) (asked : m.2.1 = .startRun req ctx)
    (started : Started store (exec store s (first.filterMap callIn)) ⟨.startRun req, ctx, m.1⟩ req slot)
    (plain : ∀ node ∈ slot.run.assembly.nodes, PlainId node.id)
    (pure_ : Pure f (moments.map Prod.snd))
    (unmemoized : ∀ key record, (⟨.memoGet key, .ok (some record)⟩ : Exchange Query Answer) ∉
      moments.map Prod.snd)
    (uninjected : ∀ e ∈ moments.map Prod.snd,
      ∀ given ctx', e.1 = .injectInput given ctx' → given.runId ≠ req.id) :
    ∃ now, (exec store s (moments.filterMap callIn)).runs.lookup req.id = some now ∧
      Computed (workerOf f slot.run.assembly) slot.run.assembly req.inputs req.id
        (exec store s (moments.filterMap callIn)) now := by
  have serving := heard_serving reached heard split asked started pure_ unmemoized uninjected
  have made : callIn m = some ⟨.startRun req, ctx, m.1⟩ := by
    rw [callIn, asked]
    rfl
  rw [split, List.filterMap_append, List.filterMap_cons, made, exec_append, exec_cons]
  exact exec_computed store (reachable_exec _ reached) started plain serving

end Moments

section Histories

variable [Sha256] [Prost] {S : Type} {store : ArtifactStorePolicy} {clock : Nat → Env}
  {outside : Environment S Query Answer} {session : Session host (World S)} {calls : List HostCall}

/-- An exchange of a history, with the clock as it was read for it. -/
def momentOf (clock : Nat → Env) (v : World S × Exchange Query Answer) : Moment :=
  (clock v.1.calls, v.2)

theorem history_calls :
    Orderly (fun past v => v.1.kernel = exec store session.world.kernel
          ((past.map (momentOf clock)).filterMap callIn) ∧
        v.2 = ⟨v.2.1, (inProcess store clock outside v.2.1 v.1).2⟩) []
      (history (inProcess store clock outside) session calls) ∧
    (session.run (inProcess store clock outside) calls).world.kernel =
      exec store session.world.kernel (((history (inProcess store clock outside) session calls).map
        (momentOf clock)).filterMap callIn) := by
  have anything : Orderly (fun _ _ => True) []
      (history (inProcess store clock outside) session calls) :=
    orderly_of_mem fun _ _ _ => trivial
  refine history_follow (inProcess store clock outside)
    (T := fun past w => w.kernel = exec store session.world.kernel
      ((past.map (momentOf clock)).filterMap callIn))
    ?_ session calls [] anything rfl
  intro past w q _ same
  have made : callIn (momentOf clock (w, ⟨q, (inProcess store clock outside q w).2⟩)) =
      (opOf q).map fun p => ⟨p.1, p.2, clock w.calls⟩ := rfl
  refine ⟨⟨same, rfl⟩, ?_⟩
  rw [inProcess_kernel, List.map_append, List.filterMap_append, List.map_cons, List.map_nil,
    List.filterMap_cons, List.filterMap_nil, made]
  cases opOf q with
  | none =>
      show w.kernel = exec store session.world.kernel
        ((past.map (momentOf clock)).filterMap callIn ++ [])
      rw [List.append_nil, same]
  | some p =>
      show (step store w.kernel ⟨p.1, p.2, clock w.calls⟩).1 = exec store session.world.kernel
        ((past.map (momentOf clock)).filterMap callIn ++ [⟨p.1, p.2, clock w.calls⟩])
      rw [exec_snoc, same]

theorem handed_here {v : World S × Exchange Query Answer}
    (answered : v.2 = ⟨v.2.1, (inProcess store clock outside v.2.1 v.1).2⟩) {req : ClaimRequest}
    {ctx : RequestContext} {resp : Claimed req}
    (asked : v.2 = ⟨.claimReady req ctx, .ok resp⟩) {work : WorkItem} (listed : work ∈ resp.1.items) :
    work ∈ handedOut (step store v.1.kernel ⟨.claimReady req, ctx, clock v.1.calls⟩).2 := by
  obtain ⟨w, e⟩ := v
  obtain rfl : e = _ := asked
  have all := @AllowList.handed_kernel _ _ S store clock outside (.claimReady req ctx) w _ _ rfl
  rw [← eq_of_heq (Sigma.mk.inj answered).2] at all
  rw [← Multiset.mem_coe, all]
  exact listed

theorem put_here (keyless : host.ctx.requestKey = "") {v : World S × Exchange Query Answer}
    (answered : v.2 = ⟨v.2.1, (inProcess store clock outside v.2.1 v.1).2⟩) {artifact : Artifact}
    {r : ArtifactRef} (asked : v.2 = ⟨.putArtifact artifact host.ctx, .ok r⟩) :
    r = ⟨artifactIdOf artifact⟩ := by
  obtain ⟨w, e⟩ := v
  obtain rfl : e = _ := asked
  have ok : Substrate.Kernel.Store.putArtifactCtx store (clock w.calls) artifact host.ctx w.kernel =
      ((inProcess store clock outside (.putArtifact artifact host.ctx) w).1.kernel, .ok r) :=
    Prod.ext rfl (eq_of_heq (Sigma.mk.inj answered).2).symm
  exact congrArg ArtifactRef.mk (Content.putArtifact_ok keyless ok).1

theorem history_heard (keyless : host.ctx.requestKey = "") :
    Heard host store session.world.kernel
      ((history (inProcess store clock outside) session calls).map (momentOf clock)) := by
  have each := orderly_iff.mp (@history_calls host _ _ S store clock outside session calls).1
  refine ⟨?_, ?_, ?_⟩
  · have fits := history_fits (inProcess store clock outside) session calls []
    rw [← List.map_nil, orderly_map]
    refine orderly_iff.mpr fun past v later split => ?_
    have here := orderly_iff.mp fits past v later split
    rw [List.map_map]
    exact here
  · rw [← List.map_nil, orderly_map]
    refine orderly_iff.mpr fun past v later split req ctx resp asked work listed => ?_
    obtain ⟨kernel, answered⟩ := each past v later split
    rw [← kernel]
    exact handed_here answered asked listed
  · intro m member artifact r asked
    obtain ⟨v, there, rfl⟩ := List.mem_map.mp member
    obtain ⟨past, later, split⟩ := List.append_of_mem there
    exact put_here keyless (each past v later split).2 asked

/-- A run that a host starts at some point of a history without a request key, and nobody injects into.
Plugins are functions of their units' module, version, capability and inputs, and no memo is hit. -/
structure Hosted (f : Plugins) (store : ArtifactStorePolicy) (clock : Nat → Env)
    (outside : Environment S Query Answer) (session : Session host (World S)) (calls : List HostCall)
    (req : RunRequest) (slot : RunSlot) : Prop where
  reached : Reachable store session.world.kernel
  keyless : host.ctx.requestKey = ""
  started : ∃ first v rest ctx,
    history (inProcess store clock outside) session calls = first ++ v :: rest ∧
      v.2.1 = .startRun req ctx ∧
      Started store v.1.kernel ⟨.startRun req, ctx, clock v.1.calls⟩ req slot
  plain : ∀ node ∈ slot.run.assembly.nodes, PlainId node.id
  pure_ : Pure f ((history (inProcess store clock outside) session calls).map Prod.snd)
  unmemoized : ∀ key record, (⟨.memoGet key, .ok (some record)⟩ : Exchange Query Answer) ∉
    (history (inProcess store clock outside) session calls).map Prod.snd
  uninjected : ∀ e ∈ (history (inProcess store clock outside) session calls).map Prod.snd,
    ∀ given ctx, e.1 = .injectInput given ctx → given.runId ≠ req.id

theorem hosted_computed {f : Plugins} {req : RunRequest} {slot : RunSlot}
    (hosted : Hosted f store clock outside session calls req slot) :
    ∃ now, (session.run (inProcess store clock outside) calls).world.kernel.runs.lookup req.id =
        some now ∧
      Computed (workerOf f slot.run.assembly) slot.run.assembly req.inputs req.id
        (session.run (inProcess store clock outside) calls).world.kernel now := by
  obtain ⟨first, v, rest, ctx, split, asked, started⟩ := hosted.started
  obtain ⟨each, last⟩ := @history_calls host _ _ S store clock outside session calls
  have start := (orderly_iff.mp each first v rest split).1
  rw [List.nil_append] at start
  rw [start] at started
  have told : ((history (inProcess store clock outside) session calls).map (momentOf clock)).map
      Prod.snd = (history (inProcess store clock outside) session calls).map Prod.snd := by
    rw [List.map_map]
    rfl
  rw [last]
  exact heard_computed (m := momentOf clock v) hosted.reached (history_heard hosted.keyless)
    (by rw [split, List.map_append, List.map_cons]) asked started hosted.plain
    (told ▸ hosted.pure_) (told ▸ hosted.unmemoized) (told ▸ hosted.uninjected)

/-- In every history of a host, over any calls, policies, concurrency, claim batches and clocks, every
run that it starts computes what its assembly means with the plugins as workers. -/
theorem drives_compute {f : Plugins} {store : ArtifactStorePolicy} {clock : Nat → Env}
    {outside : Environment S Query Answer} {session : Session host (World S)} {calls : List HostCall}
    {req : RunRequest} {slot : RunSlot}
    (hosted : Hosted f store clock outside session calls req slot) :
    let t := (session.run (inProcess store clock outside) calls).world.kernel
    let means := meaning slot.run.assembly req.inputs
    let plugins := workerOf f slot.run.assembly
    ∃ now, t.runs.lookup req.id = some now ∧
      (∀ d ∈ t.derivations, d.runId = req.id →
        means (always plugins) d.nodeId = some (d.inputs, d.outputs)) ∧
      (∀ r, now.run.answer = some r →
        answerOf slot.run.assembly (means (always plugins)) = some r) ∧
      (now.run.state = .completed → now.run.answer.isSome = true) ∧
      (Quiet t.modules now → ∀ node ∈ slot.run.assembly.nodes,
        doneOf now node.id = means (leaving plugins (givenUp t.modules now)) node.id) ∧
      (now.run.state = .stalled → Quiet t.modules now ∧
        answerOf slot.run.assembly (means (leaving plugins (givenUp t.modules now))) = none) := by
  obtain ⟨now, found, computed⟩ := hosted_computed hosted
  exact ⟨now, found, computed.derived, computed.answers, computed.finished, computed.settled,
    computed.stalled⟩

omit [Prost] in
theorem computed_agree {worker : String → List NamedArtifact → List NamedArtifact}
    {assembly : Assembly} {inputs : List NamedArtifact} {runId runId' : String} {t t' : State}
    {now now' : RunSlot} (one : Computed worker assembly inputs runId t now)
    (other : Computed worker assembly inputs runId' t' now') :
    (∀ d ∈ t.derivations, ∀ e ∈ t'.derivations, d.runId = runId → e.runId = runId' →
      d.nodeId = e.nodeId → d.inputs = e.inputs ∧ d.outputs = e.outputs) ∧
    (∀ r r', now.run.answer = some r → now'.run.answer = some r' → r = r') ∧
      (now.run.state = .completed → now'.run.state = .completed →
        ∃ r, now.run.answer = some r ∧ now'.run.answer = some r) := by
  have agree : ∀ r r', now.run.answer = some r → now'.run.answer = some r' → r = r' :=
    fun r r' answer answer' =>
      Option.some.inj ((one.answers r answer).symm.trans (other.answers r' answer'))
  refine ⟨fun d member e member' own own' same => ?_, agree, fun completed completed' => ?_⟩
  · have first := one.derived d member own
    rw [same, other.derived e member' own'] at first
    exact Prod.mk.inj (Option.some.inj first.symm)
  · obtain ⟨r, answer⟩ := Option.isSome_iff_exists.mp (one.finished completed)
    obtain ⟨r', answer'⟩ := Option.isSome_iff_exists.mp (other.finished completed')
    exact ⟨r, answer, agree r r' answer answer' ▸ answer'⟩

/-- Two runs of one assembly over the same inputs agree when both are hosted with the same plugins (no
injection, no memo hit, no request key, plain ids), under whatever run ids and policies, in whatever
histories of two hosts: a node that both have committed has the same inputs and outputs, and two answers
are the same. -/
theorem hosts_agree {host' : Host} {S' : Type} {f : Plugins} {store store' : ArtifactStorePolicy}
    {clock clock' : Nat → Env} {outside : Environment S Query Answer}
    {outside' : Environment S' Query Answer} {session : Session host (World S)}
    {session' : Session host' (World S')} {calls calls' : List HostCall} {req req' : RunRequest}
    {slot slot' : RunSlot} (hosted : Hosted f store clock outside session calls req slot)
    (hosted' : Hosted f store' clock' outside' session' calls' req' slot')
    (assembly : slot'.run.assembly = slot.run.assembly) (inputs : req'.inputs = req.inputs) :
    let t := (session.run (inProcess store clock outside) calls).world.kernel
    let t' := (session'.run (inProcess store' clock' outside') calls').world.kernel
    (∀ d ∈ t.derivations, ∀ e ∈ t'.derivations, d.runId = req.id → e.runId = req'.id →
      d.nodeId = e.nodeId → d.inputs = e.inputs ∧ d.outputs = e.outputs) ∧
    ∀ now now', t.runs.lookup req.id = some now → t'.runs.lookup req'.id = some now' →
      (∀ r r', now.run.answer = some r → now'.run.answer = some r' → r = r') ∧
      (now.run.state = .completed → now'.run.state = .completed →
        ∃ r, now.run.answer = some r ∧ now'.run.answer = some r) := by
  intro t t'
  obtain ⟨run, found, one⟩ := hosted_computed hosted
  obtain ⟨run', found', other⟩ := hosted_computed hosted'
  rw [assembly, inputs] at other
  obtain ⟨results, answers⟩ := computed_agree one other
  refine ⟨results, fun now now' held held' => ?_⟩
  obtain rfl := Option.some.inj (found.symm.trans held)
  obtain rfl := Option.some.inj (found'.symm.trans held')
  exact answers

end Histories

section Pages

open Substrate.Kernel.Concrete

/-- Plugins that name a digest and return the same values for every unit. -/
def digesting (outs : List PortBody) : Environment Unit Query Answer
  | .moduleDigest _, _ => ((), some "d")
  | q, u => plainPlugins (fun _ => .ok ⟨outs⟩) q u

/-- A host of `pager@1` without a memo store. -/
def plainHost : Host := { pagerHost with memo := false }

def plainSession : Session plainHost (World (Stores Unit)) := ⟨{}, pagerWorld ()⟩

/-- The pipeline of pages, one unit at a time or not. -/
def startPlain (runId : String) (concurrency : Option UInt32) : HostCall :=
  .startPipeline runId pages [given "line" (text "one")]
    { FrameworkPolicy.converge with concurrency }

/-- Whether all that plugins return are the same values, and no memo is asked and nothing injected. -/
def plainly (outs : List PortBody) (told : Told) : Bool :=
  told.all fun e => match e with
    | ⟨.execute _ _, (_, .ok output)⟩ => output.outputs == outs
    | ⟨.memoGet _, _⟩ => false
    | ⟨.injectInput _ _, _⟩ => false
    | _ => true

def plainTold (calls : List HostCall) : Told :=
  (history (inProcess policy (fun _ => envAt 0) (inMemory (digesting onePage))) plainSession
    calls).map Prod.snd

def pagesRequest (runId : String) (concurrency : Option UInt32) : RunRequest :=
  Substrate.Framework.Pipeline.pipelineRequest runId pages [given "line" (text "one")]
    { FrameworkPolicy.converge with concurrency }

private theorem plainly_hosted {calls : List HostCall} {runId : String} {concurrency : Option UInt32}
    (begins : ∃ v rest, history (inProcess policy (fun _ => envAt 0) (inMemory (digesting onePage)))
        plainSession calls = v :: rest ∧
      v.2.1 = .startRun (pagesRequest runId concurrency) {} ∧ v.1 = plainSession.world)
    (absent : runId ∉ plainSession.world.kernel.runs)
    (accepted : ((step policy plainSession.world.kernel
      ⟨.startRun (pagesRequest runId concurrency), {}, envAt 0⟩).1.runs.lookup runId).map
        (·.run.assembly) = some pages)
    (checked : plainly onePage (plainTold calls) = true) :
    ∃ slot, Hosted (fun _ _ _ _ => onePage) policy (fun _ => envAt 0)
        (inMemory (digesting onePage)) plainSession calls (pagesRequest runId concurrency) slot ∧
      slot.run.assembly = pages := by
  obtain ⟨slot, found, assembly⟩ := Option.map_eq_some_iff.mp accepted
  obtain ⟨v, rest, split, asked, here⟩ := begins
  refine ⟨slot, ⟨⟨_, rfl⟩, rfl, ⟨[], v, rest, {}, split, asked, ?_⟩, ?_, ?_, ?_, ?_⟩, assembly⟩
  · rw [here]
    exact ⟨rfl, absent, found⟩
  · rw [assembly]
    simp [pages, PlainId]
  · rintro work output ⟨step, after, -, member⟩
    exact beq_iff_eq.mp (List.all_eq_true.mp checked _ member)
  · intro key record member
    cases List.all_eq_true.mp checked _ member
  · rintro ⟨q, answer⟩ member given ctx rfl
    cases List.all_eq_true.mp checked _ member

/-- The pages, driven in waves or stepped through. -/
def waves : List HostCall := [startPlain "r" none, .drive 2 "r"]

def steps : List HostCall := [startPlain "q" (some 1), .tryStep "q" "pager"]

theorem waves_hosted :
    ∃ slot, Hosted (fun _ _ _ _ => onePage) policy (fun _ => envAt 0)
        (inMemory (digesting onePage)) plainSession waves (pagesRequest "r" none) slot ∧
      slot.run.assembly = pages :=
  plainly_hosted ⟨_, _, rfl, rfl, rfl⟩ (by decide +kernel) (by decide +kernel) (by decide +kernel)

private theorem steps_hosted :
    ∃ slot, Hosted (fun _ _ _ _ => onePage) policy (fun _ => envAt 0)
        (inMemory (digesting onePage)) plainSession steps (pagesRequest "q" (some 1)) slot ∧
      slot.run.assembly = pages :=
  plainly_hosted ⟨_, _, rfl, rfl, rfl⟩ (by decide +kernel) (by decide +kernel) (by decide +kernel)

/-- The run of a history. -/
def plainRun (calls : List HostCall) (runId : String) : Option Run :=
  ((plainSession.run (inProcess policy (fun _ => envAt 0) (inMemory (digesting onePage)))
    calls).world.kernel.runs.lookup runId).map (·.run)

/-- The answer of the pages that were driven is what the pages mean. -/
theorem pages_compute :
    ∃ run r, plainRun waves "r" = some run ∧ run.answer = some r ∧
      answerOf pages (meaning pages [given "line" (text "one")]
        (always (workerOf (fun _ _ _ _ => onePage) pages))) = some r := by
  have completed : (plainRun waves "r").map (·.state) = some .completed := by decide +kernel
  obtain ⟨slot, hosted, assembly⟩ := waves_hosted
  obtain ⟨now, found, -, answers, finished, -⟩ := drives_compute hosted
  obtain ⟨run, here, done⟩ := Option.map_eq_some_iff.mp completed
  obtain ⟨held, found', rfl⟩ := Option.map_eq_some_iff.mp here
  obtain rfl := Option.some.inj (found.symm.trans found')
  obtain ⟨r, answer⟩ := Option.isSome_iff_exists.mp (finished done)
  rw [assembly] at answers
  exact ⟨now.run, r, here, answer, answers r answer⟩

/-- Both ways to drive them lead to one answer. -/
theorem pages_agree :
    ∃ run run' r, plainRun waves "r" = some run ∧ plainRun steps "q" = some run' ∧
      run.answer = some r ∧ run'.answer = some r := by
  have completed : (plainRun waves "r").map (·.state) = some .completed := by decide +kernel
  have completed' : (plainRun steps "q").map (·.state) = some .completed := by decide +kernel
  obtain ⟨run, here, done⟩ := Option.map_eq_some_iff.mp completed
  obtain ⟨run', here', done'⟩ := Option.map_eq_some_iff.mp completed'
  obtain ⟨now, found, rfl⟩ := Option.map_eq_some_iff.mp here
  obtain ⟨now', found', rfl⟩ := Option.map_eq_some_iff.mp here'
  obtain ⟨slot, hosted, assembly⟩ := waves_hosted
  obtain ⟨slot', hosted', assembly'⟩ := steps_hosted
  have agree := hosts_agree hosted hosted' (assembly'.trans assembly.symm) rfl
  obtain ⟨r, answer, answer'⟩ := (agree.2 now now' found found').2 done done'
  exact ⟨now.run, now'.run, r, here, here', answer, answer'⟩

end Pages

end Substrate.Protocol.Drives
