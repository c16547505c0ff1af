/- ID: Substrate/Protocol/Stacks
   source: framework/sdk/go/host.go, kernel/sdk/go/kernel.go
   digest: A host in Go with the Go kernel computes what its assemblies mean, as one in Rust does. -/

import Substrate.Framework.GoStack
import Substrate.Protocol.Drives
import Substrate.Protocol.GoHosts
import Substrate.Protocol.Parity

set_option autoImplicit false
set_option relaxedAutoImplicit false

namespace Substrate.Protocol.Stacks

open Substrate.Kernel
open Substrate.Kernel.Wire
open Substrate.Kernel.Hashing
open Substrate.Kernel.Memory
open Substrate.Kernel.Sdks (Encodings)
open Substrate.Kernel.Api (Call Op Reachable Reply exec exec_snoc reachable_exec reply step)
open Substrate.Framework.Steps (FrameworkError)
open Substrate.Framework.Calls
open Substrate.Framework.InProcess (World)
open Substrate.Framework.Sessions (HostCall Session)
open Substrate.Framework.GoStack
open Substrate.Library.Histories
open Substrate.Library.Resumption
open Substrate.Library.Resumption.Act (start)
open Substrate.Library.Resumption.Prog (Environment)
open Substrate.Protocol.Commits (Fits)
open Substrate.Protocol.Confluence (PlainId)
open Substrate.Protocol.Draining (opOf)
open Substrate.Protocol.Drives (Heard Moment Plugins Pure callIn callIn_eq_some heard_computed momentOf
  workerOf)
open Substrate.Protocol.Meaning
open Substrate.Protocol.Parity
open Substrate.Protocol.Refine (handedOut)

variable {host : Host}

theorem script_follows [Sha256] (text : FrameworkError → String) (calls : List HostCall) :
    Follows (Fits host) (fun _ => True) (script text calls : HostAct host Unit) fun _ _ => True :=
  .forM fun call _ => by
    have tried : Follows (Fits host) (fun _ => True)
        (Act.attempt (Framework.Go.perform text call : HostAct host Unit)) fun _ _ => True :=
      (GoHosts.performGo_follows text call).attempt fun _ _ held => held
    exact tried.bind (fun _ => .pure fun _ _ => trivial) fun _ _ held => held

section Peers

/-- The call, other than a lookup, that a question makes to either kernel. -/
def peerOf : Query → Option (PeerCall × RequestContext)
  | .startRun req ctx => some (.startRun req, ctx)
  | .injectInput req ctx => some (.injectInput req, ctx)
  | .cancelRun ref ctx => some (.cancelRun ref, ctx)
  | .claimReady req ctx => some (.claimReady req, ctx)
  | .putArtifact artifact ctx => some (.putArtifact artifact, ctx)
  | .commit submitted ctx => some (.commit submitted, ctx)
  | .failWork req ctx => some (.failWork req, ctx)
  | _ => none

/-- The call that both kernels are given at one reading of the clock. -/
def twinOf (env : Env) (p : PeerCall × RequestContext) : Twin :=
  { call := p.1, ctx := p.2, rust := env, go := env, clock := rfl, entry := rfl }

variable [Sha256] [Prost] [Encodings] {S : Type} {store : ArtifactStorePolicy} {clock : Nat → Env}
  {outside : Environment S Query Answer}

theorem go_kernel (q : Query) (w : World S) :
    (inProcess store clock outside q w).1.kernel = (peerOf q).elim w.kernel fun p =>
      (goStep store w.kernel (twinOf (clock w.calls) p)).1 := by
  have looks {α : Type} (env : Env) (ctx : RequestContext) (x : Except KernelError α) :
      (orReturn (checkDeadline env ctx) w.kernel fun _ => Api.readOnly w.kernel x).1 = w.kernel := by
    cases checkDeadline env ctx <;> rfl
  cases q with
  | getRun ref ctx => exact looks _ _ _
  | listDerivations ref ctx => exact looks _ _ _
  | getArtifact ref ctx => exact looks _ _ _
  | _ => rfl

omit [Encodings] in
theorem rust_kernel (q : Query) (env : Env) (s : State) :
    ((opOf q).elim s fun p => (step store s ⟨p.1, p.2, env⟩).1) = (peerOf q).elim s fun p =>
      (rustStep store s (twinOf env p)).1 := by
  have looks {α : Type} (ctx : RequestContext) (wrap : α → Reply) (x : Except KernelError α) :
      (reply wrap (orReturn (checkDeadline env ctx) s fun _ => Api.readOnly s x)).1 = s := by
    cases checkDeadline env ctx <;> rfl
  cases q with
  | getRun ref ctx => exact looks _ _ _
  | listDerivations ref ctx => exact looks _ _ _
  | getArtifact ref ctx => exact looks _ _ _
  | _ => rfl

theorem fair_step {base : List LedgerEntry} {s go : State} (reached : Reachable store s)
    (beside : Beside base s go) {env : Env} {p : PeerCall × RequestContext}
    (fitting : Fitting store go (twinOf env p)) :
    Beside base (rustStep store s (twinOf env p)).1 (goStep store go (twinOf env p)).1 ∧
      portable (rustStep store s (twinOf env p)).2 = portable (goStep store go (twinOf env p)).2 := by
  obtain ⟨call, ctx⟩ := p
  cases call with
  | putArtifact artifact => exact (beside.putArtifact rfl store artifact).reply _
  | injectInput req =>
      refine steps_agree reached ?_ beside
      obtain ⟨ledger, rfl⟩ := beside.split
      exact ⟨fitting.unknown, fitting.closed, fitting.room⟩
  | _ =>
      refine steps_agree reached ?_ beside
      obtain ⟨ledger, rfl⟩ := beside.split
      exact fitting

end Peers

section Heard

variable [Sha256] [Prost] [Encodings] {S : Type} {store : ArtifactStorePolicy} {clock : Nat → Env}
  {outside : Environment S Query Answer} {text : FrameworkError → String}
  {session : Session host (World S)} {calls : List HostCall} {base : List LedgerEntry} {s : State}

/-- An exchange whose call is fitting in the state in which it is made. -/
def Fair (store : ArtifactStorePolicy) (clock : Nat → Env) (v : World S × Exchange Query Answer) :
    Prop :=
  ∀ p, peerOf v.2.1 = some p → Fitting store v.1.kernel (twinOf (clock v.1.calls) p)

theorem history_beside (reached : Reachable store s) (beside : Beside base s session.world.kernel)
    (fair : ∀ v ∈ history text (inProcess store clock outside) session calls, Fair store clock v) :
    Orderly (fun past v => Fair store clock v ∧
        Beside base (exec store s ((past.map (momentOf clock)).filterMap callIn)) v.1.kernel ∧
          v.2 = ⟨v.2.1, (inProcess store clock outside v.2.1 v.1).2⟩) []
      (history text (inProcess store clock outside) session calls) ∧
    Beside base (exec store s (((history text (inProcess store clock outside) session calls).map
        (momentOf clock)).filterMap callIn))
      (after text (inProcess store clock outside) session calls).kernel := by
  refine visits_follow (inProcess store clock outside) (C := fun _ v => Fair store clock v)
    (T := fun past w => Beside base (exec store s ((past.map (momentOf clock)).filterMap callIn))
      w.kernel)
    (D := fun past v => Fair store clock v ∧
      Beside base (exec store s ((past.map (momentOf clock)).filterMap callIn)) v.1.kernel ∧
        v.2 = ⟨v.2.1, (inProcess store clock outside v.2.1 v.1).2⟩)
    ?_ _ _ [] (orderly_of_mem fun _ => fair) beside
  intro past w q here beside
  refine ⟨⟨here, beside, rfl⟩, ?_⟩
  have made : callIn (momentOf clock (w, ⟨q, (inProcess store clock outside q w).2⟩)) =
      (opOf q).map fun p => ⟨p.1, p.2, clock w.calls⟩ := rfl
  have later : exec store s (((past ++ [((w, ⟨q, (inProcess store clock outside q w).2⟩) :
      World S × Exchange Query Answer)]).map (momentOf clock)).filterMap callIn) = (peerOf q).elim
        (exec store s ((past.map (momentOf clock)).filterMap callIn)) fun p =>
          (rustStep store (exec store s ((past.map (momentOf clock)).filterMap callIn))
            (twinOf (clock w.calls) p)).1 := by
    rw [← rust_kernel, List.map_append, List.filterMap_append, List.map_cons, List.map_nil,
      List.filterMap_cons, List.filterMap_nil, made]
    cases opOf q with
    | none => exact congrArg _ (List.append_nil _)
    | some p => exact exec_snoc _ _ _ _
  rw [later, go_kernel]
  cases peer : peerOf q with
  | none => exact beside
  | some p => exact (fair_step (reachable_exec _ reached) beside (here p peer)).1

omit [Sha256] [Prost] [Encodings] in
private theorem portable_value {r r' : Reply} (agree : portable r = portable r')
    (value : ∀ e, r' ≠ .error e) : r = r' := by
  have whole : portable r' = .ok r' := by
    cases r' with
    | error e => exact absurd rfl (value e)
    | _ => rfl
  rw [whole] at agree
  cases r with
  | error e => cases agree
  | _ => exact Except.ok.inj agree

omit [Encodings] in
private theorem put_ok {env : Env} {artifact : Artifact} {ctx : RequestContext} {r : ArtifactRef}
    (replied : (rustStep store s (twinOf env (.putArtifact artifact, ctx))).2 = .artifactRef r) :
    Store.putArtifactCtx store env artifact ctx s =
      ((Store.putArtifactCtx store env artifact ctx s).1, .ok r) := by
  have answer : (reply Reply.artifactRef (Store.putArtifactCtx store env artifact ctx s)).2 =
      .artifactRef r := replied
  generalize Store.putArtifactCtx store env artifact ctx s = made at answer ⊢
  obtain ⟨t, result⟩ := made
  cases result with
  | error e => cases answer
  | ok r' =>
      obtain rfl := Reply.artifactRef.inj answer
      rfl

theorem history_heard (keyless : host.ctx.requestKey = "") (reached : Reachable store s)
    (beside : Beside base s session.world.kernel)
    (fair : ∀ v ∈ history text (inProcess store clock outside) session calls, Fair store clock v) :
    Heard host store s
      ((history text (inProcess store clock outside) session calls).map (momentOf clock)) := by
  have each := orderly_iff.mp (history_beside reached beside fair).1
  refine ⟨?_, ?_, ?_⟩
  · have told := ((script_follows text calls).told (inProcess store clock outside) session.books
      session.world [] trivial).1
    rw [← visits_told, ← List.map_nil, orderly_map] at told
    rw [← List.map_nil, orderly_map]
    refine orderly_iff.mpr fun past v later split => ?_
    have here := orderly_iff.mp told past v later split
    rw [List.map_map]
    exact here
  · rw [← List.map_nil, orderly_map]
    refine orderly_iff.mpr fun past v later split req ctx resp asked work listed => ?_
    obtain ⟨fitting, beside, answered⟩ := each past v later split
    obtain ⟨w, e⟩ := v
    obtain rfl : e = _ := asked
    have agree := (fair_step (reachable_exec _ reached) beside (fitting _ rfl)).2
    have told : (claimAnswer (clock w.calls) req ctx w.kernel).2 = .ok resp :=
      (eq_of_heq (Sigma.mk.inj answered).2).symm
    have handed : (goStep store w.kernel (twinOf (clock w.calls) (.claimReady req, ctx))).2 =
        .claim resp.1 := by
      show (reply Reply.claim (Go.claimReady (clock w.calls) req ctx w.kernel)).2 = _
      rw [reply, claimAnswer_ok told]
    have same := portable_value (agree.trans (congrArg portable handed)) fun _ same => by cases same
    have here : handedOut (rustStep store _ (twinOf (clock w.calls) (.claimReady req, ctx))).2 =
        resp.1.items := congrArg handedOut same
    exact here ▸ listed
  · intro m member artifact r asked
    obtain ⟨v, there, rfl⟩ := List.mem_map.mp member
    obtain ⟨past, later, split⟩ := List.append_of_mem there
    obtain ⟨fitting, beside, answered⟩ := each past v later split
    obtain ⟨w, e⟩ := v
    obtain rfl : e = _ := asked
    have agree := (fair_step (reachable_exec _ reached) beside (fitting _ rfl)).2
    have told : (Go.putArtifact store (clock w.calls) artifact host.ctx w.kernel).2 = .ok r :=
      (eq_of_heq (Sigma.mk.inj answered).2).symm
    have stored : (goStep store w.kernel (twinOf (clock w.calls) (.putArtifact artifact, host.ctx))).2 =
        .artifactRef r := by
      show (reply Reply.artifactRef (Go.putArtifact store (clock w.calls) artifact host.ctx w.kernel)).2 = _
      rw [reply, told]
    have same := portable_value (agree.trans (congrArg portable stored)) fun _ same => by cases same
    have ok := put_ok same
    exact congrArg ArtifactRef.mk (Content.putArtifact_ok keyless ok).1

end Heard

section Hosted

variable [Sha256] [Prost] [Encodings] {S : Type} {f : Plugins} {store : ArtifactStorePolicy}
  {clock : Nat → Env} {outside : Environment S Query Answer} {text : FrameworkError → String}
  {session : Session host (World S)} {calls : List HostCall} {req : RunRequest} {slot : RunSlot}

/-- A run that a host in Go starts with its kernel at some point of a history without a request key, and
nobody injects into. Plugins are functions of their units' module, version, capability and inputs, no
memo is hit, and every call of the history is fitting where it arrives. -/
structure Hosted (f : Plugins) (store : ArtifactStorePolicy) (clock : Nat → Env)
    (outside : Environment S Query Answer) (text : FrameworkError → String)
    (session : Session host (World S)) (calls : List HostCall) (req : RunRequest) (slot : RunSlot) :
    Prop where
  kernel : ∃ s base, Reachable store s ∧ Beside base s session.world.kernel
  keyless : host.ctx.requestKey = ""
  fair : ∀ v ∈ history text (inProcess store clock outside) session calls, Fair store clock v
  started : ∃ first v rest ctx,
    history text (inProcess store clock outside) session calls = first ++ v :: rest ∧
      v.2.1 = .startRun req ctx ∧ req.id ∉ v.1.kernel.runs ∧
        (inProcess store clock outside v.2.1 v.1).1.kernel.runs.lookup req.id = some slot
  plain : ∀ node ∈ slot.run.assembly.nodes, PlainId node.id
  pure_ : Pure f ((history text (inProcess store clock outside) session calls).map Prod.snd)
  unmemoized : ∀ key record, (⟨.memoGet key, .ok (some record)⟩ : Exchange Query Answer) ∉
    (history text (inProcess store clock outside) session calls).map Prod.snd
  uninjected : ∀ e ∈ (history text (inProcess store clock outside) session calls).map Prod.snd,
    ∀ given ctx, e.1 = .injectInput given ctx → given.runId ≠ req.id

theorem hosted_computed (hosted : Hosted f store clock outside text session calls req slot) :
    ∃ now, (after text (inProcess store clock outside) session calls).kernel.runs.lookup req.id =
        some now ∧
      Computed (workerOf f slot.run.assembly) slot.run.assembly req.inputs req.id
        (after text (inProcess store clock outside) session calls).kernel now := by
  obtain ⟨s, base, reached, beside⟩ := hosted.kernel
  obtain ⟨first, v, rest, ctx, split, asked, absent, found⟩ := hosted.started
  obtain ⟨each, last⟩ := history_beside reached beside hosted.fair
  obtain ⟨fair, here, -⟩ := orderly_iff.mp each first v rest split
  rw [List.nil_append] at here
  have peer : peerOf v.2.1 = some (.startRun req, ctx) := by
    rw [asked]
    rfl
  have next := (fair_step (reachable_exec _ reached) here (fair _ peer)).1
  rw [go_kernel, peer, Option.elim_some] at found
  have started : Steady.Started store (exec store s ((first.map (momentOf clock)).filterMap callIn))
      ⟨.startRun req, ctx, clock v.1.calls⟩ req slot := by
    refine ⟨rfl, ?_, ?_⟩
    · rw [here.same] at absent
      exact absent
    · rw [next.same] at found
      exact found
  have told : ((history text (inProcess store clock outside) session calls).map
      (momentOf clock)).map Prod.snd =
        (history text (inProcess store clock outside) session calls).map Prod.snd := by
    rw [List.map_map]
    rfl
  obtain ⟨now, held, computed⟩ := heard_computed (m := momentOf clock v) reached
    (history_heard hosted.keyless reached beside hosted.fair)
    (by rw [split, List.map_append, List.map_cons]) asked started hosted.plain
    (told ▸ hosted.pure_) (told ▸ hosted.unmemoized) (told ▸ hosted.uninjected)
  rw [last.same]
  exact ⟨now, held, computed.derived, computed.answers, computed.finished, computed.settled,
    computed.stalled⟩

/-- In every history of a host in Go with the Go kernel, over any calls, policies, claim batches and
clocks, every run that it starts computes what its assembly means with the plugins as workers. -/
theorem go_drives_compute (hosted : Hosted f store clock outside text session calls req slot) :
    let t := (after text (inProcess store clock outside) session calls).kernel
    let means := meaning slot.run.assembly req.inputs
    let plugins := workerOf f slot.run.assembly
    ∃ now, t.runs.lookup req.id = some now ∧
      (∀ d ∈ t.derivations, d.runId = req.id →
        means (always plugins) d.nodeId = some (d.inputs, d.outputs)) ∧
      (∀ r, now.run.answer = some r →
        answerOf slot.run.assembly (means (always plugins)) = some r) ∧
      (now.run.state = .completed → now.run.answer.isSome = true) ∧
      (Quiet t.modules now → ∀ node ∈ slot.run.assembly.nodes,
        doneOf now node.id = means (leaving plugins (givenUp t.modules now)) node.id) ∧
      (now.run.state = .stalled → Quiet t.modules now ∧
        answerOf slot.run.assembly (means (leaving plugins (givenUp t.modules now))) = none) := by
  obtain ⟨now, found, computed⟩ := hosted_computed hosted
  exact ⟨now, found, computed.derived, computed.answers, computed.finished, computed.settled,
    computed.stalled⟩

/-- Two runs of one assembly over the same inputs agree, one hosted in Rust with the Rust kernel and one
in Go with the Go kernel, whose calls are fitting, when both hosts have the same plugins (no injection,
no memo hit, no request key, plain ids): a node that both have committed has the same inputs and
outputs, and two answers are the same. -/
theorem stacks_agree {host' : Host} {S' : Type} {store' : ArtifactStorePolicy} {clock' : Nat → Env}
    {outside' : Environment S' Query Answer} {session' : Session host' (World S')}
    {calls' : List HostCall} {req' : RunRequest} {slot' : RunSlot}
    (rust : Drives.Hosted f store' clock' outside' session' calls' req' slot')
    (hosted : Hosted f store clock outside text session calls req slot)
    (assembly : slot'.run.assembly = slot.run.assembly) (inputs : req'.inputs = req.inputs) :
    let t := (session'.run (Framework.InProcess.inProcess store' clock' outside') calls').world.kernel
    let t' := (after text (inProcess store clock outside) session calls).kernel
    (∀ d ∈ t.derivations, ∀ e ∈ t'.derivations, d.runId = req'.id → e.runId = req.id →
      d.nodeId = e.nodeId → d.inputs = e.inputs ∧ d.outputs = e.outputs) ∧
    ∀ now now', t.runs.lookup req'.id = some now → t'.runs.lookup req.id = some now' →
      (∀ r r', now.run.answer = some r → now'.run.answer = some r' → r = r') ∧
      (now.run.state = .completed → now'.run.state = .completed →
        ∃ r, now.run.answer = some r ∧ now'.run.answer = some r) := by
  intro t t'
  obtain ⟨run, found, one⟩ := Drives.hosted_computed rust
  obtain ⟨run', found', other⟩ := hosted_computed hosted
  rw [assembly, inputs] at one
  obtain ⟨results, answers⟩ := Drives.computed_agree one other
  refine ⟨results, fun now now' held held' => ?_⟩
  obtain rfl := Option.some.inj (found.symm.trans held)
  obtain rfl := Option.some.inj (found'.symm.trans held')
  exact answers

end Hosted

section Pages

open Substrate.Kernel.Concrete
open Substrate.Framework.InProcess (Stores inMemory)
open Substrate.Framework.Policy (FrameworkPolicy)
open Substrate.Protocol.Memos (onePage pager pages)
open Substrate.Protocol.Drives (digesting pagesRequest plainHost plainSession plainly startPlain waves)
open Substrate.Protocol.Readiness (OneBinding)
open scoped Substrate.Kernel.Marshal

/-- The history of the pages with the Go kernel, which lists its maps from the end. -/
def goHistory : List (World (Stores Unit) × Exchange Query Answer) :=
  history (fun _ => "") (inProcess policy (fun _ => backwards 0) (inMemory (digesting onePage)))
    plainSession waves

/-- Whether an exchange is about the pages. -/
def fairly (v : World (Stores Unit) × Exchange Query Answer) : Bool :=
  decide (v.1.kernel.modules = [⟨pager, .registered⟩]) &&
  ((v.1.kernel.runs.lookup "r").all fun slot => slot.run.assembly = pages ∧
    slot.run.policy = some { closure := Closure.firstTerminal.asI32 } ∧ slot.maxInFlight = 8 ∧
      slot.defaultLeaseMs = 60000) &&
  match v.2.1 with
  | .startRun req _ => req.assembly = some pages ∧ req.includeNodes = []
  | .claimReady req _ => req.runId == "r"
  | .commit submitted _ => submitted.runId == "r"
  | .putArtifact artifact ctx =>
      (Store.putArtifactCtx policy (backwards 0) artifact ctx v.1.kernel).2.toOption.isSome
  | .injectInput _ _ | .failWork _ _ => false
  | _ => true

private theorem named_pages : (pagesRequest "r" none).id = "r" := rfl

private theorem spelled_pages : Spelled [⟨pager, .registered⟩] pages := by
  have caps : ∀ n ∈ pages.nodes, Registry.capabilityForNode [⟨pager, .registered⟩] n =
      .ok { name := "split", inputs := [{ name := "heard", traits := ["text"] }]
            outputs := [{ name := "page", traits := ["text"], multiple := true },
              { name := "count", traits := ["text"] }]
            firing := Firing.once.asI32 } := by
    decide +kernel
  refine ⟨fun n here cap resolved p listed => ?_, fun n here cap resolved p listed b bound _ => ?_⟩
  · obtain rfl := Except.ok.inj ((caps n here).symm.trans resolved)
    revert p
    decide
  · obtain rfl := Except.ok.inj ((caps n here).symm.trans resolved)
    obtain rfl := List.mem_singleton.mp here
    obtain rfl := List.mem_singleton.mp bound
    obtain rfl := List.mem_singleton.mp listed
    exact ⟨rfl, rfl⟩

private theorem regular_pages {s : State} (modules : s.modules = [⟨pager, .registered⟩])
    (terms : (s.runs.lookup "r").all fun slot => slot.run.assembly = pages ∧
      slot.run.policy = some { closure := Closure.firstTerminal.asI32 } ∧ slot.maxInFlight = 8 ∧
        slot.defaultLeaseMs = 60000) :
    WhileRunning s "r" fun slot => Regular s.modules slot ∧ Moderate 0 slot := by
  intro slot found _
  rw [found, Option.all_some, decide_eq_true_eq] at terms
  obtain ⟨assembly, policy, narrow, lease⟩ := terms
  refine ⟨⟨?_, ?_, ?_, ?_⟩, ?_, ?_, ?_⟩
  · rw [assembly]
    unfold OneBinding
    decide
  · rw [modules]
    decide
  · intro p known
    rw [policy] at known
    obtain rfl := Option.some.inj known
    decide
  · intro p known id f found
    rw [policy] at known
    obtain rfl := Option.some.inj known
    cases found
  · rw [narrow]
    decide
  · rw [lease]
    decide
  · rw [lease]
    unfold Heartbeats.Fits
    decide

private theorem fair_pages {v : World (Stores Unit) × Exchange Query Answer}
    (checked : fairly v = true) : Fair policy (fun _ => backwards 0) v := by
  intro p peer
  unfold fairly at checked
  rw [Bool.and_eq_true, Bool.and_eq_true, decide_eq_true_eq] at checked
  obtain ⟨⟨modules, terms⟩, asked⟩ := checked
  have running := regular_pages modules terms
  obtain ⟨w, q, answer⟩ := v
  cases q with
  | startRun req ctx =>
      obtain rfl := Option.some.inj peer
      obtain ⟨assembly, nodes⟩ := of_decide_eq_true asked
      rintro whole a given cut
      obtain rfl := Option.some.inj (assembly.symm.trans given)
      rw [nodes] at cut
      obtain rfl := Except.ok.inj cut
      rw [modules]
      exact spelled_pages
  | claimReady req ctx =>
      obtain rfl := Option.some.inj peer
      have own : req.runId = "r" := beq_iff_eq.mp asked
      intro slot found
      exact running slot (own ▸ found)
  | commit submitted ctx =>
      obtain rfl := Option.some.inj peer
      have own : submitted.runId = "r" := beq_iff_eq.mp asked
      intro slot found now
      exact (running slot (own ▸ found) now).1
  | putArtifact artifact ctx =>
      obtain rfl := Option.some.inj peer
      obtain ⟨r, stored⟩ := Option.isSome_iff_exists.mp asked
      refine ⟨r, ?_⟩
      show (Store.putArtifactCtx policy (backwards 0) artifact ctx w.kernel).2 = .ok r
      generalize (Store.putArtifactCtx policy (backwards 0) artifact ctx w.kernel).2 = result at stored ⊢
      cases result with
      | error e => cases stored
      | ok r' => exact congrArg _ (Option.some.inj stored)
  | injectInput req ctx => cases asked
  | failWork req ctx => cases asked
  | cancelRun ref ctx =>
      obtain rfl := Option.some.inj peer
      trivial
  | _ => cases peer

private theorem pages_hosted :
    ∃ slot, Hosted (fun _ _ _ _ => onePage) policy (fun _ => backwards 0)
        (inMemory (digesting onePage)) (fun _ => "") plainSession waves (pagesRequest "r" none) slot ∧
      slot.run.assembly = pages := by
  have accepted : ((inProcess policy (fun _ => backwards 0) (inMemory (digesting onePage))
      (.startRun (pagesRequest "r" none) {}) plainSession.world).1.kernel.runs.lookup "r").map
        (·.run.assembly) = some pages := by decide +kernel
  have fair : goHistory.all fairly = true := by decide +kernel
  have absent : "r" ∉ plainSession.world.kernel.runs := by decide +kernel
  have checked : plainly onePage (goHistory.map Prod.snd) = true := by decide +kernel
  obtain ⟨slot, found, assembly⟩ := Option.map_eq_some_iff.mp accepted
  obtain ⟨v, rest, split, asked, here⟩ : ∃ v rest, goHistory = v :: rest ∧
      v.2.1 = .startRun (pagesRequest "r" none) {} ∧ v.1 = plainSession.world :=
    ⟨_, _, rfl, rfl, rfl⟩
  refine ⟨slot, ⟨⟨_, _, ⟨_, rfl⟩, Beside.refl _⟩, rfl, fun v member => ?_,
    ⟨[], v, rest, {}, split, asked, ?_, ?_⟩, ?_, ?_, ?_, ?_⟩, assembly⟩
  · exact fair_pages (List.all_eq_true.mp fair v member)
  · rw [here]
    exact absent
  · rw [asked, here, named_pages]
    exact found
  · rw [assembly]
    simp [pages, PlainId]
  · rintro work output ⟨step, after, -, member⟩
    exact beq_iff_eq.mp (List.all_eq_true.mp checked _ member)
  · intro key record member
    cases List.all_eq_true.mp checked _ member
  · rintro ⟨q, answer⟩ member given ctx rfl
    cases List.all_eq_true.mp checked _ member

/-- The run that the pages leave in the Go kernel. -/
def goRun : Option Run :=
  ((after (fun _ => "") (inProcess policy (fun _ => backwards 0) (inMemory (digesting onePage)))
    plainSession waves).kernel.runs.lookup "r").map (·.run)

/-- The answer of the pages that were driven in Go is what the pages mean. -/
theorem go_pages_compute :
    ∃ run r, goRun = some run ∧ run.answer = some r ∧
      answerOf pages (meaning pages [given "line" (text "one")]
        (always (workerOf (fun _ _ _ _ => onePage) pages))) = some r := by
  have completed : goRun.map (·.state) = some .completed := by decide +kernel
  obtain ⟨slot, hosted, assembly⟩ := pages_hosted
  obtain ⟨now, found, -, answers, finished, -⟩ := go_drives_compute hosted
  obtain ⟨run, here, done⟩ := Option.map_eq_some_iff.mp completed
  obtain ⟨held, found', rfl⟩ := Option.map_eq_some_iff.mp here
  rw [named_pages] at found
  obtain rfl := Option.some.inj (found.symm.trans found')
  obtain ⟨r, answer⟩ := Option.isSome_iff_exists.mp (finished done)
  rw [assembly] at answers
  exact ⟨now.run, r, here, answer, answers r answer⟩

/-- Driven in Rust and in Go, the pages have one answer. -/
theorem pages_agree_across :
    ∃ run run' r, Drives.plainRun waves "r" = some run ∧ goRun = some run' ∧
      run.answer = some r ∧ run'.answer = some r := by
  have completed : (Drives.plainRun waves "r").map (·.state) = some .completed := by decide +kernel
  have completed' : goRun.map (·.state) = some .completed := by decide +kernel
  obtain ⟨run, here, done⟩ := Option.map_eq_some_iff.mp completed
  obtain ⟨run', here', done'⟩ := Option.map_eq_some_iff.mp completed'
  obtain ⟨now, found, rfl⟩ := Option.map_eq_some_iff.mp here
  obtain ⟨now', found', rfl⟩ := Option.map_eq_some_iff.mp here'
  obtain ⟨slot, rust, assembly⟩ := Drives.waves_hosted
  obtain ⟨slot', hosted, assembly'⟩ := pages_hosted
  have agree := stacks_agree rust hosted (assembly.trans assembly'.symm) rfl
  rw [named_pages] at agree
  obtain ⟨r, answer, answer'⟩ := (agree.2 now now' found found').2 done done'
  exact ⟨now.run, now'.run, r, here, here', answer, answer'⟩

end Pages

end Substrate.Protocol.Stacks
