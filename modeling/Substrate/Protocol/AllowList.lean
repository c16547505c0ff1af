/- ID: Substrate/Protocol/AllowList
   source: framework/sdk/rust/src/lib.rs
   digest: Whose work a drive claims, and what it leaves READY. -/

import Substrate.Protocol.Draining
import Substrate.Protocol.Firings
import Substrate.Protocol.Plugged
import Substrate.Protocol.Provenance
import Substrate.Protocol.Units

set_option autoImplicit false
set_option relaxedAutoImplicit false

namespace Substrate.Protocol.AllowList

open Substrate.Kernel.Wire
open Substrate.Kernel.Hashing
open Substrate.Kernel.Memory
open Substrate.Kernel.Schedule
open Substrate.Kernel.Work
open Substrate.Kernel.Api (Call Reachable reachable_step)
open Substrate.Framework.Steps
open Substrate.Framework.Policy
open Substrate.Framework.Calls
open Substrate.Framework.Drive
open Substrate.Framework.InProcess
open Substrate.Protocol.Atoms
open Substrate.Protocol.Slots
open Substrate.Protocol.Serial
open Substrate.Protocol.Delivery
open Substrate.Protocol.Refine
open Substrate.Protocol.Identity
open Substrate.Protocol.Provenance (handedOut_claims claimUnits_item terms_step)
open Substrate.Protocol.Units
open Substrate.Protocol.Orphans
open Substrate.Protocol.Asking
open Substrate.Protocol.Draining
open Substrate.Protocol.Plugged
open Substrate.Library.FiniteMap
open Substrate.Library.Resumption
open Substrate.Library.Resumption.Act
open Substrate.Library.Resumption.Prog (Environment exec transcript)

section General

variable [Sha256] [Prost] {host : Host} {S : Type}

/-- The modules a run's claims name: its allow-list as it stands, or else all plugins. -/
def named (host : Host) (policy : Option FrameworkPolicy) : List String :=
  (policy.bind (·.claimModules)).getD host.plugins

/-- Whose nodes a claim is open to: everyone's when it names no module, or only the empty one. -/
def Open (host : Host) (policy : Option FrameworkPolicy) (module : String) : Prop :=
  named host policy = [] ∨ named host policy = [""] ∨ module ∈ named host policy

/-- A module with a plugin, and in the run's allow-list where there is one. -/
def Allowed (host : Host) (policy : Option FrameworkPolicy) (module : String) : Prop :=
  module ∈ host.plugins ∧ ∀ list, policy.bind (·.claimModules) = some list → module ∈ list

/-- No node that the run's claims are open to is of a module that is not allowed. -/
def Covered (host : Host) (policy : Option FrameworkPolicy) (slot : RunSlot) : Prop :=
  ∀ node ∈ slot.run.assembly.nodes, Open host policy node.module → Allowed host policy node.module

omit [Sha256] [Prost] in
private theorem matches_waveClaim {runId : String} {policy : Option FrameworkPolicy} {batch : UInt32}
    {node : AssemblyNode}
    (asked : nodeMatchesClaimFilter (waveClaim host runId policy batch) node = true) :
    Open host policy node.module := by
  obtain ⟨module, modules, -⟩ := Claiming.nodeMatches_iff.mp asked
  unfold waveClaim at module modules
  rw [← named] at module modules
  unfold Open
  match named host policy, module, modules with
  | [], _, _ => exact .inl rfl
  | [only], module, _ =>
      rcases module with empty | same
      · exact .inr (.inl (congrArg ([·]) empty))
      · exact .inr (.inr (List.mem_singleton.mpr same))
  | first :: second :: rest, _, modules =>
      rcases modules with none | among
      · cases none
      · exact .inr (.inr among)

variable {store : ArtifactStorePolicy} {clock : Nat → Env} {outside : Environment S Query Answer}
  {runId : String} {policy : Option FrameworkPolicy}

/-- Claims are those of the run's waves. -/
def Asks (host : Host) (runId : String) (policy : Option FrameworkPolicy) :
    Exchange Query Answer → Prop
  | ⟨.claimReady req _, _⟩ => ∃ batch, req = waveClaim host runId policy batch
  | _ => True

/-- The books have the policy of the run. -/
def Under (runId : String) (policy : Option FrameworkPolicy) (books : Books host) : Prop :=
  (books.runPolicies.lookup runId).map (·.1) = policy

omit [Sha256] [Prost] in
private theorem asks_allows :
    Allows host runId (fun _ => True) (Under runId policy) (fun _ => True)
      (Asks host runId policy) where
  policy _ _ _ _ := trivial
  noted _ _ _ _ known := known
  quiet q asked answer := by
    cases q <;> first | exact trivial | cases asked
  commits _ _ _ := trivial
  fails _ _ _ := trivial
  writes _ _ _ _ _ _ _ _ _ _ := trivial
  logs _ _ _ := ⟨fun _ => trivial, fun _ _ => trivial⟩

private theorem handed_claim (env : Env) (req : ClaimRequest) (ctx : RequestContext) (s : State) :
    handedBy ⟨.claimReady req ctx, (claimAnswer env req ctx s).2⟩ =
      (handedOut (Substrate.Kernel.Api.step store s ⟨.claimReady req, ctx, env⟩).2 :
        Multiset WorkItem) := by
  show _ = ((handedOut (Substrate.Kernel.Api.reply .claim (orReturn (checkDeadline env ctx) s fun _ =>
    Substrate.Kernel.Work.claimReady env req s)).2 : List WorkItem) : Multiset WorkItem)
  unfold claimAnswer
  cases checkDeadline env ctx with
  | error e => rfl
  | ok _ =>
      dsimp only [orReturn]
      split
      · rename_i resp accepted
        refine Eq.trans (b := (resp.items : Multiset WorkItem)) rfl ?_
        rw [show Substrate.Kernel.Work.claimReady env req s = (_, .ok resp) from
          Prod.ext rfl accepted]
        rfl
      · rename_i e refused
        rw [show Substrate.Kernel.Work.claimReady env req s = (_, .error e) from
          Prod.ext rfl refused]
        rfl

/-- The answers are all that the kernel hands out. -/
theorem handed_kernel (q : Query) (w : World S) {op : Substrate.Kernel.Api.Op}
    {ctx : RequestContext} (made : opOf q = some (op, ctx)) :
    (handedOut (Substrate.Kernel.Api.step store w.kernel ⟨op, ctx, clock w.calls⟩).2 :
      Multiset WorkItem) = handedBy ⟨q, (inProcess store clock outside q w).2⟩ := by
  by_cases claims : ∃ req ctx, q = .claimReady req ctx
  · obtain ⟨req, ctx, rfl⟩ := claims
    obtain ⟨rfl, rfl⟩ := Prod.mk.inj (Option.some.inj made)
    exact (handed_claim (clock w.calls) req ctx w.kernel).symm
  · have silent : handedBy ⟨q, (inProcess store clock outside q w).2⟩ = 0 := by
      cases q <;> first | rfl | exact absurd ⟨_, _, rfl⟩ claims
    rw [silent]
    refine (Multiset.coe_eq_zero _).mpr (List.eq_nil_iff_forall_not_mem.mpr fun work member => ?_)
    obtain ⟨req, -, -, same, -⟩ := handedOut_claims member
    obtain rfl : op = .claimReady req := same
    cases q <;> first | exact claims ⟨_, _, rfl⟩ | cases made

/-- What holds of a run while it is driven: the units handed out are of modules that are allowed, and
those of other modules that were READY are taken by nobody. -/
structure Respected (store : ArtifactStorePolicy) (host : Host) (policy : Option FrameworkPolicy)
    (runId : String) (begun : State) (start : RunSlot) (told : Told) (s : State) : Prop where
  reached : Reachable store s
  slot : ∃ slot, s.runs.lookup runId = some slot ∧ SameTerms start slot ∧
    ∀ node ∈ start.run.assembly.nodes, ¬Open host policy node.module →
      ∀ unit, readyUnit begun.modules start node = some unit → Untaken slot unit.2
  items : ∀ work ∈ handed told, Allowed host policy work.module

private theorem respected_start {s : State} {slot : RunSlot} (reached : Reachable store s)
    (found : s.runs.lookup runId = some slot) :
    Respected store host policy runId s slot [] s := by
  refine ⟨reached, ⟨slot, found, .refl slot, fun node _ _ unit ready => ?_⟩, fun _ => nofun⟩
  obtain ⟨-, undone, unclaimed⟩ := readyUnit_eq_some.mp ready
  exact ⟨undone, unitIsClaimed_eq_false.mp unclaimed⟩

private theorem handed_open {w : World S} {q : Query} {slot : RunSlot}
    (asks : Asks host runId policy ⟨q, (inProcess store clock outside q w).2⟩)
    (found : w.kernel.runs.lookup runId = some slot) {op : Substrate.Kernel.Api.Op}
    {ctx : RequestContext} (made : opOf q = some (op, ctx)) {work : WorkItem}
    (member : work ∈ handedOut
      (Substrate.Kernel.Api.step store w.kernel ⟨op, ctx, clock w.calls⟩).2) :
    ∃ node ∈ slot.run.assembly.nodes, Open host policy node.module ∧ work.module = node.module ∧
      ∃ inputs, currentUnit w.kernel.modules (reapSlot (clock w.calls) slot) node =
        some (inputs, work.unitKey) := by
  obtain ⟨req, slot', cs, same, found', listed, items, -⟩ := handedOut_claims member
  obtain rfl : op = .claimReady req := same
  obtain ⟨batch, rfl⟩ : ∃ batch, req = waveClaim host runId policy batch := by
    cases q <;> first | (cases made; exact asks) | cases made
  have here : (waveClaim host runId policy batch).runId = runId := by
    unfold waveClaim
    split <;> rfl
  rw [here] at found'
  obtain rfl := Option.some.inj (found.symm.trans found')
  rw [items] at member
  obtain ⟨c, taken, _, rfl⟩ := claimUnits_item member
  obtain ⟨there, asked, ready⟩ := mem_readyCandidates.mp (listed taken)
  rw [reapSlot_run] at there
  exact ⟨c.1, there, matches_waveClaim asked, rfl, c.2.1, (readyUnit_eq_some.mp ready).1⟩

private theorem respected_step {begun : State} {start : RunSlot} (covered : Covered host policy start)
    {told : Told} {q : Query} {w : World S}
    (asks : Asks host runId policy ⟨q, (inProcess store clock outside q w).2⟩)
    (held : Respected store host policy runId begun start told w.kernel) :
    Respected store host policy runId begun start
      (told ++ [⟨q, (inProcess store clock outside q w).2⟩])
      (inProcess store clock outside q w).1.kernel := by
  obtain ⟨reached, ⟨slot, found, terms, untaken⟩, items⟩ := held
  have after : Reachable store (inProcess store clock outside q w).1.kernel :=
    inProcess_reachable reached
  cases made : opOf q with
  | none =>
      have silent : handedBy ⟨q, (inProcess store clock outside q w).2⟩ = 0 := by
        cases q <;> first | rfl | cases made
      rw [inProcess_kernel, made] at after ⊢
      refine ⟨after, ⟨slot, found, terms, untaken⟩, ?_⟩
      rwa [handed_append, handed_single, silent, add_zero]
  | some p =>
      obtain ⟨op, ctx⟩ := p
      have taken := @handed_open _ _ host S store clock outside runId policy w q slot asks found op ctx
        made
      have all := @handed_kernel _ _ S store clock outside q w op ctx made
      rw [inProcess_kernel, made] at after ⊢
      have wf := reachable_wellFormed reached
      obtain ⟨slot', found', same⟩ := terms_step store wf ⟨op, ctx, clock w.calls⟩ found
      refine ⟨after, ⟨slot', found', terms.trans same, fun node member closed unit ready => ?_⟩, ?_⟩
      · refine untaken_step store wf _ found (fun work given _ key => ?_)
          (untaken node member closed unit ready) slot' found'
        obtain ⟨other, there, opened, -, inputs, current⟩ := taken given
        rw [key] at current
        have ids := currentUnit_node current (readyUnit_eq_some.mp ready).1
        rw [← terms.assembly] at member
        obtain rfl := List.inj_on_of_nodup_map (wf runId slot found).ids there member ids
        exact closed opened
      · intro work member
        rw [handed_append, handed_single, ← all, Multiset.mem_add] at member
        rcases member with earlier | now
        · exact items work earlier
        · obtain ⟨node, there, opened, named, -⟩ := taken now
          rw [terms.assembly] at there
          rw [named]
          exact covered node there opened

omit [Prost] in
/-- A drive call, under a plan of its own or under that of the run's policy. -/
def driveCall (fuel : Nat) (runId : String) (plan : Option DrivePlan) : HostAct host (Option Run) :=
  plan.elim (drive fuel runId) (driveWith fuel runId)

omit [Sha256] [Prost] in
private theorem asks_closes : Closes runId (fun _ : Books host => True) (Asks host runId policy) :=
  ⟨fun _ _ => trivial, fun _ _ => trivial, fun _ _ _ _ _ _ _ _ _ => trivial⟩

private theorem driveWith_respects {begun : State} {start : RunSlot}
    (covered : Covered host policy start) (fuel : Nat) (plan : DrivePlan) :
    Meets (inProcess store clock outside)
      (fun books w => Under runId policy books ∧
        Respected store host policy runId begun start [] w.kernel)
      (driveWith fuel runId plan : HostAct host (Option Run)) fun told _ _ w =>
        Respected store host policy runId begun start told w.kernel := by
  have follows {α : Type} {I : Books host → Prop} {x : HostAct host α}
      (keeps : Keeps I (Asks host runId policy) x) (told : Told) :
      Meets (inProcess store clock outside)
        (fun books w => I books ∧ Respected store host policy runId begun start told w.kernel) x
        fun rest _ books w =>
          I books ∧ Respected store host policy runId begun start (told ++ rest) w.kernel := by
    have kept : Meets (inProcess store clock outside) _ x _ := Meets.of_keeps
      (T := fun rest w => Respected store host policy runId begun start (told ++ rest) w.kernel) keeps
      fun rest q w asks held => by
        rw [← List.append_assoc]
        exact respected_step covered asks held
    rwa [List.append_nil] at kept
  rw [driveWith_eq]
  refine Meets.bind (follows (driveWaves_keeps asks_allows (fun _ => trivial)
    (fun books known batch _ => ⟨batch, by rw [known]⟩) fuel plan) []) (fun run told => ?_)
    fun _ _ _ _ held => held.2
  exact ((follows (closeRun_keeps asks_closes run) told).pre fun _ _ held => ⟨trivial, held.2⟩).mono
    fun _ _ _ _ held => held.2

private theorem driveCall_respects {begun : State} {start : RunSlot}
    (covered : Covered host policy start) (fuel : Nat) (plan : Option DrivePlan) :
    Meets (inProcess store clock outside)
      (fun books w => Under runId policy books ∧
        Respected store host policy runId begun start [] w.kernel)
      (driveCall fuel runId plan : HostAct host (Option Run)) fun told _ _ w =>
        Respected store host policy runId begun start told w.kernel := by
  cases plan with
  | some plan => exact driveWith_respects covered fuel plan
  | none =>
      show Meets _ _ (drive fuel runId) _
      rw [drive, policyOf, bind_assoc]
      refine .read fun books => ?_
      rw [pure_bind]
      exact (driveWith_respects covered fuel _).pre fun _ _ held => held.2

omit [Prost] in
private theorem driveCall_served (fuel : Nat) (runId : String) (plan : Option DrivePlan) :
    Served (driveCall fuel runId plan : HostAct host (Option Run)) := by
  cases plan with
  | some plan => exact driveWith_served fuel runId plan
  | none => exact drive_served fuel runId

omit [Sha256] [Prost] in
private theorem handed_of_mem {told : Told} {e : Exchange Query Answer} (member : e ∈ told)
    {work : WorkItem} (among : work ∈ handedBy e) : work ∈ handed told := by
  obtain ⟨first, rest, rfl⟩ := List.append_of_mem member
  rw [handed_append, ← List.singleton_append, handed_append, handed_single]
  exact Multiset.mem_add.mpr (.inr (Multiset.mem_add.mpr (.inl among)))

/-- In a run whose claims are open to no node of a module that is not allowed, every unit that a drive
claims is of an allowed module, no plugin is missing, and the READY units of other modules are taken
by nobody. -/
theorem drive_claims_allowed (store : ArtifactStorePolicy) (clock : Nat → Env)
    (outside : Environment S Query Answer) (sound : ∀ q s, Sound ⟨q, (outside q s).2⟩) (host : Host)
    (books : Books host) (w : World S) (reached : Reachable store w.kernel) (fuel : Nat)
    (runId : String) (plan : Option DrivePlan) (slot : RunSlot)
    (found : w.kernel.runs.lookup runId = some slot) :
    let policy := (books.runPolicies.lookup runId).map (·.1)
    let env := inProcess store clock outside
    let call := start (driveCall fuel runId plan : HostAct host (Option Run)) books
    Covered host policy slot →
      (∀ work ∈ handed (transcript env call w), Allowed host policy work.module) ∧
        (∀ m, (exec env call w).2.1 ≠ .error (.noPlugin m)) ∧
        ∃ after, (exec env call w).1.kernel.runs.lookup runId = some after ∧
          ∀ node ∈ slot.run.assembly.nodes, ¬Allowed host policy node.module →
            ∀ unit, readyUnit w.kernel.modules slot node = some unit →
              Untaken after unit.2 ∧
                ∀ inputs, currentUnit (exec env call w).1.kernel.modules after node =
                    some (inputs, unit.2) →
                  readyUnit (exec env call w).1.kernel.modules after node =
                    some (inputs, unit.2) := by
  intro policy env call covered
  have held : Respected store host policy runId w.kernel slot (transcript env call w)
      (exec env call w).1.kernel :=
    driveCall_respects covered fuel plan books w ⟨rfl, respected_start reached found⟩
  refine ⟨held.items, fun m missing => ?_, ?_⟩
  · refine driveCall_served fuel runId plan books _ _ _ (Prog.runs_exec env call w) ?_ _ missing m rfl
    intro e member
    refine ⟨Prog.transcript_all env (E := Sound) (fun q v => ?_) call w e member, fun work among =>
      (held.items work (handed_of_mem member among)).1⟩
    cases q <;> first | exact trivial | exact sound _ v.rest
  · obtain ⟨after, there, -, untaken⟩ := held.slot
    refine ⟨after, there, fun node member barred unit ready => ?_⟩
    have taken := untaken node member (fun opened => barred (covered node member opened)) unit ready
    exact ⟨taken, fun inputs => @ready_of_untaken _ _ _ _ (inputs, unit.2) taken⟩

end General

section Echo

open Substrate.Kernel.Concrete
open Substrate.Framework.Pipeline (startPipeline)
open Substrate.Protocol.Firings (stockedKernel)

/-- The allow-list names `echo` alone. -/
def onlyEcho : FrameworkPolicy := { FrameworkPolicy.converge with claimModules := some ["echo"] }

/-- The host of `echo@1`, with the plugins it has registered. -/
def hostOf (plugins : List String) : Host := { echoHost with plugins }

/-- The kernel and the books after a host has started the pipeline of `echo@1`. -/
def opened (host : Host) (w : World Unit) : Books host × World Unit :=
  let started := exec (inProcess policy sayingClock saying)
    (start (startPipeline "r" echoes [given "line" (text "one")] onlyEcho : HostAct host Run) {}) w
  (started.2.2, started.1)

def driven (host : Host) (p : Books host × World Unit) :
    Prog Query Answer (Except FrameworkError (Option Run) × Books host) :=
  start (driveCall 2 "r" none : HostAct host (Option Run)) p.1

/-- The units that a drive claims. -/
def taken (host : Host) (p : Books host × World Unit) : Multiset WorkItem :=
  handed (transcript (inProcess policy sayingClock saying) (driven host p) p.2)

/-- The plugin that a drive misses. -/
def missed (host : Host) (p : Books host × World Unit) : Option String :=
  match (exec (inProcess policy sayingClock saying) (driven host p) p.2).2.1 with
  | .error (.noPlugin m) => some m
  | _ => none

private theorem opened_reachable {host : Host} {w : World Unit} (reached : Reachable policy w.kernel) :
    Reachable policy (opened host w).2.kernel :=
  Prog.exec_keeps (inProcess policy sayingClock saying) (P := fun v => Reachable policy v.kernel) (E := fun _ => True)
    (fun _ _ _ before => inProcess_reachable before) _ w (fun _ _ => trivial) reached

private theorem stocked_reachable : Reachable policy (worldOf stockedKernel).kernel :=
  ⟨stocked .once, rfl⟩

private theorem echo_missed :
    (taken (hostOf []) (opened (hostOf []) (worldOf stockedKernel))).map (·.module) = {"echo"} ∧
      missed (hostOf []) (opened (hostOf []) (worldOf stockedKernel)) = some "echo" := by
  decide +kernel

private theorem echo_listed :
    let p := opened (hostOf ["echo"]) (worldOf stockedKernel)
    (p.1.runPolicies.lookup "r").bind (·.1.claimModules) = some ["echo"] ∧
      (p.2.kernel.runs.lookup "r").map (·.run.assembly.nodes.map (·.module)) = some ["echo"] := by
  decide +kernel

/-- A host without plugins claims the unit of `echo@1` and misses its plugin. -/
theorem unplugged_claimed :
    Reachable policy (opened (hostOf []) (worldOf stockedKernel)).2.kernel ∧
      (∃ work ∈ taken (hostOf []) (opened (hostOf []) (worldOf stockedKernel)),
        work.module ∉ (hostOf []).plugins) ∧
      missed (hostOf []) (opened (hostOf []) (worldOf stockedKernel)) = some "echo" := by
  refine ⟨opened_reachable stocked_reachable, ?_, echo_missed.2⟩
  have one := echo_missed.1
  generalize taken (hostOf []) (opened (hostOf []) (worldOf stockedKernel)) = units at one ⊢
  have some : "echo" ∈ units.map (·.module) := by
    rw [one]
    exact Multiset.mem_singleton_self _
  obtain ⟨work, member, -⟩ := Multiset.mem_map.mp some
  exact ⟨work, member, List.not_mem_nil⟩

private theorem saying_sound (q : Query) (s : Unit) : Sound ⟨q, (saying q s).2⟩ := by
  cases q <;> exact trivial

/-- With its plugin, a drive of `echo@1` claims what it may and misses nothing. -/
theorem drive_claims_echo :
    (∀ work ∈ taken (hostOf ["echo"]) (opened (hostOf ["echo"]) (worldOf stockedKernel)),
      work.module ∈ (hostOf ["echo"]).plugins) ∧
      missed (hostOf ["echo"]) (opened (hostOf ["echo"]) (worldOf stockedKernel)) = none := by
  have settled (p : Books (hostOf ["echo"]) × World Unit) (reached : Reachable policy p.2.kernel)
      (listed : (p.1.runPolicies.lookup "r").bind (·.1.claimModules) = some ["echo"])
      (nodes : (p.2.kernel.runs.lookup "r").map (·.run.assembly.nodes.map (·.module)) =
        some ["echo"]) :
      (∀ work ∈ taken (hostOf ["echo"]) p, work.module ∈ (hostOf ["echo"]).plugins) ∧
        missed (hostOf ["echo"]) p = none := by
    obtain ⟨slot, found, echoes⟩ := Option.map_eq_some_iff.mp nodes
    have covered : Covered (hostOf ["echo"]) ((p.1.runPolicies.lookup "r").map (·.1)) slot := by
      intro node member _
      have same : node.module ∈ ["echo"] := echoes ▸ List.mem_map_of_mem member
      refine ⟨same, fun list chosen => ?_⟩
      rw [Option.bind_map] at chosen
      rwa [Option.some.inj (listed.symm.trans chosen)] at same
    obtain ⟨allowed, none, -⟩ := drive_claims_allowed policy sayingClock saying saying_sound
      (hostOf ["echo"]) p.1 p.2 reached 2 "r" Option.none slot found covered
    refine ⟨fun work member => (allowed work member).1, ?_⟩
    unfold missed
    split
    · rename_i m error
      exact absurd error (none m)
    · rfl
  exact settled _ (opened_reachable stocked_reachable) echo_listed.1 echo_listed.2

end Echo

end Substrate.Protocol.AllowList
