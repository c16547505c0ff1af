/- ID: Substrate/Protocol/Firings
   source: framework/sdk/rust/src/policy.rs, framework/sdk/rust/src/lib.rs, kernel/sdk/rust/src/lib.rs
   digest: What a firing plan comes to for the nodes of the run that a pipeline starts. -/

import Substrate.Protocol.Draining
import Substrate.Protocol.Provenance

set_option autoImplicit false
set_option relaxedAutoImplicit false

namespace Substrate.Protocol.Firings

open Substrate.Kernel.Wire
open Substrate.Kernel.Hashing
open Substrate.Kernel.Memory
open Substrate.Kernel.Assembly (materializeAssembly)
open Substrate.Kernel.Registry (providers)
open Substrate.Kernel.Runs (freshSlot)
open Substrate.Kernel.Schedule (effectiveFiring)
open Substrate.Kernel.Store
open Substrate.Kernel.Api (Call Reachable)
open Substrate.Framework.Steps
open Substrate.Framework.Policy
open Substrate.Framework.Cut
open Substrate.Framework.Calls
open Substrate.Framework.Drive
open Substrate.Framework.Pipeline
open Substrate.Framework.InProcess
open Substrate.Protocol.Slots (SameTerms)
open Substrate.Protocol.Refine (reachable_wellFormed)
open Substrate.Protocol.Provenance (run_origin terms_exec)
open Substrate.Protocol.Steady (Started.fresh)
open Substrate.Protocol.Asking
open Substrate.Protocol.Draining (inProcess_kernel inProcess_reachable opOf)
open Substrate.Library.FiniteMap
open Substrate.Library.Resumption
open Substrate.Library.Resumption.Act
open Substrate.Library.Resumption.Prog (Environment exec)

/-- A capability's own firing, ONCE if it declares none. -/
def declared (cap : Capability) : Firing :=
  if cap.firingOf ≠ .unspecified then cap.firingOf else .once

/-- The entry of a node that asks for a firing. -/
def pinned (byNode : KeyMap String Firing) (nodeId : String) : Option Firing :=
  (byNode.lookup nodeId).filter (· ≠ .unspecified)

/-- What a plan says about the firing `f` of a node. -/
def Says (nodeId : String) (cap : Capability) (f : Firing) : FiringPlan → Prop
  | .capabilityDefaults => f = declared cap
  | .all forced => forced ≠ .unspecified → f = forced
  | .map default byNode =>
      f = (pinned byNode nodeId).getD (if default ≠ .unspecified then default else declared cap)

/-- The default of a map that a capability's own firing comes before. -/
def Shadowed (nodeId : String) (cap : Capability) : FiringPlan → Prop
  | .map default byNode =>
      pinned byNode nodeId = none ∧ default ≠ .unspecified ∧ cap.firingOf ≠ .unspecified ∧
        cap.firingOf ≠ default
  | _ => False

/-- The entry that a plan compiles to for a node of its assembly. -/
def entryOf (nodeId : String) : FiringPlan → Option Firing
  | .capabilityDefaults => none
  | .all f => some f
  | .map _ byNode => byNode.lookup nodeId

def defaultOf : FiringPlan → Firing
  | .capabilityDefaults => .unspecified
  | .all f => f
  | .map default _ => default

@[simp] theorem tryFrom_asI32 (f : Firing) : Firing.tryFrom f.asI32 = some f := by
  cases f <;> rfl

theorem filter_asI32 (entry : Option Firing) :
    (entry.map Firing.asI32).filter (· ≠ 0) =
      (entry.filter (· ≠ .unspecified)).map Firing.asI32 := by
  cases entry with
  | none => rfl
  | some f => cases f <;> rfl

theorem default_compiled (policy : FrameworkPolicy) (assembly : Option Assembly) :
    (policy.executionPolicyFor assembly).defaultOf = defaultOf policy.firing := by
  rw [FrameworkPolicy.executionPolicyFor, ExecutionPolicy.defaultOf]
  cases policy.firing <;> simp [defaultOf]

theorem entry_compiled (policy : FrameworkPolicy) {a : Assembly} {n : AssemblyNode}
    (member : n ∈ a.nodes) :
    (policy.executionPolicyFor (some a)).byNode.get? n.id =
      (entryOf n.id policy.firing).map Firing.asI32 := by
  rw [FrameworkPolicy.executionPolicyFor]
  cases policy.firing with
  | capabilityDefaults => rfl
  | all f => exact OrderedMap.get?_foldl_insert (fun _ _ _ => rfl) ⟨n, member, rfl⟩ _
  | map default byNode =>
      show (byNode.entries.foldl (fun m e => OrderedMap.insert m e.1 e.2.asI32) _).get? n.id =
        (byNode.lookup n.id).map Firing.asI32
      cases found : byNode.lookup n.id with
      | none =>
          refine OrderedMap.get?_foldl_insert_of_ne (fun e listed same => ?_) _
          have known := (lookup_eq_some_iff byNode e.1 e.2).mpr listed
          rw [same, found] at known
          cases known
      | some f =>
          have listed := (lookup_eq_some_iff byNode n.id f).mp found
          refine OrderedMap.get?_foldl_insert (fun e other same => ?_) ⟨_, listed, rfl⟩ _
          have again := (lookup_eq_some_iff byNode e.1 e.2).mpr other
          rw [same, found] at again
          rw [Option.some.inj again]

theorem effectiveFiring_compiled {slot : RunSlot} {policy : FrameworkPolicy} {a : Assembly}
    (compiled : slot.run.policy = some (policy.executionPolicyFor (some a))) {n : AssemblyNode}
    (member : n ∈ a.nodes) (cap : Capability) :
    effectiveFiring slot n cap =
      ((entryOf n.id policy.firing).filter (· ≠ .unspecified)).getD
        (if cap.firingOf ≠ .unspecified then cap.firingOf
          else if defaultOf policy.firing ≠ .unspecified then defaultOf policy.firing else .once) := by
  rw [effectiveFiring, compiled, Option.bind_some, Option.map_some, entry_compiled policy member,
    filter_asI32, default_compiled]
  cases (entryOf n.id policy.firing).filter (· ≠ .unspecified) with
  | none => rfl
  | some f => simp

theorem plan_holds_iff {slot : RunSlot} {policy : FrameworkPolicy} {a : Assembly}
    (compiled : slot.run.policy = some (policy.executionPolicyFor (some a))) {n : AssemblyNode}
    (member : n ∈ a.nodes) (cap : Capability) :
    Says n.id cap (effectiveFiring slot n cap) policy.firing ↔
      ¬Shadowed n.id cap policy.firing := by
  rw [effectiveFiring_compiled compiled member]
  cases policy.firing with
  | capabilityDefaults => simp [Says, Shadowed, entryOf, defaultOf, declared]
  | all f => exact iff_of_true (fun asked => by simp [entryOf, Option.filter, asked]) id
  | map default byNode =>
      rw [Says, Shadowed, entryOf, defaultOf, ← pinned]
      cases pinned byNode n.id with
      | some f => simp
      | none =>
          by_cases asked : default = .unspecified
          · simp [asked, declared]
          · by_cases own : cap.firingOf = .unspecified <;> simp [asked, own]

section General

variable [Sha256] [Prost] {host : Host} {S : Type}

/-- A run of the pipeline's cut, under the policy compiled for it. -/
def Compiled (whole : Assembly) (policy : FrameworkPolicy) (slot : RunSlot) : Prop :=
  ∃ cut, materializeCut whole policy.nodes = .ok cut ∧ slot.run.assembly = cut.assembly ∧
    slot.run.policy = some (policy.executionPolicyFor (some cut.assembly))

omit [Sha256] [Prost] in
theorem Compiled.of_terms {whole : Assembly} {policy : FrameworkPolicy} {slot after : RunSlot}
    (compiled : Compiled whole policy slot) (same : SameTerms slot after) :
    Compiled whole policy after := by
  obtain ⟨cut, cuts, assembly, limits⟩ := compiled
  exact ⟨cut, cuts, same.assembly.trans assembly, same.policy.trans limits⟩

/-- The one run that an exchange asks for is that of the pipeline. -/
def StartsOnly (runId : String) (whole : Assembly) (inputs : List NamedArtifact)
    (policy : FrameworkPolicy) (e : Exchange Query Answer) : Prop :=
  ∀ req ctx, e.1 = .startRun req ctx → ∃ cut, materializeCut whole policy.nodes = .ok cut ∧
    req = pipelineRequest runId cut.assembly inputs policy

variable {store : ArtifactStorePolicy} {clock : Nat → Env} {outside : Environment S Query Answer}
  {runId : String} {whole : Assembly} {inputs : List NamedArtifact} {policy : FrameworkPolicy}

omit [Sha256] [Prost] in
private theorem startPipeline_starts :
    Keeps (fun _ => True) (StartsOnly runId whole inputs policy)
      (startPipeline runId whole inputs policy : HostAct host Run) := by
  have other {e : Exchange Query Answer} (no : ∀ req ctx, e.1 ≠ .startRun req ctx) :
      StartsOnly runId whole inputs policy e := fun req ctx same => absurd same (no req ctx)
  have allows : Allows host runId (fun _ => True) (fun _ => True) (fun _ => True)
      (StartsOnly runId whole inputs policy) :=
    { policy := fun _ _ _ _ => trivial
      noted := fun _ _ _ _ _ => trivial
      quiet := fun q quiet _ => other fun _ _ same => by cases same; cases quiet
      commits := fun _ _ _ => other nofun
      fails := fun _ _ _ => other nofun
      writes := fun _ _ _ _ _ _ _ _ _ _ => other nofun
      logs := fun _ _ _ => ⟨fun _ => other nofun, fun _ _ => other nofun⟩ }
  refine startPipeline_keeps allows (fun cut cuts answer => ?_) fun p _ =>
    ⟨fun _ _ _ _ => other nofun, fun _ _ _ => trivial, fun _ _ => trivial⟩
  rintro req ctx ⟨⟩
  exact ⟨cut, cuts, rfl⟩

private theorem compiled_step {q : Query} {w : World S}
    (starts : StartsOnly runId whole inputs policy ⟨q, (inProcess store clock outside q w).2⟩)
    (reached : Reachable store w.kernel)
    (before : ∀ slot, w.kernel.runs.lookup runId = some slot → Compiled whole policy slot) :
    ∀ slot, (inProcess store clock outside q w).1.kernel.runs.lookup runId = some slot →
      Compiled whole policy slot := by
  intro slot found
  rw [inProcess_kernel] at found
  cases asked : opOf q with
  | none =>
      rw [asked] at found
      exact before slot found
  | some p =>
      rw [asked] at found
      rcases run_origin store (reachable_wellFormed reached) _ found with
        ⟨old, there, same⟩ | ⟨req, -, started⟩
      · exact (before old there).of_terms same
      · have op : p.1 = .startRun req := started.op
        cases q with
        | startRun req' ctx =>
            obtain rfl := Option.some.inj asked
            obtain rfl : req' = req := by cases op; rfl
            obtain ⟨cut, cuts, rfl⟩ := starts req' ctx rfl
            obtain ⟨given, assembly, same, whole', -, rfl⟩ := started.fresh
            obtain rfl : cut.assembly = given := Option.some.inj same
            obtain rfl : cut.assembly = assembly := Except.ok.inj whole'
            exact ⟨cut, cuts, rfl, rfl⟩
        | _ => cases asked <;> cases op

/-- In the run that a pipeline has started, and whatever the kernel is called for afterwards, a plan
means what it says for a node exactly when no default of a map is shadowed there. -/
theorem firings_iff (store : ArtifactStorePolicy) (clock : Nat → Env)
    (outside : Environment S Query Answer) (host : Host) (books : Books host) (w : World S)
    (reached : Reachable store w.kernel) (runId : String) (new : runId ∉ w.kernel.runs)
    (whole : Assembly) (inputs : List NamedArtifact) (policy : FrameworkPolicy) (calls : List Call)
    (slot : RunSlot) :
    let after := (exec (inProcess store clock outside)
      (start (startPipeline runId whole inputs policy : HostAct host Run) books) w).1.kernel
    runId ∈ after.runs →
      (Substrate.Kernel.Api.exec store after calls).runs.lookup runId = some slot →
        (∃ cut, materializeCut whole policy.nodes = .ok cut ∧ slot.run.assembly = cut.assembly) ∧
          ∀ n ∈ slot.run.assembly.nodes, ∀ cap,
            (Says n.id cap (effectiveFiring slot n cap) policy.firing ↔
              ¬Shadowed n.id cap policy.firing) := by
  intro after started found
  have kept : Meets (inProcess store clock outside) _ _ _ :=
    Meets.of_keeps (T := fun _ w => Reachable store w.kernel ∧
        ∀ slot, w.kernel.runs.lookup runId = some slot → Compiled whole policy slot)
      (startPipeline_starts : Keeps _ (StartsOnly runId whole inputs policy)
        (startPipeline runId whole inputs policy : HostAct host Run))
      fun _ _ _ starts held => ⟨inProcess_reachable held.1, compiled_step starts held.1 held.2⟩
  obtain ⟨-, reached', compiled⟩ := kept books w
    ⟨trivial, reached, fun slot there => absurd (mem_of_lookup there) new⟩
  obtain ⟨first, there⟩ := lookup_of_mem started
  obtain ⟨later, found', same⟩ := terms_exec store reached' calls there
  obtain rfl := Option.some.inj (found.symm.trans found')
  obtain ⟨cut, cuts, assembly, limits⟩ := (compiled first there).of_terms same
  refine ⟨⟨cut, cuts, assembly⟩, fun n member cap => plan_holds_iff limits ?_ cap⟩
  rwa [← assembly]

end General

section Echo

open Substrate.Kernel.Concrete
open Substrate.Protocol.Draining (worldOf sayingClock saying)
open Substrate.Protocol.Orphans (echoHost)

/-- `echo@1`, which fires ONCE, and the line. -/
def stockedKernel : State := Substrate.Kernel.Api.exec policy {} (stocked .once)

/-- Every node is to fire ALWAYS. -/
def alwaysByDefault : FrameworkPolicy :=
  { FrameworkPolicy.converge with firing := .map .always ∅ }

def echoPipeline (w : World Unit) : State :=
  (exec (inProcess policy sayingClock saying)
    (start (startPipeline "r" echoes [given "line" (text "one")] alwaysByDefault :
      HostAct echoHost Run) {}) w).1.kernel

/-- What `echo@1` provides. -/
def say : Capability :=
  { name := "say", inputs := [{ name := "heard", traits := ["text"] }]
    outputs := [{ name := "said", traits := ["text"] }], firing := Firing.once.asI32 }

def listener : AssemblyNode := ⟨"n", "echo", "1", "say"⟩

/-- How `listener` fires in the run, if it is a node of it that provides `say`. -/
def firingIn (s : State) : Option Firing :=
  (s.runs.lookup "r").bind fun slot =>
    if listener ∈ slot.run.assembly.nodes ∧ providers s.modules listener = [say] then
      some (effectiveFiring slot listener say)
    else none

private theorem once_still : firingIn (echoPipeline (worldOf stockedKernel)) = some .once := by
  decide +kernel

private theorem firing_slot {s : State} {f : Firing} (fires : firingIn s = some f) :
    ∃ slot, s.runs.lookup "r" = some slot ∧ listener ∈ slot.run.assembly.nodes ∧
      providers s.modules listener = [say] ∧ effectiveFiring slot listener say = f := by
  obtain ⟨slot, found, given⟩ := Option.bind_eq_some_iff.mp fires
  split_ifs at given with node
  exact ⟨slot, found, node.1, node.2, Option.some.inj given⟩

/-- The node fires ONCE, where the plan's default says ALWAYS. -/
theorem default_shadowed :
    Reachable policy stockedKernel ∧
      ∃ slot, (echoPipeline (worldOf stockedKernel)).runs.lookup "r" = some slot ∧
        listener ∈ slot.run.assembly.nodes ∧
        providers (echoPipeline (worldOf stockedKernel)).modules listener = [say] ∧
        ¬Says listener.id say (effectiveFiring slot listener say) alwaysByDefault.firing := by
  obtain ⟨slot, found, member, provided, once⟩ := firing_slot once_still
  refine ⟨⟨stocked .once, rfl⟩, slot, found, member, provided, ?_⟩
  rw [once]
  exact fun same => nomatch (show Firing.once = Firing.always from same)

/-- The pipeline's run is there, and the plan comes to what it says where nothing is shadowed. -/
theorem firings_echo :
    ∃ slot, (echoPipeline (worldOf stockedKernel)).runs.lookup "r" = some slot ∧
      ∀ n ∈ slot.run.assembly.nodes, ∀ cap,
        (Says n.id cap (effectiveFiring slot n cap) alwaysByDefault.firing ↔
          ¬Shadowed n.id cap alwaysByDefault.firing) := by
  have settled (w : World Unit) (reached : Reachable policy w.kernel) (new : "r" ∉ w.kernel.runs)
      {slot : RunSlot} (found : (echoPipeline w).runs.lookup "r" = some slot) :
      ∀ n ∈ slot.run.assembly.nodes, ∀ cap,
        (Says n.id cap (effectiveFiring slot n cap) alwaysByDefault.firing ↔
          ¬Shadowed n.id cap alwaysByDefault.firing) :=
    (firings_iff policy sayingClock saying echoHost {} w reached "r" new echoes
      [given "line" (text "one")] alwaysByDefault [] slot (mem_of_lookup found) found).2
  obtain ⟨slot, found, -⟩ := firing_slot once_still
  exact ⟨slot, found, settled (worldOf stockedKernel) ⟨stocked .once, rfl⟩ (by decide +kernel) found⟩

end Echo

end Substrate.Protocol.Firings
