/- ID: Substrate/Protocol/Plugged
   source: framework/sdk/rust/src/lib.rs
   digest: No call misses a plugin as long as the claimed units are of modules that have one. -/

import Substrate.Protocol.Orphans

set_option autoImplicit false
set_option relaxedAutoImplicit false

namespace Substrate.Protocol.Plugged

open Substrate.Kernel.Wire
open Substrate.Kernel.Hashing
open Substrate.Kernel.Memory (KernelError)
open Substrate.Framework.Steps
open Substrate.Framework.Storage
open Substrate.Framework.Policy
open Substrate.Framework.Calls
open Substrate.Framework.Drive
open Substrate.Protocol.Orphans
open Substrate.Library.Resumption
open Substrate.Library.Resumption.Act

/-- An error other than a missing plugin. -/
def Other (e : FrameworkError) : Prop := ∀ m, e ≠ .noPlugin m

/-- What a memo store or a storage backend fails with is no missing plugin. -/
def Sound : Exchange Query Answer → Prop
  | ⟨.memoGet _, .error e⟩ => Other e
  | ⟨.memoPut _, .error e⟩ => Other e
  | ⟨.ensureTable _, .error e⟩ => Other e
  | ⟨.writeRows _ _ _ _ _, .error e⟩ => Other e
  | _ => True

/-- A sound answer in which every unit handed out is of a module that has a plugin. -/
def Admitted (host : Host) (e : Exchange Query Answer) : Prop :=
  Sound e ∧ ∀ work ∈ handedBy e, work.module ∈ host.plugins

/-- Under these answers, an act never misses a plugin. -/
abbrev Served {host : Host} {α : Type} (x : HostAct host α) : Prop := Raises (Admitted host) Other x

variable {host : Host} {α β : Type}

theorem ask_served (q : Query) : Served (ask q : HostAct host (Answer q)) :=
  Upholds.ask fun _ _ => nofun

theorem fromKernel_served (answer : Except KernelError α) :
    Served (fromKernel answer : HostAct host α) := by
  cases answer with
  | ok a => exact .pure a
  | error e => exact .throw fun _ => nofun

theorem fromFramework_served {answer : Except FrameworkError α}
    (other : ∀ e, answer = .error e → Other e) : Served (fromFramework answer : HostAct host α) := by
  cases answer with
  | ok a => exact .pure a
  | error e => exact .throw (other e rfl)

theorem called_served {A : Type} {q : Query} (read : Answer q → Except KernelError A) :
    Served (ask q >>= fun answer => fromKernel (read answer) : HostAct host A) :=
  (ask_served q).bind fun _ => fromKernel_served _

theorem checked_served {A : Type} {q : Query} (read : Answer q → Except FrameworkError A)
    (other : ∀ answer e, Admitted host ⟨q, answer⟩ → read answer = .error e → Other e) :
    Served (ask q >>= fun answer => fromFramework (read answer) : HostAct host A) :=
  .asked fun answer admitted => fromFramework_served fun e => other answer e admitted

theorem toVec_served (view : Presentation) : Served (toVec view : HostAct host _) := by
  refine (ask_served _).bind fun answer => ?_
  cases (answer : Except String Bytes) with
  | ok body => exact .pure body
  | error e => exact .throw fun _ => nofun

theorem requirePlugin_served {m : String} (plugged : m ∈ host.plugins) :
    Served (requirePlugin m : HostAct host Unit) := by
  rw [requirePlugin, if_pos plugged]
  exact .pure ()

theorem requireStorage_served (reason : String) :
    Served (requireStorage reason : HostAct host Unit) := by
  unfold requireStorage
  split
  · exact .pure ()
  · exact .throw fun _ => nofun

theorem policyOf_served (runId : String) : Served (policyOf runId : HostAct host _) :=
  .read fun _ => .pure _

theorem ensureTable_served (table : QualifiedTable) :
    Served (ensureTable table : HostAct host Unit) := by
  refine checked_served _ fun answer e admitted refused => ?_
  cases refused
  exact admitted.1

theorem writeRows_served (table : String) (mode : WriteMode) (rows : List StoreRow)
    (primaryKey : List String) (runId : String) :
    Served (writeRows table mode rows primaryKey runId : HostAct host Unit) := by
  refine checked_served _ fun answer e admitted refused => ?_
  cases refused
  exact admitted.1

theorem emitPresentation_served (m : String) (p : Presentation) :
    Served (emitPresentation m p : HostAct host Unit) := by
  refine Raises.bind ?_ fun _ => .modify _
  unfold maybePutUi
  split
  · exact .pure _
  · exact (toVec_served p).bind fun _ => (called_served _).bind fun _ => .pure _

theorem emitOptional_served (m : String) (shown : Option Presentation) :
    Served (emitOptional m shown : HostAct host Unit) := by
  cases shown with
  | none => exact .pure _
  | some p => exact emitPresentation_served m p

private theorem writeModuleRows_served {m : String} (plugged : m ∈ host.plugins) (plan : StoragePlan)
    (runId : String) (step : StepContext) (result : StepResult) :
    Served (writeModuleRows plan runId m step result : HostAct host Unit) := by
  unfold writeModuleRows
  split
  · exact .pure _
  · cases host.storageSchemas.lookup m with
    | none => exact .pure _
    | some schema =>
        refine (requirePlugin_served plugged).bind fun _ => (ask_served _).bind fun write => ?_
        cases (write : Option StoreWrite) with
        | none => exact .pure _
        | some write =>
            rw [writeStore]
            split
            · exact .pure _
            · exact (requireStorage_served _).bind fun _ => writeRows_served _ _ _ _ _

private theorem writeStepLog_served (plan : StoragePlan) (runId m : String) (step : StepContext)
    (result : StepResult) : Served (writeStepLog plan runId m step result : HostAct host Unit) := by
  unfold writeStepLog
  split
  · exact .pure _
  · exact (requireStorage_served _).bind fun _ => (ensureTable_served _).bind fun _ =>
      writeRows_served _ _ _ _ _

theorem applyStepStorage_served {m : String} (plugged : m ∈ host.plugins) (runId : String)
    (step : StepContext) (result : StepResult) :
    Served (applyStepStorage runId m step result : HostAct host Unit) := by
  refine (policyOf_served runId).bind fun policy => ?_
  split
  · exact .pure _
  · split
    · exact .pure _
    · exact (writeModuleRows_served plugged _ _ _ _).bind fun _ => writeStepLog_served _ _ _ _ _

theorem finishRunStorage_served (runId : String) :
    Served (finishRunStorage runId : HostAct host Unit) := by
  refine .read fun books => (Raises.modify _).bind fun _ => Raises.bind (.forM fun table _ => ?_)
    fun _ => .modify _
  exact (ask_served _).bind fun _ => .pure _

theorem loadStep_served (runId : String) (work : WorkItem) :
    Served (loadStep runId work : HostAct host StepContext) := by
  have each : ∀ (inputs : List NamedArtifact) loaded,
      Served (loadInputs inputs loaded : HostAct host _) := by
    intro inputs
    induction inputs with
    | nil => exact fun _ => .pure _
    | cons na rest ih =>
        intro loaded
        unfold loadInputs
        split
        · exact ih loaded
        · exact (called_served _).bind fun _ => ih _
  exact (each _ _).bind fun _ => .pure _

private theorem outputsExist_served (outputs : List NamedArtifact) :
    Served (outputsExist outputs : HostAct host Bool) := by
  induction outputs with
  | nil => exact .pure _
  | cons na rest ih =>
      unfold outputsExist
      split
      · exact .pure _
      · refine (ask_served _).bind fun answer => ?_
        split
        · exact .pure _
        · exact ih

private theorem memoDigest_served (runId m : String) (work : WorkItem) :
    Served (memoDigest runId m work : HostAct host (Option String)) := by
  refine (policyOf_served runId).bind fun policy => ?_
  split
  · exact .pure _
  · split
    · exact .pure _
    · split
      · exact .pure _
      · exact (ask_served _).bind fun _ => .pure _

variable [Sha256]

private theorem lookupMemo_served (m digest : String) (work : WorkItem) :
    Served (lookupMemo m digest work : HostAct host _) := by
  unfold lookupMemo memoGet
  refine (checked_served _ fun answer e admitted refused => ?_).bind fun record => ?_
  · cases refused
    exact admitted.1
  · split
    · exact .pure _
    · refine (outputsExist_served _).bind fun found => ?_
      split
      · exact .pure _
      · split <;> exact .pure _

theorem tryMemoHit_served (runId m : String) (work : WorkItem) :
    Served (tryMemoHit runId m work : HostAct host _) := by
  refine (memoDigest_served runId m work).bind fun digest => ?_
  split
  · exact .pure _
  · split
    · exact .pure _
    · exact lookupMemo_served m _ work

private theorem storeMemoAfterSuccess_served (runId m : String) (work : WorkItem)
    (outputs : List NamedArtifact) :
    Served (storeMemoAfterSuccess runId m work outputs : HostAct host Unit) := by
  refine (memoDigest_served runId m work).bind fun digest => ?_
  split
  · exact .pure _
  · split
    · exact .pure _
    · refine checked_served _ fun answer e admitted refused => ?_
      cases refused
      exact admitted.1

omit [Sha256] in
private theorem commitOutputs_served (runId : String) (work : WorkItem)
    (outputs : List NamedArtifact) :
    Served (commitOutputs runId work outputs : HostAct host Unit) :=
  (called_served _).bind fun _ => .pure _

omit [Sha256] in
theorem commitMemoHit_served {m : String} (plugged : m ∈ host.plugins) (runId : String)
    (work : WorkItem) (step : StepContext) (key : String) (outputs : List NamedArtifact)
    (sourceRun : String) :
    Served (commitMemoHit runId m work step key outputs sourceRun : HostAct host Unit) :=
  (emitPresentation_served _ _).bind fun _ => (commitOutputs_served _ _ _).bind fun _ =>
    (Raises.modify _).bind fun _ => applyStepStorage_served plugged _ _ _

omit [Sha256] in
private theorem putOutputs_served (m : String) (outputs : List PortBody) :
    Served (putOutputs m outputs : HostAct host (List NamedArtifact)) := by
  induction outputs with
  | nil => exact .pure _
  | cons out rest ih => exact (called_served _).bind fun _ => ih.bind fun _ => .pure _

private theorem commitStepSuccess_served {m : String} (plugged : m ∈ host.plugins) (runId : String)
    (work : WorkItem) (step : StepContext) (output : StepOutput) :
    Served (commitStepSuccess runId m work step output : HostAct host Unit) :=
  (putOutputs_served m _).bind fun _ => (requirePlugin_served plugged).bind fun _ =>
    (ask_served _).bind fun _ => (emitOptional_served m _).bind fun _ =>
      (commitOutputs_served _ _ _).bind fun _ => (storeMemoAfterSuccess_served _ _ _ _).bind fun _ =>
        applyStepStorage_served plugged _ _ _

omit [Sha256] in
private theorem failStep_served {m : String} (plugged : m ∈ host.plugins) (runId : String)
    (work : WorkItem) (step : StepContext) (e : FrameworkError) :
    Served (failStep runId m work step e : HostAct host Unit) :=
  (requirePlugin_served plugged).bind fun _ => (ask_served _).bind fun _ =>
    (Raises.attempt _).bind fun _ => (Raises.attempt _).bind fun _ =>
      (ask_served _).bind fun _ => .throw fun _ => nofun

theorem settleStep_served {work : WorkItem} (plugged : work.module ∈ host.plugins) (runId : String)
    (executed : Executed) : Served (settleStep runId work executed : HostAct host Unit) := by
  unfold settleStep
  split
  · exact commitStepSuccess_served plugged _ _ _ _
  · exact failStep_served plugged _ _ _ _

omit [Sha256] in
private theorem executeStep_served (m : String) (step : StepContext) :
    Served (executeStep m step : HostAct host Executed) :=
  (ask_served _).bind fun _ => .pure _

theorem finishWorkUnit_served {work : WorkItem} (plugged : work.module ∈ host.plugins)
    (runId : String) : Served (finishWorkUnit runId work : HostAct host Unit) := by
  refine (loadStep_served _ _).bind fun step => (tryMemoHit_served _ _ _).bind fun hit => ?_
  split
  · exact commitMemoHit_served plugged _ _ _ _ _ _
  · exact (requirePlugin_served plugged).bind fun _ => (ask_served _).bind fun _ =>
      (emitOptional_served _ _).bind fun _ => (executeStep_served _ _).bind fun executed =>
        (Raises.modify _).bind fun _ =>
          (Raises.forM fun _ _ => emitPresentation_served _ _).bind fun _ =>
            settleStep_served plugged _ executed

theorem settleUnit_served {outcome : Deferred × Executed}
    (plugged : outcome.1.work.module ∈ host.plugins) (runId : String) :
    Served (settleUnit runId outcome : HostAct host Unit) :=
  (Raises.modify _).bind fun _ => (emitOptional_served _ _).bind fun _ =>
    (Raises.forM fun _ _ => emitPresentation_served _ _).bind fun _ =>
      settleStep_served plugged _ outcome.2

private theorem prepareUnits_served {items : List WorkItem}
    (plugged : ∀ work ∈ items, work.module ∈ host.plugins) (runId : String) :
    Served (prepareUnits runId items : HostAct host _) := by
  induction items with
  | nil => exact .pure _
  | cons work rest ih =>
      obtain ⟨first, others⟩ := List.forall_mem_cons.mp plugged
      refine (tryMemoHit_served _ _ _).bind fun hit => ?_
      split
      · exact (loadStep_served _ _).bind fun _ =>
          (commitMemoHit_served first _ _ _ _ _ _).bind fun _ => ih others
      · exact (requirePlugin_served first).bind fun _ => (loadStep_served _ _).bind fun _ =>
          (ask_served _).bind fun _ => (ih others).bind fun _ => .pure _

omit [Sha256] in
private theorem executeUnits_served (units : List Deferred) :
    Served (executeUnits units : HostAct host _) := by
  induction units with
  | nil => exact .pure _
  | cons unit rest ih => exact (executeStep_served _ _).bind fun _ => ih.bind fun _ => .pure _

theorem finishWorkUnitsParallel_served {items : List WorkItem}
    (plugged : ∀ work ∈ items, work.module ∈ host.plugins) (runId : String) :
    Served (finishWorkUnitsParallel runId items : HostAct host Unit) := by
  have prepared : Upholds (fun _ r => ∀ units, r = .ok units →
      ∀ unit ∈ units, unit.work.module ∈ host.plugins)
      (prepareUnits runId items : HostAct host _) := by
    refine (prepareUnits_prepares runId items).mono fun told r held units same => ?_
    rw [same] at held
    obtain ⟨hits, -, -, pluggeds⟩ := held
    exact pluggeds
  refine (prepareUnits_served plugged runId).bindKnown prepared fun units known => ?_
  refine (executeUnits_served units).bindKnown
    ((executeUnits_keeps units).mono fun _ _ held => held.2) fun outcomes same => ?_
  refine .forM fun outcome member => settleUnit_served (known units rfl _ ?_) runId
  rw [← same outcomes rfl]
  exact List.mem_map_of_mem member

theorem driveClaimWave_served (runId : String) (onePass : Bool) :
    Served (driveClaimWave runId onePass : HostAct host Bool) := by
  refine (policyOf_served runId).bind fun policy => ?_
  unfold claimReady
  rw [bind_assoc]
  refine .asked fun answer admitted => ?_
  cases answer with
  | error e => exact .throw fun _ => nofun
  | ok resp =>
      have plugged : ∀ work ∈ resp.1.items, work.module ∈ host.plugins := admitted.2
      show Served (if resp.1.items = [] then pure false else _)
      split
      · exact .pure _
      · split
        · exact (Raises.forM fun work member => finishWorkUnit_served (plugged work member) _).bind
            fun _ => .pure _
        · exact (finishWorkUnitsParallel_served plugged _).bind fun _ => .pure _

theorem driveUntilIdle_served (fuel : Nat) (runId : String) :
    Served (driveUntilIdle runId fuel : HostAct host (Option Run)) := by
  induction fuel with
  | zero => exact .pure _
  | succ fuel ih =>
      refine Raises.bind (called_served _) fun run => ?_
      split
      · exact .pure _
      · refine (driveClaimWave_served _ _).bind fun found => ?_
        split
        · exact ih
        · exact Raises.bind (called_served _) fun _ => .pure _

theorem driveOnePass_served (runId : String) :
    Served (driveOnePass runId : HostAct host (Option Run)) := by
  refine Raises.bind (called_served _) fun run => ?_
  split
  · exact .pure _
  · exact (driveClaimWave_served _ _).bind fun _ => Raises.bind (called_served _) fun _ => .pure _

omit [Sha256] in
private theorem closeRun_served (runId : String) (run : Option Run) :
    Served (closeRun runId run : HostAct host (Option Run)) := by
  cases run with
  | none => exact .pure _
  | some run =>
      rw [closeRun]
      split
      · exact (finishRunStorage_served _).bind fun _ => .pure _
      · exact .pure _

theorem driveWith_served (fuel : Nat) (runId : String) (plan : DrivePlan) :
    Served (driveWith fuel runId plan : HostAct host (Option Run)) := by
  rw [driveWith_eq]
  cases plan with
  | onePass => exact (driveOnePass_served _).bind (closeRun_served _)
  | untilIdle => exact (driveUntilIdle_served fuel _).bind (closeRun_served _)
  | untilIdleThenWait => exact (driveUntilIdle_served fuel _).bind (closeRun_served _)

theorem drive_served (fuel : Nat) (runId : String) :
    Served (drive fuel runId : HostAct host (Option Run)) :=
  (policyOf_served runId).bind fun _ => driveWith_served fuel runId _

end Substrate.Protocol.Plugged
