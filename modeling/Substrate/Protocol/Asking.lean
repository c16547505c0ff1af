/- ID: Substrate/Protocol/Asking
   digest: What the calls of a host ask of its environment, given what its books say of their run. -/

import Substrate.Framework.Sessions

set_option autoImplicit false
set_option relaxedAutoImplicit false

namespace Substrate.Protocol.Asking

open Substrate.Kernel.Wire
open Substrate.Kernel.Hashing
open Substrate.Kernel.Memory (KernelError)
open Substrate.Framework.Steps
open Substrate.Framework.Storage
open Substrate.Framework.Policy
open Substrate.Framework.Cut
open Substrate.Framework.Calls
open Substrate.Framework.Drive
open Substrate.Framework.Pipeline
open Substrate.Framework.Sessions
open Substrate.Library.Resumption
open Substrate.Library.Resumption.Act

/-- The physical table that a question is about. -/
def tableOf : Query → Option String
  | .ensureTable table => some table.physicalName
  | .writeRows table _ _ _ _ => some table
  | .dropTable table => some table
  | _ => none

/-- A question that changes no run and no table. -/
def plain : Query → Bool
  | .startRun _ _ | .injectInput _ _ | .cancelRun _ _ | .claimReady _ _ | .commit _ _
  | .failWork _ _ | .ensureTable _ | .writeRows _ _ _ _ _ | .dropTable _ => false
  | _ => true

theorem tableOf_plain {q : Query} (asked : plain q = true) : tableOf q = none := by
  cases q <;> first | rfl | cases asked

variable {host : Host}

/-- What the steps of a run may exchange: what changes no run and no table, the commits and failures
of the run, and the tables that its policy has for the given modules. `I` is what is known of the
books, `R` of the run's policy. -/
structure Allows (host : Host) (runId : String) (module : String → Prop) (I : Books host → Prop)
    (R : Backed host → Prop) (E : Exchange Query Answer → Prop) : Prop where
  policy : ∀ books, I books → ∀ p, books.runPolicies.lookup runId = some p → R p
  noted : ∀ books events executes hits, I books →
    I { books with stepEvents := events, executeCount := executes, memoHitCount := hits }
  quiet : ∀ q, plain q = true → ∀ answer, E ⟨q, answer⟩
  commits : ∀ submitted, submitted.runId = runId → ∀ answer, E ⟨.commit submitted host.ctx, answer⟩
  fails : ∀ req, req.runId = runId → ∀ answer, E ⟨.failWork req host.ctx, answer⟩
  writes : ∀ p, R p → p.1.storage.moduleTables = true → ∀ m, module m → ∀ schema,
    host.storageSchemas.lookup m = some schema → ∀ mode rows answer,
      E ⟨.writeRows (qualifyTable p.1.storage.mode runId m schema).physicalName mode rows
        schema.primaryKey runId, answer⟩
  logs : ∀ p, R p → p.1.storage.stepLog = true →
    (∀ answer, E ⟨.ensureTable (stepLogQualified p.1.storage.mode runId), answer⟩) ∧
      ∀ rows answer, E ⟨.writeRows (stepLogQualified p.1.storage.mode runId).physicalName .append
        rows [] runId, answer⟩

theorem Allows.mono {runId : String} {module : String → Prop} {I : Books host → Prop}
    {R : Backed host → Prop} {E E' : Exchange Query Answer → Prop}
    (allows : Allows host runId module I R E) (weaker : ∀ e, E e → E' e) :
    Allows host runId module I R E' where
  policy := allows.policy
  noted := allows.noted
  quiet q asked answer := weaker _ (allows.quiet q asked answer)
  commits submitted here answer := weaker _ (allows.commits submitted here answer)
  fails req here answer := weaker _ (allows.fails req here answer)
  writes p known tables m written schema declared mode rows answer :=
    weaker _ (allows.writes p known tables m written schema declared mode rows answer)
  logs p known logged :=
    ⟨fun answer => weaker _ ((allows.logs p known logged).1 answer),
      fun rows answer => weaker _ ((allows.logs p known logged).2 rows answer)⟩

/-- What the calls of a host may exchange about their run besides its steps. -/
structure Manages (host : Host) (runId : String) (E : Exchange Query Answer → Prop) : Prop where
  claims : ∀ req, req.runId = runId → ∀ answer, E ⟨.claimReady req host.ctx, answer⟩
  starts : ∀ req, req.id = runId → ∀ answer, E ⟨.startRun req host.ctx, answer⟩
  injects : ∀ req, req.runId = runId → ∀ answer, E ⟨.injectInput req host.ctx, answer⟩
  cancels : ∀ answer, E ⟨.cancelRun ⟨runId⟩ host.ctx, answer⟩

/-- What the end of a run may exchange besides: the tables that its books list. -/
structure Closes (runId : String) (I : Books host → Prop) (E : Exchange Query Answer → Prop) :
    Prop where
  emptied : ∀ books, I books → I { books with runTables := books.runTables.erase runId }
  forgot : ∀ books, I books → I { books with runPolicies := books.runPolicies.erase runId }
  drops : ∀ books, I books → ∀ p, books.runPolicies.lookup runId = some p →
    p.1.storage.retention = .dropOnEnd → p.1.storage.mode = .perRun →
      ∀ table ∈ (books.runTables.lookup runId).getD [], ∀ answer, E ⟨.dropTable table, answer⟩

section Rules

variable {runId : String} {module : String → Prop} {I : Books host → Prop} {R : Backed host → Prop}
  {E : Exchange Query Answer → Prop} {α : Type} (allows : Allows host runId module I R E)

include allows

theorem ask_keeps {q : Query} (quiet : plain q = true) :
    Keeps I E (ask q : HostAct host (Answer q)) :=
  .ask fun answer => allows.quiet q quiet answer

omit allows in
theorem fromKernel_keeps (answer : Except KernelError α) :
    Keeps I E (fromKernel answer : HostAct host α) := by
  cases answer with
  | ok a => exact .pure a
  | error e => exact .throw _

omit allows in
theorem fromFramework_keeps (answer : Except FrameworkError α) :
    Keeps I E (fromFramework answer : HostAct host α) := by
  cases answer with
  | ok a => exact .pure a
  | error e => exact .throw _

omit allows in
theorem checked_keeps {answer : Except FrameworkError α} {β : Type} {f : α → HostAct host β}
    (next : ∀ a, answer = .ok a → Keeps I E (f a)) :
    Keeps I E (fromFramework answer >>= f : HostAct host β) := by
  cases answer with
  | ok a => exact next a rfl
  | error e => exact .throw e

theorem getRun_keeps (id : String) : Keeps I E (getRun id : HostAct host Run) :=
  (ask_keeps allows rfl).bind fun _ => fromKernel_keeps _

omit allows in
theorem called_keeps {A : Type} {q : Query} {read : Answer q → Except KernelError A}
    (allowed : ∀ answer, E ⟨q, answer⟩) :
    Keeps I E (ask q >>= fun answer => fromKernel (read answer) : HostAct host A) :=
  (Keeps.ask allowed).bind fun _ => fromKernel_keeps _

theorem getArtifact_keeps (ref : ArtifactRef) :
    Keeps I E (getArtifact ref : HostAct host Artifact) :=
  (ask_keeps allows rfl).bind fun _ => fromKernel_keeps _

theorem putArtifact_keeps (artifact : Artifact) :
    Keeps I E (putArtifact artifact : HostAct host ArtifactRef) :=
  (ask_keeps allows rfl).bind fun _ => fromKernel_keeps _

theorem toVec_keeps (view : Presentation) : Keeps I E (toVec view : HostAct host Bytes) := by
  refine (ask_keeps allows rfl).bind fun answer => ?_
  cases (answer : Except String Bytes) with
  | ok body => exact .pure body
  | error e => exact .throw _

omit allows in
theorem requirePlugin_keeps (m : String) : Keeps I E (requirePlugin m : HostAct host Unit) := by
  unfold requirePlugin
  split
  · exact .pure _
  · exact .throw _

omit allows in
theorem requireStorage_keeps (reason : String) :
    Keeps I E (requireStorage reason : HostAct host Unit) := by
  unfold requireStorage
  split
  · exact .pure _
  · exact .throw _

theorem policyOf_keeps {f : Option (Backed host) → HostAct host α}
    (next : ∀ policy, (∀ p, policy = some p → R p) → Keeps I E (f policy)) :
    Keeps I E (policyOf runId >>= f) := by
  unfold policyOf
  rw [bind_assoc]
  refine .read fun books known => ?_
  rw [pure_bind]
  exact next _ (allows.policy books known)

theorem emitPresentation_keeps (m : String) (p : Presentation) :
    Keeps I E (emitPresentation m p : HostAct host Unit) := by
  refine Keeps.bind ?_ fun _ => .modify fun books known => allows.noted books _ _ _ known
  unfold maybePutUi
  split
  · exact .pure _
  · exact (toVec_keeps allows p).bind fun _ => (putArtifact_keeps allows _).bind fun _ => .pure _

theorem emitOptional_keeps (m : String) (shown : Option Presentation) :
    Keeps I E (emitOptional m shown : HostAct host Unit) := by
  cases shown with
  | none => exact .pure _
  | some p => exact emitPresentation_keeps allows m p

private theorem writeModuleRows_keeps {p : Backed host} (known : R p) {m : String}
    (written : module m) (step : StepContext) (result : StepResult) :
    Keeps I E (writeModuleRows p.1.storage runId m step result : HostAct host Unit) := by
  unfold writeModuleRows
  split
  · exact .pure _
  · rename_i tables
    cases found : host.storageSchemas.lookup m with
    | none => exact .pure _
    | some schema =>
        refine (requirePlugin_keeps m).bind fun _ => (ask_keeps allows rfl).bind fun write => ?_
        cases (write : Option StoreWrite) with
        | none => exact .pure _
        | some write =>
            rw [writeStore]
            split
            · exact .pure _
            · refine (requireStorage_keeps _).bind fun _ => Keeps.bind (.ask ?_) fun _ =>
                fromFramework_keeps _
              exact allows.writes p known (not_not.mp tables) m written schema found _ _

private theorem writeStepLog_keeps {p : Backed host} (known : R p) (m : String)
    (step : StepContext) (result : StepResult) :
    Keeps I E (writeStepLog p.1.storage runId m step result : HostAct host Unit) := by
  unfold writeStepLog
  split
  · exact .pure _
  · rename_i logged
    obtain ⟨ensured, written⟩ := allows.logs p known (not_not.mp logged)
    exact (requireStorage_keeps _).bind fun _ =>
      (Keeps.bind (.ask ensured) fun _ => fromFramework_keeps _).bind fun _ =>
        Keeps.bind (.ask (written _)) fun _ => fromFramework_keeps _

theorem applyStepStorage_keeps {m : String} (written : module m) (step : StepContext)
    (result : StepResult) :
    Keeps I E (applyStepStorage runId m step result : HostAct host Unit) := by
  refine policyOf_keeps allows fun policy known => ?_
  cases policy with
  | none => exact .pure _
  | some p =>
      dsimp only
      split
      · exact .pure _
      · exact (writeModuleRows_keeps allows (known p rfl) written _ _).bind fun _ =>
          writeStepLog_keeps allows (known p rfl) _ _ _

omit allows in
theorem finishRunStorage_keeps (closes : Closes runId I E) :
    Keeps I E (finishRunStorage runId : HostAct host Unit) := by
  refine .read fun books known => ?_
  refine Keeps.bind (.modify closes.emptied) fun _ => ?_
  refine Keeps.bind (.forM fun table member => ?_) fun _ => .modify closes.forgot
  refine Keeps.bind (.ask fun answer => ?_) fun _ => .pure _
  split_ifs at member with ends
  · obtain ⟨retention, mode, -⟩ := ends
    cases found : books.runPolicies.lookup runId with
    | none =>
        rw [found] at retention
        cases retention
    | some p =>
        rw [found] at retention mode
        exact closes.drops books known p found retention mode table member answer
  · cases member

theorem loadStep_keeps (work : WorkItem) :
    Keeps I E (loadStep runId work : HostAct host StepContext) := by
  have each : ∀ (inputs : List NamedArtifact) loaded,
      Keeps I E (loadInputs inputs loaded : HostAct host _) := by
    intro inputs
    induction inputs with
    | nil => exact fun _ => .pure _
    | cons na rest ih =>
        intro loaded
        unfold loadInputs
        split
        · exact ih loaded
        · exact (getArtifact_keeps allows _).bind fun _ => ih _
  exact (each _ _).bind fun _ => .pure _

private theorem outputsExist_keeps (outputs : List NamedArtifact) :
    Keeps I E (outputsExist outputs : HostAct host Bool) := by
  induction outputs with
  | nil => exact .pure _
  | cons na rest ih =>
      unfold outputsExist
      split
      · exact .pure _
      · refine (ask_keeps allows rfl).bind fun answer => ?_
        split
        · exact .pure _
        · exact ih

private theorem memoDigest_keeps (m : String) (work : WorkItem) :
    Keeps I E (memoDigest runId m work : HostAct host (Option String)) := by
  refine policyOf_keeps allows fun policy _ => ?_
  split
  · exact .pure _
  · split
    · exact .pure _
    · split
      · exact .pure _
      · exact (ask_keeps allows rfl).bind fun _ => .pure _

variable [Sha256]

private theorem lookupMemo_keeps (m digest : String) (work : WorkItem) :
    Keeps I E (lookupMemo m digest work : HostAct host _) := by
  unfold lookupMemo memoGet
  refine ((ask_keeps allows rfl).bind fun _ => fromFramework_keeps _).bind fun record => ?_
  split
  · exact .pure _
  · refine (outputsExist_keeps allows _).bind fun found => ?_
    split
    · exact .pure _
    · split <;> exact .pure _

theorem tryMemoHit_keeps (m : String) (work : WorkItem) :
    Keeps I E (tryMemoHit runId m work : HostAct host _) := by
  refine (memoDigest_keeps allows m work).bind fun digest => ?_
  split
  · exact .pure _
  · split
    · exact .pure _
    · exact lookupMemo_keeps allows m _ work

private theorem storeMemoAfterSuccess_keeps (m : String) (work : WorkItem)
    (outputs : List NamedArtifact) :
    Keeps I E (storeMemoAfterSuccess runId m work outputs : HostAct host Unit) := by
  refine (memoDigest_keeps allows m work).bind fun digest => ?_
  split
  · exact .pure _
  · split
    · exact .pure _
    · exact (ask_keeps allows rfl).bind fun _ => fromFramework_keeps _

omit [Sha256] in
theorem commitOutputs_keeps (work : WorkItem) (outputs : List NamedArtifact) :
    Keeps I E (commitOutputs runId work outputs : HostAct host Unit) :=
  (called_keeps (allows.commits _ rfl)).bind fun _ => .pure _

omit [Sha256] in
theorem commitMemoHit_keeps {m : String} (written : module m) (work : WorkItem)
    (step : StepContext) (key : String) (outputs : List NamedArtifact) (sourceRun : String) :
    Keeps I E (commitMemoHit runId m work step key outputs sourceRun : HostAct host Unit) :=
  (emitPresentation_keeps allows _ _).bind fun _ =>
    (commitOutputs_keeps allows work outputs).bind fun _ =>
      (Keeps.modify fun books known => allows.noted books _ _ _ known).bind fun _ =>
        applyStepStorage_keeps allows written _ _

omit [Sha256] in
private theorem putOutputs_keeps (m : String) (outputs : List PortBody) :
    Keeps I E (putOutputs m outputs : HostAct host (List NamedArtifact)) := by
  induction outputs with
  | nil => exact .pure _
  | cons out rest ih =>
      exact (putArtifact_keeps allows _).bind fun _ => ih.bind fun _ => .pure _

private theorem commitStepSuccess_keeps {m : String} (written : module m) (work : WorkItem)
    (step : StepContext) (output : StepOutput) :
    Keeps I E (commitStepSuccess runId m work step output : HostAct host Unit) :=
  (putOutputs_keeps allows m _).bind fun outputs => (requirePlugin_keeps m).bind fun _ =>
    (ask_keeps allows rfl).bind fun _ => (emitOptional_keeps allows m _).bind fun _ =>
      (commitOutputs_keeps allows work outputs).bind fun _ =>
        (storeMemoAfterSuccess_keeps allows m work outputs).bind fun _ =>
          applyStepStorage_keeps allows written _ _

omit [Sha256] in
private theorem failStep_keeps {m : String} (written : module m) (work : WorkItem)
    (step : StepContext) (e : FrameworkError) :
    Keeps I E (failStep runId m work step e : HostAct host Unit) :=
  (requirePlugin_keeps m).bind fun _ => (ask_keeps allows rfl).bind fun _ =>
    (emitPresentation_keeps allows m _).attempt.bind fun _ =>
      (applyStepStorage_keeps allows written _ _).attempt.bind fun _ =>
        (Keeps.ask (allows.fails _ rfl)).bind fun _ => .throw _

theorem settleStep_keeps {work : WorkItem} (written : module work.module) (executed : Executed) :
    Keeps I E (settleStep runId work executed : HostAct host Unit) := by
  unfold settleStep
  split
  · exact commitStepSuccess_keeps allows written work _ _
  · exact failStep_keeps allows written work _ _

omit [Sha256] in
private theorem executeStep_keeps (m : String) (step : StepContext) :
    Keeps I E (executeStep m step : HostAct host Executed) :=
  (ask_keeps allows rfl).bind fun _ => .pure _

omit [Sha256] in
private theorem countExecute_keeps : Keeps I E (countExecute : HostAct host Unit) :=
  .modify fun books known => allows.noted books _ _ _ known

theorem finishWorkUnit_keeps {work : WorkItem} (written : module work.module) :
    Keeps I E (finishWorkUnit runId work : HostAct host Unit) := by
  refine (loadStep_keeps allows work).bind fun step =>
    (tryMemoHit_keeps allows _ _).bind fun hit => ?_
  split
  · exact commitMemoHit_keeps allows written work step _ _ _
  · exact (requirePlugin_keeps _).bind fun _ => (ask_keeps allows rfl).bind fun _ =>
      (emitOptional_keeps allows _ _).bind fun _ => (executeStep_keeps allows _ _).bind fun executed =>
        (countExecute_keeps allows).bind fun _ =>
          (Keeps.forM fun _ _ => emitPresentation_keeps allows _ _).bind fun _ =>
            settleStep_keeps allows written executed

theorem settleUnit_keeps {outcome : Deferred × Executed} (written : module outcome.1.work.module) :
    Keeps I E (settleUnit runId outcome : HostAct host Unit) :=
  (countExecute_keeps allows).bind fun _ => (emitOptional_keeps allows _ _).bind fun _ =>
    (Keeps.forM fun _ _ => emitPresentation_keeps allows _ _).bind fun _ =>
      settleStep_keeps allows written outcome.2

section Waves

variable (every : ∀ m, module m)

include every

theorem finishWorkUnitsParallel_keeps (items : List WorkItem) :
    Keeps I E (finishWorkUnitsParallel runId items : HostAct host Unit) := by
  have prepared : Keeps I E (prepareUnits runId items : HostAct host _) := by
    induction items with
    | nil => exact .pure _
    | cons work rest ih =>
        refine (tryMemoHit_keeps allows _ _).bind fun hit => ?_
        split
        · exact (loadStep_keeps allows _).bind fun _ =>
            (commitMemoHit_keeps allows (every _) _ _ _ _ _).bind fun _ => ih
        · exact (requirePlugin_keeps _).bind fun _ => (loadStep_keeps allows _).bind fun _ =>
            (ask_keeps allows rfl).bind fun _ => ih.bind fun _ => .pure _
  have executed : ∀ units, Keeps I E (executeUnits units : HostAct host _) := by
    intro units
    induction units with
    | nil => exact .pure _
    | cons unit rest ih =>
        exact (executeStep_keeps allows _ _).bind fun _ => ih.bind fun _ => .pure _
  exact prepared.bind fun _ => (executed _).bind fun _ =>
    .forM fun _ _ => settleUnit_keeps allows (every _)

theorem tryStep_keeps
    (claims : ∀ req, req.runId = runId → ∀ answer, E ⟨.claimReady req host.ctx, answer⟩)
    (m : String) : Keeps I E (tryStep runId m : HostAct host Bool) := by
  refine (called_keeps (claims _ rfl)).bind fun resp => ?_
  split
  · exact .pure _
  · exact (finishWorkUnit_keeps allows (every _)).bind fun _ => .pure _

omit [Sha256] allows every in
theorem waves_claim
    (claims : ∀ req, req.runId = runId → ∀ answer, E ⟨.claimReady req host.ctx, answer⟩)
    (books : Books host) (_ : I books) (batch : UInt32)
    (answer : Answer (.claimReady (waveClaim host runId
      ((books.runPolicies.lookup runId).map (·.1)) batch) host.ctx)) :
    E ⟨.claimReady (waveClaim host runId ((books.runPolicies.lookup runId).map (·.1)) batch)
      host.ctx, answer⟩ := by
  refine claims _ ?_ answer
  unfold waveClaim
  split <;> rfl

variable (claims : ∀ books, I books → ∀ batch answer,
  E ⟨.claimReady (waveClaim host runId ((books.runPolicies.lookup runId).map (·.1)) batch)
    host.ctx, answer⟩)

include claims

theorem driveClaimWave_keeps (onePass : Bool) :
    Keeps I E (driveClaimWave runId onePass : HostAct host Bool) := by
  unfold driveClaimWave policyOf
  rw [bind_assoc]
  refine .read fun books known => ?_
  rw [pure_bind]
  refine (called_keeps (claims books known _)).bind fun resp => ?_
  split
  · exact .pure _
  · split
    · exact (Keeps.forM fun _ _ => finishWorkUnit_keeps allows (every _)).bind fun _ => .pure _
    · exact (finishWorkUnitsParallel_keeps allows every _).bind fun _ => .pure _

theorem driveUntilIdle_keeps (fuel : Nat) :
    Keeps I E (driveUntilIdle runId fuel : HostAct host (Option Run)) := by
  induction fuel with
  | zero => exact .pure _
  | succ fuel ih =>
      refine (getRun_keeps allows runId).bind fun run => ?_
      split
      · exact .pure _
      · refine (driveClaimWave_keeps allows every claims false).bind fun found => ?_
        split
        · exact ih
        · exact (getRun_keeps allows runId).bind fun _ => .pure _

theorem driveOnePass_keeps :
    Keeps I E (driveOnePass runId : HostAct host (Option Run)) := by
  refine (getRun_keeps allows runId).bind fun run => ?_
  split
  · exact .pure _
  · exact (driveClaimWave_keeps allows every claims true).bind fun _ =>
      (getRun_keeps allows runId).bind fun _ => .pure _

theorem driveWaves_keeps (fuel : Nat) (plan : DrivePlan) :
    Keeps I E (driveWaves fuel runId plan : HostAct host (Option Run)) := by
  cases plan with
  | onePass => exact driveOnePass_keeps allows every claims
  | untilIdle => exact driveUntilIdle_keeps allows every claims fuel
  | untilIdleThenWait => exact driveUntilIdle_keeps allows every claims fuel

omit [Sha256] allows every claims in
theorem closeRun_keeps (closes : Closes runId I E) (run : Option Run) :
    Keeps I E (closeRun runId run : HostAct host (Option Run)) := by
  cases run with
  | none => exact .pure _
  | some run =>
      rw [closeRun]
      split
      · exact (finishRunStorage_keeps closes).bind fun _ => .pure _
      · exact .pure _

theorem driveWith_keeps (closes : Closes runId I E) (fuel : Nat) (plan : DrivePlan) :
    Keeps I E (driveWith fuel runId plan : HostAct host (Option Run)) := by
  rw [driveWith_eq]
  exact (driveWaves_keeps allows every claims fuel plan).bind (closeRun_keeps closes)

theorem drive_keeps (closes : Closes runId I E) (fuel : Nat) :
    Keeps I E (drive fuel runId : HostAct host (Option Run)) :=
  policyOf_keeps allows fun _ _ => driveWith_keeps allows every claims closes fuel _

theorem inject_keeps
    (injects : ∀ req, req.runId = runId → ∀ answer, E ⟨.injectInput req host.ctx, answer⟩)
    (closes : Closes runId I E) (fuel : Nat) (input : NamedArtifact) (after : DriveAfter) :
    Keeps I E (inject fuel runId input after : HostAct host (Option Run)) := by
  refine (called_keeps (injects _ rfl)).bind fun run => ?_
  cases after with
  | no => exact .pure _
  | untilIdle => exact driveWith_keeps allows every claims closes fuel _
  | onePass => exact driveWith_keeps allows every claims closes fuel _

end Waves

omit [Sha256] allows in
theorem cancel_keeps (cancels : ∀ answer, E ⟨.cancelRun ⟨runId⟩ host.ctx, answer⟩)
    (closes : Closes runId I E) : Keeps I E (cancel runId : HostAct host Run) :=
  (called_keeps cancels).bind fun _ => (finishRunStorage_keeps closes).bind fun _ => .pure _

end Rules

/-- The physical tables that a plan needs. -/
def neededNames (host : Host) (plan : StoragePlan) (runId : String) : List String :=
  (neededTables host plan runId).map (·.physicalName)

/-- What a start under a policy may exchange besides, and that its books may be kept. -/
structure Registers (runId : String) (p : Backed host) (I : Books host → Prop)
    (E : Exchange Query Answer → Prop) : Prop where
  ensured : p.1.storage.enabled = true → ∀ table ∈ neededTables host p.1.storage runId,
    ∀ answer, E ⟨.ensureTable table, answer⟩
  listed : ∀ books, I books → p.1.storage.enabled = true →
    I { books with runTables := books.runTables.insert runId (neededNames host p.1.storage runId) }
  registered : ∀ books, I books →
    I { books with runPolicies := books.runPolicies.insert runId p }

/-- The policy that a call starts a run under. -/
def startsUnder : HostCall → Option FrameworkPolicy
  | .startPipeline _ _ _ policy => some policy
  | .resumeAfter _ _ afterNode policy => some { policy with nodes := .after afterNode }
  | _ => none

section Starting

variable {runId : String} {module : String → Prop} {I : Books host → Prop} {R : Backed host → Prop}
  {E : Exchange Query Answer → Prop} (allows : Allows host runId module I R E)

theorem ensureRunStorage_keeps {p : Backed host} (registers : Registers runId p I E) :
    Keeps I E (ensureRunStorage runId p.1.storage : HostAct host Unit) := by
  unfold ensureRunStorage
  split
  · exact .pure _
  · rename_i enabled
    have enabled := not_not.mp enabled
    refine (requireStorage_keeps _).bind fun _ => Keeps.bind (.forM fun table member => ?_) fun _ => ?_
    · exact Keeps.bind (.ask (registers.ensured enabled table member)) fun _ =>
        fromFramework_keeps _
    · split
      · exact .pure _
      · exact .modify fun books known => registers.listed books known enabled

include allows

theorem startPipeline_keeps {assembly : Assembly} {inputs : List NamedArtifact}
    {policy : FrameworkPolicy}
    (starts : ∀ cut, materializeCut assembly policy.nodes = .ok cut →
      ∀ answer, E ⟨.startRun (pipelineRequest runId cut.assembly inputs policy) host.ctx, answer⟩)
    (registers : ∀ p : Backed host, p.1 = policy → Registers runId p I E) :
    Keeps I E (startPipeline runId assembly inputs policy : HostAct host Run) := by
  unfold startPipeline
  split
  · exact .throw _
  · split
    · exact .throw _
    · refine policyOf_keeps allows fun registered _ => ?_
      split
      · exact .throw _
      · split
        · rename_i backed
          split
          · exact .throw _
          · have registers := registers ⟨policy, backed⟩ rfl
            refine checked_keeps fun cut cuts => (fromFramework_keeps _).bind fun _ =>
              (Keeps.forM fun _ _ => emitPresentation_keeps allows _ _).bind fun _ =>
                (called_keeps (starts cut cuts)).bind fun run =>
                  (ensureRunStorage_keeps registers).bind fun _ =>
                    (Keeps.modify registers.registered).bind fun _ => .pure _
        · exact .throw _

theorem resumeAfter_keeps
    (starts : ∀ req, req.id = runId → ∀ answer, E ⟨.startRun req host.ctx, answer⟩)
    {policy : FrameworkPolicy} {afterNode : String}
    (registers : ∀ p : Backed host, p.1 = { policy with nodes := .after afterNode } →
      Registers runId p I E) (priorRunId : String) :
    Keeps I E (resumeAfter runId priorRunId afterNode policy : HostAct host Run) :=
  (getRun_keeps allows _).bind fun _ => (fromFramework_keeps _).bind fun _ =>
    Keeps.bind ((Keeps.bind (ask_keeps allows rfl) fun _ => fromKernel_keeps _).bind fun _ =>
      fromFramework_keeps _) fun _ => startPipeline_keeps allows (fun _ _ => starts _ rfl) registers

variable [Sha256]

theorem perform_keeps (closes : Closes runId I E) {call : HostCall} (here : call.runId = runId)
    (every : ∀ m, module m) (manages : Manages host runId E)
    (registers : ∀ p : Backed host, startsUnder call = some p.1 → Registers runId p I E) :
    Keeps I E (call.perform : HostAct host Unit) := by
  subst here
  cases call with
  | startPipeline runId assembly inputs policy =>
      exact (startPipeline_keeps allows (fun _ _ => manages.starts _ rfl)
        fun p same => registers p (congrArg some same.symm)).bind fun _ => .pure _
  | resumeAfter newRunId priorRunId afterNode policy =>
      exact (resumeAfter_keeps allows manages.starts
        (fun p same => registers p (congrArg some same.symm)) priorRunId).bind fun _ => .pure _
  | drive fuel runId =>
      exact (drive_keeps allows every (waves_claim manages.claims) closes fuel).bind fun _ => .pure _
  | driveWith fuel runId plan =>
      exact (driveWith_keeps allows every (waves_claim manages.claims) closes fuel plan).bind
        fun _ => .pure _
  | inject fuel runId input after =>
      exact (inject_keeps allows every (waves_claim manages.claims) manages.injects closes fuel input
        after).bind fun _ => .pure _
  | tryStep runId m => exact (tryStep_keeps allows every manages.claims m).bind fun _ => .pure _
  | cancel runId => exact (cancel_keeps manages.cancels closes).bind fun _ => .pure _

end Starting

end Substrate.Protocol.Asking
