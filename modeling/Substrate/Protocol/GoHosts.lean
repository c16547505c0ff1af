/- ID: Substrate/Protocol/GoHosts
   source: framework/sdk/go/host.go, framework/sdk/go/memo.go
   digest: A host in Go commits and caches only what fits what it has been told. -/

import Substrate.Framework.Go
import Substrate.Protocol.Commits

set_option autoImplicit false
set_option relaxedAutoImplicit false

namespace Substrate.Protocol.GoHosts

open Substrate.Kernel.Wire
open Substrate.Kernel.Hashing
open Substrate.Kernel.Memory (KernelError)
open Substrate.Framework
open Substrate.Framework.Steps
open Substrate.Framework.Memo
open Substrate.Framework.Policy
open Substrate.Framework.Calls
open Substrate.Framework.Drive (Executed DriveAfter executeStep loadStep putOutputs unitKeyOf)
open Substrate.Framework.Sessions (HostCall ignore)
open Substrate.Library.Histories
open Substrate.Library.Resumption
open Substrate.Library.Resumption.Act
open Substrate.Protocol.Commits
open Substrate.Protocol.Asking (fromFramework_keeps requirePlugin_keeps)
open Substrate.Protocol.Orphans (Told)

variable {host : Host}

section Calm

private theorem dropTables_calm (tables : List String) :
    Calm (Drive.dropTables tables : HostAct host Unit) :=
  .forM fun _ _ => (ask_calm rfl).bind fun _ => .pure _

private theorem finishGoStorage_calm (runId : String) :
    Calm (Go.finishRunStorage runId : HostAct host Unit) :=
  .read fun _ _ => (dropTables_calm _).bind fun _ => (modify_calm _).bind fun _ => modify_calm _

private theorem failGoStep_calm (text : FrameworkError → String) (runId module : String)
    (work : WorkItem) (step : StepContext) (e : FrameworkError) :
    Calm (Go.failStep text runId module work step e : HostAct host Unit) :=
  (ask_calm rfl).bind fun _ => (emitPresentation_calm module _).attempt.bind fun _ =>
    (applyStepStorage_calm _ _ _ _).attempt.bind fun _ => (ask_calm rfl).bind fun _ => .throw _

private theorem startGoPipeline_calm (runId : String) (assembly : Assembly)
    (inputs : List NamedArtifact) (policy : FrameworkPolicy) :
    Calm (Go.startPipeline runId assembly inputs policy : HostAct host Run) := by
  unfold Go.startPipeline
  split
  · exact .throw _
  · split
    · exact .throw _
    · refine (policyOf_calm runId).bind fun registered => ?_
      split
      · exact .throw _
      · split
        · split
          · exact .throw _
          · exact (fromFramework_keeps _).bind fun _ => (fromFramework_keeps _).bind fun _ =>
              (Keeps.forM fun _ _ => emitPresentation_calm _ _).bind fun _ =>
                (called_calm rfl).bind fun _ => (ensureRunStorage_calm _ _).bind fun _ =>
                  (modify_calm _).bind fun _ => .pure _
        · exact .throw _

private theorem resumeGoAfter_calm (newRunId priorRunId afterNode : String)
    (policy : FrameworkPolicy) :
    Calm (Go.resumeAfter newRunId priorRunId afterNode policy : HostAct host Run) :=
  (called_calm rfl).bind fun _ => (fromFramework_keeps _).bind fun _ =>
    Keeps.bind ((called_calm rfl).bind fun _ => fromFramework_keeps _) fun _ =>
      startGoPipeline_calm _ _ _ _

private theorem cancelGo_calm (runId : String) : Calm (Go.cancel runId : HostAct host Run) :=
  (called_calm rfl).bind fun _ => (finishGoStorage_calm runId).bind fun _ => .pure _

end Calm

section Steps

variable [Sha256] {runId : String} {P : Told → Prop}

private theorem digestGo_follows (work : WorkItem) (lasting : Lasting P) :
    Follows (Fits host) P (Go.memoDigest runId work.module work : HostAct host (Option String))
      fun past r => P past ∧ NamedBy past work r := by
  have none : Follows (Fits host) P (pure none : HostAct host (Option String)) fun past r =>
      P past ∧ NamedBy past work r := .pure fun _ held => ⟨held, trivial⟩
  refine calm_then (policyOf_calm runId) lasting (fun policy => ?_) fun _ _ held => ⟨held, trivial⟩
  split
  · exact none
  · split
    · exact none
    · split
      · exact none
      · split
        · exact none
        · exact digest_follows work lasting

private theorem lookupGo_follows {work : WorkItem} {digest : String} (lasting : Lasting P) :
    Follows (Fits host) (fun past => P past ∧ Named past work digest)
      (Go.lookupMemo work.module digest work : HostAct host _) fun past r =>
      P past ∧ Hits past work r := by
  refine (memoGet_follows lasting).bind (fun answer => ?_) fun _ _ held => ⟨held.1, trivial⟩
  split
  · exact .pure fun _ held => ⟨held.1, trivial⟩
  · exact .pure fun _ held => ⟨held.1, trivial⟩
  · rename_i record
    refine Follows.mono (P := fun past => P past ∧ Cached past work (recordToNamedOutputs record))
      ?_ (fun _ held => ⟨held.1, held.2 record rfl⟩) fun _ _ held => held
    refine still_then (outputsExist_still _) lasting (fun exist => ?_)
      fun _ _ held => ⟨held, trivial⟩
    split
    · exact .pure fun _ held => ⟨held.1, trivial⟩
    · split
      · exact .pure fun _ held => ⟨held.1, trivial⟩
      · exact .pure fun _ held => held

private theorem hitGo_follows (work : WorkItem) (lasting : Lasting P) :
    Follows (Fits host) P (Go.tryMemoHit runId work.module work : HostAct host _) fun past r =>
      P past ∧ Hits past work r := by
  refine (digestGo_follows work lasting).bind (fun digest => ?_) fun _ _ held => ⟨held.1, trivial⟩
  split
  · exact .pure fun _ held => ⟨held.1, trivial⟩
  · exact lookupGo_follows lasting

private theorem commitGoHit_follows {work : WorkItem} {outputs : List NamedArtifact}
    (step : StepContext) (key source : String) (lasting : Lasting P)
    (known : ∀ past, P past → Handed host past runId work) :
    Follows (Fits host) (fun past => P past ∧ Cached past work outputs)
      (Go.commitMemoHit runId work.module work step key outputs source : HostAct host Unit)
      fun past _ => P past := by
  refine still_then (emitPresentation_still _ _) lasting (fun _ => ?_) fun _ _ held => held
  refine (commitOutputs_follows lasting fun past held =>
    ⟨held.1, known past held.1, .inr held.2⟩).bind (fun _ => ?_) fun _ _ held => held
  refine calm_then (modify_calm _) lasting (fun _ => ?_) fun _ _ held => held
  exact calm_follows (applyStepStorage_calm _ _ _ _) lasting

private theorem storeGoMemo_follows {work : WorkItem} {outputs : List NamedArtifact}
    (lasting : Lasting P) (known : ∀ past, P past → Handed host past runId work ∧
      Produced host past work outputs) :
    Follows (Fits host) P
      (Go.storeMemoAfterSuccess runId work.module work outputs : HostAct host Unit)
      fun past _ => P past := by
  refine (digestGo_follows work lasting).bind (fun digest => ?_) fun _ _ held => held.1
  split
  · exact .pure fun _ held => held.1
  · rename_i digest
    refine Follows.bind (R := fun past _ => P past) (.ask fun past answer held => ⟨?_,
      lasting past _ held.1⟩) (fun _ => calm_follows (fromFramework_keeps _) lasting)
      fun _ _ held => held
    obtain ⟨handed, executed⟩ := known past held.1
    exact ⟨runId, work, digest, outputs, handed, held.2.digested, executed, rfl⟩

private theorem commitGoSuccess_follows {work : WorkItem} {output : StepOutput}
    (step : StepContext) (lasting : Lasting P)
    (known : ∀ past, P past → Handed host past runId work ∧ Ran past work output) :
    Follows (Fits host) P
      (Go.commitStepSuccess runId work.module work step output : HostAct host Unit)
      fun past _ => P past := by
  refine (putOutputs_follows work.module output.outputs lasting fun past held out member =>
    ⟨work, output, rfl, (known past held).2, member⟩).bind (fun outputs => ?_)
    fun _ _ held => held.1
  have lasts : Lasting fun past => P past ∧
      AllStored host past work.module output.outputs (.ok outputs) :=
    lasting.and (allStored_lasting _ _ _)
  have executed (past : Told)
      (held : P past ∧ AllStored host past work.module output.outputs (.ok outputs)) :
      Handed host past runId work ∧ Produced host past work outputs :=
    ⟨(known past held.1).1, output, (known past held.1).2, held.2⟩
  refine calm_then (ask_calm rfl) lasts (fun _ => ?_) fun _ _ held => held.1
  refine calm_then (emitOptional_calm _ _) lasts (fun _ => ?_) fun _ _ held => held.1
  refine (commitOutputs_follows lasts fun past held =>
    ⟨held, (executed past held).1, .inl (executed past held).2⟩).bind (fun _ => ?_)
      fun _ _ held => held.1
  refine (storeGoMemo_follows lasts executed).bind (fun _ => ?_) fun _ _ held => held.1
  exact (calm_follows (applyStepStorage_calm _ _ _ _) lasting).mono (fun _ held => held.1)
    fun _ _ held => held

variable (text : FrameworkError → String)

private theorem settleGo_follows {work : WorkItem} {executed : Executed} (lasting : Lasting P)
    (known : ∀ past, P past → Handed host past runId work ∧ RanIfOk past work executed) :
    Follows (Fits host) P (Go.settleStep text runId work executed : HostAct host Unit)
      fun past _ => P past := by
  unfold Go.settleStep
  split
  · rename_i output same
    exact commitGoSuccess_follows _ lasting fun past held =>
      ⟨(known past held).1, (known past held).2 output same⟩
  · exact calm_follows (failGoStep_calm _ _ _ _ _ _) lasting

private theorem finishGoUnit_follows {work : WorkItem} (lasting : Lasting P)
    (known : ∀ past, P past → Handed host past runId work) :
    Follows (Fits host) P (Go.finishWorkUnit text runId work : HostAct host Unit)
      fun past _ => P past := by
  refine (loadStep_follows work lasting).bind (fun step => ?_) fun _ _ held => held.1
  by_cases mine : step.work = work
  case neg => exact fun past held => absurd (held.2 step rfl) mine
  refine Follows.mono ?_ (fun _ held => held.1) fun _ _ held => held
  refine (hitGo_follows work lasting).bind (fun hit => ?_) fun _ _ held => held.1
  split
  · rename_i key outputs source
    exact commitGoHit_follows step key source lasting known
  · refine Follows.mono ?_ (fun _ held => held.1) fun _ _ held => held
    refine calm_then (requirePlugin_keeps _) lasting (fun _ => ?_) fun _ _ held => held
    refine calm_then (ask_calm rfl) lasting (fun _ => ?_) fun _ _ held => held
    refine calm_then (emitOptional_calm _ _) lasting (fun _ => ?_) fun _ _ held => held
    refine (executeStep_follows mine lasting).bind (fun executed => ?_) fun _ _ held => held.1
    have lasts := lasting.and (ranIfOk_lasting work executed)
    refine Follows.mono (P := fun past => P past ∧ RanIfOk past work executed) ?_
      (fun _ held => ⟨held.1, held.2 executed rfl⟩) fun _ _ held => held
    refine calm_then (modify_calm _) lasts (fun _ => ?_) fun _ _ held => held.1
    refine calm_then (.forM fun _ _ => emitPresentation_calm _ _) lasts (fun _ => ?_)
      fun _ _ held => held.1
    exact (settleGo_follows text lasts fun past held => ⟨known past held.1, held.2⟩).mono
      (fun _ held => held) fun _ _ held => held.1

private theorem claimGoWave_follows (onePass : Bool) :
    Follows (Fits host) (fun _ => True) (Go.driveClaimWave text runId onePass : HostAct host Bool)
      fun _ _ => True := by
  refine (free_follows (policyOf_calm runId)).bind (fun policy => ?_) fun _ _ held => held
  refine (claimReady_follows runId _ ?_).bind (fun resp => ?_) fun _ _ _ => trivial
  · unfold Go.waveClaim
    split <;> rfl
  · refine Follows.mono (P := fun past => ∀ work ∈ resp.1.items, Handed host past runId work) ?_
      (fun _ held => held resp rfl) fun _ _ held => held
    split
    · exact .pure fun _ _ => trivial
    · exact (Follows.forM fun work member => finishGoUnit_follows text (allHanded_lasting _)
        fun past held => held work member).bind (fun _ => .pure fun _ _ => trivial)
        fun _ _ _ => trivial

private theorem tryGoStep_follows (module : String) :
    Follows (Fits host) (fun _ => True) (Go.tryStep text runId module : HostAct host Bool)
      fun _ _ => True := by
  refine (claimReady_follows runId _ rfl).bind (fun resp => ?_) fun _ _ _ => trivial
  split
  · exact .pure fun _ _ => trivial
  · rename_i work rest listed
    split
    · exact .pure fun _ _ => trivial
    · refine Follows.mono (P := fun past => Handed host past runId work) ?_
        (fun _ held => held resp rfl work (listed ▸ List.mem_cons_self)) fun _ _ held => held
      exact (finishGoUnit_follows text (handed_lasting runId work) fun _ held => held).bind
        (fun _ => .pure fun _ _ => trivial) fun _ _ _ => trivial

private theorem untilGoIdle_follows (fuel : Nat) :
    Follows (Fits host) (fun _ => True)
      (Go.driveUntilIdle text runId fuel : HostAct host (Option Run)) fun _ _ => True := by
  induction fuel with
  | zero => exact .pure fun _ _ => trivial
  | succ fuel ih =>
      refine (free_follows (called_calm rfl)).bind (fun run => ?_) fun _ _ held => held
      split
      · exact .pure fun _ _ => trivial
      · refine (claimGoWave_follows text false).bind (fun found => ?_) fun _ _ held => held
        split
        · exact ih
        · exact (free_follows (called_calm rfl)).bind (fun _ => .pure fun _ _ => trivial)
            fun _ _ held => held

private theorem onePassGo_follows :
    Follows (Fits host) (fun _ => True) (Go.driveOnePass text runId : HostAct host (Option Run))
      fun _ _ => True := by
  refine (free_follows (called_calm rfl)).bind (fun run => ?_) fun _ _ held => held
  split
  · exact .pure fun _ _ => trivial
  · exact (claimGoWave_follows text true).bind (fun _ => (free_follows (called_calm rfl)).bind
      (fun _ => .pure fun _ _ => trivial) fun _ _ held => held) fun _ _ held => held

private theorem driveGo_follows (fuel : Nat) (plan : DrivePlan) :
    Follows (Fits host) (fun _ => True)
      (Go.driveWith text fuel runId plan : HostAct host (Option Run)) fun _ _ => True := by
  refine Follows.bind (R := fun _ _ => True) ?_ (fun run => ?_) fun _ _ held => held
  · cases plan with
    | onePass => exact onePassGo_follows text
    | untilIdle => exact untilGoIdle_follows text fuel
    | untilIdleThenWait => exact untilGoIdle_follows text fuel
  · cases run with
    | none => exact .pure fun _ _ => trivial
    | some run =>
        rw [Go.closeRun]
        split
        · exact (free_follows (finishGoStorage_calm runId)).bind
            (fun _ => .pure fun _ _ => trivial) fun _ _ held => held
        · exact .pure fun _ _ => trivial

theorem performGo_follows (call : HostCall) :
    Follows (Fits host) (fun _ => True) (Go.perform text call : HostAct host Unit)
      fun _ _ => True := by
  have ignored {α : Type} {x : HostAct host α} (follows : Follows (Fits host) (fun _ => True) x
      fun _ _ => True) : Follows (Fits host) (fun _ => True) (ignore x) fun _ _ => True :=
    follows.bind (fun _ => .pure fun _ _ => trivial) fun _ _ held => held
  cases call with
  | startPipeline id assembly inputs policy =>
      exact ignored (free_follows (startGoPipeline_calm id assembly inputs policy))
  | resumeAfter id prior node policy =>
      exact ignored (free_follows (resumeGoAfter_calm id prior node policy))
  | drive fuel id =>
      exact ignored ((free_follows (policyOf_calm id)).bind (fun _ => driveGo_follows text fuel _)
        fun _ _ held => held)
  | driveWith fuel id plan => exact ignored (driveGo_follows text fuel plan)
  | inject fuel id input after =>
      refine ignored ((free_follows (called_calm rfl)).bind (fun run => ?_) fun _ _ held => held)
      cases after with
      | no => exact .pure fun _ _ => trivial
      | untilIdle => exact driveGo_follows text fuel _
      | onePass => exact driveGo_follows text fuel _
  | tryStep id module => exact ignored (tryGoStep_follows text module)
  | cancel id => exact ignored (free_follows (cancelGo_calm id))

end Steps

end Substrate.Protocol.GoHosts
