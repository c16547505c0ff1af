/- ID: Substrate/Protocol/Commits
   digest: What a host commits for a unit and what it caches, and where each of them comes from. -/

import Substrate.Library.Histories
import Substrate.Protocol.Asking
import Substrate.Protocol.Orphans

set_option autoImplicit false
set_option relaxedAutoImplicit false

namespace Substrate.Protocol.Commits

open Substrate.Kernel.Wire
open Substrate.Kernel.Hashing
open Substrate.Kernel.Memory (KernelError)
open Substrate.Framework.Steps
open Substrate.Framework.Storage
open Substrate.Framework.Memo
open Substrate.Framework.Policy
open Substrate.Framework.Calls
open Substrate.Framework.Drive
open Substrate.Framework.Pipeline
open Substrate.Framework.Sessions
open Substrate.Library.Resumption
open Substrate.Library.Resumption.Act
open Substrate.Library.Resumption.Prog (Environment exec exec_bind transcript transcript_bind)
open Substrate.Library.Histories
open Substrate.Protocol.Asking (fromKernel_keeps fromFramework_keeps requirePlugin_keeps
  requireStorage_keeps)
open Substrate.Protocol.Orphans (Told)

variable {host : Host}

/-- A claim has handed out a unit of a run. -/
def Handed (host : Host) (told : Told) (runId : String) (work : WorkItem) : Prop :=
  ∃ req resp, (⟨.claimReady req host.ctx, .ok resp⟩ : Exchange Query Answer) ∈ told ∧
    req.runId = runId ∧ work ∈ resp.1.items

/-- A plugin was executed for a unit and returned an output. -/
def Ran (told : Told) (work : WorkItem) (output : StepOutput) : Prop :=
  ∃ step after, step.work = work ∧
    (⟨.execute work.module step, (after, .ok output)⟩ : Exchange Query Answer) ∈ told

/-- A plugin has returned a value for a port. -/
def Returned (told : Told) (module : String) (out : PortBody) : Prop :=
  ∃ work output, work.module = module ∧ Ran told work output ∧ out ∈ output.outputs

/-- A value that a plugin had returned was put under the reference that goes by its port. -/
def Stored (host : Host) (told : Told) (module : String) (out : PortBody) (na : NamedArtifact) :
    Prop :=
  na.name = out.port ∧ ∃ r before after, na.artifact = some r ∧ Returned before module out ∧
    told = before ++
      (⟨.putArtifact (outputArtifact module out) host.ctx, .ok r⟩ : Exchange Query Answer) :: after

/-- The outputs of a unit are what its plugin returned, port by port. -/
def Produced (host : Host) (told : Told) (work : WorkItem) (outputs : List NamedArtifact) : Prop :=
  ∃ output, Ran told work output ∧
    List.Forall₂ (Stored host told work.module) output.outputs outputs

/-- A question that neither commits nor caches. -/
def calm : Query → Bool
  | .commit _ _ | .memoPut _ => false
  | _ => true

/-- Nor reads a digest. -/
def still : Query → Bool
  | .moduleDigest _ => false
  | q => calm q

/-- The plugin of a unit has named the digest under which the unit is cached. -/
def Digested (told : Told) (work : WorkItem) (digest : String) : Prop :=
  digest ≠ "" ∧ (⟨.moduleDigest work.module, some digest⟩ : Exchange Query Answer) ∈ told

section Cached

variable [Sha256]

/-- The plugin of a unit named a digest, the memo store had a record under the unit's key, and
nothing was committed, cached or asked for its digest since. -/
def LookedUp (told : Told) (work : WorkItem) (digest : String) (record : MemoRecord) : Prop :=
  digest ≠ "" ∧ ∃ before after, told = before ++
    (⟨.moduleDigest work.module, some digest⟩ : Exchange Query Answer) ::
      ⟨.memoGet (unitKeyOf work.module digest work), .ok (some record)⟩ :: after ∧
    ∀ e ∈ after, still e.1 = true

/-- The outputs of a unit are those of the record that was looked up for it. -/
def Cached (told : Told) (work : WorkItem) (outputs : List NamedArtifact) : Prop :=
  ∃ digest record, LookedUp told work digest record ∧ outputs = recordToNamedOutputs record

theorem LookedUp.digested {told : Told} {work : WorkItem} {digest : String} {record : MemoRecord}
    (looked : LookedUp told work digest record) : Digested told work digest := by
  obtain ⟨named, before, after, rfl, -⟩ := looked
  exact ⟨named, List.mem_append_right _ List.mem_cons_self⟩

theorem LookedUp.recalled {told : Told} {work : WorkItem} {digest : String} {record : MemoRecord}
    (looked : LookedUp told work digest record) :
    (⟨.memoGet (unitKeyOf work.module digest work), .ok (some record)⟩ : Exchange Query Answer) ∈
      told := by
  obtain ⟨-, before, after, rfl, -⟩ := looked
  exact List.mem_append_right _ (List.mem_cons_of_mem _ List.mem_cons_self)

/-- A commit is of a unit that was handed out, with outputs that were executed or cached; a record
that is cached is of outputs that were executed. -/
def Fits (host : Host) (past : Told) : Exchange Query Answer → Prop
  | ⟨.commit submitted _, _⟩ => ∃ work, Handed host past submitted.runId work ∧
      submitted.workId = work.id ∧
      (Produced host past work submitted.outputs ∨ Cached past work submitted.outputs)
  | ⟨.memoPut record, _⟩ => ∃ runId work digest outputs, Handed host past runId work ∧
      Digested past work digest ∧ Produced host past work outputs ∧
      record = buildRecord (unitKeyOf work.module digest work) work digest outputs runId
  | _ => True

end Cached

theorem handed_lasting (runId : String) (work : WorkItem) :
    Lasting fun told => Handed host told runId work := by
  rintro past rest ⟨req, resp, member, here, listed⟩
  exact ⟨req, resp, List.mem_append_left _ member, here, listed⟩

theorem ran_lasting (work : WorkItem) (output : StepOutput) :
    Lasting fun told => Ran told work output := by
  rintro past rest ⟨step, after, same, member⟩
  exact ⟨step, after, same, List.mem_append_left _ member⟩

theorem stored_lasting (module : String) (out : PortBody) (na : NamedArtifact) :
    Lasting fun told => Stored host told module out na := by
  rintro past rest ⟨named, r, before, after, ref, returned, rfl⟩
  exact ⟨named, r, before, after ++ rest, ref, returned, by rw [List.append_assoc]; rfl⟩

theorem allStored_lasting (module : String) (outs : List PortBody)
    (named : List NamedArtifact) :
    Lasting fun told => List.Forall₂ (Stored host told module) outs named :=
  fun past rest held => held.imp fun out na => stored_lasting module out na past rest

theorem produced_lasting (work : WorkItem) (outputs : List NamedArtifact) :
    Lasting fun told => Produced host told work outputs := by
  rintro past rest ⟨output, ran, stored⟩
  exact ⟨output, ran_lasting work output past rest ran,
    allStored_lasting work.module output.outputs outputs past rest stored⟩

theorem cached_stays [Sha256] (work : WorkItem) (outputs : List NamedArtifact) (past : Told)
    (e : Exchange Query Answer) (quiet : still e.1 = true) (cached : Cached past work outputs) :
    Cached (past ++ [e]) work outputs := by
  obtain ⟨digest, record, ⟨named, before, after, rfl, unread⟩, same⟩ := cached
  refine ⟨digest, record, ⟨named, before, after ++ [e], ?_, ?_⟩, same⟩
  · rw [List.append_assoc]
    rfl
  · exact List.forall_mem_append.mpr ⟨unread, List.forall_mem_singleton.mpr quiet⟩

/-- An act that neither commits nor caches. -/
abbrev Calm {α : Type} (x : HostAct host α) : Prop :=
  Keeps (fun _ => True) (fun e => calm e.1 = true) x

abbrev Still {α : Type} (x : HostAct host α) : Prop :=
  Keeps (fun _ => True) (fun e => still e.1 = true) x

theorem calm_of_still {q : Query} (quiet : still q = true) : calm q = true := by
  cases q <;> first | exact quiet | cases quiet

theorem fits_calm [Sha256] (past : Told) (e : Exchange Query Answer) (quiet : calm e.1 = true) :
    Fits host past e := by
  obtain ⟨q, answer⟩ := e
  cases q <;> trivial

section Calm

variable {α : Type}

theorem ask_calm {q : Query} (quiet : calm q = true) :
    Calm (ask q : HostAct host (Answer q)) :=
  .ask fun _ => quiet

theorem called_calm {q : Query} {read : Answer q → Except KernelError α}
    (quiet : calm q = true) :
    Calm (ask q >>= fun answer => fromKernel (read answer) : HostAct host α) :=
  (ask_calm quiet).bind fun _ => fromKernel_keeps _

private theorem stored_calm {q : Query} {read : Answer q → Except FrameworkError α}
    (quiet : calm q = true) :
    Calm (ask q >>= fun answer => fromFramework (read answer) : HostAct host α) :=
  (ask_calm quiet).bind fun _ => fromFramework_keeps _

theorem modify_calm (f : Books host → Books host) :
    Calm (modify f : HostAct host PUnit) := .modify fun _ _ => trivial

theorem policyOf_calm (runId : String) :
    Calm (policyOf runId : HostAct host (Option (Backed host))) := .read fun _ _ => .pure _

private theorem asked_still {q : Query} {read : Answer q → Except KernelError α}
    (quiet : still q = true) :
    Still (ask q >>= fun answer => fromKernel (read answer) : HostAct host α) :=
  Keeps.bind (.ask fun _ => quiet) fun _ => fromKernel_keeps _

theorem emitPresentation_still (module : String) (p : Presentation) :
    Still (emitPresentation module p : HostAct host Unit) := by
  refine Keeps.bind ?_ fun _ => .modify fun _ _ => trivial
  unfold maybePutUi
  split
  · exact .pure _
  · refine Keeps.bind (Keeps.bind (.ask fun _ => rfl) fun body => ?_) fun body =>
      (asked_still rfl).bind fun _ => .pure _
    cases (body : Except String Bytes) with
    | ok body => exact .pure body
    | error e => exact .throw _

theorem emitPresentation_calm (module : String) (p : Presentation) :
    Calm (emitPresentation module p : HostAct host Unit) :=
  (emitPresentation_still module p).mono fun _ => calm_of_still

theorem emitOptional_calm (module : String) (shown : Option Presentation) :
    Calm (emitOptional module shown : HostAct host Unit) := by
  cases shown with
  | none => exact .pure _
  | some p => exact emitPresentation_calm module p

private theorem writeModuleRows_calm (plan : StoragePlan) (runId module : String)
    (step : StepContext) (result : StepResult) :
    Calm (writeModuleRows plan runId module step result : HostAct host Unit) := by
  unfold writeModuleRows
  split
  · exact .pure _
  · split
    · exact .pure _
    · refine (requirePlugin_keeps module).bind fun _ => (ask_calm rfl).bind fun write => ?_
      cases (write : Option StoreWrite) with
      | none => exact .pure _
      | some write =>
          rw [writeStore]
          split
          · exact .pure _
          · exact (requireStorage_keeps _).bind fun _ => stored_calm rfl

private theorem writeStepLog_calm (plan : StoragePlan) (runId module : String) (step : StepContext)
    (result : StepResult) :
    Calm (writeStepLog plan runId module step result : HostAct host Unit) := by
  unfold writeStepLog
  split
  · exact .pure _
  · exact (requireStorage_keeps _).bind fun _ =>
      Keeps.bind (stored_calm rfl) fun _ => stored_calm rfl

theorem applyStepStorage_calm (runId module : String) (step : StepContext)
    (result : StepResult) :
    Calm (applyStepStorage runId module step result : HostAct host Unit) := by
  refine (policyOf_calm runId).bind fun policy => ?_
  split
  · exact .pure _
  · split
    · exact .pure _
    · exact (writeModuleRows_calm _ _ _ _ _).bind fun _ => writeStepLog_calm _ _ _ _ _

private theorem finishRunStorage_calm (runId : String) :
    Calm (finishRunStorage runId : HostAct host Unit) :=
  .read fun _ _ => (modify_calm _).bind fun _ =>
    Keeps.bind (.forM fun _ _ => (ask_calm rfl).bind fun _ => .pure _) fun _ => modify_calm _

private theorem loadStep_still (runId : String) (work : WorkItem) :
    Still (loadStep runId work : HostAct host StepContext) := by
  have each : ∀ (inputs : List NamedArtifact) loaded,
      Still (loadInputs inputs loaded : HostAct host _) := by
    intro inputs
    induction inputs with
    | nil => exact fun _ => .pure _
    | cons na rest ih =>
        intro loaded
        unfold loadInputs
        split
        · exact ih loaded
        · exact (asked_still rfl).bind fun _ => ih _
  exact (each _ _).bind fun _ => .pure _

theorem outputsExist_still (outputs : List NamedArtifact) :
    Still (outputsExist outputs : HostAct host Bool) := by
  induction outputs with
  | nil => exact .pure _
  | cons na rest ih =>
      unfold outputsExist
      split
      · exact .pure _
      · refine Keeps.bind (.ask fun _ => rfl) fun answer => ?_
        split
        · exact .pure _
        · exact ih

private theorem failStep_calm (runId module : String) (work : WorkItem) (step : StepContext)
    (e : FrameworkError) : Calm (failStep runId module work step e : HostAct host Unit) :=
  (requirePlugin_keeps module).bind fun _ => (ask_calm rfl).bind fun _ =>
    (emitPresentation_calm module _).attempt.bind fun _ =>
      (applyStepStorage_calm _ _ _ _).attempt.bind fun _ => (ask_calm rfl).bind fun _ => .throw _

theorem ensureRunStorage_calm (runId : String) (plan : StoragePlan) :
    Calm (ensureRunStorage runId plan : HostAct host Unit) := by
  unfold ensureRunStorage
  split
  · exact .pure _
  · refine (requireStorage_keeps _).bind fun _ =>
      Keeps.bind (.forM fun _ _ => stored_calm rfl) fun _ => ?_
    split
    · exact .pure _
    · exact modify_calm _

private theorem startPipeline_calm (runId : String) (assembly : Assembly)
    (inputs : List NamedArtifact) (policy : FrameworkPolicy) :
    Calm (startPipeline runId assembly inputs policy : HostAct host Run) := by
  unfold startPipeline
  split
  · exact .throw _
  · split
    · exact .throw _
    · refine (policyOf_calm runId).bind fun registered => ?_
      split
      · exact .throw _
      · split
        · split
          · exact .throw _
          · exact (fromFramework_keeps _).bind fun _ => (fromFramework_keeps _).bind fun _ =>
              (Keeps.forM fun _ _ => emitPresentation_calm _ _).bind fun _ =>
                (called_calm rfl).bind fun _ => (ensureRunStorage_calm _ _).bind fun _ =>
                  (modify_calm _).bind fun _ => .pure _
        · exact .throw _

private theorem resumeAfter_calm (newRunId priorRunId afterNode : String)
    (policy : FrameworkPolicy) :
    Calm (resumeAfter newRunId priorRunId afterNode policy : HostAct host Run) :=
  (called_calm rfl).bind fun _ => (fromFramework_keeps _).bind fun _ =>
    Keeps.bind ((called_calm rfl).bind fun _ => fromFramework_keeps _) fun _ =>
      startPipeline_calm _ _ _ _

private theorem cancel_calm (runId : String) : Calm (cancel runId : HostAct host Run) :=
  (called_calm rfl).bind fun _ => (finishRunStorage_calm runId).bind fun _ => .pure _

end Calm

section Steps

variable [Sha256] {runId : String} {P : Told → Prop} {α β : Type}

theorem calm_then {x : HostAct host α} {f : α → HostAct host β}
    {R : Told → Except FrameworkError β → Prop} (quiet : Calm x) (lasting : Lasting P)
    (next : ∀ a, Follows (Fits host) P (f a) R) (failed : ∀ past e, P past → R past (.error e)) :
    Follows (Fits host) P (x >>= f) R :=
  (Follows.free quiet fits_calm lasting).bind next failed

theorem still_then {x : HostAct host α} {f : α → HostAct host β} {outputs : List NamedArtifact}
    {work : WorkItem} {R : Told → Except FrameworkError β → Prop} (quiet : Still x)
    (lasting : Lasting P)
    (next : ∀ a, Follows (Fits host) (fun past => P past ∧ Cached past work outputs) (f a) R)
    (failed : ∀ past e, P past → R past (.error e)) :
    Follows (Fits host) (fun past => P past ∧ Cached past work outputs) (x >>= f) R :=
  (Follows.among quiet (fun past e quiet => fits_calm past e (calm_of_still quiet))
    fun past e quiet held => ⟨lasting past [e] held.1,
      cached_stays work outputs past e quiet held.2⟩).bind next fun past e held => failed past e held.1

theorem calm_follows {x : HostAct host α} (quiet : Calm x) (lasting : Lasting P) :
    Follows (Fits host) P x fun past _ => P past :=
  .free quiet fits_calm lasting

/-- An answer that was given. -/
def Answered (past : Told) (q : Query) : Except FrameworkError (Answer q) → Prop
  | .ok answer => (⟨q, answer⟩ : Exchange Query Answer) ∈ past
  | .error _ => True

theorem ask_follows {q : Query} (quiet : calm q = true) (lasting : Lasting P) :
    Follows (Fits host) P (ask q : HostAct host (Answer q)) fun past r =>
      P past ∧ Answered past q r :=
  .ask fun past _ held => ⟨fits_calm past _ quiet, lasting past _ held,
    List.mem_append_right _ (List.mem_singleton_self _)⟩

/-- The plugin of a unit has just named a digest. -/
def Named (past : Told) (work : WorkItem) (digest : String) : Prop :=
  digest ≠ "" ∧ ∃ before, past =
    before ++ [(⟨.moduleDigest work.module, some digest⟩ : Exchange Query Answer)]

omit [Sha256] in
theorem Named.digested {past : Told} {work : WorkItem} {digest : String}
    (named : Named past work digest) : Digested past work digest := by
  obtain ⟨filled, before, rfl⟩ := named
  exact ⟨filled, List.mem_append_right _ List.mem_cons_self⟩

def NamedBy (past : Told) (work : WorkItem) : Except FrameworkError (Option String) → Prop
  | .ok (some digest) => Named past work digest
  | _ => True

def Hits (past : Told) (work : WorkItem) :
    Except FrameworkError (Option (String × List NamedArtifact × String)) → Prop
  | .ok (some (_, outputs, _)) => Cached past work outputs
  | _ => True

theorem digest_follows (work : WorkItem) (lasting : Lasting P) :
    Follows (Fits host) P (do
        let digest ← ask (Query.moduleDigest work.module)
        return Option.filter (· ≠ "") digest : HostAct host (Option String))
      fun past r => P past ∧ NamedBy past work r := by
  refine Follows.bind (R := fun past (r : Except FrameworkError (Option String)) => P past ∧
      ∀ digest, r = .ok (some digest) → digest ≠ "" → Named past work digest)
    (.ask fun past answer held => ⟨trivial, lasting past _ held, ?_⟩) (fun answer => .pure ?_)
    fun _ _ held => ⟨held.1, trivial⟩
  · rintro digest same filled
    obtain rfl := Except.ok.inj same
    exact ⟨filled, past, rfl⟩
  · rintro past ⟨held, named⟩
    refine ⟨held, ?_⟩
    cases found : Option.filter (· ≠ "") (answer : Option String) with
    | none => trivial
    | some digest =>
        obtain ⟨rfl, filled⟩ := Option.filter_eq_some_iff.mp found
        exact named digest rfl (by simpa using filled)

private theorem memoDigest_follows (work : WorkItem) (lasting : Lasting P) :
    Follows (Fits host) P (memoDigest runId work.module work : HostAct host (Option String))
      fun past r => P past ∧ NamedBy past work r := by
  have none : Follows (Fits host) P (pure none : HostAct host (Option String)) fun past r =>
      P past ∧ NamedBy past work r := .pure fun _ held => ⟨held, trivial⟩
  refine calm_then (policyOf_calm runId) lasting (fun policy => ?_) fun _ _ held => ⟨held, trivial⟩
  split
  · exact none
  · split
    · exact none
    · split
      · exact none
      · exact digest_follows work lasting

theorem memoGet_follows {work : WorkItem} {digest : String} (lasting : Lasting P) :
    Follows (Fits host) (fun past => P past ∧ Named past work digest)
      (ask (.memoGet (unitKeyOf work.module digest work)) : HostAct host _)
      fun past r => P past ∧ ∀ record,
        r = .ok (show Except FrameworkError (Option MemoRecord) from .ok (some record)) →
          Cached past work (recordToNamedOutputs record) := by
  refine .ask fun past answer held => ⟨trivial, lasting past _ held.1, fun record same => ?_⟩
  obtain rfl := Except.ok.inj same
  obtain ⟨filled, before, rfl⟩ := held.2
  refine ⟨digest, record, ⟨filled, before, [], ?_, List.forall_mem_nil _⟩, rfl⟩
  rw [List.append_assoc]
  rfl

private theorem lookupMemo_follows {work : WorkItem} {digest : String} (lasting : Lasting P) :
    Follows (Fits host) (fun past => P past ∧ Named past work digest)
      (lookupMemo work.module digest work : HostAct host _) fun past r =>
      P past ∧ Hits past work r := by
  refine Follows.bind (R := fun past (r : Except FrameworkError (Option MemoRecord)) => P past ∧
      ∀ record, r = .ok (some record) → Cached past work (recordToNamedOutputs record))
    ((memoGet_follows lasting).bind (fun answer => ?_) fun _ _ held => ⟨held.1, nofun⟩)
    (fun found => ?_) fun _ _ held => ⟨held.1, trivial⟩
  · cases (answer : Except FrameworkError (Option MemoRecord)) with
    | error e => exact .throw fun _ held => ⟨held.1, nofun⟩
    | ok found =>
        refine .pure fun past held => ⟨held.1, fun record same => held.2 record ?_⟩
        rw [Except.ok.inj same]
  · split
    · exact .pure fun _ held => ⟨held.1, trivial⟩
    · rename_i record
      refine Follows.mono (P := fun past => P past ∧ Cached past work (recordToNamedOutputs record))
        ?_ (fun _ held => ⟨held.1, held.2 record rfl⟩) fun _ _ held => held
      refine still_then (outputsExist_still _) lasting (fun exist => ?_)
        fun _ _ held => ⟨held, trivial⟩
      split
      · exact .pure fun _ held => ⟨held.1, trivial⟩
      · split
        · exact .pure fun _ held => ⟨held.1, trivial⟩
        · exact .pure fun _ held => held

private theorem tryMemoHit_follows (work : WorkItem) (lasting : Lasting P) :
    Follows (Fits host) P (tryMemoHit runId work.module work : HostAct host _) fun past r =>
      P past ∧ Hits past work r := by
  refine (memoDigest_follows work lasting).bind (fun digest => ?_) fun _ _ held => ⟨held.1, trivial⟩
  split
  · exact .pure fun _ held => ⟨held.1, trivial⟩
  · split
    · exact .pure fun _ held => ⟨held.1, trivial⟩
    · exact lookupMemo_follows lasting

theorem commitOutputs_follows {work : WorkItem} {outputs : List NamedArtifact} {P' : Told → Prop}
    (lasting : Lasting P) (known : ∀ past, P' past → P past ∧ Handed host past runId work ∧
      (Produced host past work outputs ∨ Cached past work outputs)) :
    Follows (Fits host) P' (commitOutputs runId work outputs : HostAct host Unit)
      fun past _ => P past := by
  refine Follows.bind (R := fun past _ => P past) (.bind (R := fun past _ => P past)
    (.ask fun past answer held => ?_) (fun answer => calm_follows (fromKernel_keeps _) lasting)
    fun _ _ held => held) (fun _ => .pure fun _ held => held) fun _ _ held => held
  obtain ⟨start, handed, source⟩ := known past held
  exact ⟨⟨work, handed, rfl, source⟩, lasting past _ start⟩

private theorem commitMemoHit_follows {work : WorkItem} {outputs : List NamedArtifact}
    (step : StepContext) (key source : String) (lasting : Lasting P)
    (known : ∀ past, P past → Handed host past runId work) :
    Follows (Fits host) (fun past => P past ∧ Cached past work outputs)
      (commitMemoHit runId work.module work step key outputs source : HostAct host Unit)
      fun past _ => P past :=
  still_then (emitPresentation_still _ _) lasting (fun _ =>
    (commitOutputs_follows lasting fun past held =>
      ⟨held.1, known past held.1, .inr held.2⟩).bind
        (fun _ => calm_then (modify_calm _) lasting (fun _ =>
          calm_follows (applyStepStorage_calm _ _ _ _) lasting) fun _ _ held => held)
        fun _ _ held => held) fun _ _ held => held

private theorem storeMemoAfterSuccess_follows {work : WorkItem} {outputs : List NamedArtifact}
    (lasting : Lasting P) (known : ∀ past, P past → Handed host past runId work ∧
      Produced host past work outputs) :
    Follows (Fits host) P
      (storeMemoAfterSuccess runId work.module work outputs : HostAct host Unit)
      fun past _ => P past := by
  refine (memoDigest_follows work lasting).bind (fun digest => ?_) fun _ _ held => held.1
  split
  · exact .pure fun _ held => held.1
  · rename_i digest
    split
    · exact .pure fun _ held => held.1
    · refine Follows.bind (R := fun past _ => P past) (.ask fun past answer held => ⟨?_,
        lasting past _ held.1⟩) (fun _ => calm_follows (fromFramework_keeps _) lasting)
        fun _ _ held => held
      obtain ⟨handed, executed⟩ := known past held.1
      exact ⟨runId, work, digest, outputs, handed, held.2.digested, executed, rfl⟩

/-- The outputs that a put of all values has named. -/
def AllStored (host : Host) (past : Told) (module : String) (outs : List PortBody) :
    Except FrameworkError (List NamedArtifact) → Prop
  | .ok named => List.Forall₂ (Stored host past module) outs named
  | .error _ => True

theorem putOutputs_follows (module : String) (outs : List PortBody) (lasting : Lasting P)
    (returned : ∀ past, P past → ∀ out ∈ outs, Returned past module out) :
    Follows (Fits host) P (putOutputs module outs : HostAct host (List NamedArtifact))
      fun past r => P past ∧ AllStored host past module outs r := by
  induction outs generalizing P with
  | nil => exact .pure fun _ held => ⟨held, .nil⟩
  | cons out rest ih =>
      have put : Follows (Fits host) P (putArtifact (outputArtifact module out) : HostAct host _)
          fun past r => P past ∧ ∀ ref, r = .ok ref →
            Stored host past module out { name := out.port, artifact := some ref } := by
        refine Follows.bind (R := fun past (r : Except FrameworkError _) => P past ∧
          ∀ ref, r = .ok (.ok ref) →
            Stored host past module out { name := out.port, artifact := some ref })
          (.ask fun past answer held => ⟨trivial, lasting past _ held, ?_⟩) (fun answer => ?_)
          fun _ _ held => ⟨held.1, fun _ same => by cases same⟩
        · rintro ref same
          obtain rfl := Except.ok.inj same
          exact ⟨rfl, ref, past, [], rfl, returned past held out List.mem_cons_self, rfl⟩
        · cases (answer : Except KernelError ArtifactRef) with
          | error e => exact .throw fun _ held => ⟨held.1, fun _ same => by cases same⟩
          | ok ref =>
              refine .pure fun _ held => ⟨held.1, ?_⟩
              rintro _ ⟨⟩
              exact held.2 ref rfl
      refine put.bind (fun ref => ?_) fun _ _ held => ⟨held.1, trivial⟩
      have stored : Lasting fun past =>
          Stored host past module out { name := out.port, artifact := some ref } :=
        stored_lasting module out _
      refine Follows.mono (P := fun past => P past ∧
        Stored host past module out { name := out.port, artifact := some ref }) ?_
        (fun past held => ⟨held.1, held.2 ref rfl⟩) fun _ _ held => held
      refine (ih (lasting.and stored) fun past held other member =>
        returned past held.1 other (List.mem_cons_of_mem _ member)).bind
          (fun named => .pure fun past held => ⟨held.1.1, .cons held.1.2 held.2⟩)
          fun _ _ held => ⟨held.1.1, trivial⟩

private theorem commitStepSuccess_follows {work : WorkItem} {output : StepOutput}
    (step : StepContext) (lasting : Lasting P)
    (known : ∀ past, P past → Handed host past runId work ∧ Ran past work output) :
    Follows (Fits host) P
      (commitStepSuccess runId work.module work step output : HostAct host Unit)
      fun past _ => P past := by
  refine (putOutputs_follows work.module output.outputs lasting fun past held out member =>
    ⟨work, output, rfl, (known past held).2, member⟩).bind (fun outputs => ?_)
    fun _ _ held => held.1
  have lasts : Lasting fun past => P past ∧
      AllStored host past work.module output.outputs (.ok outputs) :=
    lasting.and (allStored_lasting _ _ _)
  have executed (past : Told)
      (held : P past ∧ AllStored host past work.module output.outputs (.ok outputs)) :
      Handed host past runId work ∧ Produced host past work outputs :=
    ⟨(known past held.1).1, output, (known past held.1).2, held.2⟩
  refine calm_then (requirePlugin_keeps _) lasts (fun _ => ?_) fun _ _ held => held.1
  refine calm_then (ask_calm rfl) lasts (fun _ => ?_) fun _ _ held => held.1
  refine calm_then (emitOptional_calm _ _) lasts (fun _ => ?_) fun _ _ held => held.1
  refine (commitOutputs_follows lasts fun past held =>
    ⟨held, (executed past held).1, .inl (executed past held).2⟩).bind (fun _ => ?_)
      fun _ _ held => held.1
  refine (storeMemoAfterSuccess_follows lasts executed).bind (fun _ => ?_) fun _ _ held => held.1
  exact (calm_follows (applyStepStorage_calm _ _ _ _) lasting).mono (fun _ held => held.1)
    fun _ _ held => held

/-- The plugin of a unit ran when its outcome is a success. -/
def RanIfOk (past : Told) (work : WorkItem) (executed : Executed) : Prop :=
  ∀ output, executed.outcome = .ok output → Ran past work output

omit [Sha256] in
theorem ranIfOk_lasting (work : WorkItem) (executed : Executed) :
    Lasting fun past => RanIfOk past work executed :=
  .all fun output past rest held same => ran_lasting work output past rest (held same)

private theorem settleStep_follows {work : WorkItem} {executed : Executed} (lasting : Lasting P)
    (known : ∀ past, P past → Handed host past runId work ∧ RanIfOk past work executed) :
    Follows (Fits host) P (settleStep runId work executed : HostAct host Unit)
      fun past _ => P past := by
  unfold settleStep
  split
  · rename_i output same
    exact commitStepSuccess_follows _ lasting fun past held =>
      ⟨(known past held).1, (known past held).2 output same⟩
  · exact calm_follows (failStep_calm _ _ _ _ _) lasting

theorem executeStep_follows {work : WorkItem} {step : StepContext} (mine : step.work = work)
    (lasting : Lasting P) :
    Follows (Fits host) P (executeStep work.module step : HostAct host Executed) fun past r =>
      P past ∧ ∀ executed, r = .ok executed → RanIfOk past work executed := by
  refine (ask_follows rfl lasting).bind (fun answer => .pure ?_)
    fun _ _ held => ⟨held.1, fun _ same => by cases same⟩
  rintro past ⟨held, told⟩
  refine ⟨held, ?_⟩
  rintro _ ⟨⟩ output same
  obtain ⟨after, outcome⟩ := (answer : StepContext × Except FrameworkError StepOutput)
  obtain rfl : outcome = .ok output := same
  exact ⟨step, after, mine, told⟩

omit [Sha256] in
private theorem loadStep_mine (work : WorkItem) :
    Upholds (fun _ r => ∀ step, r = .ok step → step.work = work)
      (loadStep runId work : HostAct host StepContext) := by
  refine .last (fun inputs => .pure ?_) fun _ _ same => by cases same
  rintro _ ⟨⟩
  rfl

theorem loadStep_follows (work : WorkItem) (lasting : Lasting P) :
    Follows (Fits host) P (loadStep runId work : HostAct host StepContext) fun past r =>
      P past ∧ ∀ step, r = .ok step → step.work = work :=
  .freeKnown ((loadStep_still runId work).mono fun _ => calm_of_still) (loadStep_mine work) fits_calm
    lasting

private theorem finishWorkUnit_follows {work : WorkItem} (lasting : Lasting P)
    (known : ∀ past, P past → Handed host past runId work) :
    Follows (Fits host) P (finishWorkUnit runId work : HostAct host Unit) fun past _ => P past := by
  refine (loadStep_follows work lasting).bind (fun step => ?_) fun _ _ held => held.1
  by_cases mine : step.work = work
  case neg => exact fun past held => absurd (held.2 step rfl) mine
  refine Follows.mono ?_ (fun _ held => held.1) fun _ _ held => held
  refine (tryMemoHit_follows work lasting).bind (fun hit => ?_) fun _ _ held => held.1
  split
  · rename_i key outputs source
    exact commitMemoHit_follows step key source lasting known
  · refine Follows.mono ?_ (fun _ held => held.1) fun _ _ held => held
    refine calm_then (requirePlugin_keeps _) lasting (fun _ => ?_) fun _ _ held => held
    refine calm_then (ask_calm rfl) lasting (fun _ => ?_) fun _ _ held => held
    refine calm_then (emitOptional_calm _ _) lasting (fun _ => ?_) fun _ _ held => held
    refine (executeStep_follows mine lasting).bind (fun executed => ?_) fun _ _ held => held.1
    have lasts := lasting.and (ranIfOk_lasting work executed)
    refine Follows.mono (P := fun past => P past ∧ RanIfOk past work executed) ?_
      (fun _ held => ⟨held.1, held.2 executed rfl⟩) fun _ _ held => held
    refine calm_then (modify_calm _) lasts (fun _ => ?_) fun _ _ held => held.1
    refine calm_then (.forM fun _ _ => emitPresentation_calm _ _) lasts (fun _ => ?_)
      fun _ _ held => held.1
    exact (settleStep_follows lasts fun past held => ⟨known past held.1, held.2⟩).mono
      (fun _ held => held) fun _ _ held => held.1

private theorem prepareUnits_follows {items : List WorkItem} (lasting : Lasting P)
    (known : ∀ past, P past → ∀ work ∈ items, Handed host past runId work) :
    Follows (Fits host) P (prepareUnits runId items : HostAct host (List Deferred)) fun past r =>
      P past ∧ ∀ units, r = .ok units → ∀ unit ∈ units,
        unit.work ∈ items ∧ unit.step.work = unit.work := by
  induction items with
  | nil =>
      refine .pure fun _ held => ⟨held, ?_⟩
      rintro _ ⟨⟩ unit member
      cases member
  | cons work rest ih =>
      have ih := ih fun past held other member =>
        known past held other (List.mem_cons_of_mem _ member)
      refine (tryMemoHit_follows work lasting).bind (fun hit => ?_)
        fun _ _ held => ⟨held.1, fun _ same => by cases same⟩
      split
      · rename_i key outputs source
        refine Follows.mono (P := fun past => P past ∧ Cached past work outputs) ?_
          (fun _ held => held) fun _ _ held => held
        refine still_then (loadStep_still _ _) lasting (fun step => ?_)
          fun _ _ held => ⟨held, fun _ same => by cases same⟩
        refine (commitMemoHit_follows step key source lasting fun past held =>
          known past held work List.mem_cons_self).bind (fun _ => ?_)
            fun _ _ held => ⟨held, fun _ same => by cases same⟩
        refine ih.mono (fun _ held => held) fun past r held =>
          ⟨held.1, fun units same unit member => ?_⟩
        obtain ⟨listed, mine⟩ := held.2 units same unit member
        exact ⟨List.mem_cons_of_mem _ listed, mine⟩
      · refine Follows.mono ?_ (fun _ held => held.1) fun _ _ held => held
        refine calm_then (requirePlugin_keeps _) lasting (fun _ => ?_)
          fun _ _ held => ⟨held, fun _ same => by cases same⟩
        refine (loadStep_follows work lasting).bind (fun step => ?_)
          fun _ _ held => ⟨held.1, fun _ same => by cases same⟩
        by_cases mine : step.work = work
        case neg => exact fun past held => absurd (held.2 step rfl) mine
        refine Follows.mono ?_ (fun _ held => held.1) fun _ _ held => held
        refine calm_then (ask_calm rfl) lasting (fun shown => ?_)
          fun _ _ held => ⟨held, fun _ same => by cases same⟩
        refine ih.bind (fun deferred => .pure ?_)
          fun _ _ held => ⟨held.1, fun _ same => by cases same⟩
        rintro past ⟨held, others⟩
        refine ⟨held, ?_⟩
        rintro _ ⟨⟩ unit member
        rcases List.mem_cons.mp member with rfl | later
        · exact ⟨List.mem_cons_self, mine⟩
        · obtain ⟨listed, same⟩ := others deferred rfl unit later
          exact ⟨List.mem_cons_of_mem _ listed, same⟩

private theorem executeUnits_follows {units : List Deferred} (lasting : Lasting P)
    (mine : ∀ unit ∈ units, unit.step.work = unit.work) :
    Follows (Fits host) P (executeUnits units : HostAct host (List (Deferred × Executed)))
      fun past r => P past ∧ ∀ outcomes, r = .ok outcomes → ∀ o ∈ outcomes,
        o.1 ∈ units ∧ RanIfOk past o.1.work o.2 := by
  induction units generalizing P with
  | nil =>
      refine .pure fun _ held => ⟨held, ?_⟩
      rintro _ ⟨⟩ o member
      cases member
  | cons unit rest ih =>
      refine (executeStep_follows (mine unit List.mem_cons_self) lasting).bind (fun executed => ?_)
        fun _ _ held => ⟨held.1, fun _ same => by cases same⟩
      have lasts := lasting.and (ranIfOk_lasting unit.work executed)
      refine Follows.mono (P := fun past => P past ∧ RanIfOk past unit.work executed) ?_
        (fun _ held => ⟨held.1, held.2 executed rfl⟩) fun _ _ held => held
      refine (ih lasts fun other member => mine other (List.mem_cons_of_mem _ member)).bind
        (fun others => .pure ?_) fun _ _ held => ⟨held.1.1, fun _ same => by cases same⟩
      rintro past ⟨⟨held, ran⟩, later⟩
      refine ⟨held, ?_⟩
      rintro _ ⟨⟩ o member
      rcases List.mem_cons.mp member with rfl | among
      · exact ⟨List.mem_cons_self, ran⟩
      · obtain ⟨listed, ranToo⟩ := later others rfl o among
        exact ⟨List.mem_cons_of_mem _ listed, ranToo⟩

private theorem settleUnit_follows {outcome : Deferred × Executed} (lasting : Lasting P)
    (known : ∀ past, P past → Handed host past runId outcome.1.work ∧
      RanIfOk past outcome.1.work outcome.2) :
    Follows (Fits host) P (settleUnit runId outcome : HostAct host Unit) fun past _ => P past := by
  refine calm_then (modify_calm _) lasting (fun _ => ?_) fun _ _ held => held
  refine calm_then (emitOptional_calm _ _) lasting (fun _ => ?_) fun _ _ held => held
  refine calm_then (.forM fun _ _ => emitPresentation_calm _ _) lasting (fun _ => ?_)
    fun _ _ held => held
  exact settleStep_follows lasting known

private theorem finishWorkUnitsParallel_follows {items : List WorkItem} (lasting : Lasting P)
    (known : ∀ past, P past → ∀ work ∈ items, Handed host past runId work) :
    Follows (Fits host) P (finishWorkUnitsParallel runId items : HostAct host Unit)
      fun past _ => P past := by
  refine (prepareUnits_follows lasting known).bind (fun deferred => ?_) fun _ _ held => held.1
  by_cases mine : ∀ unit ∈ deferred, unit.work ∈ items ∧ unit.step.work = unit.work
  case neg => exact fun past held => absurd (held.2 deferred rfl) mine
  refine Follows.mono ?_ (fun _ held => held.1) fun _ _ held => held
  refine (executeUnits_follows lasting fun unit member => (mine unit member).2).bind
    (fun outcomes => ?_) fun _ _ held => held.1
  have lasts : Lasting fun past => P past ∧ ∀ o ∈ outcomes, RanIfOk past o.1.work o.2 :=
    lasting.and (.all fun o => .all fun _ => ranIfOk_lasting o.1.work o.2)
  by_cases listed : ∀ o ∈ outcomes, o.1 ∈ deferred
  case neg =>
    exact fun past held => absurd (fun o member => (held.2 outcomes rfl o member).1) listed
  refine Follows.mono (P := fun past => P past ∧ ∀ o ∈ outcomes, RanIfOk past o.1.work o.2) ?_
    (fun _ held => ⟨held.1, fun o member => (held.2 outcomes rfl o member).2⟩)
    fun past r (held : P past ∧ ∀ o ∈ outcomes, RanIfOk past o.1.work o.2) => held.1
  exact .forM fun o member => settleUnit_follows lasts fun past held =>
    ⟨known past held.1 _ (mine o.1 (listed o member)).1, held.2 o member⟩

theorem claimReady_follows (runId : String) (req : ClaimRequest)
    (here : req.runId = runId) :
    Follows (Fits host) (fun _ => True) (claimReady req : HostAct host (Claimed req)) fun past r =>
      ∀ resp, r = .ok resp → ∀ work ∈ resp.1.items, Handed host past runId work := by
  refine (ask_follows rfl fun _ _ held => held).bind (fun answer => ?_)
    fun _ _ _ _ same => by cases same
  cases (answer : Except KernelError (Claimed req)) with
  | error e => exact .throw fun _ _ _ same => by cases same
  | ok resp =>
      refine .pure fun past held => ?_
      rintro _ ⟨⟩ work member
      exact ⟨req, resp, held.2, here, member⟩

omit [Sha256] in
theorem allHanded_lasting (items : List WorkItem) :
    Lasting fun past => ∀ work ∈ items, Handed host past runId work :=
  .all fun work => .all fun _ => handed_lasting runId work

theorem free_follows {x : HostAct host α} (quiet : Calm x) :
    Follows (Fits host) (fun _ => True) x fun _ _ => True :=
  calm_follows quiet fun _ _ held => held

private theorem startRun_follows (req : RunRequest) :
    Follows (Fits host) (fun _ => True) (startRun req : HostAct host Run) fun past r =>
      ∀ run, r = .ok run →
        (⟨.startRun req host.ctx, .ok run⟩ : Exchange Query Answer) ∈ past := by
  refine (ask_follows rfl fun _ _ held => held).bind (fun answer => ?_)
    fun _ _ _ _ same => by cases same
  cases (answer : Except KernelError Run) with
  | error e => exact .throw fun _ _ _ same => by cases same
  | ok run =>
      refine .pure fun past held => ?_
      rintro _ ⟨⟩
      exact held.2

private theorem driveClaimWave_follows (onePass : Bool) :
    Follows (Fits host) (fun _ => True) (driveClaimWave runId onePass : HostAct host Bool)
      fun _ _ => True := by
  refine (free_follows (policyOf_calm runId)).bind (fun policy => ?_) fun _ _ held => held
  refine (claimReady_follows runId _ ?_).bind (fun resp => ?_) fun _ _ _ => trivial
  · unfold waveClaim
    split <;> rfl
  · refine Follows.mono (P := fun past => ∀ work ∈ resp.1.items, Handed host past runId work) ?_
      (fun _ held => held resp rfl) fun _ _ held => held
    split
    · exact .pure fun _ _ => trivial
    · split
      · exact (Follows.forM fun work member => finishWorkUnit_follows (allHanded_lasting _)
          fun past held => held work member).bind (fun _ => .pure fun _ _ => trivial)
          fun _ _ _ => trivial
      · exact (finishWorkUnitsParallel_follows (allHanded_lasting _) fun _ held => held).bind
          (fun _ => .pure fun _ _ => trivial) fun _ _ _ => trivial

private theorem tryStep_follows (module : String) :
    Follows (Fits host) (fun _ => True) (tryStep runId module : HostAct host Bool)
      fun _ _ => True := by
  refine (claimReady_follows runId _ rfl).bind (fun resp => ?_) fun _ _ _ => trivial
  split
  · exact .pure fun _ _ => trivial
  · rename_i work rest listed
    refine Follows.mono (P := fun past => Handed host past runId work) ?_
      (fun _ held => held resp rfl work (listed ▸ List.mem_cons_self)) fun _ _ held => held
    exact (finishWorkUnit_follows (handed_lasting runId work) fun _ held => held).bind
      (fun _ => .pure fun _ _ => trivial) fun _ _ _ => trivial

private theorem driveUntilIdle_follows (fuel : Nat) :
    Follows (Fits host) (fun _ => True) (driveUntilIdle runId fuel : HostAct host (Option Run))
      fun _ _ => True := by
  induction fuel with
  | zero => exact .pure fun _ _ => trivial
  | succ fuel ih =>
      refine (free_follows (called_calm rfl)).bind (fun run => ?_) fun _ _ held => held
      split
      · exact .pure fun _ _ => trivial
      · refine (driveClaimWave_follows false).bind (fun found => ?_) fun _ _ held => held
        split
        · exact ih
        · exact (free_follows (called_calm rfl)).bind (fun _ => .pure fun _ _ => trivial)
            fun _ _ held => held

private theorem driveOnePass_follows :
    Follows (Fits host) (fun _ => True) (driveOnePass runId : HostAct host (Option Run))
      fun _ _ => True := by
  refine (free_follows (called_calm rfl)).bind (fun run => ?_) fun _ _ held => held
  split
  · exact .pure fun _ _ => trivial
  · exact (driveClaimWave_follows true).bind (fun _ => (free_follows (called_calm rfl)).bind
      (fun _ => .pure fun _ _ => trivial) fun _ _ held => held) fun _ _ held => held

private theorem driveWith_follows (fuel : Nat) (plan : DrivePlan) :
    Follows (Fits host) (fun _ => True) (driveWith fuel runId plan : HostAct host (Option Run))
      fun _ _ => True := by
  rw [driveWith_eq]
  refine Follows.bind (R := fun _ _ => True) ?_ (fun run => ?_) fun _ _ held => held
  · cases plan with
    | onePass => exact driveOnePass_follows
    | untilIdle => exact driveUntilIdle_follows fuel
    | untilIdleThenWait => exact driveUntilIdle_follows fuel
  · cases run with
    | none => exact .pure fun _ _ => trivial
    | some run =>
        rw [closeRun]
        split
        · exact (free_follows (finishRunStorage_calm runId)).bind
            (fun _ => .pure fun _ _ => trivial) fun _ _ held => held
        · exact .pure fun _ _ => trivial

theorem perform_follows (call : HostCall) :
    Follows (Fits host) (fun _ => True) (call.perform : HostAct host Unit) fun _ _ => True := by
  have ignored {α : Type} {x : HostAct host α} (follows : Follows (Fits host) (fun _ => True) x
      fun _ _ => True) : Follows (Fits host) (fun _ => True) (ignore x) fun _ _ => True :=
    follows.bind (fun _ => .pure fun _ _ => trivial) fun _ _ held => held
  cases call with
  | startPipeline id assembly inputs policy =>
      exact ignored (free_follows (startPipeline_calm id assembly inputs policy))
  | resumeAfter id prior node policy =>
      exact ignored (free_follows (resumeAfter_calm id prior node policy))
  | drive fuel id =>
      exact ignored ((free_follows (policyOf_calm id)).bind (fun _ => driveWith_follows fuel _)
        fun _ _ held => held)
  | driveWith fuel id plan => exact ignored (driveWith_follows fuel plan)
  | inject fuel id input after =>
      refine ignored ((free_follows (called_calm rfl)).bind (fun run => ?_) fun _ _ held => held)
      cases after with
      | no => exact .pure fun _ _ => trivial
      | untilIdle => exact driveWith_follows fuel _
      | onePass => exact driveWith_follows fuel _
  | tryStep id module => exact ignored (tryStep_follows module)
  | cancel id => exact ignored (free_follows (cancel_calm id))

theorem startPipeline_follows (id : String) (assembly : Assembly) (inputs : List NamedArtifact)
    (policy : FrameworkPolicy) :
    Follows (Fits host) (fun _ => True) (startPipeline id assembly inputs policy : HostAct host Run)
      fun past r => ∀ run, r = .ok run → ∃ req, req.id = id ∧
        (⟨.startRun req host.ctx, .ok run⟩ : Exchange Query Answer) ∈ past := by
  have refused {e : FrameworkError} {f : Told → Prop} : Follows (Fits host) f
      (throw e : HostAct host Run) fun past r => ∀ run, r = .ok run → ∃ req, req.id = id ∧
        (⟨.startRun req host.ctx, .ok run⟩ : Exchange Query Answer) ∈ past :=
    .throw fun _ _ _ same => by cases same
  unfold startPipeline
  split
  · exact refused
  · split
    · exact refused
    · refine (free_follows (policyOf_calm id)).bind (fun registered => ?_)
        fun _ _ _ _ same => by cases same
      split
      · exact refused
      · split
        · split
          · exact refused
          · refine (free_follows (fromFramework_keeps _)).bind (fun cut => ?_)
              fun _ _ _ _ same => by cases same
            refine (free_follows (fromFramework_keeps _)).bind (fun _ => ?_)
              fun _ _ _ _ same => by cases same
            refine (free_follows (.forM fun _ _ => emitPresentation_calm _ _)).bind (fun _ => ?_)
              fun _ _ _ _ same => by cases same
            refine (startRun_follows _).bind (fun run => ?_) fun _ _ _ _ same => by cases same
            have lasts := lasting_mem (⟨.startRun (pipelineRequest id cut.assembly inputs policy)
              host.ctx, .ok run⟩ : Exchange Query Answer)
            refine Follows.mono (P := fun past => (⟨.startRun (pipelineRequest id cut.assembly
              inputs policy) host.ctx, .ok run⟩ : Exchange Query Answer) ∈ past) ?_
              (fun _ held => held run rfl) fun _ _ held => held
            refine calm_then (ensureRunStorage_calm _ _) lasts (fun _ => ?_)
              fun _ _ _ _ same => by cases same
            refine calm_then (modify_calm _) lasts (fun _ => .pure fun past held => ?_)
              fun _ _ _ _ same => by cases same
            rintro _ ⟨⟩
            exact ⟨_, rfl, held⟩
        · exact refused

end Steps

theorem told_ignore {S α : Type} (env : Environment S Query Answer) (x : HostAct host α)
    (books : Books host) (w : S) :
    transcript env (start (ignore x) books) w = transcript env (start x books) w ∧
      (exec env (start (ignore x) books) w).1 = (exec env (start x books) w).1 := by
  rw [ignore, start_bind, transcript_bind, exec_bind]
  obtain ⟨_ | a, books'⟩ := (exec env (start x books) w).2
  · exact ⟨List.append_nil _, rfl⟩
  · exact ⟨List.append_nil _, rfl⟩

section History

variable {S : Type} (env : Environment S Query Answer)

/-- The exchanges of a session, call by call, each with the state in which it is made. -/
def history [Sha256] (session : Session host S) : List HostCall → List (S × Exchange Query Answer)
  | [] => []
  | call :: calls =>
      visits env (start (call.perform : HostAct host Unit) session.books) session.world ++
        history (session.after env call) calls

variable [Sha256]

/-- The exchanges of one call. -/
def segment (session : Session host S) (call : HostCall) : List (S × Exchange Query Answer) :=
  visits env (start (call.perform : HostAct host Unit) session.books) session.world

theorem segment_fits (session : Session host S) (call : HostCall) :
    Orderly (Fits host) [] ((segment env session call).map Prod.snd) := by
  rw [segment, visits_told]
  exact ((perform_follows call).told env _ _ [] trivial).1

theorem history_at {session : Session host S} {calls : List HostCall}
    {past rest : List (S × Exchange Query Answer)} {v : S × Exchange Query Answer}
    (split : history env session calls = past ++ v :: rest) :
    ∃ before call after first last, calls = before ++ call :: after ∧
      segment env (session.run env before) call = first ++ v :: last ∧
      past = history env session before ++ first := by
  induction calls generalizing session past with
  | nil => exact absurd split (by simp [history])
  | cons call calls ih =>
      change segment env session call ++ history env (session.after env call) calls = _ at split
      rcases List.append_eq_append_iff.mp split with ⟨more, here, later⟩ | ⟨more, here, later⟩
      · obtain ⟨before, call', after, first, last, rfl, there, rfl⟩ := ih later
        refine ⟨call :: before, call', after, first, last, rfl, there, ?_⟩
        rw [here, history, List.append_assoc]
        rfl
      · cases more with
        | nil =>
            rw [List.append_nil] at here
            rw [List.nil_append] at later
            obtain ⟨before, call', after, first, last, rfl, there, none⟩ := @ih _ [] later.symm
            refine ⟨call :: before, call', after, first, last, rfl, there, ?_⟩
            rw [history, List.append_assoc, ← none, List.append_nil]
            exact here.symm
        | cons v' more =>
            obtain ⟨rfl, rfl⟩ := List.cons.inj later
            exact ⟨[], call, calls, past, more, rfl, here, rfl⟩

theorem history_fits_at {session : Session host S} {calls : List HostCall}
    {past rest : List (S × Exchange Query Answer)} {v : S × Exchange Query Answer}
    (split : history env session calls = past ++ v :: rest) :
    ∃ before call after first last, calls = before ++ call :: after ∧
      segment env (session.run env before) call = first ++ v :: last ∧
      past = history env session before ++ first ∧ Fits host (first.map Prod.snd) v.2 := by
  obtain ⟨before, call, after, first, last, parts, here, sofar⟩ := history_at env split
  have fits := segment_fits env (session.run env before) call
  rw [here, List.map_append, List.map_cons] at fits
  exact ⟨before, call, after, first, last, parts, here, sofar, orderly_iff.mp fits _ _ _ rfl⟩

theorem history_fits (session : Session host S) (calls : List HostCall)
    (past : List (S × Exchange Query Answer)) :
    Orderly (fun past v => Fits host (past.map Prod.snd) v.2) past (history env session calls) := by
  induction calls generalizing session past with
  | nil => trivial
  | cons call calls ih =>
      refine orderly_append.mpr ⟨?_, ih _ _⟩
      rw [← orderly_map, visits_told]
      exact ((perform_follows call).told env _ _ _ trivial).1

variable {T : List (S × Exchange Query Answer) → S → Prop}
  {C D : List (S × Exchange Query Answer) → S × Exchange Query Answer → Prop}

/-- What follows from every allowed exchange of a session. -/
theorem history_follow (kept : ∀ past s q, C past (s, ⟨q, (env q s).2⟩) → T past s →
      D past (s, ⟨q, (env q s).2⟩) ∧ T (past ++ [(s, ⟨q, (env q s).2⟩)]) (env q s).1)
    (session : Session host S) (calls : List HostCall) (past : List (S × Exchange Query Answer))
    (allowed : Orderly C past (history env session calls)) (before : T past session.world) :
    Orderly D past (history env session calls) ∧
      T (past ++ history env session calls) (session.run env calls).world := by
  induction calls generalizing session past with
  | nil => exact ⟨trivial, by rwa [history, List.append_nil]⟩
  | cons call calls ih =>
      obtain ⟨first, rest⟩ := orderly_append.mp allowed
      obtain ⟨held, after⟩ := visits_follow env kept _ _ past first before
      obtain ⟨others, stop⟩ := ih (session.after env call) _ rest after
      rw [List.append_assoc] at stop
      exact ⟨orderly_append.mpr ⟨held, others⟩, stop⟩

theorem history_append (session : Session host S) (first second : List HostCall) :
    history env session (first ++ second) =
      history env session first ++ history env (session.run env first) second := by
  induction first generalizing session with
  | nil => rfl
  | cons call first ih =>
      rw [List.cons_append, history, history, ih, List.append_assoc]
      rfl

theorem told_snoc (session : Session host S) (calls : List HostCall) (call : HostCall) :
    (history env session (calls ++ [call])).map Prod.snd =
      (history env session calls).map Prod.snd ++ (session.run env calls).told env call := by
  rw [history_append, List.map_append, history, history, List.append_nil, visits_told]
  rfl

theorem run_snoc (session : Session host S) (calls : List HostCall) (call : HostCall) :
    session.run env (calls ++ [call]) = (session.run env calls).after env call := by
  rw [Session.run, List.foldl_append]
  rfl

end History

end Substrate.Protocol.Commits
