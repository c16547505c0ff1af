/- ID: Substrate/Protocol/Replay
   digest: The ledger alone, read entry by entry, rebuilds what the kernel holds. -/

import Substrate.Kernel.Concrete
import Substrate.Protocol.Chain
import Substrate.Protocol.Content
import Mathlib.Logic.Function.Basic

set_option autoImplicit false
set_option relaxedAutoImplicit false

namespace Substrate.Protocol.Replay

open Substrate.Kernel.Wire
open Substrate.Kernel.Hashing
open Substrate.Kernel.Memory
open Substrate.Kernel.Registry
open Substrate.Kernel.Store
open Substrate.Kernel.Runs
open Substrate.Kernel.Work
open Substrate.Kernel.Api
open Substrate.Protocol.Atoms
open Substrate.Protocol.Slots
open Substrate.Protocol.Refine
open Substrate.Protocol.Chain
open Substrate.Library.Checks (forM_eq_ok)
open Substrate.Library.FiniteMap
open Substrate.Library.Transition
open Function (update)

/-- A run as the ledger knows it: leases are left out. -/
@[ext]
structure RunView where
  run : Run
  done : Finset String := ∅
  attempts : String → Option UInt32 := fun _ => none
  inputEpochs : String → Option UInt64
  nodeCommits : String → Option UInt64 := fun _ => none
  claimed : String → Option WorkItem := fun _ => none

/-- The kernel as the ledger knows it. -/
@[ext]
structure View where
  modules : List ModuleSlot := []
  contracts : String → Option Contract := fun _ => none
  artifacts : String → Option Artifact := fun _ => none
  blobs : String × String → Option BlobRef := fun _ => none
  runs : String → Option RunView := fun _ => none
  derivations : List Derivation := []

def viewRun (slot : RunSlot) : RunView where
  run := slot.run
  done := slot.doneUnits
  attempts := fun key => slot.claimAttempts.lookup key
  inputEpochs := fun name => slot.inputEpochs.lookup name
  nodeCommits := fun node => slot.nodeCommits.lookup node
  claimed := fun id => (slot.claimed.lookup id).map fun c => ledgerWorkItem c.work

def view (s : State) : View where
  modules := s.modules
  contracts := fun ref => s.contracts.lookup ref
  artifacts := fun id => s.artifacts.lookup id
  blobs := fun key => (s.blobs.lookup key).map (·.ref)
  runs := fun id => (s.runs.lookup id).map viewRun
  derivations := s.derivations

/-- The message type a detail is decoded as. -/
inductive Schema
  | moduleManifest | contract | artifact | blobRef | event | run | namedArtifact | workItem
  | workFailure | derivation
  deriving DecidableEq

def Schema.of : Message → Schema
  | .moduleManifest _ => moduleManifest
  | .contract _ => contract
  | .artifact _ => artifact
  | .blobRef _ => blobRef
  | .event _ => event
  | .run _ => run
  | .namedArtifact _ => namedArtifact
  | .workItem _ => workItem
  | .workFailure _ => workFailure
  | .derivation _ => derivation

/-- The kernel's own kinds and what their details encode; lifecycle entries have empty details. -/
def kindTable : List (String × Option Schema) :=
  [("module.registered", some .moduleManifest), ("module.loaded", none), ("module.activated", none),
    ("module.deactivated", none), ("contract.registered", some .contract),
    ("artifact.put", some .artifact), ("blob.put", some .blobRef), ("event.published", some .event),
    ("run.started", some .run), ("run.progressed", some .run), ("run.completed", some .run),
    ("run.stalled", some .run), ("run.failed", some .run), ("run.cancelled", some .run),
    ("run.input_injected", some .namedArtifact), ("work.claimed", some .workItem),
    ("work.expired", some .workItem), ("work.failed", some .workFailure),
    ("derivation.committed", some .derivation)]

def kernelKinds : List String := kindTable.map (·.1)

/-- What an entry says happened. -/
inductive Fact
  | registered (manifest : ModuleManifest)
  | advanced (module : String) (target : Lifecycle)
  | contractStored (contract : Contract)
  | artifactStored (artifact : Artifact)
  | blobStored (ref : BlobRef)
  | started (run : Run)
  | changed (run : Run)
  | cancelled (run : Run)
  | inputInjected (runId : String) (input : NamedArtifact)
  | claimed (work : WorkItem)
  | expired (work : WorkItem)
  | failed (failure : WorkFailure)
  | committed (d : Derivation)

/-- What kind, subject and decoded detail say. -/
def factOf (kind subject : String) : Option Message → Option Fact
  | some (.moduleManifest m) => some (.registered m)
  | some (.contract c) => some (.contractStored c)
  | some (.artifact a) => some (.artifactStored a)
  | some (.blobRef b) => some (.blobStored b)
  | some (.event _) => none
  | some (.run r) =>
      some (if kind = "run.started" then .started r
        else if kind = "run.cancelled" then .cancelled r else .changed r)
  | some (.namedArtifact n) => some (.inputInjected subject n)
  | some (.workItem w) => some (if kind = "work.claimed" then .claimed w else .expired w)
  | some (.workFailure f) => some (.failed f)
  | some (.derivation d) => some (.committed d)
  | none =>
      if kind = "module.loaded" then some (.advanced subject .loaded)
      else if kind = "module.activated" then some (.advanced subject .active)
      else if kind = "module.deactivated" then some (.advanced subject .deactivated)
      else none

namespace RunView

/-- A run as `run.started` describes it. -/
def ofRun (run : Run) : RunView where
  run
  inputEpochs := run.inputs.foldl (fun epochs input => update epochs input.name (some 0)) fun _ => none

def inject (r : RunView) (input : NamedArtifact) : RunView :=
  { r with
    run := { r.run with inputs := admitInput input r.run.inputs }
    inputEpochs := update r.inputEpochs input.name
      (some (saturatingSucc ((r.inputEpochs input.name).getD 0))) }

def claim (r : RunView) (work : WorkItem) : RunView :=
  { r with
    attempts := update r.attempts work.unitKey (some work.attempt)
    claimed := update r.claimed work.id (some work) }

def release (r : RunView) (id : String) : RunView := { r with claimed := update r.claimed id none }

def fail (r : RunView) (failure : WorkFailure) : RunView :=
  { r.release failure.workId with
    done := if failure.terminal then insert failure.unitKey r.done else r.done }

def commit (r : RunView) (d : Derivation) : RunView :=
  { r.release d.workId with
    done := (r.claimed d.workId).elim r.done fun work => insert work.unitKey r.done
    nodeCommits := update r.nodeCommits d.nodeId (some ((r.nodeCommits d.nodeId).getD 0 + 1)) }

end RunView

def View.onRun (v : View) (runId : String) (f : RunView → RunView) : View :=
  { v with runs := update v.runs runId ((v.runs runId).map f) }

section Facts

variable [Sha256]

def nameContract (contracts : String → Option Contract) (ref : String) : String → Option Contract :=
  if ref = "" then contracts
  else if (contracts ref).isSome then contracts
  else update contracts ref (some (placeholder ref))

def Fact.apply (v : View) : Fact → View
  | registered manifest =>
      { v with
        modules := v.modules ++ [{ manifest, lifecycle := .registered }]
        contracts := (manifest.provides.flatMap portTraits).foldl nameContract v.contracts }
  | advanced name target => { v with modules := setLifecycle name target v.modules }
  | contractStored contract =>
      { v with contracts := update v.contracts contract.ref (some contract) }
  | artifactStored artifact =>
      { v with artifacts := update v.artifacts artifact.id (some artifact) }
  | blobStored ref => { v with blobs := update v.blobs (ref.space, ref.digest) (some ref) }
  | started run => { v with runs := update v.runs run.id (some (.ofRun run)) }
  | changed run => v.onRun run.id fun r => { r with run }
  | cancelled run => v.onRun run.id fun r => { r with run, claimed := fun _ => none }
  | inputInjected runId input => v.onRun runId (·.inject input)
  | claimed work => v.onRun work.runId (·.claim work)
  | expired work => v.onRun work.runId (·.release work.id)
  | failed failure => v.onRun failure.runId (·.fail failure)
  | committed d => { v.onRun d.runId (·.commit d) with derivations := v.derivations ++ [d] }

/-- One entry read from its kind, subject and decoded detail. -/
def replayEntry (v : View) (kind subject : String) (message : Option Message) : View :=
  (factOf kind subject message).elim v fun fact => fact.apply v

/-- A detail decoded as its kind says. -/
def decodeDetail (decode : Schema → Bytes → Option Message) (kind : String) (detail : Bytes) :
    Option Message :=
  ((kindTable.lookup kind).getD none).bind fun schema => decode schema detail

/-- The ledger folded from the empty kernel. -/
def replay (decode : Schema → Bytes → Option Message) (ledger : List LedgerEntry) : View :=
  ledger.foldl (fun v e => replayEntry v e.kind e.subject (decodeDetail decode e.kind e.detail)) {}

end Facts

/-- Decoding gives back what was encoded. -/
def Lossless [Prost] (decode : Schema → Bytes → Option Message) : Prop :=
  ∀ message, decode (.of message) (encodeToVec message) = some message

section Maps

variable {K V W : Type} [DecidableEq K]

theorem lookup_insert_update (m : KeyMap K V) (k : K) (v : V) :
    (fun j => (m.insert k v).lookup j) = update (fun j => m.lookup j) k (some v) := by
  funext j
  rw [lookup_insert_of, Function.update_apply]

theorem map_insert_update (g : V → W) (m : KeyMap K V) (k : K) (v : V) :
    (fun j => ((m.insert k v).lookup j).map g) =
      update (fun j => (m.lookup j).map g) k (some (g v)) := by
  funext j
  rw [lookup_insert_of, Function.update_apply]
  split_ifs <;> rfl

theorem map_erase_update (g : V → W) (m : KeyMap K V) (k : K) :
    (fun j => ((m.erase k).lookup j).map g) = update (fun j => (m.lookup j).map g) k none := by
  funext j
  rw [lookup_erase_of, Function.update_apply]
  split_ifs <;> rfl

theorem map_replace_update (g : V → W) {m : KeyMap K V} {k : K} {old : V}
    (found : m.lookup k = some old) (v : V) :
    (fun j => ((m.replace k v).lookup j).map g) =
      update (fun j => (m.lookup j).map g) k (some (g v)) := by
  funext j
  rw [lookup_replace found, Function.update_apply]
  split_ifs <;> rfl

end Maps

theorem viewRun_fresh (req : RunRequest) (assembly : Assembly) (maxSteps : UInt64) :
    viewRun (freshSlot req assembly maxSteps) =
      RunView.ofRun (freshSlot req assembly maxSteps).run := by
  have epochs : ∀ (inputs : List NamedArtifact) (m : KeyMap String UInt64),
      (fun name : String =>
        (inputs.foldl (fun epochs input => epochs.insert input.name 0) m).lookup name) =
        inputs.foldl (fun (epochs : String → Option UInt64) input =>
          update epochs input.name (some 0)) fun name => m.lookup name := by
    intro inputs
    induction inputs with
    | nil => exact fun m => rfl
    | cons input inputs ih =>
        intro m
        rw [List.foldl_cons, List.foldl_cons, ih, lookup_insert_update]
  refine RunView.ext rfl rfl rfl ?_ rfl rfl
  exact epochs req.inputs ∅

theorem viewRun_inject (slot : RunSlot) (input : NamedArtifact) :
    viewRun (injectSlot slot input) = (viewRun slot).inject input :=
  RunView.ext rfl rfl rfl (lookup_insert_update _ _ _) rfl rfl

theorem viewRun_claim (slot : RunSlot) (work : WorkItem) :
    viewRun (claimSlot slot work) = (viewRun slot).claim (ledgerWorkItem work) :=
  RunView.ext rfl rfl (lookup_insert_update _ _ _) rfl rfl (map_insert_update _ _ _ _)

theorem viewRun_renew (slot : RunSlot) (leaseUntil : Int64) (id : String) :
    viewRun (renewClaim leaseUntil slot id) = viewRun slot := by
  cases held : slot.claimed.lookup id with
  | none => rw [renewClaim, held]
  | some c =>
      rw [renewClaim, held]
      refine RunView.ext rfl rfl rfl rfl rfl ?_
      refine (map_replace_update _ held _).trans ?_
      funext other
      rw [Function.update_apply]
      split_ifs with same
      · rw [same]
        show _ = (slot.claimed.lookup id).map _
        rw [held]
        rfl
      · rfl

theorem viewRun_claimed {slot : RunSlot} {id : String} {c : ClaimedSlot}
    (held : slot.claimed.lookup id = some c) :
    (viewRun slot).claimed id = some (ledgerWorkItem c.work) := by
  show (slot.claimed.lookup id).map _ = _
  rw [held]
  rfl

theorem viewRun_expire (slot : RunSlot) (id : String) (c : ClaimedSlot) :
    viewRun (expireClaim slot (id, c)) =
      { (viewRun slot).release id with
        done := if slot.maxAttempts ≤ c.attempt then insert c.unitKey slot.doneUnits
          else slot.doneUnits } :=
  RunView.ext rfl rfl rfl rfl rfl (map_erase_update _ _ _)

theorem viewRun_fail (slot : RunSlot) (runId id reason : String) (c : ClaimedSlot)
    (terminal : Bool) : viewRun (failSlot slot id c terminal) =
      (viewRun slot).fail
        { runId, workId := id, unitKey := c.unitKey, reason, terminal, attempt := c.attempt } :=
  RunView.ext rfl rfl rfl rfl rfl (map_erase_update _ _ _)

theorem viewRun_cancel (slot : RunSlot) :
    viewRun (cancelSlot slot) =
      { viewRun slot with run := (cancelSlot slot).run, claimed := fun _ => none } :=
  RunView.ext rfl rfl rfl rfl rfl rfl

section Calls

variable [Sha256]

theorem viewRun_commit {modules : List ModuleSlot} {runId : String} {slot : RunSlot}
    {c : ClaimedSlot} (held : slot.claimed.lookup c.work.id = some c)
    (claim : ClaimMatches runId slot c.work.id c) (outputs : List NamedArtifact) :
    viewRun ((SlotAct.commit c outputs).apply modules slot) =
      { (viewRun slot).commit (derivationOf c.work outputs) with
        run := ((SlotAct.commit c outputs).apply modules slot).run } := by
  have unit : (viewRun slot).claimed c.work.id = some (ledgerWorkItem c.work) :=
    viewRun_claimed held
  refine RunView.ext rfl ?_ ?_ ?_ ?_ ?_
  · show (settleSlot _ _).doneUnits = ((viewRun slot).claimed c.work.id).elim _ _
    rw [settleSlot_doneUnits, unit]
    show insert c.unitKey slot.doneUnits = insert c.work.unitKey slot.doneUnits
    rw [claim.unitKey]
  · funext key
    show (settleSlot _ _).claimAttempts.lookup key = _
    rw [settleSlot_claimAttempts]
    rfl
  · funext name
    show (settleSlot _ _).inputEpochs.lookup name = _
    rw [settleSlot_inputEpochs]
    rfl
  · refine Eq.trans ?_ (lookup_insert_update slot.nodeCommits c.work.nodeId
      ((slot.nodeCommits.lookup c.work.nodeId).getD 0 + 1))
    funext node
    show (settleSlot _ _).nodeCommits.lookup node = _
    rw [settleSlot_nodeCommits]
    rfl
  · refine Eq.trans ?_ (map_erase_update (fun c : ClaimedSlot => ledgerWorkItem c.work)
      slot.claimed c.work.id)
    funext id
    show ((settleSlot _ _).claimed.lookup id).map _ = _
    rw [settleSlot_claimed]
    rfl

variable [Prost]

/-- The entries an atom leaves in the ledger. -/
def entriesOf (s : State) : Atom → List Record
  | .registered manifest =>
      [("module.registered", manifest.name, encodeToVec (.moduleManifest manifest))]
  | .advanced name target => [("module." ++ lifecycleVerb target, name, [])]
  | .artifactStored artifact =>
      [("artifact.put", artifact.id, encodeToVec (.artifact (clearExternalBodies artifact)))]
  | .blobStored slot => [("blob.put", slot.ref.digest, encodeToVec (.blobRef slot.ref))]
  | .contractStored contract =>
      [("contract.registered", contract.ref, encodeToVec (.contract contract))]
  | .published event =>
      [("event.published", event.topic, encodeToVec (.event { event with seq := s.eventSeq + 1 }))]
  | .appended req => [(req.kind, req.subject, req.detail)]
  | .started slot => [("run.started", slot.run.id, encodeToVec (.run slot.run))]
  | .acted runId a =>
      match s.runs.lookup runId with
      | some slot => a.records runId slot (a.apply s.modules slot)
      | none => []
  | .remembered _ _ => []

theorem ledger_apply (s : State) (a : Atom) :
    (a.apply s).ledger = extend s.ledger (entriesOf s a) := by
  cases a with
  | acted runId act =>
      simp only [Atom.apply, entriesOf]
      cases s.runs.lookup runId with
      | none => rfl
      | some slot =>
          simp only
          rw [recordAll_eq]
  | _ => rfl

/-- One record read with a decoder. -/
def replayRecord (decode : Schema → Bytes → Option Message) (v : View) (r : Record) : View :=
  replayEntry v r.1 r.2.1 (decodeDetail decode r.1 r.2.2)

omit [Prost] in
theorem replay_extend (decode : Schema → Bytes → Option Message) (ledger : List LedgerEntry)
    (records : List Record) :
    replay decode (extend ledger records) =
      records.foldl (replayRecord decode) (replay decode ledger) := by
  induction records generalizing ledger with
  | nil => rfl
  | cons r records ih =>
      rw [extend, List.foldl_cons, ← extend, ih, List.foldl_cons]
      unfold replay
      rw [List.foldl_append]
      rfl

variable {decode : Schema → Bytes → Option Message}

theorem replayRecord_encoded (lossless : Lossless decode) {kind : String} {m : Message}
    (typed : kindTable.lookup kind = some (some (.of m))) (v : View) (subject : String) :
    replayRecord decode v (kind, subject, encodeToVec m) =
      (factOf kind subject (some m)).elim v fun fact => fact.apply v := by
  unfold replayRecord replayEntry decodeDetail
  simp only [typed, Option.getD_some, Option.bind_some, lossless m]

omit [Prost] in
theorem replayRecord_foreign {kind : String} (foreign : kind ∉ kernelKinds) (v : View)
    (subject : String) (detail : Bytes) :
    replayRecord decode v (kind, subject, detail) = v := by
  have unknown : kindTable.lookup kind = none := by
    rw [List.lookup_eq_none_iff]
    intro entry member
    refine bne_iff_ne.mpr ?_
    rintro rfl
    exact foreign (List.mem_map.mpr ⟨entry, member, rfl⟩)
  have others : kind ≠ "module.loaded" ∧ kind ≠ "module.activated" ∧
      kind ≠ "module.deactivated" := by
    refine ⟨?_, ?_, ?_⟩
    all_goals
      rintro rfl
      revert foreign
      decide
  unfold replayRecord replayEntry decodeDetail
  simp only [unknown, Option.getD_none, Option.bind_none, factOf, others, if_false, Option.elim]

def View.setRun (v : View) (runId : String) (r : RunView) : View :=
  { v with runs := update v.runs runId (some r) }

omit [Sha256] [Prost] in
theorem View.onRun_eq {v : View} {runId : String} {r : RunView} (found : v.runs runId = some r)
    (f : RunView → RunView) : v.onRun runId f = v.setRun runId (f r) := by
  unfold View.onRun View.setRun
  rw [found]
  rfl

omit [Sha256] [Prost] in
theorem View.setRun_self {v : View} {runId : String} {r : RunView} (found : v.runs runId = some r) :
    v.setRun runId r = v := by
  unfold View.setRun
  rw [← found, Function.update_eq_self]

omit [Sha256] [Prost] in
@[simp] theorem View.setRun_runs (v : View) (runId : String) (r : RunView) :
    (v.setRun runId r).runs runId = some r :=
  Function.update_self _ _ _

omit [Sha256] [Prost] in
@[simp] theorem View.setRun_setRun (v : View) (runId : String) (r r' : RunView) :
    (v.setRun runId r).setRun runId r' = v.setRun runId r' := by
  unfold View.setRun
  simp only [Function.update_idem]

private theorem replay_run (lossless : Lossless decode) {kind : String} {v : View} {runId : String}
    {r : RunView} (run : Run) (typed : kindTable.lookup kind = some (some .run))
    (later : kind ≠ "run.started") (found : v.runs runId = some r) (id : run.id = runId)
    (subject : String) :
    replayRecord decode v (kind, subject, encodeToVec (.run run)) =
      v.setRun runId (if kind = "run.cancelled" then { r with run, claimed := fun _ => none }
        else { r with run }) := by
  rw [replayRecord_encoded (m := .run run) lossless typed]
  subst id
  simp only [factOf, later, if_false]
  split_ifs
  · exact View.onRun_eq found _
  · exact View.onRun_eq found _

omit [Sha256] [Prost] in
theorem closureKind_kind (state : RunState) :
    kindTable.lookup (closureKind state) = some (some .run) ∧ closureKind state ≠ "run.started" ∧
      closureKind state ≠ "run.cancelled" := by
  cases state <;> decide

theorem replay_act (lossless : Lossless decode) {modules : List ModuleSlot}
    {artifacts : KeyMap String Artifact} {runId : String} {slot : RunSlot} {a : SlotAct}
    (guard : a.enabled modules artifacts runId slot) (shape : SlotShape runId slot) {v : View}
    (found : v.runs runId = some (viewRun slot)) :
    (a.records runId slot (a.apply modules slot)).foldl (replayRecord decode) v =
      { v.setRun runId (viewRun (a.apply modules slot)) with
        derivations := v.derivations ++ a.derivation } := by
  have named : (a.apply modules slot).run.id = runId := (apply_terms modules slot a).id.trans shape.id
  cases a with
  | inject input =>
      rw [SlotAct.records, List.foldl_cons, List.foldl_nil,
        replayRecord_encoded (m := .namedArtifact input) lossless rfl, named]
      simp only [SlotAct.apply, SlotAct.derivation, List.append_nil, viewRun_inject]
      exact View.onRun_eq found _
  | claim work =>
      obtain ⟨-, env, node, -, inputs, unitKey, -, rfl⟩ := guard
      rw [SlotAct.records, List.foldl_cons, List.foldl_nil, claimedRecord,
        replayRecord_encoded (m := .workItem _) lossless rfl]
      simp only [SlotAct.apply, SlotAct.derivation, List.append_nil, viewRun_claim]
      exact View.onRun_eq found _
  | renew id leaseUntil =>
      simp only [SlotAct.records, SlotAct.apply, SlotAct.derivation, List.foldl_nil, viewRun_renew,
        List.append_nil, View.setRun_self found]
  | expire id c =>
      have claim := shape.claims id c guard
      have expired : replayRecord decode v
          ("work.expired", id, encodeToVec (.workItem (ledgerWorkItem c.work))) =
            v.setRun runId ((viewRun slot).release id) := by
        rw [replayRecord_encoded (m := .workItem _) lossless rfl]
        show v.onRun c.work.runId (·.release c.work.id) = _
        rw [claim.runId, claim.id]
        exact View.onRun_eq found _
      rw [SlotAct.records, expiryRecords, List.foldl_cons, expired]
      simp only [SlotAct.apply, SlotAct.derivation, List.append_nil, viewRun_expire]
      split_ifs with exhausted
      · rw [List.foldl_cons, List.foldl_nil,
          replayRecord_encoded (m := .workFailure _) lossless rfl]
        refine (View.onRun_eq (View.setRun_runs _ _ _) _).trans ?_
        rw [View.setRun_setRun]
        refine congrArg (v.setRun runId) (RunView.ext rfl rfl rfl rfl rfl ?_)
        exact Function.update_idem _ _ _
      · rfl
  | fail id c reason terminal =>
      rw [SlotAct.records, List.foldl_cons, List.foldl_nil,
        replayRecord_encoded (m := .workFailure _) lossless rfl]
      simp only [SlotAct.apply, SlotAct.derivation, List.append_nil, viewRun_fail slot runId _ reason]
      exact View.onRun_eq found _
  | commit c outputs =>
      have claim := shape.claims c.work.id c guard.1
      have committed : replayRecord decode v ("derivation.committed", (derivationOf c.work outputs).id,
          encodeToVec (.derivation (derivationOf c.work outputs))) =
            { v.setRun runId ((viewRun slot).commit (derivationOf c.work outputs)) with
              derivations := v.derivations ++ [derivationOf c.work outputs] } := by
        rw [replayRecord_encoded (m := .derivation _) lossless rfl]
        show ({ v.onRun c.work.runId _ with derivations := _ } : View) = _
        rw [claim.runId, View.onRun_eq found]
      obtain ⟨typed, later, open'⟩ :=
        closureKind_kind ((SlotAct.commit c outputs).apply modules slot).run.state
      rw [SlotAct.records, commitRecords, List.foldl_cons, List.foldl_cons, List.foldl_nil, committed]
      refine (replay_run lossless _ typed later
        (v := { v.setRun runId ((viewRun slot).commit (derivationOf c.work outputs)) with
          derivations := v.derivations ++ [derivationOf c.work outputs] })
        (View.setRun_runs v _ _) named _).trans ?_
      rw [if_neg open', viewRun_commit guard.1 claim]
      refine View.ext rfl rfl rfl rfl ?_ rfl
      exact Function.update_idem _ _ _
  | stall =>
      rw [SlotAct.records, List.foldl_cons, List.foldl_nil, stalledRecord,
        replay_run lossless _ rfl (by decide) found named]
      simp only [SlotAct.derivation, List.append_nil]
      rfl
  | cancel =>
      rw [SlotAct.records, List.foldl_cons, List.foldl_nil,
        replay_run lossless _ rfl (by decide) found named]
      simp only [SlotAct.apply, SlotAct.derivation, List.append_nil, if_true, viewRun_cancel]
      rfl

/-- What is appended from outside never uses a kernel kind. -/
def Foreign : Atom → Prop
  | .appended req => req.kind ∉ kernelKinds
  | _ => True

/-- No module is ever without a lifecycle. -/
def Listed (s : State) : Prop := ∀ m ∈ s.modules, m.lifecycle ≠ .unspecified

omit [Sha256] [Prost] in
theorem setLifecycle_listed {name : String} {target : Lifecycle} {modules : List ModuleSlot}
    (valid : target ≠ .unspecified) (listed : ∀ m ∈ modules, m.lifecycle ≠ .unspecified) :
    ∀ m ∈ setLifecycle name target modules, m.lifecycle ≠ .unspecified := by
  induction modules with
  | nil => exact listed
  | cons m modules ih =>
      have rest := ih fun m h => listed m (List.mem_cons_of_mem _ h)
      unfold setLifecycle
      split_ifs
      · rw [List.forall_mem_cons]
        exact ⟨valid, fun m h => listed m (List.mem_cons_of_mem _ h)⟩
      · rw [List.forall_mem_cons]
        exact ⟨listed m List.mem_cons_self, rest⟩

omit [Prost] in
private theorem target_later {s : State} {name : String} {target : Lifecycle} (listed : Listed s)
    (guard : (Atom.advanced name target).enabled s) :
    target = .loaded ∨ target = .active ∨ target = .deactivated := by
  obtain ⟨slot, found, next⟩ := guard
  have valid := listed slot (List.mem_of_find?_eq_some found)
  revert next valid
  cases slot.lifecycle <;> cases target <;> decide

theorem listed_apply {s : State} {a : Atom} (guard : a.enabled s) (listed : Listed s) :
    Listed (a.apply s) := by
  cases a with
  | registered manifest =>
      intro m member
      rcases List.mem_append.mp member with old | new
      · exact listed m old
      · rw [List.mem_singleton.mp new]
        intro same
        cases same
  | advanced name target =>
      refine setLifecycle_listed ?_ listed
      rcases target_later listed guard with rfl | rfl | rfl <;> decide
  | acted runId act =>
      obtain ⟨slot, found, -⟩ := guard
      unfold Listed
      simp only [Atom.apply, found, recordAll_modules]
      exact listed
  | _ => exact listed

omit [Sha256] [Prost] in
theorem clearExternalBodies_eq {policy : ArtifactStorePolicy} {artifact : Artifact}
    (valid : validateArtifactContent artifact policy = .ok ()) :
    clearExternalBodies artifact = artifact := by
  have same : ∀ e ∈ artifact.traits.entries,
      (e.1, if traitHasExternal e.2 then { e.2 with body := [] } else e.2) = e := by
    intro e member
    unfold validateArtifactContent at valid
    split_ifs at valid
    have checked := forM_eq_ok.mp valid e member
    split_ifs with external
    · have empty : e.2.body = [] := by
        by_contra filled
        have both : traitHasExternal e.2 = true ∧ e.2.body ≠ [] := ⟨external, filled⟩
        simp only [validateTrait, both, true_and, ne_eq, not_false_eq_true, if_true] at checked
        split_ifs at checked
      rw [← empty]
    · rfl
  have entries : artifact.traits.entries.map
      (fun e => (e.1, if traitHasExternal e.2 then { e.2 with body := [] } else e.2)) =
        artifact.traits.entries := by
    conv_rhs => rw [← List.map_id artifact.traits.entries]
    exact List.map_congr_left same
  have bags : ∀ bag : BTreeMap Trait, bag.entries = artifact.traits.entries →
      { artifact with traits := bag } = artifact := by
    rintro ⟨listed, ascending⟩ rfl
    rfl
  exact bags _ entries

omit [Prost] in
theorem nameContract_lookup (contracts : KeyMap String Contract) (refs : List String) :
    (fun ref => (refs.foldl ensureContractPlaceholder contracts).lookup ref) =
      refs.foldl nameContract fun ref => contracts.lookup ref := by
  induction refs generalizing contracts with
  | nil => rfl
  | cons r refs ih =>
      rw [List.foldl_cons, List.foldl_cons, ih]
      congr 1
      unfold ensureContractPlaceholder nameContract
      simp only [AList.lookup_isSome]
      split_ifs
      · rfl
      · rfl
      · exact lookup_insert_update _ _ _

theorem view_apply (lossless : Lossless decode) {s : State} {a : Atom} (guard : a.enabled s)
    (wf : WellFormed s) (listed : Listed s) (foreign : Foreign a) :
    (entriesOf s a).foldl (replayRecord decode) (view s) = view (a.apply s) := by
  cases a with
  | registered manifest =>
      rw [entriesOf, List.foldl_cons, List.foldl_nil,
        replayRecord_encoded (m := .moduleManifest manifest) lossless rfl]
      refine View.ext rfl ?_ rfl rfl rfl rfl
      exact (nameContract_lookup _ _).symm
  | advanced name target => rcases target_later listed guard with rfl | rfl | rfl <;> rfl
  | artifactStored artifact =>
      obtain ⟨-, -, policy, valid⟩ := guard
      rw [entriesOf, clearExternalBodies_eq valid, List.foldl_cons, List.foldl_nil,
        replayRecord_encoded (m := .artifact artifact) lossless rfl]
      refine View.ext rfl rfl ?_ rfl rfl rfl
      exact (lookup_insert_update _ _ _).symm
  | blobStored slot =>
      rw [entriesOf, List.foldl_cons, List.foldl_nil,
        replayRecord_encoded (m := .blobRef slot.ref) lossless rfl]
      refine View.ext rfl rfl rfl ?_ rfl rfl
      exact (map_insert_update BlobSlot.ref _ _ _).symm
  | contractStored contract =>
      rw [entriesOf, List.foldl_cons, List.foldl_nil,
        replayRecord_encoded (m := .contract contract) lossless rfl]
      refine View.ext rfl ?_ rfl rfl rfl rfl
      exact (lookup_insert_update _ _ _).symm
  | published event =>
      rw [entriesOf, List.foldl_cons, List.foldl_nil,
        replayRecord_encoded (m := .event _) lossless rfl]
      rfl
  | appended req =>
      rw [entriesOf, List.foldl_cons, List.foldl_nil, replayRecord_foreign foreign]
      rfl
  | started slot =>
      obtain ⟨-, env, req, assembly, maxSteps, rfl, -⟩ := guard
      rw [entriesOf, List.foldl_cons, List.foldl_nil,
        replayRecord_encoded (m := .run _) lossless rfl]
      refine View.ext rfl rfl rfl rfl ?_ rfl
      refine Eq.trans ?_ (map_insert_update viewRun _ _ _).symm
      rw [viewRun_fresh]
      rfl
  | acted runId act =>
      obtain ⟨slot, found, running, possible⟩ := guard
      have there : (view s).runs runId = some (viewRun slot) := by
        show (s.runs.lookup runId).map viewRun = _
        rw [found]
        rfl
      simp only [entriesOf, Atom.apply, found, recordAll_eq]
      rw [replay_act lossless possible (wf runId slot found) there]
      refine View.ext rfl rfl rfl rfl ?_ rfl
      exact (map_replace_update viewRun found _).symm
  | remembered key result => rfl

omit [Prost] in
theorem extend_verifies {ledger : List LedgerEntry} (verified : verifyChain ledger = true)
    (records : List Record) :
    verifyChain (extend ledger records) = true ∧ ledger <+: extend ledger records := by
  induction records generalizing ledger with
  | nil => exact ⟨verified, List.prefix_rfl⟩
  | cons r records ih =>
      have next : verifyChain (ledger ++ [nextEntry ledger r.1 r.2.1 r.2.2]) = true :=
        (verifyChain_snoc ledger _).mpr ⟨verified, rfl, rfl, rfl⟩
      obtain ⟨last, longer⟩ := ih next
      exact ⟨last, (List.prefix_append ledger _).trans longer⟩

theorem path_verifies {s t : State} {atoms : List Atom} (path : Path kernel s atoms t)
    (verified : verifyChain s.ledger = true) :
    verifyChain t.ledger = true ∧ s.ledger <+: t.ledger := by
  refine path.keeps (P := fun u => verifyChain u.ledger = true ∧ s.ledger <+: u.ledger) ?_
    ⟨verified, List.prefix_rfl⟩
  rintro u a guard ⟨chained, longer⟩
  have grown : (kernel.apply u a).ledger = extend u.ledger (entriesOf u a) := ledger_apply u a
  rw [grown]
  obtain ⟨chained', longer'⟩ := extend_verifies chained (entriesOf u a)
  exact ⟨chained', longer.trans longer'⟩

theorem exec_verifies (policy : ArtifactStorePolicy) {s : State} (wf : WellFormed s)
    (verified : verifyChain s.ledger = true) (calls : List Call) :
    verifyChain (exec policy s calls).ledger = true ∧
      s.ledger <+: (exec policy s calls).ledger := by
  induction calls generalizing s with
  | nil => exact ⟨verified, List.prefix_rfl⟩
  | cons call calls ih =>
      obtain ⟨atoms, path, -⟩ := step_explained policy wf call
      obtain ⟨chained, longer⟩ := path_verifies path verified
      obtain ⟨last, whole⟩ := ih (wellFormed_step policy wf call) chained
      exact ⟨last, longer.trans whole⟩

omit [Prost] in
private theorem foreign_of_allowed {s : State} {call : Call} {a : Atom}
    (foreign : ∀ req, call.op = .append req → req.kind ∉ kernelKinds) (allowed : Allowed s call a) :
    Foreign a := by
  cases a with
  | appended req => exact foreign req (allowed_appended allowed)
  | _ => trivial

/-- The ledger passes verification, extends every earlier ledger, and alone rebuilds the kernel's
view, over any history that appends foreign kinds only. -/
theorem ledger_reconstructs (lossless : Lossless decode) (policy : ArtifactStorePolicy)
    (history later : List Call)
    (foreign : ∀ call ∈ history, ∀ req, call.op = .append req → req.kind ∉ kernelKinds) :
    verifyChain (exec policy {} history).ledger = true ∧
      (exec policy {} history).ledger <+: (exec policy {} (history ++ later)).ledger ∧
      replay decode (exec policy {} history).ledger = view (exec policy {} history) := by
  have wf : ∀ calls, WellFormed (exec policy {} calls) :=
    fun calls => reachable_wellFormed ⟨calls, rfl⟩
  have verified := (exec_verifies policy (wf []) rfl history).1
  refine ⟨verified, ?_, ?_⟩
  · rw [exec_append]
    exact (exec_verifies policy (wf history) verified later).2
  · have both : Listed (exec policy {} history) ∧
        replay decode (exec policy {} history).ledger = view (exec policy {} history) := by
      refine run_invariant (P := fun s => Listed s ∧ replay decode s.ledger = view s) ⟨?_, rfl⟩ ?_
      · intro m member
        cases member
      · rintro pre call post split ⟨listed, rebuilt⟩
        have mine := foreign call (by rw [split]; exact List.mem_append_right _ List.mem_cons_self)
        obtain ⟨atoms, path, allowed, -⟩ := step_explained policy (wf pre) call
        have all := path.invariant
          (P := fun s => WellFormed s ∧ Listed s ∧ replay decode s.ledger = view s) Foreign ?_
          (fun a member => foreign_of_allowed mine (allowed a member)) ⟨wf pre, listed, rebuilt⟩
        · exact all.2
        · rintro u a outside guard ⟨shaped, listed, same⟩
          refine ⟨wellFormed_apply guard shaped, listed_apply guard listed, ?_⟩
          have grown : (kernel.apply u a).ledger = extend u.ledger (entriesOf u a) :=
            ledger_apply u a
          rw [grown, replay_extend, same, view_apply lossless guard shaped listed outside]
          rfl
    exact both.2

end Calls

section Decoder

open Substrate.Kernel.Codec
open Substrate.Kernel.Concrete
open Substrate.Library.Proto3 (Field decodeFields decodeFields_encodeFields)

/-- The fields of a detail read as a message of its schema. -/
def parseMessage (fs : List Field) : Schema → Option Message
  | .moduleManifest => (parseManifest fs).map .moduleManifest
  | .contract => (parseContract fs).map .contract
  | .artifact => (parseArtifact fs).map .artifact
  | .blobRef => (parseBlobRef fs).map .blobRef
  | .event => (parseEvent fs).map .event
  | .run => (parseRun fs).map .run
  | .namedArtifact => (parseNamedArtifact fs).map .namedArtifact
  | .workItem => (parseWorkItem fs).map .workItem
  | .workFailure => (parseWorkFailure fs).map .workFailure
  | .derivation => (parseDerivation fs).map .derivation

def decode (schema : Schema) (detail : Bytes) : Option Message :=
  (decodeFields detail).bind fun fs => parseMessage fs schema

theorem lossless_decode : Lossless decode := by
  intro message
  show decode (.of message) (encode message) = some message
  rw [decode, encode, decodeFields_encodeFields, Option.bind_some]
  cases message <;>
    simp only [Schema.of, parseMessage, messageFields, parseManifest_fields, parseContract_fields,
      parseArtifact_fields, parseBlobRef_fields, parseEvent_fields, parseRun_fields,
      parseNamedArtifact_fields, parseWorkItem_fields, parseWorkFailure_fields,
      parseDerivation_fields, Option.map_some]

/-- A run from its start to its answer, with a remark that a module appended. -/
def remarked : List Call :=
  opening .once .unspecified ++ [claimAt 0,
    callAt 0 (.append { kind := "echo.remarked", subject := "n", detail := asBytes "one" }),
    commitAt 1 "work:r/n" (text "one")]

theorem ledger_reconstructs_remarked :
    verifyChain (exec policy {} remarked).ledger = true ∧
      (exec policy {} remarked).ledger <+: (exec policy {} (remarked ++ [claimAt 2])).ledger ∧
      replay decode (exec policy {} remarked).ledger = view (exec policy {} remarked) := by
  refine ledger_reconstructs lossless_decode policy remarked [claimAt 2] ?_
  intro call member req appended
  simp only [remarked, opening, stocked, List.cons_append, List.nil_append, List.mem_cons,
    List.not_mem_nil, or_false] at member
  rcases member with rfl | rfl | rfl | rfl | rfl | rfl <;> cases appended
  decide

end Decoder

end Substrate.Protocol.Replay
