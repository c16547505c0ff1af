/- ID: Substrate/Protocol/Atoms
   digest: The kernel as a guarded machine whose labels are the single facts its ledger records. -/

import Substrate.Kernel.Api

set_option autoImplicit false
set_option relaxedAutoImplicit false

namespace Substrate.Protocol.Atoms

open Substrate.Kernel.Wire
open Substrate.Kernel.Hashing
open Substrate.Kernel.Memory
open Substrate.Kernel.Registry
open Substrate.Kernel.Store (clearExternalBodies validateArtifactContent)
open Substrate.Kernel.Schedule
open Substrate.Kernel.Assembly (validateAssembly)
open Substrate.Kernel.Runs
open Substrate.Kernel.Work
open Substrate.Kernel.Api
open Substrate.Library.Transition (Machine)
open Substrate.Library.FiniteMap (KeyMap size)

/-- One thing that can happen to a RUNNING run. -/
inductive SlotAct
  | inject (input : NamedArtifact)
  | claim (work : WorkItem)
  | renew (id : String) (leaseUntil : Int64)
  | expire (id : String) (c : ClaimedSlot)
  | fail (id : String) (c : ClaimedSlot) (reason : String) (terminal : Bool)
  | commit (c : ClaimedSlot) (outputs : List NamedArtifact)
  | stall
  | cancel

/-- One thing that can happen to the kernel. -/
inductive Atom
  | registered (manifest : ModuleManifest)
  | advanced (module : String) (target : Lifecycle)
  | artifactStored (artifact : Artifact)
  | blobStored (slot : BlobSlot)
  | contractStored (contract : Contract)
  | published (event : Event)
  | appended (req : AppendRequest)
  | started (slot : RunSlot)
  | acted (runId : String) (a : SlotAct)
  | remembered (key : String) (result : IdempotentResult)

variable [Sha256] [Prost]

namespace SlotAct

omit [Prost] in
/-- When an act is possible on a slot, given the modules and artifacts of the kernel. -/
def enabled (modules : List ModuleSlot) (artifacts : KeyMap String Artifact) (runId : String)
    (slot : RunSlot) : SlotAct → Prop
  | .inject input =>
      (∃ r, input.artifact = some r ∧ r.id ∈ artifacts) ∧ input.name ≠ "" ∧
        ∃ b ∈ slot.run.assembly.bindings, b.input = input.name
  | .claim work =>
      (slot.maxInFlight ≠ 0 → size slot.claimed < slot.maxInFlight.toNat) ∧
        ∃ env, ∃ node ∈ slot.run.assembly.nodes, ∃ inputs unitKey,
          readyUnit modules slot node = some (inputs, unitKey) ∧
            work = claimWork env runId slot (node, inputs, unitKey)
  | .renew id _ => id ∈ slot.claimed
  | .expire id c => slot.claimed.lookup id = some c
  | .fail id c _ terminal =>
      slot.claimed.lookup id = some c ∧ (slot.maxAttempts ≤ c.attempt → terminal = true)
  | .commit c outputs =>
      slot.claimed.lookup c.work.id = some c ∧ slot.run.steps < slot.run.maxSteps ∧
        ∃ cap, capabilityForWork modules c.work = .ok cap ∧
          validateOutputs artifacts cap outputs = .ok ()
  | .stall => isIdle modules slot = true
  | .cancel => True

omit [Prost] in
def apply (modules : List ModuleSlot) (slot : RunSlot) : SlotAct → RunSlot
  | .inject input => injectSlot slot input
  | .claim work => claimSlot slot work
  | .renew id leaseUntil => renewClaim leaseUntil slot id
  | .expire id c => expireClaim slot (id, c)
  | .fail id c _ terminal => failSlot slot id c terminal
  | .commit c outputs => settleSlot modules (commitSlot slot c (derivationOf c.work outputs))
  | .stall => stallSlot slot
  | .cancel => cancelSlot slot

omit [Prost] in
/-- The derivation an act adds. -/
def derivation : SlotAct → List Derivation
  | .commit c outputs => [derivationOf c.work outputs]
  | _ => []

omit [Sha256] [Prost] in
/-- The work item an act hands out. -/
def handsOut : SlotAct → Option WorkItem
  | .claim work => some work
  | _ => none

/-- The ledger entries an act leaves, given the slot before and after it. -/
def records (runId : String) (before after : RunSlot) : SlotAct → List Record
  | .inject input => [("run.input_injected", after.run.id, encodeToVec (.namedArtifact input))]
  | .claim work => [claimedRecord work]
  | .renew _ _ => []
  | .expire id c => expiryRecords runId before.maxAttempts (id, c)
  | .fail id c reason terminal =>
      [("work.failed", id, encodeToVec (.workFailure
        { runId, workId := id, unitKey := c.unitKey, reason, terminal, attempt := c.attempt }))]
  | .commit c outputs => commitRecords (derivationOf c.work outputs) after.run
  | .stall => [stalledRecord after]
  | .cancel => [("run.cancelled", after.run.id, encodeToVec (.run after.run))]

end SlotAct

omit [Prost] in
/-- Store a slot, add derivations and log. -/
def recordAll (s : State) (runId : String) (slot : RunSlot) (ds : List Derivation)
    (rs : List Record) : State :=
  record { s with derivations := s.derivations ++ ds } runId slot rs

omit [Prost] in
/-- A slot as `start_run` may create it. -/
def Fresh (s : State) (slot : RunSlot) : Prop :=
  ∃ env req assembly maxSteps, slot = freshSlot req assembly maxSteps ∧ maxSteps ≠ 0 ∧
    validateAssembly env s.modules s.artifacts assembly req.inputs = .ok ()

namespace Atom

/-- When an atom is possible. -/
def enabled (s : State) : Atom → Prop
  | .advanced name target =>
      ∃ slot, s.modules.find? (·.manifest.name == name) = some slot ∧
        target.asI32 = slot.lifecycle.asI32 + 1
  | .artifactStored artifact =>
      artifact.id = artifactIdOf artifact ∧ artifact.id ∉ s.artifacts ∧
        ∃ policy, validateArtifactContent artifact policy = .ok ()
  | .blobStored slot =>
      slot.ref.digest = blobId slot.data ∧ slot.ref.byteCount = UInt64.ofNat slot.data.length ∧
        (slot.ref.space, slot.ref.digest) ∉ s.blobs
  | .contractStored contract =>
      contract.ref ≠ "" ∧ ∀ existing, s.contracts.lookup contract.ref = some existing →
        isContractPlaceholder existing
  | .started slot => slot.run.id ∉ s.runs ∧ Fresh s slot
  | .acted runId a =>
      ∃ slot, s.runs.lookup runId = some slot ∧ slot.run.state = .running ∧
        a.enabled s.modules s.artifacts runId slot
  | .remembered key _ => key ∉ s.idempotency
  | _ => True

def apply (s : State) : Atom → State
  | .registered manifest => register manifest s
  | .advanced name target =>
      appendLocked { s with modules := setLifecycle name target s.modules }
        ("module." ++ lifecycleVerb target) name []
  | .artifactStored artifact =>
      appendLocked { s with artifacts := s.artifacts.insert artifact.id artifact }
        "artifact.put" artifact.id (encodeToVec (.artifact (clearExternalBodies artifact)))
  | .blobStored slot =>
      appendLocked { s with blobs := s.blobs.insert (slot.ref.space, slot.ref.digest) slot }
        "blob.put" slot.ref.digest (encodeToVec (.blobRef slot.ref))
  | .contractStored contract =>
      appendLocked { s with contracts := s.contracts.insert contract.ref contract }
        "contract.registered" contract.ref (encodeToVec (.contract contract))
  | .published event => (publish event s).1
  | .appended req => (append req s).1
  | .started slot =>
      appendLocked { s with runs := s.runs.insert slot.run.id slot } "run.started" slot.run.id
        (encodeToVec (.run slot.run))
  | .acted runId a =>
      match s.runs.lookup runId with
      | some slot =>
          recordAll s runId (a.apply s.modules slot) a.derivation
            (a.records runId slot (a.apply s.modules slot))
      | none => s
  | .remembered key result => { s with idempotency := s.idempotency.insert key result }

/-- The derivations an atom adds. -/
def derivation : Atom → List Derivation
  | .acted _ a => a.derivation
  | _ => []

/-- The work items an atom hands out. -/
def handsOut : Atom → Option WorkItem
  | .acted _ a => a.handsOut
  | _ => none

omit [Sha256] [Prost] in
/-- Claims alone hand out work. -/
theorem handsOut_eq_some {a : Atom} {work : WorkItem} (claims : a.handsOut = some work) :
    ∃ runId, a = .acted runId (.claim work) := by
  cases a with
  | acted runId act =>
      cases act with
      | claim other =>
          obtain rfl : other = work := Option.some.inj claims
          exact ⟨runId, rfl⟩
      | _ => cases claims
  | _ => cases claims

end Atom

/-- The guarded machine of the kernel's atoms. -/
def kernel : Machine State Atom := { enabled := Atom.enabled, apply := Atom.apply }

end Substrate.Protocol.Atoms
