/- ID: Substrate/Kernel/Registry
   source: kernel/sdk/rust/src/lib.rs
   digest: Module registration and lifecycle, contract registration, capability lookup, the bus and append. -/

import Substrate.Kernel.Memory

set_option autoImplicit false
set_option relaxedAutoImplicit false

namespace Substrate.Kernel.Registry

open Substrate.Kernel.Wire
open Substrate.Kernel.Hashing
open Substrate.Kernel.Memory
open Substrate.Library.FiniteMap (KeyMap)

variable [Sha256] [Prost]

/-- The name-only contract that `register` creates for a ref. -/
def placeholder (ref : String) : Contract := { ref, digest := contractDigest "" "" "" [] }

def ensureContractPlaceholder (contracts : KeyMap String Contract) (ref : String) :
    KeyMap String Contract :=
  if ref = "" then contracts
  else if ref ∈ contracts then contracts
  else contracts.insert ref (placeholder ref)

omit [Sha256] [Prost] in
/-- The trait refs named on a capability's ports, inputs first. -/
def portTraits (cap : Capability) : List String := (cap.inputs ++ cap.outputs).flatMap (·.traits)

/-- Records the module, its capabilities and placeholders for the contracts its ports name. -/
def register (manifest : ModuleManifest) (state : State) : State :=
  appendLocked
    { state with
      capabilities := state.capabilities ++ manifest.provides
      contracts := (manifest.provides.flatMap portTraits).foldl ensureContractPlaceholder
        state.contracts
      modules := state.modules ++ [{ manifest, lifecycle := .registered }] }
    "module.registered" manifest.name (encodeToVec (.moduleManifest manifest))

omit [Sha256] [Prost] in
def lifecycleVerb : Lifecycle → String
  | .unspecified => "unspecified"
  | .registered => "registered"
  | .loaded => "loaded"
  | .active => "activated"
  | .deactivated => "deactivated"

omit [Sha256] [Prost] in
/-- Set the lifecycle of the first module of that name. -/
def setLifecycle (name : String) (to' : Lifecycle) : List ModuleSlot → List ModuleSlot
  | [] => []
  | m :: rest =>
      if m.manifest.name = name then { m with lifecycle := to' } :: rest
      else m :: setLifecycle name to' rest

omit [Prost] in
/-- Only a single forward step is applied; anything else leaves the module as it is. -/
def transitionReq (env : Env) (req : TransitionRequest) (ctx : RequestContext) (state : State) :
    State × Except KernelError Lifecycle :=
  orReturn (checkDeadline env ctx) state fun _ =>
  match state.modules.find? (·.manifest.name == req.module) with
  | none => (state, .error (.notFound req.module))
  | some slot =>
      let to' := (Lifecycle.tryFrom req.toState).getD .unspecified
      if to'.asI32 = slot.lifecycle.asI32 + 1 then
        (appendLocked { state with modules := setLifecycle req.module to' state.modules }
          ("module." ++ lifecycleVerb to') req.module [], .ok to')
      else (state, .ok slot.lifecycle)

omit [Prost] in
/-- A contract as it is stored: the refs it is compatible with in order, the digest recomputed. -/
def sealContract (contract : Contract) : Contract :=
  let compatibleWith := sortStrings contract.compatibleWith
  { contract with
    compatibleWith
    digest := contractDigest contract.mediaType contract.schema contract.version compatibleWith }

/-- Registers a contract immutably under its ref; a placeholder may be filled once. -/
def putContract (contract : Contract) (state : State) : State × Except KernelError Contract :=
  if contract.ref = "" then (state, .error (.invalid "contract ref is required")) else
  let sealed := sealContract contract
  if contract.digest ≠ "" ∧ contract.digest ≠ sealed.digest then
    (state, .error (.invalid "contract digest mismatch")) else
  let store := appendLocked
    { state with contracts := state.contracts.insert sealed.ref sealed }
    "contract.registered" sealed.ref (encodeToVec (.contract sealed))
  match state.contracts.lookup contract.ref with
  | some existing =>
      if existing.digest = sealed.digest then (state, .ok existing)
      else if isContractPlaceholder existing && !isContractPlaceholder sealed then
        (store, .ok sealed)
      else (state, .error (.conflict
        ("contract " ++ contract.ref ++ " already registered with different content")))
  | none => (store, .ok sealed)

/-- Assigns the next `seq`; delivery to subscribers does not touch this state. -/
def publish (event : Event) (state : State) : State × UInt64 :=
  let seq := state.eventSeq + 1
  (appendLocked { state with eventSeq := seq } "event.published" event.topic
    (encodeToVec (.event { event with seq })), seq)

omit [Prost] in
/-- Modules may write their own facts into the same chain. -/
def append (req : AppendRequest) (state : State) : State × LedgerEntry :=
  (appendLocked state req.kind req.subject req.detail,
    nextEntry state.ledger req.kind req.subject req.detail)

omit [Sha256] [Prost] in
/-- The capabilities registered at exactly a node's coordinate, in registration order. -/
def providers (modules : List ModuleSlot) (node : AssemblyNode) : List Capability :=
  (modules.filter fun m =>
      m.manifest.name == node.module && m.manifest.version == node.moduleVersion).flatMap
    fun m => m.manifest.provides.filter (·.name == node.capability)

omit [Sha256] [Prost] in
def capabilityForNode (modules : List ModuleSlot) (node : AssemblyNode) :
    Except KernelError Capability :=
  match providers modules node with
  | [] => .error (.invalid
      (node.module ++ "@" ++ node.moduleVersion ++ " does not provide " ++ node.capability))
  | [found] => .ok found
  | _ :: _ :: _ => .error (.invalid
      (node.module ++ "@" ++ node.moduleVersion ++ " provides " ++ node.capability ++
        " ambiguously"))

omit [Sha256] [Prost] in
/-- The coordinate a work item carries. -/
def nodeOfWork (work : WorkItem) : AssemblyNode :=
  { id := work.nodeId, module := work.module, moduleVersion := work.moduleVersion,
    capability := work.capability }

omit [Sha256] [Prost] in
def capabilityForWork (modules : List ModuleSlot) (work : WorkItem) :
    Except KernelError Capability :=
  capabilityForNode modules (nodeOfWork work)

omit [Sha256] [Prost] in
def port (ports : List Port) (name : String) : Option Port := ports.find? (·.name == name)

end Substrate.Kernel.Registry
