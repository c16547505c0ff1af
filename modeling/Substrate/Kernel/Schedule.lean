/- ID: Substrate/Kernel/Schedule
   source: kernel/sdk/rust/src/lib.rs
   digest: Input resolution, firing policy, work-unit identity and readiness. -/

import Substrate.Kernel.Registry

set_option autoImplicit false
set_option relaxedAutoImplicit false

namespace Substrate.Kernel.Schedule

open Substrate.Kernel.Wire
open Substrate.Kernel.Hashing
open Substrate.Kernel.Memory
open Substrate.Kernel.Registry
open Substrate.Library.FiniteMap (KeyMap values size)

/-- The bindings that feed a node, in binding order. -/
def bindingsOf (assembly : Assembly) (nodeId : String) : List Binding :=
  assembly.bindings.filter (·.toNode == nodeId)

/-- The artifact one binding delivers now. -/
def resolveBinding (slot : RunSlot) (b : Binding) : Option ArtifactRef :=
  if b.input ≠ "" then
    (slot.run.inputs.find? (·.name == b.input)).bind (·.artifact)
  else
    ((slot.latest.lookup b.fromNode).bind fun d =>
      d.outputs.find? (·.name == b.fromPort)).bind (·.artifact)

def resolveInputs (slot : RunSlot) (node : AssemblyNode) : Option (List NamedArtifact) :=
  (bindingsOf slot.run.assembly node.id).mapM fun b =>
    (resolveBinding slot b).map fun artifact => { name := b.toPort, artifact := some artifact }

def isOpenClosure (slot : RunSlot) : Bool :=
  match slot.run.policy with
  | some p => p.closureOf == .open
  | none => false

def effectiveFiring (slot : RunSlot) (node : AssemblyNode) (cap : Capability) : Firing :=
  match slot.run.policy.bind fun p => (p.byNode.get? node.id).filter (· ≠ 0) with
  | some f => (Firing.tryFrom f).getD .once
  | none =>
      if cap.firingOf ≠ .unspecified then cap.firingOf
      else
        match slot.run.policy.map (·.defaultOf) with
        | some f => if f ≠ .unspecified then f else .once
        | none => .once

/-- The (port, artifact id) pairs that make up a ONCE_PER_KEY identity, before sorting. -/
def keyPairs (cap : Capability) (inputs : List NamedArtifact) : List (String × String) :=
  let marked := (cap.inputs.filter (·.key)).map (·.name)
  inputs.filterMap fun i =>
    i.artifact.bind fun r =>
      if marked = [] ∨ i.name ∈ marked then some (i.name, r.id) else none

/-- `sort_by` on the first component; the sort is stable. -/
def sortByPort {α : Type} (rows : List (String × α)) : List (String × α) :=
  rows.insertionSort fun a b => a.1 ≤ b.1

def inputKeyBytes (cap : Capability) (inputs : List NamedArtifact) : Bytes :=
  (sortByPort (keyPairs cap inputs)).flatMap fun (name, id) =>
    asBytes name ++ [sep] ++ asBytes id ++ [sep]

/-- The delivery generation of a binding's source. -/
def bindingEpoch (slot : RunSlot) (b : Binding) : UInt64 :=
  if b.input ≠ "" then (slot.inputEpochs.lookup b.input).getD 0
  else (slot.nodeCommits.lookup b.fromNode).getD 0

/-- One row (port, artifact id, generation) per binding. The artifact is the first input of that
port, also for the later bindings of a multiple port. -/
def deliveryRows (slot : RunSlot) (node : AssemblyNode) (inputs : List NamedArtifact) :
    Option (List (String × String × UInt64)) :=
  (bindingsOf slot.run.assembly node.id).mapM fun b =>
    (inputs.find? (·.name == b.toPort)).bind fun art =>
      art.artifact.map fun r => (b.toPort, r.id, bindingEpoch slot b)

def deliveryRowBytes (row : String × String × UInt64) : Bytes :=
  asBytes row.1 ++ [sep] ++ asBytes row.2.1 ++ [sep] ++ toBeBytes row.2.2 ++ [sep]

def deliveryBytes (rows : List (String × String × UInt64)) : Bytes :=
  (sortByPort rows).flatMap deliveryRowBytes

section Identity

variable [Sha256]

def inputKey (cap : Capability) (inputs : List NamedArtifact) : String :=
  sha256Hex (inputKeyBytes cap inputs)

def deliveryFingerprint (slot : RunSlot) (node : AssemblyNode) (inputs : List NamedArtifact) :
    Option String :=
  (deliveryRows slot node inputs).map fun rows => sha256Hex (deliveryBytes rows)

def workUnitKey (slot : RunSlot) (node : AssemblyNode) (cap : Capability) (firing : Firing)
    (inputs : List NamedArtifact) : Option String :=
  match firing with
  | .always => (deliveryFingerprint slot node inputs).map fun fp =>
      "always:" ++ node.id ++ ":" ++ fp
  | .oncePerKey => some ("key:" ++ node.id ++ ":" ++ inputKey cap inputs)
  | _ => some ("once:" ++ node.id)

omit [Sha256] in
def unitIsClaimed (slot : RunSlot) (unitKey : String) : Bool :=
  (values slot.claimed).any (·.unitKey == unitKey)

/-- A node's resolved inputs and the unit they make up, whether or not it is done or claimed. -/
def currentUnit (modules : List ModuleSlot) (slot : RunSlot) (node : AssemblyNode) :
    Option (List NamedArtifact × String) :=
  (resolveInputs slot node).bind fun inputs =>
    (capabilityForNode modules node).toOption.bind fun cap =>
      (workUnitKey slot node cap (effectiveFiring slot node cap) inputs).map fun unitKey =>
        (inputs, unitKey)

/-- The unit of a node when it is READY: the loop body shared by claims and stall checks. -/
def readyUnit (modules : List ModuleSlot) (slot : RunSlot) (node : AssemblyNode) :
    Option (List NamedArtifact × String) :=
  (currentUnit modules slot node).filter fun (_, unitKey) =>
    unitKey ∉ slot.doneUnits && !unitIsClaimed slot unitKey

def assemblyAnyReady (modules : List ModuleSlot) (slot : RunSlot) : Bool :=
  slot.run.assembly.nodes.any fun node => (readyUnit modules slot node).isSome

end Identity

/-- Free claims under `max_in_flight`, `usize::MAX` when it is zero. -/
def inFlightCapacity (slot : RunSlot) : Nat :=
  if slot.maxInFlight = 0 then 18446744073709551615
  else slot.maxInFlight.toNat - size slot.claimed

def nodeMatchesClaimFilter (req : ClaimRequest) (node : AssemblyNode) : Bool :=
  (req.module == "" || node.module == req.module) &&
    (req.modules == [] || req.modules.any (· == node.module)) &&
    (req.nodeIds == [] || req.nodeIds.any (· == node.id))

end Substrate.Kernel.Schedule
