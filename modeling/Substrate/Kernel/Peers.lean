/- ID: Substrate/Kernel/Peers
   source: kernel/sdk/go/kernel.go, kernel/sdk/python/src/srcport_substrate/_kernel.py
   digest: Module registration and lifecycle in the Go and Python kernels. -/

import Substrate.Kernel.Registry

set_option autoImplicit false
set_option relaxedAutoImplicit false

namespace Substrate.Kernel.Peers

open Substrate.Kernel.Wire
open Substrate.Kernel.Hashing
open Substrate.Kernel.Memory
open Substrate.Kernel.Registry (portTraits ensureContractPlaceholder)
open Substrate.Library.FiniteMap (KeyMap)

/-- A module with its lifecycle as the open enum of the wire. -/
structure ModuleSlot where
  manifest : ModuleManifest
  lifecycle : Int32

/-- What `Register` and `Transition` touch; both kernels declare these four. -/
structure MemoryKernel where
  modules : List ModuleSlot := []
  capabilities : List Capability := []
  contracts : KeyMap String Contract := ∅
  ledger : List LedgerEntry := []

/-- Set the lifecycle of the first module of that name. -/
def setLifecycle (name : String) (target : Int32) : List ModuleSlot → List ModuleSlot
  | [] => []
  | m :: rest =>
      if m.manifest.name = name then { m with lifecycle := target } :: rest
      else m :: setLifecycle name target rest

def registered : Int32 := 1
def loaded : Int32 := 2
def active : Int32 := 3
def deactivated : Int32 := 4

variable [Sha256]

/-- Every entry links to the one before it and is hashed as in `substrate.go` and `_types.py`. -/
def appendLocked (k : MemoryKernel) (kind subject : String) (detail : Bytes) : MemoryKernel :=
  { k with ledger := k.ledger ++ [nextEntry k.ledger kind subject detail] }

/-- Registration with the encoder of either SDK. -/
def register (encode : ModuleManifest → Bytes) (manifest : ModuleManifest) (k : MemoryKernel) :
    MemoryKernel :=
  appendLocked
    { k with
      capabilities := k.capabilities ++ manifest.provides
      contracts := (manifest.provides.flatMap portTraits).foldl ensureContractPlaceholder k.contracts
      modules := k.modules ++ [{ manifest, lifecycle := registered }] }
    "module.registered" manifest.name (encode manifest)

/-- The encoders of manifests; neither protobuf library is part of the repository. -/
class Encoders where
  marshalCanonical : ModuleManifest → Bytes
  canonical : ModuleManifest → Bytes

namespace Go

def register [Encoders] : ModuleManifest → MemoryKernel → MemoryKernel :=
  Peers.register Encoders.marshalCanonical

omit [Sha256] in
def lifecycleVerb (l : Int32) : String :=
  if l = registered then "registered"
  else if l = loaded then "loaded"
  else if l = active then "activated"
  else if l = deactivated then "deactivated"
  else "unspecified"

/-- The sum wraps like every `int32` of Go; no value of the enum is left out. -/
def transition (env : Env) (req : TransitionRequest) (ctx : RequestContext) (k : MemoryKernel) :
    MemoryKernel × Except KernelError Int32 :=
  match checkDeadline env ctx with
  | .error e => (k, .error e)
  | .ok _ =>
      match k.modules.find? (·.manifest.name == req.module) with
      | none => (k, .error (.notFound req.module))
      | some slot =>
          if req.toState = slot.lifecycle + 1 then
            (appendLocked { k with modules := setLifecycle req.module req.toState k.modules }
              ("module." ++ lifecycleVerb req.toState) req.module [], .ok req.toState)
          else (k, .ok slot.lifecycle)

end Go

namespace Python

/-- An exception: one of the kernel's own, or a failed look-up in a dictionary. -/
inductive Raised
  | kernel (e : KernelError)
  | keyError (key : Int32)

def register [Encoders] : ModuleManifest → MemoryKernel → MemoryKernel :=
  Peers.register Encoders.canonical

omit [Sha256] in
/-- `_LIFECYCLE_VERB`, a dictionary of the declared values. -/
def lifecycleVerb (l : Int32) : Option String :=
  if l = 0 then some "unspecified"
  else if l = registered then some "registered"
  else if l = loaded then some "loaded"
  else if l = active then some "activated"
  else if l = deactivated then some "deactivated"
  else none

omit [Sha256] in
/-- Only a zero deadline is taken for none. -/
def checkDeadline (env : Env) (ctx : RequestContext) : Except Raised Unit :=
  if ctx.deadlineUnixMs = 0 then .ok ()
  else if ctx.deadlineUnixMs < env.entryClock then
    .error (.kernel (.failedPrecondition "deadline exceeded"))
  else .ok ()

/-- The slot is written before the verb is looked up. -/
def transition (env : Env) (req : TransitionRequest) (ctx : RequestContext) (k : MemoryKernel) :
    MemoryKernel × Except Raised Int32 :=
  match checkDeadline env ctx with
  | .error e => (k, .error e)
  | .ok _ =>
      match k.modules.find? (·.manifest.name == req.module) with
      | none => (k, .error (.kernel (.notFound req.module)))
      | some slot =>
          if req.toState.toInt = slot.lifecycle.toInt + 1 then
            let k := { k with modules := setLifecycle req.module req.toState k.modules }
            match lifecycleVerb req.toState with
            | none => (k, .error (.keyError req.toState))
            | some verb => (appendLocked k ("module." ++ verb) req.module [], .ok req.toState)
          else (k, .ok slot.lifecycle)

end Python

end Substrate.Kernel.Peers
