/- ID: Substrate/Framework/Calls
   source: framework/sdk/rust/src/lib.rs
   digest: The host, what it keeps of its runs, and everything it calls. -/

import Substrate.Framework.Cut
import Substrate.Library.Resumption

set_option autoImplicit false
set_option relaxedAutoImplicit false

namespace Substrate.Framework.Calls

open Substrate.Kernel.Wire
open Substrate.Kernel.Memory (KernelError)
open Substrate.Framework.Steps
open Substrate.Framework.Storage
open Substrate.Framework.Memo (MemoRecord)
open Substrate.Framework.Policy (FrameworkPolicy)
open Substrate.Library.Resumption
open Substrate.Library.Resumption.Act (ask)
open Substrate.Library.FiniteMap (KeyMap)

/-- The kernel, the plugins by module name, the memo store, the storage backend and the serializer
of presentations. -/
inductive Query
  | startRun (req : RunRequest) (ctx : RequestContext)
  | getRun (ref : RunRef) (ctx : RequestContext)
  | injectInput (req : InjectInputRequest) (ctx : RequestContext)
  | cancelRun (ref : RunRef) (ctx : RequestContext)
  | listDerivations (ref : RunRef) (ctx : RequestContext)
  | claimReady (req : ClaimRequest) (ctx : RequestContext)
  | getArtifact (ref : ArtifactRef) (ctx : RequestContext)
  | putArtifact (artifact : Artifact) (ctx : RequestContext)
  | commit (submitted : Derivation) (ctx : RequestContext)
  | failWork (req : FailWorkRequest) (ctx : RequestContext)
  | moduleDigest (module : String)
  | onInit (module : String) (step : StepContext)
  | execute (module : String) (step : StepContext)
  | onFinal (module : String) (step : StepContext) (result : StepResult)
  | onStore (module : String) (step : StepContext) (result : StepResult)
  | memoGet (key : String)
  | memoPut (record : MemoRecord)
  | ensureTable (table : QualifiedTable)
  | writeRows (table : String) (mode : WriteMode) (rows : List StoreRow)
      (primaryKey : List String) (runId : String)
  | dropTable (table : String)
  | toVec (view : Presentation)

/-- A claim hands out at most as many units as it asks for, one when it does not say. -/
abbrev Claimed (req : ClaimRequest) :=
  { resp : ClaimResponse // resp.items.length ≤ max req.maxItems.toNat 1 }

/-- What a call returns; `execute` may change the step it is given. -/
abbrev Answer : Query → Type
  | .startRun _ _ => Except KernelError Run
  | .getRun _ _ => Except KernelError Run
  | .injectInput _ _ => Except KernelError Run
  | .cancelRun _ _ => Except KernelError Run
  | .listDerivations _ _ => Except KernelError (List Derivation)
  | .claimReady req _ => Except KernelError (Claimed req)
  | .getArtifact _ _ => Except KernelError Artifact
  | .putArtifact _ _ => Except KernelError ArtifactRef
  | .commit _ _ => Except KernelError Run
  | .failWork _ _ => Except KernelError Run
  | .moduleDigest _ => Option String
  | .onInit _ _ => Option Presentation
  | .execute _ _ => StepContext × Except FrameworkError StepOutput
  | .onFinal _ _ _ => Option Presentation
  | .onStore _ _ _ => Option StoreWrite
  | .memoGet _ => Except FrameworkError (Option MemoRecord)
  | .memoPut _ => Except FrameworkError Unit
  | .ensureTable _ => Except FrameworkError Unit
  | .writeRows _ _ _ _ _ => Except FrameworkError Unit
  | .dropTable _ => Except FrameworkError Unit
  | .toVec _ => Except String Bytes

inductive UiPersist
  | localOnly | artifacts
  deriving DecidableEq

/-- What builders and registration fix before any run is driven. -/
structure Host where
  /-- Names of the registered plugins, in the order the hash map lists them. -/
  plugins : List String
  ctx : RequestContext
  uiPersist : UiPersist
  /-- Whether a storage backend is attached. -/
  storage : Bool
  /-- Schemas captured at registration, by module. -/
  storageSchemas : KeyMap String TableSchema
  /-- Whether a memo store is attached. -/
  memo : Bool

/-- A policy whose storage plan the host has a backend for. -/
abbrev Backed (host : Host) :=
  { policy : FrameworkPolicy // policy.storage.enabled = true → host.storage = true }

/-- What the host writes while it starts and drives runs. -/
structure Books (host : Host) where
  stepEvents : List StepEvent := []
  /-- Policy frozen at the start of each pipeline. -/
  runPolicies : KeyMap String (Backed host) := ∅
  /-- Physical tables created for a run. -/
  runTables : KeyMap String (List String) := ∅
  executeCount : UInt64 := 0
  memoHitCount : UInt64 := 0

abbrev HostAct (host : Host) := Act Query Answer FrameworkError (Books host)

variable {host : Host}

def fromKernel {α : Type} : Except KernelError α → HostAct host α
  | .ok a => pure a
  | .error e => throw (.kernel e)

def fromFramework {α : Type} : Except FrameworkError α → HostAct host α
  | .ok a => pure a
  | .error e => throw e

def fromSerde : Except String Bytes → HostAct host Bytes
  | .ok body => pure body
  | .error e => throw (.invalid ("serialize presentation: " ++ e))

def startRun (req : RunRequest) : HostAct host Run := do
  fromKernel (← ask (.startRun req host.ctx))

def getRun (runId : String) : HostAct host Run := do
  fromKernel (← ask (.getRun ⟨runId⟩ host.ctx))

def injectInput (req : InjectInputRequest) : HostAct host Run := do
  fromKernel (← ask (.injectInput req host.ctx))

def cancelRun (runId : String) : HostAct host Run := do
  fromKernel (← ask (.cancelRun ⟨runId⟩ host.ctx))

def listDerivations (runId : String) : HostAct host (List Derivation) := do
  fromKernel (← ask (.listDerivations ⟨runId⟩ host.ctx))

def claimReady (req : ClaimRequest) : HostAct host (Claimed req) := do
  fromKernel (← ask (.claimReady req host.ctx))

def getArtifact (ref : ArtifactRef) : HostAct host Artifact := do
  fromKernel (← ask (.getArtifact ref host.ctx))

def putArtifact (artifact : Artifact) : HostAct host ArtifactRef := do
  fromKernel (← ask (.putArtifact artifact host.ctx))

def commit (submitted : Derivation) : HostAct host Run := do
  fromKernel (← ask (.commit submitted host.ctx))

def memoGet (key : String) : HostAct host (Option MemoRecord) := do
  fromFramework (← ask (.memoGet key))

def memoPut (record : MemoRecord) : HostAct host Unit := do
  fromFramework (← ask (.memoPut record))

def ensureTable (table : QualifiedTable) : HostAct host Unit := do
  fromFramework (← ask (.ensureTable table))

def writeRows (table : String) (mode : WriteMode) (rows : List StoreRow)
    (primaryKey : List String) (runId : String) : HostAct host Unit := do
  fromFramework (← ask (.writeRows table mode rows primaryKey runId))

def toVec (view : Presentation) : HostAct host Bytes := do
  fromSerde (← ask (.toVec view))

/-- `ok_or_else` on a plugin. -/
def requirePlugin (module : String) : HostAct host Unit :=
  if module ∈ host.plugins then pure () else throw (.noPlugin module)

/-- `ok_or_else` on the storage backend. -/
def requireStorage (reason : String) : HostAct host Unit :=
  if host.storage then pure () else throw (.invalid reason)

/-- The frozen policy of a run. -/
def policyOf (runId : String) : HostAct host (Option (Backed host)) := do
  return (← get).runPolicies.lookup runId

end Substrate.Framework.Calls
