/- ID: Substrate/Framework/Steps
   source: framework/sdk/rust/src/presentation.rs
   digest: What a step is given, returns and shows, and how it fails. -/

import Mathlib.Data.String.Basic
import Substrate.Kernel.Memory

set_option autoImplicit false
set_option relaxedAutoImplicit false

namespace Substrate.Framework.Steps

open Substrate.Kernel.Wire
open Substrate.Kernel.Memory (KernelError)
open Substrate.Library.FiniteMap (KeyMap OrderedMap)

inductive StepStage
  | init | progress | final | skipped | cached
  deriving DecidableEq

/-- The contract of a stage's artifact. -/
def StepStage.contractRef : StepStage → String
  | .init => "srcport.ui.v1.StepInit"
  | .progress => "srcport.ui.v1.StepProgress"
  | .final => "srcport.ui.v1.StepFinal"
  | .skipped => "srcport.ui.v1.StepSkipped"
  | .cached => "srcport.ui.v1.StepCached"

inductive PresentationStatus
  | pending | running | blocked | ok | empty | failed
  deriving DecidableEq

/-- The bits of `1.0_f64`. -/
def oneF64 : UInt64 := 0x3FF0000000000000

structure Presentation where
  stage : StepStage := .progress
  title : String := ""
  status : PresentationStatus := .running
  detail : Option String := none
  /-- An `f64`, as its bits. -/
  progress : Option UInt64 := none
  runId : String := ""
  workId : String := ""
  nodeId : String := ""
  module : String := ""
  capability : String := ""
  phase : Option String := none
  highlightPorts : List String := []
  outputPorts : List String := []
  «meta» : BTreeMap String := .empty
  deriving DecidableEq

namespace Presentation

def finalFailed (title detail : String) : Presentation :=
  { stage := .final, title, status := .failed, detail := some detail }

def skipped (title detail : String) : Presentation :=
  { stage := .skipped, title, status := .empty, detail := some detail, progress := some oneF64 }

def cached (title detail : String) : Presentation :=
  { stage := .cached, title, status := .ok, detail := some detail, progress := some oneF64 }

/-- Fill identity fields from a work item when empty. -/
def fillIdentity (p : Presentation) (runId : String) (work : WorkItem) : Presentation :=
  { p with
    runId := if p.runId = "" then runId else p.runId
    workId := if p.workId = "" then work.id else p.workId
    nodeId := if p.nodeId = "" then work.nodeId else p.nodeId
    module := if p.module = "" then work.module else p.module
    capability := if p.capability = "" then work.capability else p.capability }

end Presentation

structure StepEvent where
  stage : StepStage
  presentation : Presentation
  /-- Empty when the presentation stays on the host. -/
  artifactId : String
  deriving DecidableEq

/-- One output port value before it is put: contract refs with inline bodies. -/
structure PortBody where
  port : String
  traits : BTreeMap Bytes
  entityId : String := ""
  deriving DecidableEq

structure StepOutput where
  outputs : List PortBody

/-- One claimed work unit: its identity and its inputs, by port name. -/
structure StepContext where
  runId : String
  work : WorkItem
  inputs : KeyMap String Artifact
  /-- Progress emitted by `execute`, for the host to drain. -/
  progressBuf : List Presentation

/-- Outcome of a step for the hooks that run after it. -/
structure StepResult where
  ok : Bool
  outputs : List NamedArtifact
  error : Option String

inductive FrameworkError
  | kernel (e : KernelError)
  | noPlugin (module : String)
  | invalid (reason : String)
  | stepFailed (reason : String)
  deriving DecidableEq

/-- `{state:?}`. -/
def debugState : RunState → String
  | .running => "Running"
  | .completed => "Completed"
  | .stalled => "Stalled"
  | .failed => "Failed"
  | .cancelled => "Cancelled"

/-- `Display` of a kernel error. -/
def kernelMessage : KernelError → String
  | .notFound id => "not found: " ++ id
  | .invalid reason => "invalid: " ++ reason
  | .conflict reason => "conflict: " ++ reason
  | .runClosed state => "run is closed: " ++ debugState state
  | .failedPrecondition reason => "failed precondition: " ++ reason
  | .blobIntegrity reason => "blob integrity: " ++ reason
  | .resourceExhausted reason => "resource exhausted: " ++ reason

/-- `Display` of a framework error. -/
def FrameworkError.message : FrameworkError → String
  | .kernel e => "kernel: " ++ kernelMessage e
  | .noPlugin module => "no plugin registered for module " ++ module
  | .invalid reason => "invalid: " ++ reason
  | .stepFailed reason => "step failed: " ++ reason

end Substrate.Framework.Steps
