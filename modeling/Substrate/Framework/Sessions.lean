/- ID: Substrate/Framework/Sessions
   source: framework/sdk/rust/src/lib.rs
   digest: The calls of a host, one after another, against one environment. -/

import Substrate.Framework.Pipeline

set_option autoImplicit false
set_option relaxedAutoImplicit false

namespace Substrate.Framework.Sessions

open Substrate.Kernel.Wire
open Substrate.Kernel.Hashing
open Substrate.Framework.Steps
open Substrate.Framework.Policy
open Substrate.Framework.Calls
open Substrate.Framework.Drive
open Substrate.Framework.Pipeline
open Substrate.Library.Resumption
open Substrate.Library.Resumption.Act (start)
open Substrate.Library.Resumption.Prog (Environment exec transcript)

/-- The calls of a host that concern a run; `fuel` bounds the waves of a drain. -/
inductive HostCall
  | startPipeline (runId : String) (assembly : Assembly) (inputs : List NamedArtifact)
      (policy : FrameworkPolicy)
  | resumeAfter (newRunId priorRunId afterNode : String) (policy : FrameworkPolicy)
  | drive (fuel : Nat) (runId : String)
  | driveWith (fuel : Nat) (runId : String) (plan : DrivePlan)
  | inject (fuel : Nat) (runId : String) (input : NamedArtifact) (after : DriveAfter)
  | tryStep (runId module : String)
  | cancel (runId : String)

/-- The run that a call addresses. -/
def HostCall.runId : HostCall → String
  | .startPipeline runId _ _ _ => runId
  | .resumeAfter newRunId _ _ _ => newRunId
  | .drive _ runId => runId
  | .driveWith _ runId _ => runId
  | .inject _ runId _ _ => runId
  | .tryStep runId _ => runId
  | .cancel runId => runId

variable {host : Host}

/-- A call without its result. -/
def ignore {α : Type} (x : HostAct host α) : HostAct host Unit := do
  let _ ← x
  return ()

variable [Sha256]

def HostCall.perform : HostCall → HostAct host Unit
  | .startPipeline runId assembly inputs policy =>
      ignore (Pipeline.startPipeline runId assembly inputs policy)
  | .resumeAfter newRunId priorRunId afterNode policy =>
      ignore (Pipeline.resumeAfter newRunId priorRunId afterNode policy)
  | .drive fuel runId => ignore (Drive.drive fuel runId)
  | .driveWith fuel runId plan => ignore (Drive.driveWith fuel runId plan)
  | .inject fuel runId input after => ignore (Drive.inject fuel runId input after)
  | .tryStep runId module => ignore (Drive.tryStep runId module)
  | .cancel runId => ignore (Drive.cancel runId)

/-- A host between two calls, and the state of what it calls. -/
structure Session (host : Host) (S : Type) where
  books : Books host
  world : S

namespace Session

variable {S : Type} (env : Environment S Query Answer)

/-- The exchanges of a call. -/
def told (session : Session host S) (call : HostCall) : List (Exchange Query Answer) :=
  transcript env (start (call.perform : HostAct host Unit) session.books) session.world

def after (session : Session host S) (call : HostCall) : Session host S :=
  let (world, _, books) :=
    exec env (start (call.perform : HostAct host Unit) session.books) session.world
  { books, world }

def run (session : Session host S) (calls : List HostCall) : Session host S :=
  calls.foldl (after env) session

end Session

end Substrate.Framework.Sessions
