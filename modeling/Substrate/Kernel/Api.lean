/- ID: Substrate/Kernel/Api
   source: kernel/sdk/rust/src/lib.rs
   digest: The portable call set, one step for each call, and the runs of a kernel from its empty state. -/

import Substrate.Kernel.Work
import Substrate.Library.Transition

set_option autoImplicit false
set_option relaxedAutoImplicit false

namespace Substrate.Kernel.Api

open Substrate.Kernel.Wire
open Substrate.Kernel.Hashing
open Substrate.Kernel.Memory
open Substrate.Kernel.Registry
open Substrate.Kernel.Store
open Substrate.Kernel.Runs
open Substrate.Kernel.Work
open Substrate.Library.Transition (run run_snoc)
open Substrate.Library.FiniteMap (values)

/-- The unary calls of the kernel. -/
inductive Op
  | register (manifest : ModuleManifest)
  | transition (req : TransitionRequest)
  | putArtifact (artifact : Artifact)
  | getArtifact (ref : ArtifactRef)
  | putBlob (req : PutBlobRequest)
  | getBlob (req : GetBlobRequest)
  | hasBlob (req : GetBlobRequest)
  | putContract (contract : Contract)
  | publish (event : Event)
  | append (req : AppendRequest)
  | snapshot
  | startRun (req : RunRequest)
  | injectInput (req : InjectInputRequest)
  | claimReady (req : ClaimRequest)
  | heartbeat (req : HeartbeatRequest)
  | failWork (req : FailWorkRequest)
  | commit (submitted : Derivation)
  | getRun (ref : RunRef)
  | cancelRun (ref : RunRef)
  | listDerivations (ref : RunRef)

/-- A call with its metadata and what it reads from outside. -/
structure Call where
  op : Op
  ctx : RequestContext := {}
  env : Env

structure RegistrySnapshot where
  modules : List ModuleManifest
  capabilities : List Capability
  contracts : List Contract
  storePolicy : ArtifactStorePolicy

inductive Reply
  | lifecycle (state : Lifecycle)
  | artifactRef (ref : ArtifactRef)
  | artifact (artifact : Artifact)
  | blobRef (ref : BlobRef)
  | blobData (data : BlobData)
  | hasBlob (response : HasBlobResponse)
  | contract (contract : Contract)
  | seq (seq : UInt64)
  | entry (entry : LedgerEntry)
  | snapshot (snapshot : RegistrySnapshot)
  | run (run : Run)
  | claim (response : ClaimResponse)
  | heartbeat (response : HeartbeatResponse)
  | derivations (list : List Derivation)
  | error (e : KernelError)

def reply {α : Type} (wrap : α → Reply) (result : State × Except KernelError α) : State × Reply :=
  (result.1, match result.2 with
    | .ok a => wrap a
    | .error e => .error e)

/-- Calls that only read leave the state alone. -/
def readOnly {α : Type} (state : State) (result : Except KernelError α) :
    State × Except KernelError α :=
  (state, result)

def snapshot (policy : ArtifactStorePolicy) (state : State) : RegistrySnapshot :=
  { modules := state.modules.map (·.manifest), capabilities := state.capabilities
    contracts := values state.contracts, storePolicy := policy }

variable [Sha256] [Prost]

/-- One call of `KernelApi`: the methods whose implementation takes no context check the deadline
here. -/
def step (policy : ArtifactStorePolicy) (state : State) (call : Call) : State × Reply :=
  let ⟨op, ctx, env⟩ := call
  let deadline := checkDeadline env ctx
  match op with
  | .register manifest => (register manifest state, .lifecycle .registered)
  | .transition req => reply .lifecycle (transitionReq env req ctx state)
  | .putArtifact artifact => reply .artifactRef (putArtifactCtx policy env artifact ctx state)
  | .getArtifact ref =>
      reply .artifact (orReturn deadline state fun _ => readOnly state (getArtifact ref state))
  | .putBlob req => reply .blobRef (putBlob policy req state)
  | .getBlob req =>
      reply .blobData (orReturn deadline state fun _ => readOnly state (getBlob req state))
  | .hasBlob req => (state, .hasBlob (hasBlob req state))
  | .putContract contract =>
      reply .contract (orReturn deadline state fun _ => putContract contract state)
  | .publish event => ((publish event state).1, .seq (publish event state).2)
  | .append req => ((append req state).1, .entry (append req state).2)
  | .snapshot => (state, .snapshot (snapshot policy state))
  | .startRun req => reply .run (startRunCtx env req ctx state)
  | .injectInput req => reply .run (injectInputCtx env req ctx state)
  | .claimReady req => reply .claim (orReturn deadline state fun _ => claimReady env req state)
  | .heartbeat req => reply .heartbeat (orReturn deadline state fun _ => heartbeat env req state)
  | .failWork req => reply .run (orReturn deadline state fun _ => failWork env req state)
  | .commit submitted => reply .run (commitCtx env submitted ctx state)
  | .getRun ref => reply .run (orReturn deadline state fun _ => readOnly state (getRun ref state))
  | .cancelRun ref => reply .run (orReturn deadline state fun _ => cancelRun ref state)
  | .listDerivations ref =>
      reply .derivations (orReturn deadline state fun _ => readOnly state (listDerivations ref state))

/-- The state after a list of calls, any number of clients interleaved in it. -/
def exec (policy : ArtifactStorePolicy) (state : State) (calls : List Call) : State :=
  run (fun s call => (step policy s call).1) state calls

/-- The states a kernel can be in. -/
def Reachable (policy : ArtifactStorePolicy) (state : State) : Prop :=
  ∃ calls, state = exec policy {} calls

@[simp] theorem exec_nil (policy : ArtifactStorePolicy) (state : State) :
    exec policy state [] = state := rfl

@[simp] theorem exec_cons (policy : ArtifactStorePolicy) (state : State) (call : Call)
    (calls : List Call) :
    exec policy state (call :: calls) = exec policy (step policy state call).1 calls := rfl

theorem exec_append (policy : ArtifactStorePolicy) (state : State) (first second : List Call) :
    exec policy state (first ++ second) = exec policy (exec policy state first) second :=
  Substrate.Library.Transition.run_append state first second

theorem exec_snoc (policy : ArtifactStorePolicy) (state : State) (calls : List Call) (call : Call) :
    exec policy state (calls ++ [call]) = (step policy (exec policy state calls) call).1 :=
  run_snoc state calls call

theorem reachable_step {policy : ArtifactStorePolicy} {state : State} (call : Call)
    (reached : Reachable policy state) : Reachable policy (step policy state call).1 := by
  obtain ⟨calls, rfl⟩ := reached
  exact ⟨calls ++ [call], (exec_snoc policy {} calls call).symm⟩

theorem reachable_exec {policy : ArtifactStorePolicy} {state : State} (calls : List Call)
    (reached : Reachable policy state) : Reachable policy (exec policy state calls) := by
  obtain ⟨history, rfl⟩ := reached
  exact ⟨history ++ calls, (exec_append policy {} history calls).symm⟩

/-- What the empty kernel has and every call keeps holds of every reachable state. -/
theorem reachable_induction {policy : ArtifactStorePolicy} {P : State → Prop} (start : P {})
    (kept : ∀ state call, P state → P (step policy state call).1) {state : State}
    (reached : Reachable policy state) : P state := by
  obtain ⟨calls, rfl⟩ := reached
  exact Substrate.Library.Transition.run_invariant start fun _ call _ _ before => kept _ call before

end Substrate.Kernel.Api
