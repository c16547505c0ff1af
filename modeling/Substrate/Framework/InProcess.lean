/- ID: Substrate/Framework/InProcess
   source: kernel/sdk/rust/src/lib.rs
   digest: The in-process kernel behind a host, with everything else it calls left open. -/

import Substrate.Framework.Calls
import Substrate.Kernel.Api

set_option autoImplicit false
set_option relaxedAutoImplicit false

namespace Substrate.Framework.InProcess

open Substrate.Kernel.Wire
open Substrate.Kernel.Hashing
open Substrate.Kernel.Memory
open Substrate.Kernel.Store (putArtifactCtx)
open Substrate.Kernel.Schedule (inFlightCapacity)
open Substrate.Kernel.Runs (startRunCtx injectInputCtx runningSlot)
open Substrate.Kernel.Work
open Substrate.Kernel.Api (readOnly)
open Substrate.Framework.Steps (StepContext StepOutput FrameworkError)
open Substrate.Framework.Storage (MemoryStorage)
open Substrate.Framework.Memo (MemoryMemo)
open Substrate.Framework.Calls
open Substrate.Library.Resumption.Prog (Environment)

/-- A kernel, the number of calls it has answered, and whatever else the host talks to. -/
structure World (S : Type) where
  kernel : State
  calls : Nat
  rest : S

variable [Sha256] [Prost]

omit [Sha256] [Prost] in
theorem claimUnits_length (env : Env) (runId : String) (slot : RunSlot) (cs : List Candidate) :
    (claimUnits env runId slot cs).2.length = cs.length := by
  induction cs generalizing slot with
  | nil => rfl
  | cons c cs ih => exact congrArg Nat.succ (ih _)

theorem claimReady_limit {env : Env} {req : ClaimRequest} {state : State} {resp : ClaimResponse}
    (claimed : (Substrate.Kernel.Work.claimReady env req state).2 = .ok resp) :
    resp.items.length ≤ max req.maxItems.toNat 1 := by
  unfold Substrate.Kernel.Work.claimReady at claimed
  cases running : runningSlot state req.runId with
  | error e =>
      rw [running] at claimed
      cases claimed
  | ok slot =>
      rw [running] at claimed
      simp only [orReturn] at claimed
      have asked : (if req.maxItems = 0 then 1 else req.maxItems.toNat) ≤
          max req.maxItems.toNat 1 := by
        split_ifs
        · exact Nat.le_max_right _ _
        · exact Nat.le_max_left _ _
      generalize (if req.maxItems = 0 then 1 else req.maxItems.toNat) = limit at claimed asked
      refine le_trans ?_ asked
      split_ifs at claimed <;> obtain rfl := Except.ok.inj claimed <;>
        exact (claimUnits_length _ _ _ _).le.trans
          ((List.length_take_le _ _).trans (Nat.min_le_left _ _))

/-- The kernel's answer to a claim, with its bound. -/
def claimAnswer (env : Env) (req : ClaimRequest) (ctx : RequestContext) (state : State) :
    State × Except KernelError (Claimed req) :=
  orReturn (checkDeadline env ctx) state fun _ =>
    ((Substrate.Kernel.Work.claimReady env req state).1,
      match claimed : (Substrate.Kernel.Work.claimReady env req state).2 with
      | .ok resp => .ok ⟨resp, claimReady_limit claimed⟩
      | .error e => .error e)

/-- What the kernel makes of one call: each call reads the clock and the hash maps anew. -/
def onKernel {S α : Type} (clock : Nat → Env) (w : World S)
    (answer : Env → State → State × Except KernelError α) : World S × Except KernelError α :=
  let (kernel, reply) := answer (clock w.calls) w.kernel
  ({ w with kernel, calls := w.calls + 1 }, reply)

/-- The host's environment when its kernel is in process: no other client calls in between. -/
def inProcess {S : Type} (policy : ArtifactStorePolicy) (clock : Nat → Env)
    (outside : Environment S Query Answer) : Environment (World S) Query Answer
  | .startRun req ctx, w => onKernel clock w fun env state => startRunCtx env req ctx state
  | .getRun ref ctx, w => onKernel clock w fun env state =>
      orReturn (checkDeadline env ctx) state fun _ =>
        readOnly state (Substrate.Kernel.Runs.getRun ref state)
  | .injectInput req ctx, w => onKernel clock w fun env state => injectInputCtx env req ctx state
  | .cancelRun ref ctx, w => onKernel clock w fun env state =>
      orReturn (checkDeadline env ctx) state fun _ => Substrate.Kernel.Runs.cancelRun ref state
  | .listDerivations ref ctx, w => onKernel clock w fun env state =>
      orReturn (checkDeadline env ctx) state fun _ =>
        readOnly state (Substrate.Kernel.Runs.listDerivations ref state)
  | .claimReady req ctx, w => onKernel clock w fun env state => claimAnswer env req ctx state
  | .getArtifact ref ctx, w => onKernel clock w fun env state =>
      orReturn (checkDeadline env ctx) state fun _ =>
        readOnly state (Substrate.Kernel.Store.getArtifact ref state)
  | .putArtifact artifact ctx, w => onKernel clock w fun env state =>
      putArtifactCtx policy env artifact ctx state
  | .commit submitted ctx, w => onKernel clock w fun env state => commitCtx env submitted ctx state
  | .failWork req ctx, w => onKernel clock w fun env state =>
      orReturn (checkDeadline env ctx) state fun _ => failWork env req state
  | query, w => ({ w with rest := (outside query w.rest).1 }, (outside query w.rest).2)

omit [Sha256] [Prost] in
/-- Plugins that only execute, an empty memo store and a backend that accepts everything. -/
def plainPlugins (execute : StepContext → Except FrameworkError StepOutput) :
    Environment Unit Query Answer
  | .startRun _ _, _ => ((), .error (.notFound ""))
  | .getRun _ _, _ => ((), .error (.notFound ""))
  | .injectInput _ _, _ => ((), .error (.notFound ""))
  | .cancelRun _ _, _ => ((), .error (.notFound ""))
  | .listDerivations _ _, _ => ((), .error (.notFound ""))
  | .claimReady _ _, _ => ((), .error (.notFound ""))
  | .getArtifact _ _, _ => ((), .error (.notFound ""))
  | .putArtifact _ _, _ => ((), .error (.notFound ""))
  | .commit _ _, _ => ((), .error (.notFound ""))
  | .failWork _ _, _ => ((), .error (.notFound ""))
  | .moduleDigest _, _ => ((), none)
  | .onInit _ _, _ => ((), none)
  | .execute _ step, _ => ((), step, execute step)
  | .onFinal _ _ _, _ => ((), none)
  | .onStore _ _ _, _ => ((), none)
  | .memoGet _, _ => ((), .ok none)
  | .memoPut _, _ => ((), .ok ())
  | .ensureTable _, _ => ((), .ok ())
  | .writeRows _ _ _ _ _, _ => ((), .ok ())
  | .dropTable _, _ => ((), .ok ())
  | .toVec _, _ => ((), .ok [])

/-- The stores of a host and whatever else it talks to. -/
structure Stores (S : Type) where
  tables : MemoryStorage
  memo : MemoryMemo
  rest : S

omit [Sha256] [Prost] in
/-- A storage backend and a memo store in memory, with everything else left open. -/
def inMemory {S : Type} (outside : Environment S Query Answer) : Environment (Stores S) Query Answer
  | .ensureTable table, s =>
      let (tables, reply) := s.tables.ensureTable table
      ({ s with tables }, reply)
  | .writeRows table mode rows primaryKey runId, s =>
      let (tables, reply) := s.tables.writeRows table mode rows primaryKey runId
      ({ s with tables }, reply)
  | .dropTable table, s =>
      let (tables, reply) := s.tables.dropTable table
      ({ s with tables }, reply)
  | .memoGet key, s => (s, .ok (s.memo.lookup key))
  | .memoPut record, s => ({ s with memo := s.memo.put record }, .ok ())
  | query, s => ({ s with rest := (outside query s.rest).1 }, (outside query s.rest).2)

end Substrate.Framework.InProcess
