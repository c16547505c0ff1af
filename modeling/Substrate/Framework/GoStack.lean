/- ID: Substrate/Framework/GoStack
   source: kernel/sdk/go/kernel.go, framework/sdk/go/host.go
   digest: A host in Go and the Go kernel in its process. -/

import Substrate.Framework.Go
import Substrate.Framework.InProcess
import Substrate.Kernel.Go
import Substrate.Library.Histories

set_option autoImplicit false
set_option relaxedAutoImplicit false

namespace Substrate.Framework.GoStack

open Substrate.Kernel
open Substrate.Kernel.Wire
open Substrate.Kernel.Hashing
open Substrate.Kernel.Memory
open Substrate.Kernel.Runs (runningSlot)
open Substrate.Kernel.Sdks (Encodings)
open Substrate.Kernel.Work (Candidate)
open Substrate.Kernel.Api (readOnly)
open Substrate.Framework.Steps (FrameworkError)
open Substrate.Framework.Calls
open Substrate.Framework.InProcess (World onKernel)
open Substrate.Framework.Sessions (HostCall Session)
open Substrate.Library.Histories (visits)
open Substrate.Library.Resumption
open Substrate.Library.Resumption.Act (start attempt)
open Substrate.Library.Resumption.Prog (Environment exec)

variable {host : Host} {S : Type}

theorem claimUnits_length (env : Env) (runId : String) (slot : RunSlot) (cs : List Candidate) :
    (Go.claimUnits env runId slot cs).2.length = cs.length := by
  induction cs generalizing slot with
  | nil => rfl
  | cons c cs ih => exact congrArg Nat.succ (ih _)

theorem wantedItems_le (slot : RunSlot) (req : ClaimRequest) :
    (Go.wantedItems slot req).toNatClampNeg ≤ max req.maxItems.toNat 1 := by
  have asked : (if req.maxItems = 0 then 1 else req.maxItems.toNat) ≤ max req.maxItems.toNat 1 := by
    split_ifs
    · exact Nat.le_max_right _ _
    · exact Nat.le_max_left _ _
  have small : (if req.maxItems = 0 then 1 else req.maxItems.toNat) < 2 ^ 63 := by
    have bound := req.maxItems.toNat_lt
    split_ifs <;> omega
  unfold Go.wantedItems
  dsimp only
  generalize (if req.maxItems = 0 then 1 else req.maxItems.toNat) = limit at asked small ⊢
  have exact_ : (Int64.ofNat limit).toNatClampNeg = limit := Int64.toNatClampNeg_ofNat_of_lt small
  refine le_trans ?_ asked
  split
  · rename_i fewer
    have less := Int64.lt_iff_toInt_lt.mp fewer
    have same : (Int64.ofNat limit).toInt = limit := Int64.toInt_ofNat_of_lt small
    rw [same] at less
    rw [Int64.toNatClampNeg]
    omega
  · exact exact_.le

variable [Sha256] [Prost] [Encodings]

theorem claimReady_limit {env : Env} {req : ClaimRequest} {ctx : RequestContext} {state : State}
    {resp : ClaimResponse} (claimed : (Go.claimReady env req ctx state).2 = .ok resp) :
    resp.items.length ≤ max req.maxItems.toNat 1 := by
  unfold Go.claimReady at claimed
  cases deadline : checkDeadline env ctx with
  | error e =>
      rw [deadline] at claimed
      cases claimed
  | ok =>
      rw [deadline] at claimed
      simp only [orReturn] at claimed
      cases running : runningSlot state req.runId with
      | error e =>
          rw [running] at claimed
          cases claimed
      | ok slot =>
          rw [running] at claimed
          dsimp only at claimed
          have wanted := wantedItems_le (Work.reapSlot env slot) req
          split_ifs at claimed <;> obtain rfl := Except.ok.inj claimed
          · exact (claimUnits_length _ _ _ _).le.trans ((List.length_take_le _ _).trans wanted)
          · exact (claimUnits_length _ _ _ _).le.trans ((List.length_take_le _ _).trans wanted)
          · exact (claimUnits_length _ _ _ _).le.trans (Nat.zero_le _)
          · exact (claimUnits_length _ _ _ _).le.trans (Nat.zero_le _)

def claimAnswer (env : Env) (req : ClaimRequest) (ctx : RequestContext) (state : State) :
    State × Except KernelError (Claimed req) :=
  ((Go.claimReady env req ctx state).1,
    match claimed : (Go.claimReady env req ctx state).2 with
    | .ok resp => .ok ⟨resp, claimReady_limit claimed⟩
    | .error e => .error e)

theorem claimAnswer_ok {env : Env} {req : ClaimRequest} {ctx : RequestContext} {state : State}
    {resp : Claimed req} (answered : (claimAnswer env req ctx state).2 = .ok resp) :
    (Go.claimReady env req ctx state).2 = .ok resp.1 := by
  unfold claimAnswer at answered
  dsimp only at answered
  split at answered
  · rename_i given claimed
    obtain rfl := Except.ok.inj answered
    exact claimed
  · cases answered

/-- The host's environment when its kernel is in process. Lookups are written alike in Rust and Go. -/
def inProcess (policy : ArtifactStorePolicy) (clock : Nat → Env)
    (outside : Environment S Query Answer) : Environment (World S) Query Answer
  | .startRun req ctx, w => onKernel clock w fun env state => Go.startRun env req ctx state
  | .getRun ref ctx, w => onKernel clock w fun env state =>
      orReturn (checkDeadline env ctx) state fun _ => readOnly state (Runs.getRun ref state)
  | .injectInput req ctx, w => onKernel clock w fun env state => Go.injectInput env req ctx state
  | .cancelRun ref ctx, w => onKernel clock w fun env state => Go.cancelRun ref env ctx state
  | .listDerivations ref ctx, w => onKernel clock w fun env state =>
      orReturn (checkDeadline env ctx) state fun _ => readOnly state (Runs.listDerivations ref state)
  | .claimReady req ctx, w => onKernel clock w fun env state => claimAnswer env req ctx state
  | .getArtifact ref ctx, w => onKernel clock w fun env state =>
      orReturn (checkDeadline env ctx) state fun _ => readOnly state (Store.getArtifact ref state)
  | .putArtifact artifact ctx, w => onKernel clock w fun env state =>
      Go.putArtifact policy env artifact ctx state
  | .commit submitted ctx, w => onKernel clock w fun env state => Go.commit env submitted ctx state
  | .failWork req ctx, w => onKernel clock w fun env state => Go.failWork env req ctx state
  | query, w => ({ w with rest := (outside query w.rest).1 }, (outside query w.rest).2)

omit [Prost] [Encodings] in
/-- The calls of a host, one after another; one that fails ends early. -/
def script (text : FrameworkError → String) (calls : List HostCall) : HostAct host Unit :=
  calls.forM fun call => do
    let _ ← attempt (Framework.Go.perform text call)

omit [Prost] [Encodings] in
/-- The exchanges of a host's calls, each with the state in which it is made. -/
def history (text : FrameworkError → String) (env : Environment S Query Answer)
    (session : Session host S) (calls : List HostCall) : List (S × Exchange Query Answer) :=
  visits env (start (script text calls) session.books) session.world

omit [Prost] [Encodings] in
/-- The state in which the calls of a host leave its environment. -/
def after (text : FrameworkError → String) (env : Environment S Query Answer)
    (session : Session host S) (calls : List HostCall) : S :=
  (exec env (start (script text calls) session.books) session.world).1

end Substrate.Framework.GoStack
