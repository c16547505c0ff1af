/- ID: Substrate/Framework/Policy
   source: framework/sdk/rust/src/policy.rs
   digest: Run policies of the framework and the kernel request they compile to. -/

import Substrate.Framework.Memo
import Substrate.Framework.Storage

set_option autoImplicit false
set_option relaxedAutoImplicit false

namespace Substrate.Framework.Policy

open Substrate.Kernel.Wire
open Substrate.Framework.Memo (MemoPlan)
open Substrate.Framework.Storage (StoragePlan)
open Substrate.Library.FiniteMap (KeyMap OrderedMap)

inductive RunMode
  | converge | stream | dedupeStream | selective
  | manual (closure : Closure)
  deriving DecidableEq

inductive FiringPlan
  | capabilityDefaults
  | all (firing : Firing)
  /-- A default and overrides by assembly node id. -/
  | map (default : Firing) (byNode : KeyMap String Firing)

inductive NodePlan
  | all
  | only (ids : List String)
  | after (nodeId : String)
  | from (nodeId : String)
  deriving DecidableEq

inductive DrivePlan
  | untilIdle | onePass | untilIdleThenWait
  deriving DecidableEq

structure FrameworkPolicy where
  mode : RunMode
  firing : FiringPlan
  nodes : NodePlan
  maxSteps : Option UInt64 := none
  drive : DrivePlan
  claimModules : Option (List String) := none
  storage : StoragePlan := {}
  memo : MemoPlan := {}
  concurrency : Option UInt32 := none
  claimBatch : Option UInt32 := none
  leaseMs : Option UInt64 := none
  maxAttempts : Option UInt32 := none

def defaultConcurrency : UInt32 := 8

namespace FrameworkPolicy

/-- One-shot pipeline: the first terminal output completes the run. -/
def converge : FrameworkPolicy :=
  { mode := .converge, firing := .capabilityDefaults, nodes := .all, drive := .untilIdle }

def withConcurrency (policy : FrameworkPolicy) (n : UInt32) : FrameworkPolicy :=
  { policy with concurrency := some (max n 1) }

def withClaimBatch (policy : FrameworkPolicy) (n : UInt32) : FrameworkPolicy :=
  { policy with claimBatch := some (max n 1) }

variable (policy : FrameworkPolicy)

def effectiveConcurrency : UInt32 := max (policy.concurrency.getD defaultConcurrency) 1

def effectiveClaimBatch : UInt32 := max (policy.claimBatch.getD policy.effectiveConcurrency) 1

def closure : Closure :=
  match policy.mode with
  | .converge | .selective => .firstTerminal
  | .stream | .dedupeStream => .open
  | .manual closure => closure

/-- The firing of every node is pinned when the plan forces one: a capability's own firing comes
before a policy's default. -/
def executionPolicyFor (assembly : Option Assembly) : ExecutionPolicy :=
  let (default, byNode) : Int32 × BTreeMap Int32 :=
    match policy.firing with
    | .capabilityDefaults => (Firing.unspecified.asI32, .empty)
    | .all firing =>
        (firing.asI32, (assembly.elim [] (·.nodes)).foldl
          (fun byNode n => byNode.insert n.id firing.asI32) .empty)
    | .map default byNode =>
        (default.asI32, byNode.entries.foldl
          (fun byNode e => byNode.insert e.1 e.2.asI32) .empty)
  { default, byNode, closure := policy.closure.asI32 }

def includeNodes : List String :=
  match policy.nodes with
  | .all | .after _ | .from _ => []
  | .only ids => ids

/-- `u64::saturating_mul(10_000).max(10_000)` for open runs; zero lets the kernel count nodes. -/
def defaultMaxSteps (nodeCount : UInt64) : UInt64 :=
  if policy.closure = .open then
    max (UInt64.ofNat (min (nodeCount.toNat * 10000) 18446744073709551615)) 10000
  else 0

/-- A run request under this policy; id, assembly and inputs are the caller's. -/
def applyToRunRequest (req : RunRequest) : RunRequest :=
  let nodeCount := UInt64.ofNat (req.assembly.elim 0 (·.nodes.length))
  { req with
    policy := some (policy.executionPolicyFor req.assembly)
    includeNodes := policy.includeNodes
    limits := some
      { maxSteps := policy.maxSteps.getD (policy.defaultMaxSteps nodeCount)
        maxInFlight := policy.effectiveConcurrency.toUInt64
        defaultLeaseMs := policy.leaseMs.getD 0
        maxAttempts := policy.maxAttempts.getD 0 } }

def effectiveDrive : DrivePlan :=
  match policy.drive with
  | .untilIdleThenWait => .untilIdle
  | other => other

end FrameworkPolicy

end Substrate.Framework.Policy
