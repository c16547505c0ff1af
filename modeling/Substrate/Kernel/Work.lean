/- ID: Substrate/Kernel/Work
   source: kernel/sdk/rust/src/lib.rs
   digest: Leased work: reaping, claiming, heartbeats, failures and commits. -/

import Substrate.Kernel.Runs

set_option autoImplicit false
set_option relaxedAutoImplicit false

namespace Substrate.Kernel.Work

open Substrate.Kernel.Wire
open Substrate.Kernel.Hashing
open Substrate.Kernel.Memory
open Substrate.Kernel.Registry
open Substrate.Kernel.Store (debugStrings)
open Substrate.Kernel.Schedule
open Substrate.Kernel.Runs
open Substrate.Library.FiniteMap (KeyMap values size)

variable [Sha256] [Prost]

omit [Sha256] [Prost] in
/-- Ledger-stable work item: the wall-clock lease is zeroed. -/
def ledgerWorkItem (work : WorkItem) : WorkItem := { work with leaseUntilUnixMs := 0 }

omit [Sha256] [Prost] in
def leaseExpired (now : Int64) (c : ClaimedSlot) : Bool := 0 < c.leaseUntilMs && c.leaseUntilMs ≤ now

omit [Sha256] [Prost] in
/-- The claims whose lease has run out, in the order the hash map lists them. -/
def expiredClaims (env : Env) (slot : RunSlot) : List (String × ClaimedSlot) :=
  (env.iter slot.claimed.keys).filterMap fun id =>
    ((slot.claimed.lookup id).filter (leaseExpired env.now)).map (id, ·)

omit [Sha256] [Prost] in
/-- One expired claim goes back to READY, or to DONE when its attempts are used up. -/
def expireClaim (slot : RunSlot) (expired : String × ClaimedSlot) : RunSlot :=
  { slot with
    claimed := slot.claimed.erase expired.1
    doneUnits :=
      if slot.maxAttempts ≤ expired.2.attempt then insert expired.2.unitKey slot.doneUnits
      else slot.doneUnits }

omit [Sha256] in
def expiryRecords (runId : String) (maxAttempts : UInt32) (expired : String × ClaimedSlot) :
    List Record :=
  let (id, c) := expired
  ("work.expired", id, encodeToVec (.workItem (ledgerWorkItem c.work))) ::
    if maxAttempts ≤ c.attempt then
      [("work.failed", id, encodeToVec (.workFailure
        { runId, workId := id, unitKey := c.unitKey
          reason := "lease expired; max_attempts exhausted"
          terminal := true, attempt := c.attempt }))]
    else []

omit [Sha256] [Prost] in
/-- A run's slot after its expired leases are reaped. -/
def reapSlot (env : Env) (slot : RunSlot) : RunSlot :=
  (expiredClaims env slot).foldl expireClaim slot

/-- Reap expired leases for the run whose slot is `slot`. -/
def reapExpiredLocked (env : Env) (runId : String) (slot : RunSlot) (state : State) : State :=
  record state runId (reapSlot env slot)
    ((expiredClaims env slot).flatMap (expiryRecords runId slot.maxAttempts))

omit [Prost] in
/-- Default closure with nothing in flight and nothing READY. -/
def isIdle (modules : List ModuleSlot) (slot : RunSlot) : Bool :=
  !isOpenClosure slot && size slot.claimed == 0 && !assemblyAnyReady modules slot

omit [Sha256] [Prost] in
def stallSlot (slot : RunSlot) : RunSlot :=
  { slot with
    run := { slot.run with
      state := .stalled, reason := "no node is ready and no work is in flight" } }

omit [Sha256] in
def stalledRecord (slot : RunSlot) : Record :=
  ("run.stalled", slot.run.id, encodeToVec (.run slot.run))

/-- A READY unit: its node, the inputs it resolves to now and its key. -/
abbrev Candidate := AssemblyNode × List NamedArtifact × String

omit [Prost] in
def readyCandidates (modules : List ModuleSlot) (slot : RunSlot) (req : ClaimRequest) :
    List Candidate :=
  (slot.run.assembly.nodes.filter (nodeMatchesClaimFilter req)).filterMap fun node =>
    (readyUnit modules slot node).map (node, ·)

omit [Sha256] [Prost] in
/-- ONCE keeps the short work id; the other modes embed the unit key. -/
def workId (runId nodeId unitKey : String) : String :=
  if "once:".toList.isPrefixOf unitKey.toList then "work:" ++ runId ++ "/" ++ nodeId
  else "work:" ++ runId ++ "/" ++ unitKey

omit [Sha256] [Prost] in
/-- The work item a claim of a candidate hands out. -/
def claimWork (env : Env) (runId : String) (slot : RunSlot) (c : Candidate) : WorkItem :=
  let (node, inputs, unitKey) := c
  { id := workId runId node.id unitKey
    runId, nodeId := node.id, module := node.module, moduleVersion := node.moduleVersion
    capability := node.capability, inputs, unitKey
    attempt := (slot.claimAttempts.lookup unitKey).getD 0 + 1
    leaseUntilUnixMs := saturatingAdd env.now (Int64.ofNat slot.defaultLeaseMs.toNat) }

omit [Sha256] [Prost] in
def claimSlot (slot : RunSlot) (work : WorkItem) : RunSlot :=
  { slot with
    claimAttempts := slot.claimAttempts.insert work.unitKey work.attempt
    claimed := slot.claimed.insert work.id
      { work, unitKey := work.unitKey, leaseUntilMs := work.leaseUntilUnixMs
        attempt := work.attempt } }

omit [Sha256] [Prost] in
def claimUnits (env : Env) (runId : String) : RunSlot → List Candidate → RunSlot × List WorkItem
  | slot, [] => (slot, [])
  | slot, c :: rest =>
      let work := claimWork env runId slot c
      let (slot', items) := claimUnits env runId (claimSlot slot work) rest
      (slot', work :: items)

omit [Sha256] in
def claimedRecord (work : WorkItem) : Record :=
  ("work.claimed", work.id, encodeToVec (.workItem (ledgerWorkItem work)))

def claimReady (env : Env) (req : ClaimRequest) (state : State) :
    State × Except KernelError ClaimResponse :=
  orReturn (runningSlot state req.runId) state fun slot =>
  let state := reapExpiredLocked env req.runId slot state
  let slot := reapSlot env slot
  let maxItems := if req.maxItems = 0 then 1 else req.maxItems.toNat
  let want := min maxItems (inFlightCapacity slot)
  let (slot, items) :=
    claimUnits env req.runId slot ((readyCandidates state.modules slot req).take want)
  let state := record state req.runId slot (items.map claimedRecord)
  if items = [] ∧ isIdle state.modules slot then
    (record state req.runId (stallSlot slot) [stalledRecord (stallSlot slot)], .ok { items })
  else (state, .ok { items })

omit [Sha256] [Prost] in
def renewLease (leaseUntil : Int64) (c : ClaimedSlot) : ClaimedSlot :=
  { c with leaseUntilMs := leaseUntil, work := { c.work with leaseUntilUnixMs := leaseUntil } }

omit [Sha256] [Prost] in
def renewClaim (leaseUntil : Int64) (slot : RunSlot) (id : String) : RunSlot :=
  match slot.claimed.lookup id with
  | some c => { slot with claimed := slot.claimed.replace id (renewLease leaseUntil c) }
  | none => slot

omit [Sha256] [Prost] in
/-- Renew every listed claim that is still there, expired or not. -/
def renewSlot (env : Env) (req : HeartbeatRequest) (slot : RunSlot) : RunSlot :=
  let extend := orDefault req.extendLeaseMs slot.defaultLeaseMs
  let leaseUntil := saturatingAdd env.now (Int64.ofNat extend.toNat)
  req.workIds.foldl (renewClaim leaseUntil) slot

/-- Renews first, then reaps the expired leases that were not listed. -/
def heartbeat (env : Env) (req : HeartbeatRequest) (state : State) :
    State × Except KernelError HeartbeatResponse :=
  orReturn (runningSlot state req.runId) state fun slot =>
  let renewed := renewSlot env req slot
  (reapExpiredLocked env req.runId renewed (record state req.runId renewed []),
    .ok { renewedWorkIds := req.workIds.filter (· ∈ slot.claimed)
          lostWorkIds := req.workIds.filter (· ∉ slot.claimed) })

omit [Sha256] [Prost] in
/-- A failed claim leaves `claimed`; a terminal failure makes its unit DONE. -/
def failSlot (slot : RunSlot) (id : String) (c : ClaimedSlot) (terminal : Bool) : RunSlot :=
  { slot with
    claimed := slot.claimed.erase id
    doneUnits := if terminal then insert c.unitKey slot.doneUnits else slot.doneUnits }

def failWork (env : Env) (req : FailWorkRequest) (state : State) :
    State × Except KernelError Run :=
  orReturn (runningSlot state req.runId) state fun slot =>
  let state := reapExpiredLocked env req.runId slot state
  let slot := reapSlot env slot
  match slot.claimed.lookup req.workId with
  | none => (state, .error (.conflict "work was not claimed"))
  | some c =>
      let terminal := req.terminal || slot.maxAttempts ≤ c.attempt
      let slot := failSlot slot req.workId c terminal
      let state := record state req.runId slot
        [("work.failed", req.workId, encodeToVec (.workFailure
          { runId := req.runId, workId := req.workId, unitKey := c.unitKey
            reason := if req.reason = "" then "failed" else req.reason
            terminal, attempt := c.attempt }))]
      if isIdle state.modules slot then
        (record state req.runId (stallSlot slot) [stalledRecord (stallSlot slot)],
          .ok (stallSlot slot).run)
      else (state, .ok slot.run)

omit [Sha256] [Prost] in
/-- How many outputs carry each declared name. -/
def validateOutputCounts (outputs : List NamedArtifact) (expected : Port) :
    Except KernelError Unit :=
  let matching := outputs.countP (·.name == expected.name)
  if matching = 0 ∧ ¬ expected.optional then
    .error (.invalid ("required output " ++ expected.name ++ " is absent"))
  else if matching > 1 ∧ ¬ expected.multiple then
    .error (.invalid ("output " ++ expected.name ++ " is not multiple"))
  else .ok ()

omit [Sha256] [Prost] in
def validateOutput (artifacts : KeyMap String Artifact) (cap : Capability)
    (output : NamedArtifact) : Except KernelError Unit :=
  match port cap.outputs output.name with
  | none => .error (.invalid ("undeclared output " ++ output.name))
  | some expected =>
      match output.artifact with
      | none => .error (.invalid ("output " ++ output.name ++ " has no artifact"))
      | some r =>
          match artifacts.lookup r.id with
          | none => .error (.notFound r.id)
          | some artifact =>
              if hasTraits artifact expected.traits then .ok ()
              else .error (.invalid ("output " ++ output.name ++ " missing required traits " ++
                debugStrings expected.traits ++ "; have " ++
                debugStrings (artifact.traits.entries.map (·.1))))

omit [Sha256] [Prost] in
def validateOutputs (artifacts : KeyMap String Artifact) (cap : Capability)
    (outputs : List NamedArtifact) : Except KernelError Unit := do
  cap.outputs.forM (validateOutputCounts outputs)
  outputs.forM (validateOutput artifacts cap)

omit [Sha256] [Prost] in
def derivationBytes (d : Derivation) : Bytes :=
  [d.runId, d.workId, d.nodeId, d.module, d.moduleVersion, d.capability].flatMap
      (fun value => asBytes value ++ [sep]) ++
    (d.inputs ++ d.outputs).flatMap fun value =>
      asBytes value.name ++ [sep] ++ (value.artifact.elim [] fun r => asBytes r.id) ++ [sep]

omit [Prost] in
def derivationId (d : Derivation) : String := "sha256:" ++ sha256Hex (derivationBytes d)

omit [Prost] in
/-- The derivation that a commit of a claimed work item records. -/
def derivationOf (work : WorkItem) (outputs : List NamedArtifact) : Derivation :=
  let d : Derivation :=
    { runId := work.runId, workId := work.id, nodeId := work.nodeId, module := work.module
      moduleVersion := work.moduleVersion, capability := work.capability
      inputs := work.inputs, outputs }
  { d with id := derivationId d }

omit [Sha256] [Prost] in
/-- The artifact a derivation delivers on the terminal output, when its node is the terminal. -/
def terminalAnswer (assembly : Assembly) (d : Derivation) : Option ArtifactRef :=
  (assembly.terminal.filter (·.node == d.nodeId)).bind fun terminal =>
    (d.outputs.find? (·.name == terminal.port)).bind (·.artifact)

omit [Sha256] [Prost] in
/-- One more step of a RUNNING run: a terminal output completes it unless its closure is OPEN, and
a run that is still open at `max_steps` fails. -/
def advanceRun (slot : RunSlot) (d : Derivation) : Run :=
  let answer := terminalAnswer slot.run.assembly d
  let steps := slot.run.steps + 1
  let run := { slot.run with steps, answer := answer.or slot.run.answer }
  if answer.isSome && !isOpenClosure slot then { run with state := .completed }
  else if run.maxSteps ≤ steps then
    { run with state := .failed, reason := "max_steps exhausted before the terminal output" }
  else run

omit [Sha256] [Prost] in
/-- The slot after a derivation for `c`, before the stall check. -/
def commitSlot (slot : RunSlot) (c : ClaimedSlot) (d : Derivation) : RunSlot :=
  { slot with
    claimed := slot.claimed.erase c.work.id
    doneUnits := insert c.unitKey slot.doneUnits
    latest := slot.latest.insert c.work.nodeId d
    nodeCommits := slot.nodeCommits.insert c.work.nodeId
      ((slot.nodeCommits.lookup c.work.nodeId).getD 0 + 1)
    run := advanceRun slot d }

omit [Prost] in
/-- A commit leaves a RUNNING run stalled when nothing is READY or in flight any more. -/
def settleSlot (modules : List ModuleSlot) (slot : RunSlot) : RunSlot :=
  if slot.run.state = .running ∧ isIdle modules slot then stallSlot slot else slot

omit [Sha256] [Prost] in
def closureKind : RunState → String
  | .completed => "run.completed"
  | .stalled => "run.stalled"
  | .failed => "run.failed"
  | _ => "run.progressed"

omit [Sha256] in
def commitRecords (d : Derivation) (run : Run) : List Record :=
  [("derivation.committed", d.id, encodeToVec (.derivation d)),
    (closureKind run.state, run.id, encodeToVec (.run run))]

def commitCtx (env : Env) (submitted : Derivation) (ctx : RequestContext) (state : State) :
    State × Except KernelError Run :=
  orReturn (checkDeadline env ctx) state fun _ =>
  match idempotentGet state "commit" ctx with
  | some (.run r) => (state, .ok r)
  | _ =>
      orReturn (runningSlot state submitted.runId) state fun slot =>
      let state := reapExpiredLocked env submitted.runId slot state
      let slot := reapSlot env slot
      match slot.claimed.lookup submitted.workId with
      | none => (state, .error (.conflict "work was not claimed"))
      | some c =>
          if submitted.nodeId ≠ "" ∧ submitted.nodeId ≠ c.work.nodeId then
            (state, .error (.invalid "node_id does not match the claim")) else
          if slot.run.maxSteps ≤ slot.run.steps then (state, .error (.runClosed .failed)) else
          orReturn (capabilityForWork state.modules c.work) state fun cap =>
          orReturn (validateOutputs state.artifacts cap submitted.outputs) state fun _ =>
          let d := derivationOf c.work submitted.outputs
          let slot := settleSlot state.modules (commitSlot slot c d)
          -- a claim's `run_id` is the run it was found in
          let state := record { state with derivations := state.derivations ++ [d] } c.work.runId slot
            (commitRecords d slot.run)
          (idempotentPut state "commit" ctx (.run slot.run), .ok slot.run)

end Substrate.Kernel.Work
