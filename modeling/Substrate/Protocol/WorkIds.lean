/- ID: Substrate/Protocol/WorkIds
   digest: Work ids name one unit each unless a ONCE node is called like another node's unit. -/

import Substrate.Protocol.Confluence
import Substrate.Protocol.Provenance
import Substrate.Protocol.Claiming
import Substrate.Protocol.Closed

set_option autoImplicit false
set_option relaxedAutoImplicit false

namespace Substrate.Protocol.WorkIds

open Substrate.Kernel.Wire
open Substrate.Kernel.Hashing
open Substrate.Kernel.Memory
open Substrate.Kernel.Schedule
open Substrate.Kernel.Runs
open Substrate.Kernel.Work
open Substrate.Kernel.Api
open Substrate.Protocol.Atoms
open Substrate.Protocol.Identity
open Substrate.Protocol.Slots
open Substrate.Protocol.Delivery
open Substrate.Protocol.Serial
open Substrate.Protocol.Refine
open Substrate.Protocol.Typing
open Substrate.Protocol.Confluence (workId_spell)
open Substrate.Protocol.Provenance (handedOut_claims claimUnits_item)
open Substrate.Protocol.Claiming
open Substrate.Protocol.Closed (untouched_exec)
open Substrate.Library.FiniteMap
open Substrate.Library.Transition

section Names

variable [Sha256]

/-- A key that the unit of a node can have on some delivery, under the run's frozen terms. -/
def MayHave (modules : List ModuleSlot) (slot : RunSlot) (node : AssemblyNode) (unitKey : String) :
    Prop :=
  ∃ cap after inputs, pinned modules node = some cap ∧ SameTerms slot after ∧
    workUnitKey after node cap (effectiveFiring after node cap) inputs = some unitKey

/-- No node that fires ONCE is called like a unit of a node that fires otherwise. -/
def PlainNames (modules : List ModuleSlot) (slot : RunSlot) : Prop :=
  ∀ once ∈ slot.run.assembly.nodes, ∀ other ∈ slot.run.assembly.nodes, ∀ unitKey,
    MayHave modules slot once ("once:" ++ once.id) → MayHave modules slot other unitKey →
      unitKey ≠ "once:" ++ other.id → unitKey ≠ once.id

/-- A work id that a unit of the run has. -/
def Named (modules : List ModuleSlot) (runId : String) (slot : RunSlot) (id unitKey : String) :
    Prop :=
  ∃ node ∈ slot.run.assembly.nodes, id = workId runId node.id unitKey ∧
    MayHave modules slot node unitKey

variable {modules : List ModuleSlot} {runId : String} {slot : RunSlot}

theorem MayHave.spell {node : AssemblyNode} {unitKey : String}
    (may : MayHave modules slot node unitKey) :
    ∃ u : UnitIdent, unitKey = u.spell ∧ u.node = node.id := by
  obtain ⟨_, _, _, -, -, made⟩ := may
  exact workUnitKey_spell made

private theorem plain_apart (plain : PlainNames modules slot) {once other : AssemblyNode}
    (member : once ∈ slot.run.assembly.nodes) (member' : other ∈ slot.run.assembly.nodes)
    {u : UnitIdent} (named : u.node = other.id) (mode : ∀ node, u ≠ .once node)
    (may : MayHave modules slot once ("once:" ++ once.id))
    (may' : MayHave modules slot other u.spell) : once.id ≠ u.spell := by
  refine (plain once member other member' u.spell may may' ?_).symm
  intro same
  have ident : UnitIdent.Same u (.once other.id) := UnitIdent.spell_inj same
  cases u with
  | once node => exact mode node rfl
  | always node rows => exact ident
  | key node pairs => exact ident

theorem named_inj (plain : PlainNames modules slot) {id unitKey unitKey' : String}
    (named : Named modules runId slot id unitKey) (named' : Named modules runId slot id unitKey') :
    unitKey = unitKey' := by
  obtain ⟨node, member, rfl, may⟩ := named
  obtain ⟨node', member', same, may'⟩ := named'
  obtain ⟨u, rfl, here⟩ := may.spell
  obtain ⟨v, rfl, here'⟩ := may'.spell
  rw [← here, ← here', workId_spell, workId_spell] at same
  have tails := (String.append_right_inj _).mp same
  cases u with
  | once a =>
      obtain rfl : a = node.id := here
      cases v with
      | once b =>
          have ids : node.id = b := tails
          rw [ids]
      | always b y => exact absurd tails (plain_apart plain member member' here' nofun may may')
      | key b y => exact absurd tails (plain_apart plain member member' here' nofun may may')
  | always a x =>
      cases v with
      | once b =>
          obtain rfl : b = node'.id := here'
          exact absurd tails.symm (plain_apart plain member' member here nofun may' may)
      | always b y => exact tails
      | key b y => exact tails
  | key a x =>
      cases v with
      | once b =>
          obtain rfl : b = node'.id := here'
          exact absurd tails.symm (plain_apart plain member' member here nofun may' may)
      | always b y => exact tails
      | key b y => exact tails

theorem MayHave.frame {modules' : List ModuleSlot} {slot' : RunSlot} {node : AssemblyNode}
    {unitKey : String} (may : MayHave modules slot node unitKey)
    (kept : ∀ cap, pinned modules node = some cap → pinned modules' node = some cap)
    (terms : SameTerms slot' slot) : MayHave modules' slot' node unitKey := by
  obtain ⟨cap, after, inputs, known, same, made⟩ := may
  exact ⟨cap, after, inputs, kept cap known, terms.trans same, made⟩

theorem Named.frame {modules' : List ModuleSlot} {slot' : RunSlot} {id unitKey : String}
    (named : Named modules runId slot id unitKey)
    (kept : ∀ node cap, pinned modules node = some cap → pinned modules' node = some cap)
    (terms : SameTerms slot' slot) : Named modules' runId slot' id unitKey := by
  obtain ⟨node, member, same, may⟩ := named
  exact ⟨node, terms.assembly ▸ member, same, may.frame (kept node) terms⟩

theorem claimWork_named {env : Env} {node : AssemblyNode} {inputs : List NamedArtifact}
    {unitKey : String} (member : node ∈ slot.run.assembly.nodes)
    (ready : readyUnit modules slot node = some (inputs, unitKey)) :
    Named modules runId slot (claimWork env runId slot (node, inputs, unitKey)).id unitKey := by
  obtain ⟨⟨cap, resolved⟩, -, made, -⟩ := readyUnit_iff.mp ready
  rw [frozenKey, pinned_of_resolved resolved, Option.bind_some] at made
  exact ⟨node, member, rfl, cap, slot, inputs, pinned_of_resolved resolved, .refl slot, made⟩

end Names

section Runs

variable [Sha256] [Prost]

/-- A run stays under its terms, and what its nodes are pinned to stays. -/
structure Persists (s t : State) : Prop where
  pinned : ∀ node cap, pinned s.modules node = some cap → pinned t.modules node = some cap
  terms : ∀ runId slot, s.runs.lookup runId = some slot →
    ∃ after, t.runs.lookup runId = some after ∧ SameTerms slot after

theorem persists_path {s t : State} {atoms : List Atom} (path : Path kernel s atoms t) :
    Persists s t := by
  refine path.keeps (P := Persists s) ?_
    ⟨fun _ _ known => known, fun _ slot found => ⟨slot, found, .refl slot⟩⟩
  intro t a guard before
  refine ⟨fun node cap known => (pinned_apply t a (before.pinned node cap known)).1, ?_⟩
  intro runId slot found
  obtain ⟨mid, found', same⟩ := before.terms runId slot found
  rcases runs_persist guard found' with ⟨found'', -⟩ | ⟨act, -, -, -, found''⟩
  · exact ⟨mid, found'', same⟩
  · exact ⟨_, found'', same.trans (apply_terms t.modules mid act)⟩

theorem persists_step (policy : ArtifactStorePolicy) {s : State} (wf : WellFormed s) (call : Call) :
    Persists s (step policy s call).1 := by
  obtain ⟨atoms, path, -⟩ := step_explained policy wf call
  exact persists_path path

/-- Every claim is stored under a name of its unit. -/
def ClaimsNamed (modules : List ModuleSlot) (runId : String) (slot : RunSlot) : Prop :=
  ∀ id c, slot.claimed.lookup id = some c → Named modules runId slot id c.unitKey

omit [Prost] in
theorem claimsNamed_apply {modules : List ModuleSlot} {artifacts : KeyMap String Artifact}
    {runId : String} {slot : RunSlot} {act : SlotAct}
    (possible : act.enabled modules artifacts runId slot)
    (named : ClaimsNamed modules runId slot) :
    ClaimsNamed modules runId (act.apply modules slot) := by
  intro id c held
  have terms := (apply_terms modules slot act).symm
  rcases claimed_apply held with old | ⟨work, rfl, rfl, rfl⟩ | ⟨leaseUntil, old, -, there, rfl⟩
  · exact (named id c old).frame (fun _ _ known => known) terms
  · obtain ⟨-, env, node, member, inputs, unitKey, ready, rfl⟩ := possible
    exact (claimWork_named member ready).frame (fun _ _ known => known) terms
  · exact (named id old there).frame (fun _ _ known => known) terms

theorem reachable_named {policy : ArtifactStorePolicy} {s : State} (reached : Reachable policy s)
    {runId : String} {slot : RunSlot} (found : s.runs.lookup runId = some slot) :
    ClaimsNamed s.modules runId slot := by
  have all : ∀ runId slot, s.runs.lookup runId = some slot →
      ClaimsNamed s.modules runId slot := by
    refine reachable_invariant (P := fun s => ∀ runId slot, s.runs.lookup runId = some slot →
      ClaimsNamed s.modules runId slot) ?_ ?_ reached
    · intro runId slot found
      simp at found
    · intro s a guard _ before
      refine slots_apply (I := fun s runId slot => ClaimsNamed s.modules runId slot) guard
        ?_ ?_ ?_ before
      · intro runId slot named id c held
        exact (named id c held).frame (fun _ _ known => (pinned_apply s a known).1) (.refl slot)
      · rintro slot - ⟨env, req, assembly, maxSteps, rfl, -, -⟩ id c held
        simp [freshSlot] at held
      · exact fun _ _ _ _ _ _ possible named => claimsNamed_apply possible named
  exact all runId slot found

theorem handedOut_named {policy : ArtifactStorePolicy} {s : State} {call : Call} {work : WorkItem}
    (handed : work ∈ handedOut (step policy s call).2) :
    ∃ req slot, call.op = .claimReady req ∧ work.runId = req.runId ∧
      s.runs.lookup req.runId = some slot ∧
        Named s.modules req.runId slot work.id work.unitKey := by
  obtain ⟨req, slot, cs, made, found, listed, items, -⟩ := handedOut_claims handed
  rw [items] at handed
  obtain ⟨c, taken, slot', rfl⟩ := claimUnits_item handed
  obtain ⟨member, -, ready⟩ := mem_readyCandidates.mp (listed taken)
  have named : Named s.modules req.runId (reapSlot call.env slot)
      (claimWork call.env req.runId (reapSlot call.env slot) c).id c.2.2 :=
    claimWork_named member ready
  have named := named.frame (fun _ _ known => known) (reapSlot_terms call.env slot)
  exact ⟨req, slot, made, rfl, found, named⟩

theorem handed_named (policy : ArtifactStorePolicy) (calls : List Call) {work : WorkItem}
    (handed : work ∈ emitted (fun s call => handedOut (step policy s call).2)
      (fun s call => (step policy s call).1) {} calls) :
    ∃ slot, (exec policy {} calls).runs.lookup work.runId = some slot ∧
      Named (exec policy {} calls).modules work.runId slot work.id work.unitKey := by
  induction calls using List.reverseRecOn with
  | nil => cases handed
  | append_singleton calls call ih =>
      have reached : Reachable policy (exec policy {} calls) := ⟨calls, rfl⟩
      have persists := persists_step policy (reachable_wellFormed reached) call
      rw [emitted_snoc, List.mem_append] at handed
      rw [exec_snoc]
      have before : ∃ slot, (exec policy {} calls).runs.lookup work.runId = some slot ∧
          Named (exec policy {} calls).modules work.runId slot work.id work.unitKey := by
        rcases handed with earlier | now
        · exact ih earlier
        · obtain ⟨req, slot, -, same, found, named⟩ := handedOut_named now
          rw [same]
          exact ⟨slot, found, named⟩
      obtain ⟨slot, found, named⟩ := before
      obtain ⟨after, found', terms⟩ := persists.terms _ _ found
      exact ⟨after, found', named.frame persists.pinned terms.symm⟩

/-- How many claims of a run are stored. -/
def inFlight (s : State) (runId : String) : Nat :=
  (s.runs.lookup runId).elim 0 fun slot => size slot.claimed

/-- How many leases the ledger says have run out. -/
def expiries (s : State) : Nat := s.ledger.countP (·.kind == "work.expired")

omit [Sha256] [Prost] in
/-- An accepted failure. -/
def failures : Op → Reply → Nat
  | .failWork _, .run _ => 1
  | _, _ => 0

variable (policy : ArtifactStorePolicy) (runId : String)

/-- How many claims of a run a call hands out. -/
def handsOut (s : State) (call : Call) : Nat :=
  (handedOut (step policy s call).2).countP (·.runId == runId)

/-- How many claims of a run end in a call: leases that run out, a commit, a failure. -/
def ends (s : State) (call : Call) : Nat :=
  if scheduledRun call = some runId then
    (expiries (step policy s call).1 - expiries s) +
      ((step policy s call).1.derivations.length - s.derivations.length) +
      failures call.op (step policy s call).2
  else 0

/-- How many claims of a run a call drops by cancelling it. -/
def drops (s : State) (call : Call) : Nat :=
  match call.op, (step policy s call).2 with
  | .cancelRun ref, .run _ => if ref.id = runId then inFlight s runId else 0
  | _, _ => 0

/-- A count summed over a history. -/
def total (count : State → Call → Nat) : State → List Call → Nat
  | _, [] => 0
  | s, call :: calls => count s call + total count (step policy s call).1 calls

variable {policy runId}

private def isExpiry (r : Record) : Bool := r.1 == "work.expired"

omit [Prost] in
private theorem expiries_recordAll (s : State) (rid : String) (slot : RunSlot)
    (ds : List Derivation) (rs : List Record) :
    expiries (recordAll s rid slot ds rs) = expiries s + rs.countP isExpiry := by
  have count (ledger : List LedgerEntry) : ledger.countP (·.kind == "work.expired") =
      (ledger.map recordOf).countP isExpiry := by
    rw [List.countP_map]
    rfl
  rw [expiries, expiries, recordAll_eq, count, count, map_extend, List.countP_append]

omit [Prost] in
private theorem inFlight_recordAll {s : State} {slot : RunSlot}
    (found : s.runs.lookup runId = some slot) (after : RunSlot) (ds : List Derivation)
    (rs : List Record) : inFlight (recordAll s runId after ds rs) runId = size after.claimed := by
  rw [inFlight, lookup_recordAll after ds rs found, if_pos rfl]
  rfl

omit [Prost] in
private theorem derivations_recordAll (s : State) (rid : String) (slot : RunSlot)
    (ds : List Derivation) (rs : List Record) :
    (recordAll s rid slot ds rs).derivations = s.derivations ++ ds := by
  rw [recordAll_eq]

omit [Sha256] [Prost] in
theorem inFlight_eq {s : State} {slot : RunSlot} (found : s.runs.lookup runId = some slot) :
    inFlight s runId = size slot.claimed := by
  rw [inFlight, found]
  rfl

/-- The leases an act lets run out. -/
private def expired : SlotAct → Nat
  | .expire _ _ => 1
  | _ => 0

private theorem countP_records (before after : RunSlot) (a : SlotAct) :
    (a.records runId before after).countP isExpiry = expired a := by
  cases a with
  | expire id c =>
      simp only [SlotAct.records, expiryRecords, expired]
      split <;> rfl
  | commit c outputs =>
      simp only [SlotAct.records, commitRecords, expired]
      cases after.run.state <;> rfl
  | _ => rfl

/-- A run whose nodes have plain names and whose claims are named. -/
private def Sound (runId : String) (s : State) : Prop :=
  ∀ slot, s.runs.lookup runId = some slot →
    PlainNames s.modules slot ∧ ClaimsNamed s.modules runId slot

omit [Prost] in
theorem fresh_id {modules : List ModuleSlot} {slot : RunSlot} {env : Env} {node : AssemblyNode}
    {inputs : List NamedArtifact} {unitKey : String} (plain : PlainNames modules slot)
    (named : ClaimsNamed modules runId slot) (member : node ∈ slot.run.assembly.nodes)
    (ready : readyUnit modules slot node = some (inputs, unitKey)) :
    slot.claimed.lookup (claimWork env runId slot (node, inputs, unitKey)).id = none := by
  rw [Option.eq_none_iff_forall_not_mem]
  intro c held
  have same := named_inj plain (named _ c held) (claimWork_named member ready)
  exact (readyUnit_iff.mp ready).2.2.2.2 _ c held same

omit [Prost] in
private theorem count_apply {modules : List ModuleSlot} {artifacts : KeyMap String Artifact}
    {slot : RunSlot} {a : SlotAct} (guard : a.enabled modules artifacts runId slot)
    (plain : PlainNames modules slot) (named : ClaimsNamed modules runId slot)
    (kept : a ≠ .cancel) (works : ∀ id c reason terminal, a ≠ .fail id c reason terminal) :
    size (a.apply modules slot).claimed + expired a + a.derivation.length =
      size slot.claimed + a.handsOut.toList.length := by
  cases a with
  | inject input => rfl
  | stall => rfl
  | cancel => exact absurd rfl kept
  | fail id c reason terminal => exact absurd rfl (works id c reason terminal)
  | claim work =>
      obtain ⟨-, env, node, member, inputs, unitKey, ready, rfl⟩ := guard
      rw [SlotAct.apply, claimSlot_claimed, size_insert_new (fresh_id plain named member ready)]
      rfl
  | renew id leaseUntil =>
      simp only [SlotAct.apply, renewClaim]
      split
      · exact size_replace _ _ _
      · rfl
  | expire id c => exact size_erase_add guard
  | commit c outputs =>
      rw [SlotAct.apply, settleSlot_claimed]
      exact size_erase_add guard.1

omit [Prost] in
private theorem plainNames_terms {modules : List ModuleSlot} {slot after : RunSlot}
    (plain : PlainNames modules slot) (terms : SameTerms slot after) : PlainNames modules after := by
  intro once member other member' unitKey may may'
  rw [terms.assembly] at member member'
  exact plain once member other member' unitKey (may.frame (fun _ known => known) terms)
    (may'.frame (fun _ known => known) terms)

/-- The atoms of a call that schedules a run's work, failing none. -/
private def Schedules (runId : String) : Atom → Prop
  | .acted rid act => rid = runId ∧ act ≠ .cancel ∧
      ∀ id c reason terminal, act ≠ .fail id c reason terminal
  | .remembered _ _ => True
  | _ => False

private theorem path_counts {s t : State} {atoms : List Atom} (path : Path kernel s atoms t)
    (schedules : ∀ a ∈ atoms, Schedules runId a) (sound : Sound runId s) :
    expiries s ≤ expiries t ∧ s.derivations.length ≤ t.derivations.length ∧
      inFlight t runId + expiries t + t.derivations.length =
        inFlight s runId + expiries s + s.derivations.length +
          (atoms.filterMap Atom.handsOut).length := by
  induction path with
  | nil s => exact ⟨le_rfl, le_rfl, rfl⟩
  | @cons s t a atoms guard rest ih =>
      obtain ⟨first, later⟩ := List.forall_mem_cons.mp schedules
      cases a with
      | remembered key result => exact ih later sound
      | acted rid act =>
          obtain ⟨rfl, kept, works⟩ := first
          obtain ⟨slot, found, -, possible⟩ := guard
          obtain ⟨plain, named⟩ := sound slot found
          have count := count_apply possible plain named kept works
          have next : kernel.apply s (.acted rid act) = recordAll s rid (act.apply s.modules slot)
              act.derivation (act.records rid slot (act.apply s.modules slot)) := by
            show Atom.apply s (.acted rid act) = _
            simp only [Atom.apply, found]
          have still : Sound rid (kernel.apply s (.acted rid act)) := by
            intro after there
            rw [next, lookup_recordAll _ _ _ found, if_pos rfl] at there
            obtain rfl := Option.some.inj there
            rw [next, recordAll_modules]
            exact ⟨plainNames_terms plain (apply_terms s.modules slot act),
              claimsNamed_apply possible named⟩
          obtain ⟨leases, made, rest⟩ := ih later still
          have handed : ((Atom.acted rid act :: atoms).filterMap Atom.handsOut).length =
              act.handsOut.toList.length + (atoms.filterMap Atom.handsOut).length := by
            have one : (Atom.acted rid act).handsOut = act.handsOut := rfl
            rw [List.filterMap_cons, one]
            cases act.handsOut with
            | none => simp
            | some work => simp [Nat.add_comm]
          have derived : (recordAll s rid (act.apply s.modules slot) act.derivation
              (act.records rid slot (act.apply s.modules slot))).derivations.length =
              s.derivations.length + act.derivation.length := by
            rw [derivations_recordAll, List.length_append]
          rw [next, expiries_recordAll, countP_records] at leases rest
          rw [next, derived] at made
          rw [derived, inFlight_recordAll found] at rest
          rw [handed, inFlight_eq found]
          omega
      | _ => exact first.elim

/-- Atoms that give a run no claim and take none from it. -/
private def Quiet (runId : String) (a : Atom) : Prop :=
  ∀ act, a = .acted runId act → ∃ input, act = .inject input

private theorem path_quiet {s t : State} {atoms : List Atom} (path : Path kernel s atoms t)
    (quiet : ∀ a ∈ atoms, Quiet runId a) : inFlight t runId = inFlight s runId := by
  induction path with
  | nil s => rfl
  | @cons s t a atoms guard rest ih =>
      obtain ⟨first, later⟩ := List.forall_mem_cons.mp quiet
      refine (ih later).trans ?_
      change inFlight (a.apply s) runId = inFlight s runId
      cases found : (a.apply s).runs.lookup runId with
      | some after =>
          rcases runs_apply guard found with ⟨old, -⟩ | ⟨slot, act, rfl, there, -, -, rfl⟩ |
            ⟨rfl, rfl, absent, env, req, assembly, maxSteps, rfl, -⟩
          · rw [inFlight_eq found, inFlight_eq old]
          · obtain ⟨input, rfl⟩ := first act rfl
            rw [inFlight_eq found, inFlight_eq there]
            rfl
          · rw [inFlight_eq found, inFlight,
              Option.eq_none_iff_forall_not_mem.mpr fun _ held => absent (mem_of_lookup held)]
            rfl
      | none =>
          cases there : s.runs.lookup runId with
          | none => rw [inFlight, inFlight, found, there]
          | some slot =>
              rcases runs_persist guard there with ⟨kept, -⟩ | ⟨act, -, -, -, kept⟩ <;>
                rw [found] at kept <;> cases kept

omit [Prost] in
private theorem schedules_allowed {s : State} {call : Call} {a : Atom}
    (scheduled : scheduledRun call = some runId) (works : ∀ req, call.op ≠ .failWork req)
    (allowed : Allowed s call a) : Schedules runId a := by
  have kept : ∀ act, ActAllowed s call act → act ≠ .cancel ∧
      ∀ id c reason terminal, act ≠ .fail id c reason terminal := by
    intro act ok
    rcases actAllowed_cases ok with ⟨e, -, rfl⟩ | ⟨req, -, ⟨work, rfl⟩ | rfl⟩ |
      ⟨req, id, leaseUntil, -, -, rfl⟩ | ⟨req, op, -⟩ | ⟨submitted, slot, c, -, -, -, rfl⟩
    · exact ⟨nofun, nofun⟩
    · exact ⟨nofun, nofun⟩
    · exact ⟨nofun, nofun⟩
    · exact ⟨nofun, nofun⟩
    · exact absurd op (works req)
    · exact ⟨nofun, nofun⟩
  obtain ⟨op, ctx, env⟩ := call
  cases op with
  | claimReady req =>
      obtain ⟨act, rfl, ok⟩ := allowed
      exact ⟨Option.some.inj scheduled, kept act ok⟩
  | heartbeat req =>
      obtain ⟨act, rfl, ok⟩ := allowed
      exact ⟨Option.some.inj scheduled, kept act ok⟩
  | failWork req => exact absurd rfl (works req)
  | commit submitted =>
      rcases allowed with ⟨act, rfl, ok⟩ | ⟨key, r, rfl⟩
      · exact ⟨Option.some.inj scheduled, kept act ok⟩
      · trivial
  | _ => cases scheduled

private theorem reap_counts {s : State} {slot : RunSlot} (env : Env) (sound : Sound runId s)
    (found : s.runs.lookup runId = some slot) (running : slot.run.state = .running) :
    expiries s ≤ expiries (reapExpiredLocked env runId slot s) ∧
      size (reapSlot env slot).claimed + expiries (reapExpiredLocked env runId slot s) =
        inFlight s runId + expiries s := by
  have reaping : Trace s.modules s.artifacts runId slot _ _ _ _ _ := reap_trace env running
  have schedules : ∀ a ∈ ((expiredClaims env slot).map expireAct).map (Atom.acted runId),
      Schedules runId a := by
    intro a member
    obtain ⟨act, listed, rfl⟩ := List.mem_map.mp member
    obtain ⟨e, -, rfl⟩ := List.mem_map.mp listed
    exact ⟨rfl, nofun, nofun⟩
  have silent : (((expiredClaims env slot).map expireAct).map (Atom.acted runId)).filterMap
      Atom.handsOut = [] := by
    rw [List.filterMap_map]
    exact reaping.items
  obtain ⟨leases, -, counts⟩ := path_counts (reaping.lift found) schedules sound
  rw [silent, inFlight_recordAll found, derivations_recordAll, List.append_nil,
    List.length_nil] at counts
  rw [reapExpiredLocked, record_eq_recordAll]
  exact ⟨leases, by omega⟩

omit [Sha256] [Prost] in
private theorem failed_silent (rs : List Record) (id : String) (body : List UInt8) :
    (rs ++ [("work.failed", id, body)]).countP isExpiry = rs.countP isExpiry := by
  rw [List.countP_append]
  rfl

omit [Sha256] in
private theorem stalled_silent (rs : List Record) (slot : RunSlot) :
    (rs ++ [stalledRecord slot]).countP isExpiry = rs.countP isExpiry := by
  rw [List.countP_append]
  rfl

private theorem failWork_counts {s : State} {env : Env} {req : FailWorkRequest}
    (sound : Sound req.runId s) :
    expiries s ≤ expiries (failWork env req s).1 ∧
      (failWork env req s).1.derivations = s.derivations ∧
      inFlight (failWork env req s).1 req.runId + expiries (failWork env req s).1 +
          failures (.failWork req) (reply .run (failWork env req s)).2 =
        inFlight s req.runId + expiries s := by
  cases running : runningSlot s req.runId with
  | error e =>
      simp only [failWork, running, orReturn]
      exact ⟨le_rfl, trivial, rfl⟩
  | ok slot =>
      obtain ⟨found, running'⟩ := runningSlot_ok.mp running
      obtain ⟨leases, counts⟩ := reap_counts env sound found running'
      simp only [reapExpiredLocked, record_eq_recordAll, expiries_recordAll] at leases counts
      simp only [failWork, running, orReturn, reapExpiredLocked, record_eq_recordAll]
      cases held : (reapSlot env slot).claimed.lookup req.workId with
      | none =>
          refine ⟨?_, ?_, ?_⟩
          · rw [expiries_recordAll]
            exact leases
          · rw [derivations_recordAll, List.append_nil]
          · rw [inFlight_recordAll found, expiries_recordAll]
            exact counts
      | some c =>
          have freed := size_erase_add held
          simp only [recordAll_recordAll, List.append_nil]
          generalize (if req.reason = "" then "failed" else req.reason) = reason
          generalize (req.terminal || decide ((reapSlot env slot).maxAttempts ≤ c.attempt)) = terminal
          have gone : (failSlot (reapSlot env slot) req.workId c terminal).claimed =
              (reapSlot env slot).claimed.erase req.workId := rfl
          split_ifs
          · refine ⟨?_, ?_, ?_⟩
            · rw [expiries_recordAll]
              omega
            · rw [derivations_recordAll, List.append_nil]
            · rw [inFlight_recordAll found, expiries_recordAll, stalled_silent, failed_silent,
                stallSlot, gone]
              simp only [reply, failures]
              omega
          · refine ⟨?_, ?_, ?_⟩
            · rw [expiries_recordAll]
              omega
            · rw [derivations_recordAll, List.append_nil]
            · rw [inFlight_recordAll found, expiries_recordAll, failed_silent, gone]
              simp only [reply, failures]
              omega

private theorem cancelRun_counts (s : State) (ctx : RequestContext) (env : Env) :
    inFlight (step policy s ⟨.cancelRun ⟨runId⟩, ctx, env⟩).1 runId +
        drops policy runId s ⟨.cancelRun ⟨runId⟩, ctx, env⟩ = inFlight s runId := by
  simp only [drops, step]
  cases checkDeadline env ctx with
  | error e => rfl
  | ok u =>
      cases running : runningSlot s runId with
      | error e => simp only [cancelRun, running, orReturn, reply, Nat.add_zero]
      | ok slot =>
          obtain ⟨found, -⟩ := runningSlot_ok.mp running
          simp only [cancelRun, running, orReturn, reply, record_eq_recordAll, if_true]
          rw [inFlight_recordAll found, inFlight_eq found]
          exact Nat.zero_add _

private theorem drops_scheduled {s : State} {call : Call} {rid : String}
    (scheduled : scheduledRun call = some rid) : drops policy runId s call = 0 := by
  obtain ⟨op, ctx, env⟩ := call
  cases op with
  | cancelRun ref => cases scheduled
  | _ => rfl

private theorem handedOut_scheduled {s : State} {call : Call} {work : WorkItem}
    (handed : work ∈ handedOut (step policy s call).2) : scheduledRun call = some work.runId := by
  obtain ⟨req, slot, cs, op, -, -, items, -⟩ := handedOut_claims handed
  rw [items] at handed
  obtain ⟨c, -, slot', rfl⟩ := claimUnits_item handed
  rw [scheduledRun, op]
  rfl

private theorem handsOut_scheduled {s : State} {call : Call}
    (scheduled : scheduledRun call = some runId) :
    handsOut policy runId s call = (handedOut (step policy s call).2).length := by
  refine List.countP_eq_length.mpr fun work handed => ?_
  rw [handedOut_scheduled handed] at scheduled
  exact beq_iff_eq.mpr (Option.some.inj scheduled)

private theorem handsOut_other {s : State} {call : Call} (other : scheduledRun call ≠ some runId) :
    handsOut policy runId s call = 0 := by
  refine List.countP_eq_zero.mpr fun work handed same => other ?_
  rw [handedOut_scheduled handed, beq_iff_eq.mp same]

theorem step_counts {s : State} (wf : WellFormed s) (sound : Sound runId s) (call : Call) :
    inFlight (step policy s call).1 runId + ends policy runId s call + drops policy runId s call =
      inFlight s runId + handsOut policy runId s call := by
  obtain ⟨atoms, path, allowed, items⟩ := step_explained policy wf call
  by_cases scheduled : scheduledRun call = some runId
  · rw [drops_scheduled scheduled, ends, if_pos scheduled, handsOut_scheduled scheduled]
    by_cases failing : ∃ req, call.op = .failWork req
    · obtain ⟨req, op⟩ := failing
      obtain ⟨_, ctx, env⟩ := call
      obtain rfl := op
      obtain rfl := Option.some.inj scheduled
      simp only [step]
      cases checkDeadline env ctx with
      | error e => simp [orReturn, reply, failures, handedOut]
      | ok u =>
          obtain ⟨leases, made, counts⟩ := @failWork_counts _ _ s env req sound
          have silent : handedOut (reply .run (failWork env req s)).2 = [] := by
            simp only [reply]
            cases (failWork env req s).2 <;> rfl
          simp only [orReturn, silent, List.length_nil]
          change inFlight (failWork env req s).1 req.runId +
            (expiries (failWork env req s).1 - expiries s +
              ((failWork env req s).1.derivations.length - s.derivations.length) +
              failures (.failWork req) (reply .run (failWork env req s)).2) + 0 = _
          rw [made]
          omega
    · have schedules := fun a member => schedules_allowed scheduled
        (fun req op => failing ⟨req, op⟩) (allowed a member)
      obtain ⟨leases, made, counts⟩ := path_counts path schedules sound
      have accepted : failures call.op (step policy s call).2 = 0 := by
        unfold failures
        split
        · rename_i req _ op _
          exact absurd ⟨req, op⟩ failing
        · rfl
      rw [accepted, ← items]
      omega
  · rw [ends, if_neg scheduled, handsOut_other scheduled]
    by_cases cancels : call.op = .cancelRun ⟨runId⟩
    · obtain ⟨_, ctx, env⟩ := call
      obtain rfl := cancels
      exact cancelRun_counts s ctx env
    · have quiet : ∀ a ∈ atoms, Quiet runId a := by
        rintro a member act rfl
        rcases allowed_acted (allowed _ member) with ⟨req, input, -, -, -, rfl⟩ |
          ⟨ref, op, rfl, -⟩ | ⟨mine, -⟩
        · exact ⟨input, rfl⟩
        · exact absurd op cancels
        · exact absurd mine scheduled
      have none : drops policy runId s call = 0 := by
        unfold drops
        split
        · rename_i ref _ op _
          rw [if_neg]
          rintro rfl
          exact cancels op
        · rfl
      rw [path_quiet path quiet, none]

omit [Sha256] [Prost] in
theorem Persists.trans {s t u : State} (first : Persists s t) (second : Persists t u) :
    Persists s u := by
  refine ⟨fun node cap known => second.pinned node cap (first.pinned node cap known), ?_⟩
  intro rid slot found
  obtain ⟨mid, found', terms⟩ := first.terms rid slot found
  obtain ⟨after, found'', terms'⟩ := second.terms rid mid found'
  exact ⟨after, found'', terms.trans terms'⟩

theorem persists_exec (policy : ArtifactStorePolicy) {s : State} (wf : WellFormed s)
    (calls : List Call) : Persists s (exec policy s calls) := by
  induction calls generalizing s with
  | nil => exact ⟨fun _ _ known => known, fun _ slot found => ⟨slot, found, .refl slot⟩⟩
  | cons call calls ih =>
      exact (persists_step policy wf call).trans (ih (wellFormed_step policy wf call))

omit [Prost] in
theorem plainNames_before {s t : State} (persists : Persists s t) {slot after : RunSlot}
    (found : s.runs.lookup runId = some slot) (found' : t.runs.lookup runId = some after)
    (plain : PlainNames t.modules after) : PlainNames s.modules slot := by
  obtain ⟨other, there, terms⟩ := persists.terms runId slot found
  obtain rfl := Option.some.inj (found'.symm.trans there)
  intro once member other member' unitKey may may'
  rw [← terms.assembly] at member member'
  exact plain once member other member' unitKey (may.frame (persists.pinned once) terms.symm)
    (may'.frame (persists.pinned other) terms.symm)

theorem total_append (count : State → Call → Nat) (s : State) (first second : List Call) :
    total policy count s (first ++ second) =
      total policy count s first + total policy count (exec policy s first) second := by
  induction first generalizing s with
  | nil => exact (Nat.zero_add _).symm
  | cons call first ih =>
      rw [List.cons_append, total, total, ih, exec_cons, Nat.add_assoc]

theorem run_counts (calls : List Call) {slot : RunSlot}
    (found : (exec policy {} calls).runs.lookup runId = some slot)
    (plain : PlainNames (exec policy {} calls).modules slot) :
    inFlight (exec policy {} calls) runId + total policy (ends policy runId) {} calls +
        total policy (drops policy runId) {} calls =
      total policy (handsOut policy runId) {} calls := by
  have prefixes : ∀ done rest, done ++ rest = calls →
      inFlight (exec policy {} done) runId + total policy (ends policy runId) {} done +
          total policy (drops policy runId) {} done =
        total policy (handsOut policy runId) {} done := by
    intro done
    induction done using List.reverseRecOn with
    | nil =>
        rintro rest -
        rfl
    | append_singleton done call ih =>
        intro rest split
        have before := ih (call :: rest) (by rw [← split, List.append_assoc, List.singleton_append])
        have reached : Reachable policy (exec policy {} done) := ⟨done, rfl⟩
        have wf := reachable_wellFormed reached
        have persists := persists_exec policy wf (call :: rest)
        rw [← exec_append, ← List.singleton_append, ← List.append_assoc, split] at persists
        have sound : Sound runId (exec policy {} done) := fun slot' found' =>
          ⟨plainNames_before persists found' found plain, reachable_named reached found'⟩
        have counts := @step_counts _ _ policy runId _ wf sound call
        simp only [total_append, total, exec_snoc, Nat.add_zero]
        omega
  exact prefixes calls [] (List.append_nil calls)

private theorem drops_cancels {s : State} {call : Call} (dropped : drops policy runId s call ≠ 0) :
    ∃ slot, (step policy s call).1.runs.lookup runId = some slot ∧ slot.run.state = .cancelled := by
  obtain ⟨op, ctx, env⟩ := call
  cases op with
  | cancelRun ref =>
      simp only [drops, step] at dropped ⊢
      cases late : checkDeadline env ctx with
      | error e =>
          rw [late] at dropped
          exact absurd rfl dropped
      | ok u =>
          cases running : runningSlot s ref.id with
          | error e =>
              rw [late] at dropped
              simp only [cancelRun, running, orReturn, reply, ne_eq, not_true_eq_false] at dropped
          | ok slot =>
              obtain ⟨found, -⟩ := runningSlot_ok.mp running
              rw [late] at dropped
              simp only [cancelRun, running, orReturn, reply, record_eq_recordAll] at dropped ⊢
              by_cases here : ref.id = runId
              · obtain rfl := here
                exact ⟨_, by rw [lookup_recordAll _ _ _ found, if_pos rfl], rfl⟩
              · exact absurd (if_neg here) dropped
  | _ => exact absurd rfl dropped

theorem drops_uncancelled {s : State} (reached : Reachable policy s) (calls : List Call)
    {slot : RunSlot} (found : (exec policy s calls).runs.lookup runId = some slot)
    (live : slot.run.state ≠ .cancelled) : total policy (drops policy runId) s calls = 0 := by
  induction calls generalizing s with
  | nil => rfl
  | cons call calls ih =>
      have next := reachable_step call reached
      rw [exec_cons] at found
      have none : drops policy runId s call = 0 := by
        by_contra dropped
        obtain ⟨gone, there, cancelled⟩ := drops_cancels dropped
        have kept := (untouched_exec policy next there (by rw [cancelled]; nofun) calls).slot
        obtain rfl := Option.some.inj (found.symm.trans kept)
        exact live cancelled
      rw [total, none, ih next found]

omit [Prost] in
private theorem claimable_fresh {modules : List ModuleSlot} {slot : RunSlot} {cs : List Candidate}
    (claimable : Claimable modules slot cs) (plain : PlainNames modules slot)
    (named : ClaimsNamed modules runId slot) (env : Env) :
    (((claimUnits env runId slot cs).2).map (·.id)).Nodup ∧
      ∀ work ∈ (claimUnits env runId slot cs).2, slot.claimed.lookup work.id = none := by
  rw [claimUnits_items claimable.distinct]
  refine ⟨?_, ?_⟩
  · rw [List.map_map]
    refine List.Nodup.map_on ?_ (List.Nodup.of_map _ claimable.distinct)
    intro c member c' member' same
    have ids : (claimWork env runId slot c).id = (claimWork env runId slot c').id := same
    have name : Named modules runId slot (claimWork env runId slot c).id c.2.2 :=
      claimWork_named (claimable.nodes c member) (claimable.ready c member)
    have name' : Named modules runId slot (claimWork env runId slot c').id c'.2.2 :=
      claimWork_named (claimable.nodes c' member') (claimable.ready c' member')
    have unitKeys : c.2.2 = c'.2.2 := named_inj plain name (ids ▸ name')
    exact List.inj_on_of_nodup_map claimable.distinct member member' unitKeys
  · intro work member
    obtain ⟨c, listed, rfl⟩ := List.mem_map.mp member
    exact fresh_id plain named (claimable.nodes c listed) (claimable.ready c listed)

theorem claim_fresh {s : State} {slot : RunSlot} (wf : WellFormed s)
    (found : s.runs.lookup runId = some slot) (plain : PlainNames s.modules slot)
    (named : ClaimsNamed s.modules runId slot) (call : Call) :
    (((handedOut (step policy s call).2).filter (·.runId == runId)).map (·.id)).Nodup ∧
      ∀ work ∈ handedOut (step policy s call).2, work.runId = runId →
        (reapSlot call.env slot).claimed.lookup work.id = none := by
  by_cases other : ∃ work ∈ handedOut (step policy s call).2, work.runId = runId
  · obtain ⟨work, handed, mine⟩ := other
    have scheduled := handedOut_scheduled handed
    obtain ⟨req, -, -, op, -⟩ := handedOut_claims handed
    obtain ⟨_, ctx, env⟩ := call
    obtain rfl := op
    obtain rfl : req.runId = runId := (Option.some.inj scheduled).trans mine
    cases late : checkDeadline env ctx with
    | error e =>
        simp only [step, late, orReturn] at handed
        cases handed
    | ok u =>
        cases running : runningSlot s req.runId with
        | error e =>
            simp only [step, late, claimReady, running, orReturn] at handed
            cases handed
        | ok slot' =>
            obtain ⟨found', running'⟩ := runningSlot_ok.mp running
            obtain rfl := Option.some.inj (found.symm.trans found')
            have reaping : Trace s.modules s.artifacts req.runId slot _ _ _ _ _ :=
              reap_trace env running'
            have shape := reaping.shape (wf req.runId slot found)
            have terms := reapSlot_terms env slot
            have claimable : Claimable s.modules (reapSlot env slot)
                ((readyCandidates s.modules (reapSlot env slot) req).take
                  (wanted req (reapSlot env slot))) :=
              take_claimable shape.ids (min_le_right _ _) shape.room
            have still : ClaimsNamed s.modules req.runId (reapSlot env slot) := fun id c held =>
              (named id c (reapSlot_lookup held)).frame (fun _ _ known => known) terms.symm
            obtain ⟨distinct, free⟩ := claimable_fresh claimable (plainNames_terms plain terms) still env
            have items : handedOut (step policy s ⟨.claimReady req, ctx, env⟩).2 =
                (claimUnits env req.runId (reapSlot env slot)
                  ((readyCandidates s.modules (reapSlot env slot) req).take
                    (wanted req (reapSlot env slot)))).2 := by
              simp only [step, late, orReturn, reply, claimReady_reply env found running']
              rfl
            rw [items]
            exact ⟨distinct.sublist (List.filter_sublist.map _), fun work member _ => free work member⟩
  · have none : (handedOut (step policy s call).2).filter (·.runId == runId) = [] :=
      List.filter_eq_nil_iff.mpr fun work handed same => other ⟨work, handed, beq_iff_eq.mp same⟩
    rw [none]
    exact ⟨List.nodup_nil, fun work handed mine => absurd ⟨work, handed, mine⟩ other⟩

/-- What a history hands out of a run. -/
def handedTo (policy : ArtifactStorePolicy) (runId : String) (calls : List Call) : List WorkItem :=
  (emitted (fun s call => handedOut (step policy s call).2) (fun s call => (step policy s call).1)
    {} calls).filter (·.runId == runId)

/-- Every unit handed out has a work id of its own: what was handed out under one is one unit, a
stored claim is of the unit handed out under its work id, the next claim overwrites none, and the
claims stored are those handed out and not ended, where only a cancellation drops any. -/
structure OwnIds (policy : ArtifactStorePolicy) (runId : String) (calls : List Call)
    (slot : RunSlot) : Prop where
  distinct : ∀ work ∈ handedTo policy runId calls, ∀ work' ∈ handedTo policy runId calls,
    work.id = work'.id → work.unitKey = work'.unitKey
  addressed : ∀ work ∈ handedTo policy runId calls, ∀ c, slot.claimed.lookup work.id = some c →
    c.unitKey = work.unitKey
  kept : ∀ call,
    (((handedOut (step policy (exec policy {} calls) call).2).filter
      (·.runId == runId)).map (·.id)).Nodup ∧
    ∀ work ∈ handedOut (step policy (exec policy {} calls) call).2, work.runId = runId →
      (reapSlot call.env slot).claimed.lookup work.id = none
  counted : size slot.claimed + total policy (ends policy runId) {} calls +
      total policy (drops policy runId) {} calls =
    total policy (handsOut policy runId) {} calls
  uncancelled : slot.run.state ≠ .cancelled → total policy (drops policy runId) {} calls = 0

/-- Under plain names every unit a history hands out has a work id of its own. -/
theorem ownIds_of_plain (policy : ArtifactStorePolicy) (calls : List Call) {runId : String}
    {slot : RunSlot} (found : (exec policy {} calls).runs.lookup runId = some slot)
    (plain : PlainNames (exec policy {} calls).modules slot) : OwnIds policy runId calls slot := by
  have reached : Reachable policy (exec policy {} calls) := ⟨calls, rfl⟩
  have wf := reachable_wellFormed reached
  have claims := reachable_named reached found
  have named : ∀ work ∈ handedTo policy runId calls,
      Named (exec policy {} calls).modules runId slot work.id work.unitKey := by
    intro work handed
    obtain ⟨handed, mine⟩ := List.mem_filter.mp handed
    obtain ⟨slot', found', named⟩ := handed_named policy calls handed
    rw [beq_iff_eq.mp mine] at found' named
    obtain rfl := Option.some.inj (found.symm.trans found')
    exact named
  refine ⟨?_, ?_, claim_fresh wf found plain claims, ?_,
    drops_uncancelled ⟨[], rfl⟩ calls found⟩
  · intro work handed work' handed' same
    exact named_inj plain (named work handed) (same ▸ named work' handed')
  · intro work handed c held
    exact named_inj plain (claims work.id c held) (named work handed)
  · rw [← inFlight_eq found]
    exact run_counts calls found plain

omit [Prost] in
theorem plainNames_of_ids {modules : List ModuleSlot} {slot : RunSlot}
    (ids : ∀ node ∈ slot.run.assembly.nodes, ¬ "always:".toList <+: node.id.toList ∧
      ¬ "key:".toList <+: node.id.toList) : PlainNames modules slot := by
  rintro once member other - unitKey - may aside rfl
  obtain ⟨noAlways, noKey⟩ := ids once member
  obtain ⟨u, spelled, node⟩ := may.spell
  cases u with
  | once a =>
      obtain rfl : a = other.id := node
      exact aside spelled
  | always a rows =>
      refine noAlways ⟨(a ++ ":" ++ sha256Hex rows).toList, ?_⟩
      rw [spelled]
      simp [UnitIdent.spell]
  | key a pairs =>
      refine noKey ⟨(a ++ ":" ++ sha256Hex pairs).toList, ?_⟩
      rw [spelled]
      simp [UnitIdent.spell]

end Runs

section Namesake

open Substrate.Kernel.Concrete

/-- The unit of `n` on its first line. -/
def firstUnit : String := "always:n:34dc2c2251d00e3314f1461323bf3694c473e4127164a87006d2c1f4dbb084b9"

/-- Two nodes hear the line; `n` fires ALWAYS, the other ONCE, and it is called like the unit of `n`. -/
def namesakes : Assembly :=
  { id := "namesakes", nodes := [⟨"n", "echo", "1", "say"⟩, ⟨firstUnit, "echo", "1", "say"⟩]
    bindings := [{ toNode := "n", toPort := "heard", input := "line" },
      { toNode := firstUnit, toPort := "heard", input := "line" }]
    terminal := some ⟨"n", "said"⟩ }

def claimBoth : List Call :=
  stocked .always ++
    [callAt 0 (.startRun
      { id := "r", assembly := some namesakes, inputs := [given "line" (text "one")]
        policy := some { byNode := .singleton firstUnit Firing.once.asI32 } }),
      callAt 0 (.claimReady { runId := "r", maxItems := 2 })]

theorem ownIds_echo : ∃ slot,
    (exec policy {} (opening .once .unspecified ++ [claimAt 0])).runs.lookup "r" = some slot ∧
      OwnIds policy "r" (opening .once .unspecified ++ [claimAt 0]) slot := by
  have checked : ((exec policy {} (opening .once .unspecified ++ [claimAt 0])).runs.lookup "r").any
      (fun slot => slot.run.assembly.nodes.all fun node =>
        !"always:".toList.isPrefixOf node.id.toList && !"key:".toList.isPrefixOf node.id.toList) := by
    decide +kernel
  obtain ⟨slot, found, ids⟩ := (Option.any_eq_true _ _).mp checked
  refine ⟨slot, found, ownIds_of_plain policy _ found (plainNames_of_ids fun node member => ?_)⟩
  have names := List.all_eq_true.mp ids node member
  rw [Bool.and_eq_true, Bool.not_eq_true', Bool.not_eq_true'] at names
  rw [← List.isPrefixOf_iff_prefix, ← List.isPrefixOf_iff_prefix, names.1, names.2]
  exact ⟨Bool.false_ne_true, Bool.false_ne_true⟩

private theorem overwritten {policy : ArtifactStorePolicy} {calls : List Call} {slot : RunSlot}
    (handed : ∃ work ∈ handedTo policy "r" calls, ∃ work' ∈ handedTo policy "r" calls,
      work.id = work'.id ∧ work.unitKey ≠ work'.unitKey) : ¬ OwnIds policy "r" calls slot := by
  rintro ⟨distinct, -, -, -, -⟩
  obtain ⟨work, member, work', member', same, apart⟩ := handed
  exact apart (distinct work member work' member' same)

/-- Two units are handed out under one work id, and one claim is stored. -/
theorem namesake_overwrites : ∃ slot, (exec policy {} claimBoth).runs.lookup "r" = some slot ∧
    (handedTo policy "r" claimBoth).length = 2 ∧ size slot.claimed = 1 ∧
    ¬ OwnIds policy "r" claimBoth slot := by
  have checked : ((exec policy {} claimBoth).runs.lookup "r").any
      (fun slot => size slot.claimed == 1) ∧ (handedTo policy "r" claimBoth).length = 2 ∧
      ∃ work ∈ handedTo policy "r" claimBoth, ∃ work' ∈ handedTo policy "r" claimBoth,
        work.id = work'.id ∧ work.unitKey ≠ work'.unitKey := by
    decide +kernel
  obtain ⟨stored, both, handed⟩ := checked
  obtain ⟨slot, found, one⟩ := (Option.any_eq_true _ _).mp stored
  exact ⟨slot, found, both, beq_iff_eq.mp one, overwritten handed⟩

end Namesake

end Substrate.Protocol.WorkIds
