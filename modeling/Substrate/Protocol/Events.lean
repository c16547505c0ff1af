/- ID: Substrate/Protocol/Events
   digest: What a subscriber receives: the first events published on its topics since it subscribed. -/

import Substrate.Kernel.Bus
import Substrate.Protocol.Replay

set_option autoImplicit false
set_option relaxedAutoImplicit false

namespace Substrate.Protocol.Events

open Substrate.Kernel.Wire
open Substrate.Kernel.Hashing
open Substrate.Kernel.Memory
open Substrate.Kernel.Runs (Record)
open Substrate.Kernel.Api
open Substrate.Kernel.Bus
open Substrate.Protocol.Atoms
open Substrate.Protocol.Slots
open Substrate.Protocol.Refine
open Substrate.Protocol.Replay (entriesOf ledger_apply)
open Substrate.Library.Broadcast (Signal Channel wanted run_separate served_initial subscribed)
open Substrate.Library.Transition

/-- The signal an operation gives the channels. -/
def signalOf (live : Live) : ClientOp → Option (Signal String Event)
  | .subscribe sub => some (.subscribe sub.topics)
  | .receive rx => some (.receive rx)
  | .hangUp rx => some (.hangUp rx)
  | .call call =>
      match call.op with
      | .publish event => some (.publish { event with seq := live.state.eventSeq + 1 })
      | _ => none

/-- The event an operation publishes, with its `seq`. -/
def publishedBy (live : Live) (op : ClientOp) : Option Event := (signalOf live op).bind Signal.event

variable [Sha256] [Prost]

/-- The signals that operations give, oldest first. -/
def signals (policy : ArtifactStorePolicy) (live : Live) (ops : List ClientOp) :
    List (Signal String Event) :=
  emitted (fun live op => (signalOf live op).toList) (clientStep policy) live ops

/-- The events that operations publish, oldest first. -/
def published (policy : ArtifactStorePolicy) (live : Live) (ops : List ClientOp) : List Event :=
  emitted (fun live op => (publishedBy live op).toList) (clientStep policy) live ops

/-- The events of a subscriber's topics that are published up to the first one that finds its buffer
full or its receiver gone. -/
def served (policy : ArtifactStorePolicy) (topics : List String) (rx : Nat) :
    Live → List ClientOp → List Event
  | _, [] => []
  | live, op :: rest =>
      match (publishedBy live op).filter (·.topic ∈ topics) with
      | none => served policy topics rx (clientStep policy live op) rest
      | some e =>
          if ((live.bus.channels rx).trySend subscriberBuffer e).isSome then
            e :: served policy topics rx (clientStep policy live op) rest
          else []

theorem bus_step (policy : ArtifactStorePolicy) (live : Live) (op : ClientOp) :
    (clientStep policy live op).bus = (signalOf live op).elim live.bus (signal · live.bus) := by
  cases op with
  | call call =>
      obtain ⟨op, ctx, env⟩ := call
      cases op <;> rfl
  | _ => rfl

theorem bus_exec (policy : ArtifactStorePolicy) (live : Live) (ops : List ClientOp) :
    (clientExec policy live ops).bus =
      run (Substrate.Library.Broadcast.Bus.step (·.topic) subscriberBuffer) live.bus
        (signals policy live ops) := by
  induction ops generalizing live with
  | nil => rfl
  | cons op ops ih =>
      have here := bus_step policy live op
      rw [clientExec, run_cons, ← clientExec, ih, signals, signals, emitted]
      cases given : signalOf live op with
      | none =>
          rw [given] at here
          rw [here]
          rfl
      | some s =>
          rw [given] at here
          rw [here]
          rfl

theorem published_eq (policy : ArtifactStorePolicy) (live : Live) (ops : List ClientOp) :
    published policy live ops = (signals policy live ops).filterMap Signal.event := by
  induction ops generalizing live with
  | nil => rfl
  | cons op ops ih =>
      rw [published, signals, emitted, emitted, ← published, ← signals, ih, List.filterMap_append,
        publishedBy]
      cases signalOf live op with
      | none => rfl
      | some s =>
          cases event : s.event with
          | none => simp [event]
          | some e => simp [event]

theorem served_eq (policy : ArtifactStorePolicy) (topics : List String) (rx : Nat) (live : Live)
    (ops : List ClientOp) :
    served policy topics rx live ops =
      Substrate.Library.Broadcast.served (·.topic) subscriberBuffer topics rx live.bus
        (signals policy live ops) := by
  induction ops generalizing live with
  | nil => rfl
  | cons op ops ih =>
      have here := bus_step policy live op
      rw [served, signals, emitted, ← signals, publishedBy]
      cases given : signalOf live op with
      | none =>
          rw [given] at here
          simp only [Option.bind_none, Option.filter_none, Option.toList_none, List.nil_append, ih]
          rw [here]
          rfl
      | some s =>
          rw [given] at here
          simp only [Option.bind_some, Option.toList_some, List.cons_append, List.nil_append, ih]
          rw [here]
          conv_rhs => rw [Substrate.Library.Broadcast.served, wanted]
          cases s.event.filter (·.topic ∈ topics) <;> rfl

/-- What the ledger says of a published event. -/
def eventRecord (e : Event) : Record := ("event.published", e.topic, encodeToVec (.event e))

private theorem eventSeq_apply (s : State) (a : Atom) (quiet : ∀ event, a ≠ .published event) :
    (a.apply s).eventSeq = s.eventSeq := by
  cases a with
  | published event => exact absurd rfl (quiet event)
  | acted runId act =>
      simp only [Atom.apply]
      split
      · rw [recordAll_eq]
      · rfl
  | _ => rfl

omit [Prost] in
private theorem allowed_published {s : State} {call : Call} {event : Event}
    (allowed : Allowed s call (.published event)) : call.op = .publish event := by
  obtain ⟨op, ctx, env⟩ := call
  cases op with
  | publish other =>
      cases (show Atom.published event = .published other from allowed)
      rfl
  | _ => exact absurd allowed (by simp [Allowed])

theorem step_quiet (policy : ArtifactStorePolicy) {s : State} (wf : WellFormed s) {call : Call}
    (quiet : ∀ event, call.op ≠ .publish event) :
    (step policy s call).1.eventSeq = s.eventSeq ∧
      s.ledger.map recordOf <+: (step policy s call).1.ledger.map recordOf := by
  obtain ⟨atoms, path, allowed, -⟩ := step_explained policy wf call
  refine path.invariant (Allowed s call) (P := fun t => t.eventSeq = s.eventSeq ∧
    s.ledger.map recordOf <+: t.ledger.map recordOf) ?_ allowed ⟨rfl, List.prefix_rfl⟩
  rintro t a ok - ⟨counted, longer⟩
  refine ⟨(eventSeq_apply t a ?_).trans counted, ?_⟩
  · rintro event rfl
    exact quiet event (allowed_published ok)
  · have grown : (kernel.apply t a).ledger = extend t.ledger (entriesOf t a) := ledger_apply t a
    rw [grown, map_extend]
    exact longer.trans (List.prefix_append _ _)

theorem step_publish (policy : ArtifactStorePolicy) (s : State) {call : Call} {event : Event}
    (op : call.op = .publish event) :
    (step policy s call).1.eventSeq = s.eventSeq + 1 ∧
      (step policy s call).1.ledger.map recordOf =
        s.ledger.map recordOf ++ [eventRecord { event with seq := s.eventSeq + 1 }] := by
  obtain ⟨op', ctx, env⟩ := call
  subst op
  exact ⟨rfl, List.map_append⟩

theorem clientStep_publishes (policy : ArtifactStorePolicy) {live : Live} (wf : WellFormed live.state)
    (op : ClientOp) :
    WellFormed (clientStep policy live op).state ∧
      match publishedBy live op with
      | some e => e.seq = live.state.eventSeq + 1 ∧
          (clientStep policy live op).state.eventSeq = live.state.eventSeq + 1 ∧
          (clientStep policy live op).state.ledger.map recordOf =
            live.state.ledger.map recordOf ++ [eventRecord e]
      | none => (clientStep policy live op).state.eventSeq = live.state.eventSeq ∧
          live.state.ledger.map recordOf <+:
            (clientStep policy live op).state.ledger.map recordOf := by
  cases op with
  | subscribe sub => exact ⟨wf, rfl, List.prefix_rfl⟩
  | receive rx => exact ⟨wf, rfl, List.prefix_rfl⟩
  | hangUp rx => exact ⟨wf, rfl, List.prefix_rfl⟩
  | call call =>
      have state : (clientStep policy live (.call call)).state = (step policy live.state call).1 := by
        obtain ⟨op, ctx, env⟩ := call
        cases op <;> rfl
      rw [state]
      refine ⟨wellFormed_step policy wf call, ?_⟩
      by_cases publishes : ∃ event, call.op = .publish event
      · obtain ⟨event, op⟩ := publishes
        have given : publishedBy live (.call call) =
            some { event with seq := live.state.eventSeq + 1 } := by
          rw [publishedBy, signalOf, op]
          rfl
        rw [given]
        exact ⟨rfl, step_publish policy live.state op⟩
      · push Not at publishes
        have none : publishedBy live (.call call) = none := by
          obtain ⟨op, ctx, env⟩ := call
          cases op with
          | publish event => exact absurd rfl (publishes event)
          | _ => rfl
        rw [none]
        exact step_quiet policy wf publishes

theorem exec_published (policy : ArtifactStorePolicy) (ops : List ClientOp) :
    WellFormed (clientExec policy {} ops).state ∧
      (clientExec policy {} ops).state.eventSeq = UInt64.ofNat (published policy {} ops).length ∧
      (published policy {} ops).map (·.seq) =
        (List.range (published policy {} ops).length).map (fun k => UInt64.ofNat (k + 1)) ∧
      ((published policy {} ops).map eventRecord).Sublist
        ((clientExec policy {} ops).state.ledger.map recordOf) := by
  induction ops using List.reverseRecOn with
  | nil =>
      refine ⟨?_, rfl, rfl, List.nil_sublist _⟩
      intro runId slot found
      simp [clientExec] at found
  | append_singleton ops op ih =>
      obtain ⟨wf, counted, numbered, logged⟩ := ih
      obtain ⟨wf', next⟩ := clientStep_publishes policy wf op
      have last : clientExec policy {} (ops ++ [op]) =
          clientStep policy (clientExec policy {} ops) op := run_snoc _ _ _
      have more : published policy {} (ops ++ [op]) =
          published policy {} ops ++ (publishedBy (clientExec policy {} ops) op).toList :=
        emitted_snoc _ _ _ _
      rw [last, more]
      refine ⟨wf', ?_⟩
      cases made : publishedBy (clientExec policy {} ops) op with
      | none =>
          rw [made] at next
          simp only [Option.toList_none, List.append_nil]
          exact ⟨next.1.trans counted, numbered, logged.trans next.2.sublist⟩
      | some e =>
          rw [made] at next
          obtain ⟨seq, counted', logged'⟩ := next
          have succ : (clientExec policy {} ops).state.eventSeq + 1 =
              UInt64.ofNat ((published policy {} ops).length + 1) := by
            rw [counted, UInt64.ofNat_add]
            rfl
          simp only [Option.toList_some, List.length_append, List.length_singleton, List.map_append,
            List.map_singleton, List.range_succ]
          refine ⟨counted'.trans succ, ?_, ?_⟩
          · rw [numbered, seq, succ]
          · rw [logged']
            exact logged.append (List.Sublist.refl _)

/-- The operations the bus itself offers. -/
def OfBus : ClientOp → Prop
  | .call call => ∃ event, call.op = .publish event
  | _ => True

theorem exec_ledger (policy : ArtifactStorePolicy) (ops : List ClientOp)
    (ofBus : ∀ op ∈ ops, OfBus op) :
    (clientExec policy {} ops).state.ledger.map recordOf =
      (published policy {} ops).map eventRecord := by
  induction ops using List.reverseRecOn with
  | nil => rfl
  | append_singleton ops op ih =>
      have before := ih fun op' member => ofBus op' (List.mem_append_left _ member)
      have last : clientExec policy {} (ops ++ [op]) =
          clientStep policy (clientExec policy {} ops) op := run_snoc _ _ _
      have more : published policy {} (ops ++ [op]) =
          published policy {} ops ++ (publishedBy (clientExec policy {} ops) op).toList :=
        emitted_snoc _ _ _ _
      rw [last, more, List.map_append, ← before]
      have here := ofBus op (List.mem_append_right _ (List.mem_singleton_self _))
      cases op with
      | call call =>
          obtain ⟨event, op⟩ := here
          obtain ⟨op', ctx, env⟩ := call
          subst op
          have publishes : (⟨.publish event, ctx, env⟩ : Call).op = .publish event := rfl
          exact (step_publish policy (clientExec policy {} ops).state publishes).2
      | _ => exact (List.append_nil _).symm

theorem exec_separate (policy : ArtifactStorePolicy) (ops : List ClientOp) :
    (clientExec policy {} ops).bus.Separate := by
  rw [bus_exec]
  exact run_separate .empty _

theorem filterMap_wanted (policy : ArtifactStorePolicy) (topics : List String) (live : Live)
    (ops : List ClientOp) :
    (signals policy live ops).filterMap (wanted (·.topic) topics) =
      (published policy live ops).filter (·.topic ∈ topics) := by
  rw [published_eq, List.filter_filterMap]
  rfl

omit [Sha256] [Prost] in
private theorem pairwise_numbers {n : Nat} (fits : n < 2 ^ 64) :
    ((List.range n).map fun k => UInt64.ofNat (k + 1)).Pairwise (· < ·) := by
  rw [List.pairwise_map]
  refine List.pairwise_lt_range.imp_of_mem ?_
  intro i j first second below
  have fit : ∀ k ∈ List.range n, (UInt64.ofNat (k + 1)).toNat = k + 1 := fun k member =>
    UInt64.toNat_ofNat_of_lt' (Nat.lt_of_le_of_lt (List.mem_range.mp member) fits)
  rw [UInt64.lt_iff_toNat_lt, fit i first, fit j second]
  exact Nat.succ_lt_succ below

/-- A subscriber receives exactly the first events published on its topics since it subscribed, in
strictly increasing `seq`; it is sent them up to the first one that finds its buffer full or its
receiver gone, and none after that. All published events are numbered from one in ledger order, in
the 64 bits that a `seq` has. -/
theorem prefix_delivery (policy : ArtifactStorePolicy) (before after : List ClientOp)
    (sub : Subscription) :
    let ready := clientExec policy {} before
    let start := (subscribe sub ready).1
    let rx := (subscribe sub ready).2
    let live := clientExec policy start after
    let channel := live.bus.channels rx
    let since := (published policy start after).filter (·.topic ∈ sub.topics)
    let history := before ++ .subscribe sub :: after
    let all := published policy {} history
    channel.received <+: since ∧ (∀ e ∈ channel.received, e.topic ∈ sub.topics) ∧
      channel.received ++ channel.buffer = served policy sub.topics rx start after ∧
      served policy sub.topics rx start after <+: since ∧
      (all.length < 2 ^ 64 → channel.received.Pairwise (·.seq < ·.seq)) ∧
      all.map (·.seq) = (List.range all.length).map (fun k => UInt64.ofNat (k + 1)) ∧
      (all.map eventRecord).Sublist (live.state.ledger.map recordOf) ∧
      ((∀ op ∈ history, OfBus op) → live.state.ledger.map recordOf = all.map eventRecord) := by
  intro ready start rx live channel since history all
  have whole : clientExec policy {} history = live := run_append _ _ _
  obtain ⟨-, -, numbered, logged⟩ := exec_published policy history
  have ledger := exec_ledger policy history
  rw [whole] at logged ledger
  obtain ⟨sent, early⟩ := subscribed (exec_separate policy before) sub.topics
    (signals policy start after)
  have channels : (run (Substrate.Library.Broadcast.Bus.step (·.topic) subscriberBuffer) start.bus
      (signals policy start after)).channels rx = channel := by
    rw [← bus_exec]
  have received : channel.received <+: since := by
    rw [← channels, show since = _ from (filterMap_wanted policy sub.topics start after).symm]
    exact early
  have later : (published policy start after).Sublist all := by
    have split : all = published policy {} before ++ published policy start after :=
      emitted_append _ _ _ _
    rw [split]
    exact List.sublist_append_right _ _
  refine ⟨received, ?_, ?_, ?_, ?_, numbered, logged, ledger⟩
  · intro e member
    have wanted := (List.mem_filter.mp (received.subset member)).2
    simpa using wanted
  · rw [← channels, served_eq]
    exact sent
  · rw [served_eq, show since = _ from (filterMap_wanted policy sub.topics start after).symm]
    exact served_initial _ _ _ _
  · intro fits
    have increasing := pairwise_numbers fits
    rw [← numbered, List.pairwise_map] at increasing
    exact increasing.sublist ((received.sublist.trans List.filter_sublist).trans later)

end Substrate.Protocol.Events
