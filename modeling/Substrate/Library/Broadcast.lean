/- ID: Substrate/Library/Broadcast
   digest: Topics broadcast over bounded FIFOs that are shed when full, and what receivers get. -/

import Mathlib.Data.List.Infix
import Substrate.Library.Transition

set_option autoImplicit false
set_option relaxedAutoImplicit false

namespace Substrate.Library.Broadcast

open Substrate.Library.Transition

universe u v

variable {τ : Type u} {ε : Type v}

/-- A FIFO of bounded size: what waits in it, what its receiver has taken, and whether the receiver
is still there. -/
structure Channel (ε : Type v) where
  buffer : List ε := []
  received : List ε := []
  attached : Bool := true

namespace Channel

/-- A send that does not wait: it fails when the receiver is gone or the buffer is full. -/
def trySend (capacity : Nat) (c : Channel ε) (e : ε) : Option (Channel ε) :=
  if c.attached && decide (c.buffer.length < capacity) then
    some { c with buffer := c.buffer ++ [e] }
  else none

def receive (c : Channel ε) : Channel ε :=
  match c.attached, c.buffer with
  | true, e :: rest => { c with buffer := rest, received := c.received ++ [e] }
  | _, _ => c

/-- A receiver that is gone takes nothing more. -/
def hangUp (c : Channel ε) : Channel ε := { c with attached := false }

/-- Everything that was sent, received or not. -/
def sent (c : Channel ε) : List ε := c.received ++ c.buffer

@[simp] theorem sent_receive (c : Channel ε) : c.receive.sent = c.sent := by
  obtain ⟨buffer, received, attached⟩ := c
  cases attached with
  | false => rfl
  | true =>
      cases buffer with
      | nil => rfl
      | cons e rest => simp [receive, sent]

@[simp] theorem sent_hangUp (c : Channel ε) : c.hangUp.sent = c.sent := rfl

theorem sent_trySend {capacity : Nat} {c c' : Channel ε} {e : ε}
    (ok : c.trySend capacity e = some c') : c'.sent = c.sent ++ [e] := by
  unfold trySend at ok
  split_ifs at ok
  obtain rfl := Option.some.inj ok
  simp [sent]

end Channel

/-- A subscriber: the topics it wants and the channel it is sent on. -/
structure Sub (τ : Type u) where
  topics : List τ
  tx : Nat

/-- The live subscribers, every channel ever opened, and the number of the next one. -/
structure Bus (τ : Type u) (ε : Type v) where
  subs : List (Sub τ) := []
  channels : Nat → Channel ε := fun _ => {}
  next : Nat := 0

/-- What clients do with a bus. -/
inductive Signal (τ : Type u) (ε : Type v)
  | subscribe (topics : List τ)
  | publish (e : ε)
  | receive (rx : Nat)
  | hangUp (rx : Nat)

/-- The event a signal publishes. -/
def Signal.event : Signal τ ε → Option ε
  | .publish e => some e
  | _ => none

section Steps

variable [DecidableEq τ] (topicOf : ε → τ) (capacity : Nat)

/-- The channel of a subscriber after an event, or nothing when the subscriber is shed. -/
def deliver (e : ε) (sub : Sub τ) (c : Channel ε) : Option (Channel ε) :=
  if topicOf e ∈ sub.topics then c.trySend capacity e else some c

/-- Go through the subscribers in order and keep those that an event does not shed. -/
def offer (e : ε) : List (Sub τ) → (Nat → Channel ε) → List (Sub τ) × (Nat → Channel ε)
  | [], channels => ([], channels)
  | sub :: rest, channels =>
      match deliver topicOf capacity e sub (channels sub.tx) with
      | some c =>
          let (kept, channels) := offer e rest (Function.update channels sub.tx c)
          (sub :: kept, channels)
      | none => offer e rest channels

namespace Bus

def step (b : Bus τ ε) : Signal τ ε → Bus τ ε
  | .subscribe topics =>
      { subs := b.subs ++ [⟨topics, b.next⟩]
        channels := Function.update b.channels b.next {}
        next := b.next + 1 }
  | .publish e =>
      let (subs, channels) := offer topicOf capacity e b.subs b.channels
      { b with subs, channels }
  | .receive rx => { b with channels := Function.update b.channels rx (b.channels rx).receive }
  | .hangUp rx => { b with channels := Function.update b.channels rx (b.channels rx).hangUp }

/-- Each live subscriber has a channel of its own, opened before. -/
structure Separate (b : Bus τ ε) : Prop where
  distinct : (b.subs.map (·.tx)).Nodup
  opened : ∀ sub ∈ b.subs, sub.tx < b.next

end Bus

variable {topicOf capacity} {e : ε}

theorem offer_other {subs : List (Sub τ)} {channels : Nat → Channel ε} {rx : Nat}
    (apart : ∀ sub ∈ subs, sub.tx ≠ rx) :
    (offer topicOf capacity e subs channels).2 rx = channels rx := by
  induction subs generalizing channels with
  | nil => rfl
  | cons sub subs ih =>
      have rest : ∀ other ∈ subs, other.tx ≠ rx := fun o h => apart o (List.mem_cons_of_mem _ h)
      have here : rx ≠ sub.tx := (apart sub List.mem_cons_self).symm
      unfold offer
      split
      · exact (ih rest).trans (Function.update_of_ne here _ _)
      · exact ih rest

theorem offer_sublist (subs : List (Sub τ)) (channels : Nat → Channel ε) :
    (offer topicOf capacity e subs channels).1.Sublist subs := by
  induction subs generalizing channels with
  | nil => exact .slnil
  | cons sub subs ih =>
      unfold offer
      split
      · exact (ih _).cons_cons sub
      · exact (ih channels).cons sub

theorem offer_mem {subs : List (Sub τ)} {channels : Nat → Channel ε} {sub : Sub τ}
    (distinct : (subs.map (·.tx)).Nodup) (member : sub ∈ subs) :
    match deliver topicOf capacity e sub (channels sub.tx) with
    | some c => sub ∈ (offer topicOf capacity e subs channels).1 ∧
        (offer topicOf capacity e subs channels).2 sub.tx = c
    | none => (∀ other ∈ (offer topicOf capacity e subs channels).1, other.tx ≠ sub.tx) ∧
        (offer topicOf capacity e subs channels).2 sub.tx = channels sub.tx := by
  induction subs generalizing channels with
  | nil => cases member
  | cons first subs ih =>
      rw [List.map_cons, List.nodup_cons] at distinct
      obtain ⟨fresh, distinct⟩ := distinct
      rcases List.mem_cons.mp member with rfl | later
      · have rest : ∀ other ∈ subs, other.tx ≠ sub.tx := by
          intro other there same
          exact fresh (List.mem_map.mpr ⟨other, there, same⟩)
        unfold offer
        cases deliver topicOf capacity e sub (channels sub.tx) with
        | some c =>
            exact ⟨List.mem_cons_self, (offer_other rest).trans (Function.update_self _ _ _)⟩
        | none =>
            refine ⟨fun other there => rest other ?_, offer_other rest⟩
            exact (offer_sublist subs channels).subset there
      · have apart : sub.tx ≠ first.tx := by
          intro same
          exact fresh (List.mem_map.mpr ⟨sub, later, same⟩)
        unfold offer
        cases deliver topicOf capacity e first (channels first.tx) with
        | none => exact ih distinct later
        | some c =>
            have step := @ih (Function.update channels first.tx c) distinct later
            rw [Function.update_of_ne apart] at step
            cases outcome : deliver topicOf capacity e sub (channels sub.tx) with
            | some c' =>
                rw [outcome] at step
                exact ⟨List.mem_cons_of_mem _ step.1, step.2⟩
            | none =>
                rw [outcome] at step
                refine ⟨?_, step.2⟩
                intro other there
                rcases List.mem_cons.mp there with rfl | there
                · exact apart.symm
                · exact step.1 other there

namespace Bus

omit [DecidableEq τ] in
theorem Separate.empty : Separate ({} : Bus τ ε) :=
  ⟨List.nodup_nil, fun _ member => by cases member⟩

/-- Every signal keeps the subscribers on channels of their own. -/
theorem Separate.step {b : Bus τ ε} (separate : b.Separate) (signal : Signal τ ε) :
    (b.step topicOf capacity signal).Separate := by
  cases signal with
  | subscribe topics =>
      refine ⟨?_, ?_⟩
      · rw [Bus.step, List.map_append, List.nodup_append]
        refine ⟨separate.distinct, List.pairwise_singleton _ _, ?_⟩
        intro tx old tx' new same
        obtain ⟨sub, member, rfl⟩ := List.mem_map.mp old
        have before := separate.opened sub member
        have fresh : tx' = b.next := List.mem_singleton.mp new
        omega
      · intro sub member
        rcases List.mem_append.mp member with old | new
        · exact Nat.lt_succ_of_lt (separate.opened sub old)
        · rw [List.mem_singleton.mp new]
          exact Nat.lt_succ_self b.next
  | publish e =>
      have kept : (offer topicOf capacity e b.subs b.channels).1.Sublist b.subs :=
        offer_sublist b.subs b.channels
      exact ⟨separate.distinct.sublist (kept.map _), fun sub member =>
        separate.opened sub (kept.subset member)⟩
  | receive rx => exact ⟨separate.distinct, separate.opened⟩
  | hangUp rx => exact ⟨separate.distinct, separate.opened⟩

end Bus

/-- A signal publishes an event on one of the topics. -/
def wanted (topicOf : ε → τ) (topics : List τ) (signal : Signal τ ε) : Option ε :=
  signal.event.filter (topicOf · ∈ topics)

private theorem sent_update (channels : Nat → Channel ε) (rx tx : Nat) {c : Channel ε}
    (same : c.sent = (channels rx).sent) :
    (Function.update channels rx c tx).sent = (channels tx).sent := by
  by_cases here : tx = rx
  · rw [here, Function.update_self, same]
  · rw [Function.update_of_ne here]

theorem step_unwanted {b : Bus τ ε} (separate : b.Separate) {sub : Sub τ} (live : sub ∈ b.subs)
    {signal : Signal τ ε} (other : wanted topicOf sub.topics signal = none) :
    sub ∈ (b.step topicOf capacity signal).subs ∧
      ((b.step topicOf capacity signal).channels sub.tx).sent = (b.channels sub.tx).sent := by
  cases signal with
  | subscribe topics =>
      refine ⟨List.mem_append_left _ live, ?_⟩
      exact congrArg Channel.sent (Function.update_of_ne (separate.opened sub live).ne _ _)
  | publish e =>
      have unwanted : topicOf e ∉ sub.topics := by
        intro on
        simp [wanted, Signal.event, on] at other
      have offered := @offer_mem _ _ _ topicOf capacity e _ b.channels _ separate.distinct live
      rw [deliver, if_neg unwanted] at offered
      exact ⟨offered.1, congrArg Channel.sent offered.2⟩
  | receive rx => exact ⟨live, sent_update _ _ _ (Channel.sent_receive _)⟩
  | hangUp rx => exact ⟨live, sent_update _ _ _ (Channel.sent_hangUp _)⟩

theorem step_wanted {b : Bus τ ε} (separate : b.Separate) {sub : Sub τ} (live : sub ∈ b.subs)
    {signal : Signal τ ε} (want : wanted topicOf sub.topics signal = some e) :
    match (b.channels sub.tx).trySend capacity e with
    | some _ => sub ∈ (b.step topicOf capacity signal).subs ∧
        ((b.step topicOf capacity signal).channels sub.tx).sent = (b.channels sub.tx).sent ++ [e]
    | none => (∀ other ∈ (b.step topicOf capacity signal).subs, other.tx ≠ sub.tx) ∧
        ((b.step topicOf capacity signal).channels sub.tx).sent = (b.channels sub.tx).sent := by
  obtain ⟨published, on⟩ := Option.filter_eq_some_iff.mp want
  cases signal with
  | publish e' =>
      obtain rfl := Option.some.inj published
      have offered := @offer_mem _ _ _ topicOf capacity e' _ b.channels _ separate.distinct live
      rw [deliver, if_pos (by simpa using on)] at offered
      cases sending : (b.channels sub.tx).trySend capacity e' with
      | some c =>
          rw [sending] at offered
          exact ⟨offered.1, (congrArg Channel.sent offered.2).trans (Channel.sent_trySend sending)⟩
      | none =>
          rw [sending] at offered
          exact ⟨offered.1, congrArg Channel.sent offered.2⟩
  | _ => cases published

theorem step_shed {b : Bus τ ε} {rx : Nat} (opened : rx < b.next)
    (shed : ∀ sub ∈ b.subs, sub.tx ≠ rx) (signal : Signal τ ε) :
    rx < (b.step topicOf capacity signal).next ∧
      (∀ sub ∈ (b.step topicOf capacity signal).subs, sub.tx ≠ rx) ∧
      ((b.step topicOf capacity signal).channels rx).sent = (b.channels rx).sent := by
  cases signal with
  | subscribe topics =>
      refine ⟨Nat.lt_succ_of_lt opened, ?_, ?_⟩
      · intro sub member
        rcases List.mem_append.mp member with old | new
        · exact shed sub old
        · rw [List.mem_singleton.mp new]
          exact opened.ne'
      · exact congrArg Channel.sent (Function.update_of_ne opened.ne _ _)
  | publish e =>
      refine ⟨opened, fun sub member => shed sub ((offer_sublist _ _).subset member), ?_⟩
      exact congrArg Channel.sent (offer_other shed)
  | receive tx => exact ⟨opened, shed, sent_update _ _ _ (Channel.sent_receive _)⟩
  | hangUp tx => exact ⟨opened, shed, sent_update _ _ _ (Channel.sent_hangUp _)⟩

variable (topicOf capacity)

/-- The wanted events up to the first one that finds the buffer full or the receiver gone. -/
def served (topics : List τ) (rx : Nat) : Bus τ ε → List (Signal τ ε) → List ε
  | _, [] => []
  | b, signal :: rest =>
      match wanted topicOf topics signal with
      | none => served topics rx (b.step topicOf capacity signal) rest
      | some e =>
          if ((b.channels rx).trySend capacity e).isSome then
            e :: served topics rx (b.step topicOf capacity signal) rest
          else []

variable {topicOf capacity}

theorem served_initial (topics : List τ) (rx : Nat) (b : Bus τ ε) (signals : List (Signal τ ε)) :
    served topicOf capacity topics rx b signals <+: signals.filterMap (wanted topicOf topics) := by
  induction signals generalizing b with
  | nil => exact List.nil_prefix
  | cons signal rest ih =>
      unfold served
      cases want : wanted topicOf topics signal with
      | none =>
          rw [List.filterMap_cons_none want]
          exact ih _
      | some e =>
          rw [List.filterMap_cons_some want]
          simp only
          split_ifs
          · exact (List.prefix_cons_inj e).mpr (ih _)
          · exact List.nil_prefix

theorem run_shed {b : Bus τ ε} {rx : Nat} (opened : rx < b.next)
    (shed : ∀ sub ∈ b.subs, sub.tx ≠ rx) (signals : List (Signal τ ε)) :
    ((run (Bus.step topicOf capacity) b signals).channels rx).sent = (b.channels rx).sent := by
  induction signals generalizing b with
  | nil => rfl
  | cons signal rest ih =>
      obtain ⟨opened', shed', same⟩ := step_shed opened shed signal
      exact (ih opened' shed').trans same

theorem run_live {b : Bus τ ε} (separate : b.Separate) {sub : Sub τ} (live : sub ∈ b.subs)
    (signals : List (Signal τ ε)) :
    ((run (Bus.step topicOf capacity) b signals).channels sub.tx).sent =
      (b.channels sub.tx).sent ++ served topicOf capacity sub.topics sub.tx b signals := by
  induction signals generalizing b with
  | nil => exact (List.append_nil _).symm
  | cons signal rest ih =>
      rw [run_cons]
      unfold served
      cases want : wanted topicOf sub.topics signal with
      | none =>
          obtain ⟨live', same⟩ := step_unwanted separate live want
          rw [ih (separate.step signal) live', same]
      | some e =>
          have sending := @step_wanted _ _ _ _ capacity _ _ separate _ live _ want
          cases outcome : (b.channels sub.tx).trySend capacity e with
          | some c =>
              rw [outcome] at sending
              rw [ih (separate.step signal) sending.1, sending.2, List.append_assoc]
              simp [outcome]
          | none =>
              rw [outcome] at sending
              have opened : sub.tx < (b.step topicOf capacity signal).next := by
                cases signal with
                | subscribe topics => exact Nat.lt_succ_of_lt (separate.opened sub live)
                | _ => exact separate.opened sub live
              rw [run_shed opened sending.1, sending.2]
              simp [outcome]

theorem run_separate {b : Bus τ ε} (separate : b.Separate) (signals : List (Signal τ ε)) :
    (run (Bus.step topicOf capacity) b signals).Separate :=
  run_invariant separate fun _ signal _ _ before => before.step signal

theorem subscribed {b : Bus τ ε} (separate : b.Separate) (topics : List τ)
    (signals : List (Signal τ ε)) :
    let start := b.step topicOf capacity (.subscribe topics)
    let channel := (run (Bus.step topicOf capacity) start signals).channels b.next
    channel.received ++ channel.buffer = served topicOf capacity topics b.next start signals ∧
      channel.received <+: signals.filterMap (wanted topicOf topics) := by
  intro start channel
  have live : (⟨topics, b.next⟩ : Sub τ) ∈ start.subs :=
    List.mem_append_right _ (List.mem_singleton_self _)
  have fresh : (start.channels b.next).sent = [] := by
    change (Function.update b.channels b.next {} b.next).sent = []
    rw [Function.update_self]
    rfl
  have sent : channel.sent = served topicOf capacity topics b.next start signals := by
    have all := @run_live _ _ _ topicOf capacity _ (separate.step _) _ live signals
    rwa [fresh, List.nil_append] at all
  refine ⟨sent, ?_⟩
  have early : channel.received <+: channel.sent := List.prefix_append _ _
  rw [sent] at early
  exact early.trans (served_initial topics b.next start signals)

end Steps

end Substrate.Library.Broadcast
