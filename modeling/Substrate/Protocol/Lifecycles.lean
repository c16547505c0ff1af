/- ID: Substrate/Protocol/Lifecycles
   digest: Where the Rust, Go and Python kernels move modules alike, one declared step at a time. -/

import Substrate.Kernel.Concrete
import Substrate.Kernel.Peers
import Substrate.Library.Transition

set_option autoImplicit false
set_option relaxedAutoImplicit false

namespace Substrate.Protocol.Lifecycles

open Substrate.Kernel
open Substrate.Kernel.Wire
open Substrate.Kernel.Hashing
open Substrate.Kernel.Memory
open Substrate.Kernel.Registry (transitionReq)
open Substrate.Kernel.Peers (Encoders MemoryKernel Go.transition Python.transition)
open Substrate.Library.Transition

/-- Module names with their lifecycles, and the kinds and subjects of the ledger. -/
@[ext] structure View where
  modules : List (String × Int32)
  ledger : List (String × String)

/-- A registration or a transition, with what the transition reads from outside. -/
inductive LifecycleCall
  | register (manifest : ModuleManifest)
  | transition (req : TransitionRequest) (ctx : RequestContext) (env : Env)

/-- The verb of a move that ends in a lifecycle. -/
def moveVerb (l : Int32) : Option String :=
  if l = 2 then some "loaded"
  else if l = 3 then some "activated"
  else if l = 4 then some "deactivated"
  else none

/-- The lifecycle of the first module of a name. -/
def current (name : String) (modules : List (String × Int32)) : Option Int32 :=
  (modules.find? (·.1 == name)).map (·.2)

def setFirst (name : String) (target : Int32) : List (String × Int32) → List (String × Int32)
  | [] => []
  | m :: rest => if m.1 = name then (m.1, target) :: rest else m :: setFirst name target rest

/-- REGISTERED, LOADED, ACTIVE and DEACTIVATED. -/
def declared : List Int32 := [1, 2, 3, 4]

/-- What a transition means: the next declared lifecycle or none. -/
def turn (late : Bool) (req : TransitionRequest) (v : View) : View × Option Int32 :=
  if late then (v, none) else
  match current req.module v.modules with
  | none => (v, none)
  | some l =>
      match (if req.toState = l + 1 then moveVerb req.toState else none) with
      | some verb =>
          (⟨setFirst req.module req.toState v.modules,
            v.ledger ++ [("module." ++ verb, req.module)]⟩, some req.toState)
      | none => (v, some l)

/-- What a registration means. -/
def enrol (manifest : ModuleManifest) (v : View) : View :=
  ⟨v.modules ++ [(manifest.name, 1)], v.ledger ++ [("module.registered", manifest.name)]⟩

def noteOf (entry : LedgerEntry) : String × String := (entry.kind, entry.subject)

def rustView (s : State) : View :=
  ⟨s.modules.map fun m => (m.manifest.name, m.lifecycle.asI32), s.ledger.map noteOf⟩

def peerView (k : MemoryKernel) : View :=
  ⟨k.modules.map fun m => (m.manifest.name, m.lifecycle), k.ledger.map noteOf⟩

/-- The three kernels. -/
structure Trio where
  rust : State := {}
  go : MemoryKernel := {}
  python : MemoryKernel := {}

/-- The lifecycle each kernel answers with, when it answers with one. -/
structure Acks where
  rust : Option Int32
  go : Option Int32
  python : Option Int32

section Calls

variable [Sha256] [Prost] [Encoders]

def Trio.call (t : Trio) : LifecycleCall → Trio × Acks
  | .register manifest =>
      ({ rust := Registry.register manifest t.rust, go := Peers.Go.register manifest t.go
         python := Peers.Python.register manifest t.python }, ⟨some 1, some 1, some 1⟩)
  | .transition req ctx env =>
      let (rust, r) := transitionReq env req ctx t.rust
      let (go, g) := Go.transition env req ctx t.go
      let (python, p) := Python.transition env req ctx t.python
      ({ rust, go, python }, ⟨r.toOption.map (·.asI32), g.toOption, p.toOption⟩)

theorem Trio.call_transition (t : Trio) (req : TransitionRequest) (ctx : RequestContext)
    (env : Env) : t.call (.transition req ctx env) =
      (⟨(transitionReq env req ctx t.rust).1, (Go.transition env req ctx t.go).1,
          (Python.transition env req ctx t.python).1⟩,
        ⟨(transitionReq env req ctx t.rust).2.toOption.map (·.asI32),
          (Go.transition env req ctx t.go).2.toOption,
          (Python.transition env req ctx t.python).2.toOption⟩) := rfl

/-- The three kernels after a history of calls. -/
def after (history : List LifecycleCall) : Trio := run (fun t call => (t.call call).1) {} history

omit [Sha256] [Prost] [Encoders] in
/-- A view changes by one call as the law has it: lifecycles stay declared, a registration adds one
module and its entry, a transition changes nothing or moves one module of its name by one with one
entry that says so. -/
structure LawfulChange (call : LifecycleCall) (v w : View) : Prop where
  range : ∀ m ∈ w.modules, m.2 ∈ declared
  registers : ∀ manifest, call = .register manifest → w = enrol manifest v
  moves : ∀ req ctx env, call = .transition req ctx env → w = v ∨ ∃ pre l post verb,
    moveVerb (l + 1) = some verb ∧ v.modules = pre ++ (req.module, l) :: post ∧
      w.modules = pre ++ (req.module, l + 1) :: post ∧
      w.ledger = v.ledger ++ [("module." ++ verb, req.module)]

/-- One call is lawful in each kernel, changes nothing where it fails, and is answered and logged
alike by the three. -/
structure AlikeAt (t : Trio) (call : LifecycleCall) : Prop where
  rust : LawfulChange call (rustView t.rust) (rustView (t.call call).1.rust)
  go : LawfulChange call (peerView t.go) (peerView (t.call call).1.go)
  python : LawfulChange call (peerView t.python) (peerView (t.call call).1.python)
  rustFails : (t.call call).2.rust = none → (t.call call).1.rust = t.rust
  goFails : (t.call call).2.go = none → (t.call call).1.go = t.go
  pythonFails : (t.call call).2.python = none → (t.call call).1.python = t.python
  goAcks : (t.call call).2.go = (t.call call).2.rust
  pythonAcks : (t.call call).2.python = (t.call call).2.rust
  goLedger : (peerView (t.call call).1.go).ledger = (rustView (t.call call).1.rust).ledger
  pythonLedger : (peerView (t.call call).1.python).ledger = (rustView (t.call call).1.rust).ledger

omit [Sha256] [Prost] [Encoders] in
/-- A call steps clear of two edges: it does not ask a deactivated module for the value after
DEACTIVATED, and it does not reach a registered module with a negative deadline that has passed. -/
def Clear (s : State) : LifecycleCall → Prop
  | .register _ => True
  | .transition req ctx env =>
      ∀ slot, s.modules.find? (·.manifest.name == req.module) = some slot →
        (checkDeadline env ctx = .ok () → req.toState = 5 → slot.lifecycle ≠ .deactivated) ∧
          ¬ (ctx.deadlineUnixMs < 0 ∧ ctx.deadlineUnixMs < env.entryClock)

omit [Sha256] [Prost] [Encoders] in
theorem current_split {name : String} {modules : List (String × Int32)} {l : Int32}
    (found : current name modules = some l) : ∃ pre post, modules = pre ++ (name, l) :: post ∧
      ∀ target, setFirst name target modules = pre ++ (name, target) :: post := by
  induction modules with
  | nil => cases found
  | cons m modules ih =>
      by_cases here : m.1 = name
      · refine ⟨[], modules, ?_, ?_⟩
        · have same : m.2 = l := by simpa [current, here] using found
          rw [← here, ← same]
          rfl
        · intro target
          rw [setFirst, if_pos here, here]
          rfl
      · have later : current name modules = some l := by
          rw [← found, current, current, List.find?_cons_of_neg (by simpa using here)]
        obtain ⟨pre, post, split, set⟩ := ih later
        refine ⟨m :: pre, post, by rw [split]; rfl, ?_⟩
        intro target
        rw [setFirst, if_neg here, set target]
        rfl

omit [Sha256] [Prost] [Encoders] in
theorem moveVerb_declared {l : Int32} {verb : String} (found : moveVerb l = some verb) :
    l ∈ declared := by
  unfold moveVerb at found
  split_ifs at found with two three four
  · rw [two]; decide
  · rw [three]; decide
  · rw [four]; decide

omit [Sha256] [Prost] [Encoders] in
theorem turn_lawful (late : Bool) (req : TransitionRequest) (ctx : RequestContext) (env : Env)
    {v : View} (range : ∀ m ∈ v.modules, m.2 ∈ declared) :
    LawfulChange (.transition req ctx env) v (turn late req v).1 := by
  have same : LawfulChange (.transition req ctx env) v v :=
    ⟨range, fun _ other => (by cases other), fun _ _ _ _ => .inl rfl⟩
  unfold turn
  cases late with
  | true => exact same
  | false =>
      simp only [Bool.false_eq_true, if_false]
      cases found : current req.module v.modules with
      | none => exact same
      | some l =>
          simp only
          split
          · rename_i verb moved
            split_ifs at moved with next
            obtain ⟨pre, post, split, set⟩ := current_split found
            refine ⟨?_, fun _ other => by (cases other), ?_⟩
            · intro m member
              simp only [set] at member
              rw [split] at range
              rcases List.mem_append.mp member with old | new
              · exact range m (List.mem_append_left _ old)
              · rcases List.mem_cons.mp new with rfl | old
                · exact moveVerb_declared moved
                · exact range m (List.mem_append_right _ (List.mem_cons_of_mem _ old))
            · rintro _ _ _ ⟨⟩
              rw [next] at moved
              refine .inr ⟨pre, l, post, verb, moved, split, ?_, rfl⟩
              rw [← next]
              exact set req.toState
          · exact same

omit [Sha256] [Prost] [Encoders] in
theorem current_map {α : Type} (f : α → String × Int32) (name : String) (modules : List α) :
    current name (modules.map f) =
      (modules.find? fun m => (f m).1 == name).map fun m => (f m).2 := by
  rw [current, List.find?_map, Option.map_map]
  rfl

omit [Sha256] [Prost] [Encoders] in
theorem rust_setFirst (name : String) (target : Lifecycle) (modules : List Memory.ModuleSlot) :
    (Registry.setLifecycle name target modules).map
        (fun m => (m.manifest.name, m.lifecycle.asI32)) =
      setFirst name target.asI32 (modules.map fun m => (m.manifest.name, m.lifecycle.asI32)) := by
  induction modules with
  | nil => rfl
  | cons m modules ih =>
      unfold Registry.setLifecycle
      rw [List.map_cons, setFirst]
      split_ifs
      · rfl
      · rw [List.map_cons, ih]

omit [Sha256] [Prost] [Encoders] in
theorem peer_setFirst (name : String) (target : Int32) (modules : List Peers.ModuleSlot) :
    (Peers.setLifecycle name target modules).map (fun m => (m.manifest.name, m.lifecycle)) =
      setFirst name target (modules.map fun m => (m.manifest.name, m.lifecycle)) := by
  induction modules with
  | nil => rfl
  | cons m modules ih =>
      unfold Peers.setLifecycle
      rw [List.map_cons, setFirst]
      split_ifs
      · rfl
      · rw [List.map_cons, ih]

omit [Sha256] [Prost] [Encoders] in
theorem tryFrom_eq_iff {n k : Int32} (nonzero : k ≠ 0) :
    ((Lifecycle.tryFrom n).getD .unspecified).asI32 = k ↔ n = k ∧ k ∈ declared := by
  cases found : Lifecycle.tryFrom n with
  | none =>
      have unknown : ∀ l : Lifecycle, l.asI32 ≠ n := by
        intro l same
        have other := List.find?_eq_none.mp found l (by cases l <;> simp)
        exact other (by simpa using same)
      constructor
      · intro zero
        exact absurd zero.symm nonzero
      · rintro ⟨rfl, member⟩
        simp only [declared, List.mem_cons, List.not_mem_nil, or_false] at member
        rcases member with rfl | rfl | rfl | rfl
        · exact absurd rfl (unknown .registered)
        · exact absurd rfl (unknown .loaded)
        · exact absurd rfl (unknown .active)
        · exact absurd rfl (unknown .deactivated)
  | some l =>
      have same : l.asI32 = n := by simpa using List.find?_some found
      subst same
      constructor
      · rintro rfl
        refine ⟨rfl, ?_⟩
        cases l with
        | unspecified => exact absurd rfl nonzero
        | _ => decide
      · rintro ⟨rfl, -⟩
        rfl

omit [Sha256] [Prost] [Encoders] in
theorem succ_declared {l : Int32} (range : l ∈ declared) :
    l + 1 ≠ 0 ∧ (l + 1 ∈ declared ↔ (moveVerb (l + 1)).isSome) ∧ (l + 1 ∈ declared ↔ l ≠ 4) ∧
      (l = 4 → l + 1 = 5) ∧ (l + 1).toInt = l.toInt + 1 := by
  simp only [declared, List.mem_cons, List.not_mem_nil, or_false] at range
  rcases range with rfl | rfl | rfl | rfl <;> decide

omit [Sha256] [Prost] [Encoders] in
theorem rust_verb {l : Lifecycle} {verb : String} (found : moveVerb l.asI32 = some verb) :
    Registry.lifecycleVerb l = verb := by
  cases l with
  | unspecified => cases found
  | registered => cases found
  | _ => exact Option.some.inj found

omit [Sha256] [Prost] [Encoders] in
theorem go_verb {l : Int32} {verb : String} (found : moveVerb l = some verb) :
    Peers.Go.lifecycleVerb l = verb := by
  unfold moveVerb at found
  split_ifs at found with two three four
  · rw [two, ← Option.some.inj found]; rfl
  · rw [three, ← Option.some.inj found]; rfl
  · rw [four, ← Option.some.inj found]; rfl

omit [Sha256] [Prost] [Encoders] in
theorem python_verb {l : Int32} {verb : String} (found : moveVerb l = some verb) :
    Peers.Python.lifecycleVerb l = some verb := by
  unfold moveVerb at found
  split_ifs at found with two three four
  · rw [two, ← found]; rfl
  · rw [three, ← found]; rfl
  · rw [four, ← found]; rfl

/-- A call is late when its deadline has passed. -/
def late (env : Env) (ctx : RequestContext) : Bool := (checkDeadline env ctx).toOption.isNone

omit [Prost] [Encoders] in
theorem rust_turn {s : State} (range : ∀ m ∈ (rustView s).modules, m.2 ∈ declared)
    (req : TransitionRequest) (ctx : RequestContext) (env : Env) :
    rustView (transitionReq env req ctx s).1 = (turn (late env ctx) req (rustView s)).1 ∧
      (transitionReq env req ctx s).2.toOption.map (·.asI32) =
        (turn (late env ctx) req (rustView s)).2 ∧
      ((transitionReq env req ctx s).2.toOption = none → (transitionReq env req ctx s).1 = s) := by
  have here : current req.module (rustView s).modules =
      (s.modules.find? (·.manifest.name == req.module)).map (·.lifecycle.asI32) :=
    current_map _ _ _
  unfold transitionReq turn late
  rw [here]
  cases checkDeadline env ctx with
  | error e => exact ⟨rfl, rfl, fun _ => rfl⟩
  | ok u =>
      cases found : s.modules.find? (·.manifest.name == req.module) with
      | none => exact ⟨rfl, rfl, fun _ => rfl⟩
      | some slot =>
          have member : (slot.manifest.name, slot.lifecycle.asI32) ∈ (rustView s).modules :=
            List.mem_map.mpr ⟨slot, List.mem_of_find?_eq_some found, rfl⟩
          have known : slot.lifecycle.asI32 ∈ declared := range _ member
          obtain ⟨nonzero, movable, -, -, -⟩ := succ_declared known
          simp only [orReturn, Option.map_some, Except.toOption, Option.isNone_some,
            Bool.false_eq_true, if_false, tryFrom_eq_iff nonzero]
          by_cases next : req.toState = slot.lifecycle.asI32 + 1
          · by_cases inside : slot.lifecycle.asI32 + 1 ∈ declared
            · obtain ⟨verb, moved⟩ := Option.isSome_iff_exists.mp (movable.mp inside)
              have reached : ((Lifecycle.tryFrom req.toState).getD .unspecified).asI32 =
                  slot.lifecycle.asI32 + 1 := (tryFrom_eq_iff nonzero).mpr ⟨next, inside⟩
              generalize (Lifecycle.tryFrom req.toState).getD .unspecified = target at reached
              have verbs := rust_verb (l := target) (by rw [reached]; exact moved)
              simp only [next, inside, and_self, if_true, moved]
              refine ⟨View.ext ?_ ?_, ?_, fun none => by cases none⟩
              · rw [← reached]
                exact rust_setFirst _ _ _
              · rw [← verbs]
                exact List.map_append
              · exact congrArg some reached
            · have stays : moveVerb (slot.lifecycle.asI32 + 1) = none := by
                rw [← Option.not_isSome_iff_eq_none, ← movable]
                exact inside
              simp only [next, inside, and_false, if_false, if_true, stays]
              exact ⟨trivial, rfl, fun _ => trivial⟩
          · simp only [next, false_and, if_false]
            exact ⟨trivial, rfl, fun _ => trivial⟩

omit [Prost] [Encoders] in
theorem go_turn {k : MemoryKernel} (range : ∀ m ∈ (peerView k).modules, m.2 ∈ declared)
    (req : TransitionRequest) (ctx : RequestContext) (env : Env)
    (clear : late env ctx = false → req.toState = 5 →
      current req.module (peerView k).modules ≠ some 4) :
    peerView (Go.transition env req ctx k).1 = (turn (late env ctx) req (peerView k)).1 ∧
      (Go.transition env req ctx k).2.toOption = (turn (late env ctx) req (peerView k)).2 ∧
      ((Go.transition env req ctx k).2.toOption = none → (Go.transition env req ctx k).1 = k) := by
  have here : current req.module (peerView k).modules =
      (k.modules.find? (·.manifest.name == req.module)).map (·.lifecycle) := current_map _ _ _
  rw [here] at clear
  unfold Go.transition turn late at *
  rw [here]
  cases checked : checkDeadline env ctx with
  | error e => exact ⟨rfl, rfl, fun _ => rfl⟩
  | ok u =>
      cases found : k.modules.find? (·.manifest.name == req.module) with
      | none => exact ⟨rfl, rfl, fun _ => rfl⟩
      | some slot =>
          have member : (slot.manifest.name, slot.lifecycle) ∈ (peerView k).modules :=
            List.mem_map.mpr ⟨slot, List.mem_of_find?_eq_some found, rfl⟩
          obtain ⟨-, movable, inside, last, -⟩ := succ_declared (range _ member)
          simp only [Option.map_some, Except.toOption, Option.isNone_some, Bool.false_eq_true,
            if_false]
          by_cases next : req.toState = slot.lifecycle + 1
          · have before : slot.lifecycle ≠ 4 := by
              intro final
              refine clear (by rw [checked]; rfl) (next.trans (last final)) ?_
              rw [found, ← final]
              rfl
            obtain ⟨verb, moved⟩ := Option.isSome_iff_exists.mp (movable.mp (inside.mpr before))
            simp only [next, if_true, moved]
            refine ⟨View.ext (peer_setFirst _ _ _) ?_, trivial, fun none => by cases none⟩
            rw [← go_verb moved]
            exact List.map_append
          · simp only [next, if_false]
            exact ⟨trivial, trivial, fun _ => trivial⟩

omit [Sha256] [Prost] [Encoders] in
theorem python_deadline {env : Env} {ctx : RequestContext}
    (due : ¬ (ctx.deadlineUnixMs < 0 ∧ ctx.deadlineUnixMs < env.entryClock)) :
    (Peers.Python.checkDeadline env ctx).toOption = (checkDeadline env ctx).toOption := by
  unfold Peers.Python.checkDeadline checkDeadline
  simp only [Int64.lt_iff_toInt_lt, Int64.le_iff_toInt_le, ← Int64.toInt_inj,
    Int64.toInt_zero] at due ⊢
  split_ifs <;> first | rfl | omega

omit [Prost] [Encoders] in
theorem python_turn {k : MemoryKernel} (range : ∀ m ∈ (peerView k).modules, m.2 ∈ declared)
    (req : TransitionRequest) (ctx : RequestContext) (env : Env)
    (clear : late env ctx = false → req.toState = 5 →
      current req.module (peerView k).modules ≠ some 4)
    (due : ctx.deadlineUnixMs < 0 → ctx.deadlineUnixMs < env.entryClock →
      current req.module (peerView k).modules = none) :
    peerView (Python.transition env req ctx k).1 = (turn (late env ctx) req (peerView k)).1 ∧
      (Python.transition env req ctx k).2.toOption = (turn (late env ctx) req (peerView k)).2 ∧
      ((Python.transition env req ctx k).2.toOption = none →
        (Python.transition env req ctx k).1 = k) := by
  have here : current req.module (peerView k).modules =
      (k.modules.find? (·.manifest.name == req.module)).map (·.lifecycle) := current_map _ _ _
  rw [here] at clear due
  cases found : k.modules.find? (·.manifest.name == req.module) with
  | none =>
      unfold Python.transition turn
      rw [here, found]
      cases Peers.Python.checkDeadline env ctx <;> cases late env ctx <;>
        exact ⟨rfl, rfl, fun _ => rfl⟩
  | some slot =>
      rw [found] at clear due
      have agree : (Peers.Python.checkDeadline env ctx).toOption = (checkDeadline env ctx).toOption :=
        python_deadline fun past => by cases due past.1 past.2
      unfold Python.transition turn late at *
      rw [here, found, ← agree]
      rw [← agree] at clear
      cases checked : Peers.Python.checkDeadline env ctx with
      | error e => exact ⟨rfl, rfl, fun _ => rfl⟩
      | ok u =>
          have member : (slot.manifest.name, slot.lifecycle) ∈ (peerView k).modules :=
            List.mem_map.mpr ⟨slot, List.mem_of_find?_eq_some found, rfl⟩
          obtain ⟨-, movable, inside, last, unbounded⟩ := succ_declared (range _ member)
          have compare : req.toState.toInt = slot.lifecycle.toInt + 1 ↔
              req.toState = slot.lifecycle + 1 := by
            rw [← unbounded, Int32.toInt_inj]
          simp only [Option.map_some, Except.toOption, Option.isNone_some, Bool.false_eq_true,
            if_false, compare]
          by_cases next : req.toState = slot.lifecycle + 1
          · have before : slot.lifecycle ≠ 4 := by
              intro final
              refine clear (by rw [checked]; rfl) (next.trans (last final)) (congrArg some final)
            obtain ⟨verb, moved⟩ := Option.isSome_iff_exists.mp (movable.mp (inside.mpr before))
            simp only [next, if_true, moved, python_verb moved]
            refine ⟨View.ext (peer_setFirst _ _ _) ?_, trivial, fun none => by cases none⟩
            exact List.map_append
          · simp only [next, if_false]
            exact ⟨trivial, trivial, fun _ => trivial⟩

omit [Sha256] [Prost] [Encoders] in
/-- The three kernels show the same modules, all of a declared lifecycle, and the same ledger. -/
structure Matched (t : Trio) : Prop where
  range : ∀ m ∈ (rustView t.rust).modules, m.2 ∈ declared
  go : peerView t.go = rustView t.rust
  python : peerView t.python = rustView t.rust

omit [Sha256] [Prost] [Encoders] in
theorem LawfulChange.enrol (manifest : ModuleManifest) {v : View}
    (range : ∀ m ∈ v.modules, m.2 ∈ declared) :
    LawfulChange (.register manifest) v (enrol manifest v) := by
  refine ⟨?_, ?_, fun _ _ _ other => (by cases other)⟩
  · intro m member
    rcases List.mem_append.mp member with old | new
    · exact range m old
    · rw [List.mem_singleton.mp new]
      exact List.mem_cons_self
  · rintro _ ⟨⟩
    rfl

theorem Matched.alike {t : Trio} (matched : Matched t) {call : LifecycleCall} {w : View}
    {ack : Option Int32} (law : LawfulChange call (rustView t.rust) w)
    (rust : rustView (t.call call).1.rust = w) (go : peerView (t.call call).1.go = w)
    (python : peerView (t.call call).1.python = w) (acks : (t.call call).2 = ⟨ack, ack, ack⟩)
    (fails : ack = none → (t.call call).1 = t) : AlikeAt t call ∧ Matched (t.call call).1 := by
  refine ⟨⟨?_, ?_, ?_, ?_, ?_, ?_, ?_, ?_, ?_, ?_⟩, ?_, go.trans rust.symm, python.trans rust.symm⟩
  · rw [rust]
    exact law
  · rw [go, matched.go]
    exact law
  · rw [python, matched.python]
    exact law
  · intro none
    rw [acks] at none
    rw [fails none]
  · intro none
    rw [acks] at none
    rw [fails none]
  · intro none
    rw [acks] at none
    rw [fails none]
  · rw [acks]
  · rw [acks]
  · rw [go, rust]
  · rw [python, rust]
  · rw [rust]
    exact law.range

omit [Sha256] [Prost] [Encoders] in
theorem clear_view {s : State} {req : TransitionRequest} {ctx : RequestContext} {env : Env}
    (clear : Clear s (.transition req ctx env)) :
    (late env ctx = false → req.toState = 5 → current req.module (rustView s).modules ≠ some 4) ∧
      (ctx.deadlineUnixMs < 0 → ctx.deadlineUnixMs < env.entryClock →
        current req.module (rustView s).modules = none) := by
  have here : current req.module (rustView s).modules =
      (s.modules.find? (·.manifest.name == req.module)).map (·.lifecycle.asI32) :=
    current_map _ _ _
  rw [here]
  cases found : s.modules.find? (·.manifest.name == req.module) with
  | none => exact ⟨fun _ _ same => (by cases same), fun _ _ => rfl⟩
  | some slot =>
      obtain ⟨asks, due⟩ := clear slot found
      refine ⟨?_, fun negative past => absurd ⟨negative, past⟩ due⟩
      intro inTime target final
      have passed : checkDeadline env ctx = .ok () := by
        unfold late at inTime
        cases checked : checkDeadline env ctx with
        | ok u => rfl
        | error e => simp [checked, Except.toOption] at inTime
      refine asks passed target ?_
      have four : slot.lifecycle.asI32 = 4 := Option.some.inj final
      revert four
      cases slot.lifecycle <;> decide

theorem alike_of_clear {t : Trio} (matched : Matched t) {call : LifecycleCall}
    (clear : Clear t.rust call) : AlikeAt t call ∧ Matched (t.call call).1 := by
  have peers := matched
  obtain ⟨range, sameGo, samePython⟩ := peers
  cases call with
  | register manifest =>
      have peer : ∀ (encode : ModuleManifest → Bytes) (k : MemoryKernel),
          peerView (Peers.register encode manifest k) = enrol manifest (peerView k) :=
        fun _ _ => View.ext List.map_append List.map_append
      refine matched.alike (.enrol manifest range)
        (View.ext List.map_append List.map_append) ?_ ?_ rfl fun none => by cases none
      · rw [← sameGo]
        exact peer _ _
      · rw [← samePython]
        exact peer _ _
  | transition req ctx env =>
      obtain ⟨asks, due⟩ := clear_view clear
      obtain ⟨rust, rustAck, rustFails⟩ := rust_turn range req ctx env
      rw [← sameGo] at range asks
      obtain ⟨go, goAck, goFails⟩ := go_turn range req ctx env asks
      rw [sameGo, ← samePython] at range asks
      rw [← samePython] at due
      obtain ⟨python, pythonAck, pythonFails⟩ := python_turn range req ctx env asks due
      rw [sameGo] at go goAck
      rw [samePython] at python pythonAck range
      have acks : (t.call (.transition req ctx env)).2 =
          ⟨(turn (late env ctx) req (rustView t.rust)).2,
            (turn (late env ctx) req (rustView t.rust)).2,
            (turn (late env ctx) req (rustView t.rust)).2⟩ := by
        rw [t.call_transition, rustAck, goAck, pythonAck]
      refine matched.alike (turn_lawful (late env ctx) req ctx env range) rust go python acks ?_
      intro none
      rw [t.call_transition, rustFails (Option.map_eq_none_iff.mp (rustAck.trans none)),
        goFails (goAck.trans none), pythonFails (pythonAck.trans none)]

private theorem asks_of_alike {t : Trio} (matched : Matched t) {req : TransitionRequest}
    {ctx : RequestContext} {env : Env} (alike : AlikeAt t (.transition req ctx env))
    {slot : Memory.ModuleSlot}
    (found : t.rust.modules.find? (·.manifest.name == req.module) = some slot)
    (passed : checkDeadline env ctx = .ok ()) (target : req.toState = 5) :
    slot.lifecycle ≠ .deactivated := by
  intro final
  have here : current req.module (peerView t.go).modules = some 4 := by
    rw [matched.go, rustView, current_map, found, Option.map_some, final]
    rfl
  have goHere := here
  rw [peerView, current_map] at goHere
  obtain ⟨goSlot, goFound, four⟩ := Option.map_eq_some_iff.mp goHere
  obtain ⟨pre, post, -, set⟩ := current_split here
  have moved : (peerView (Go.transition env req ctx t.go).1).modules =
      setFirst req.module req.toState (peerView t.go).modules := by
    unfold Go.transition
    rw [passed]
    simp only [goFound]
    rw [if_pos (by rw [target, show goSlot.lifecycle = 4 from four]; rfl)]
    exact peer_setFirst _ _ _
  have range := alike.go.range (req.module, 5)
  rw [t.call_transition] at range
  simp only [moved, set, target] at range
  exact absurd (range (List.mem_append_right _ List.mem_cons_self)) (by decide)

private theorem due_of_alike {t : Trio} {req : TransitionRequest} {ctx : RequestContext} {env : Env}
    (alike : AlikeAt t (.transition req ctx env)) {slot : Memory.ModuleSlot}
    (found : t.rust.modules.find? (·.manifest.name == req.module) = some slot) :
    ¬ (ctx.deadlineUnixMs < 0 ∧ ctx.deadlineUnixMs < env.entryClock) := by
  rintro ⟨negative, past⟩
  have passed : checkDeadline env ctx = .ok () := by
    unfold checkDeadline
    rw [if_pos (Int64.le_of_lt negative)]
  have answered : (t.call (.transition req ctx env)).2.rust ≠ none := by
    rw [t.call_transition]
    unfold transitionReq
    rw [passed]
    simp only [orReturn, found]
    split_ifs <;> exact Option.some_ne_none _
  have late : Peers.Python.checkDeadline env ctx =
      .error (.kernel (.failedPrecondition "deadline exceeded")) := by
    unfold Peers.Python.checkDeadline
    rw [if_neg, if_pos past]
    rintro zero
    rw [zero] at negative
    exact absurd negative (by decide)
  have refused : (t.call (.transition req ctx env)).2.python = none := by
    rw [t.call_transition]
    unfold Python.transition
    rw [late]
    rfl
  exact answered (alike.pythonAcks.symm.trans refused)

theorem clear_of_alike {t : Trio} (matched : Matched t) {call : LifecycleCall}
    (alike : AlikeAt t call) : Clear t.rust call := by
  cases call with
  | register manifest => trivial
  | transition req ctx env =>
      exact fun slot found => ⟨asks_of_alike matched alike found, due_of_alike alike found⟩

omit [Sha256] [Prost] [Encoders] in
theorem matched_empty : Matched {} :=
  ⟨fun _ member => (nomatch member), rfl, rfl⟩

theorem matched_after (history : List LifecycleCall)
    (clear : ∀ pre call post, history = pre ++ call :: post → Clear (after pre).rust call) :
    Matched (after history) :=
  run_invariant matched_empty fun pre call post split before =>
    (alike_of_clear before (clear pre call post split)).2

theorem matched_of_alike (history : List LifecycleCall)
    (alike : ∀ pre call post, history = pre ++ call :: post → AlikeAt (after pre) call) :
    Matched (after history) :=
  run_invariant matched_empty fun pre call post split before =>
    (alike_of_clear before (clear_of_alike before (alike pre call post split))).2

/-- Every call of a history is lawful in the Rust, Go and Python kernels and alike in them exactly
when every call of it steps clear of the two edges. -/
theorem lifecycles_alike (history : List LifecycleCall) :
    (∀ pre call post, history = pre ++ call :: post → AlikeAt (after pre) call) ↔
      ∀ pre call post, history = pre ++ call :: post → Clear (after pre).rust call := by
  have shorter : ∀ {pre : List LifecycleCall} {call : LifecycleCall} {post : List LifecycleCall}
      {l : List LifecycleCall} {c : LifecycleCall} {r : List LifecycleCall},
      history = pre ++ call :: post → pre = l ++ c :: r →
        history = l ++ c :: (r ++ call :: post) := by
    rintro _ call post l c r rfl rfl
    simp
  constructor
  · intro alike pre call post split
    have before : Matched (after pre) :=
      matched_of_alike pre fun l c r cut => alike l c _ (shorter split cut)
    exact clear_of_alike before (alike pre call post split)
  · intro clear pre call post split
    have before : Matched (after pre) :=
      matched_after pre fun l c r cut => clear l c _ (shorter split cut)
    exact (alike_of_clear before (clear pre call post split)).1

end Calls

section Edge

open Substrate.Kernel.Concrete

local instance edgeEncoders : Encoders where
  marshalCanonical _ := []
  canonical _ := []

def moveTo (target : Int32) : LifecycleCall :=
  .transition { module := "m", toState := target } {} (envAt 0)

/-- A module brought to DEACTIVATED. -/
def toDeactivated : List LifecycleCall :=
  [.register { name := "m", version := "1" }, moveTo 2, moveTo 3, moveTo 4]

/-- The Go kernel moves a deactivated module on to a value that is not declared. -/
theorem deactivated_moves_on : ¬ ∀ (history pre post : List LifecycleCall) (call : LifecycleCall),
    history = pre ++ call :: post → AlikeAt (after pre) call := by
  intro alike
  have moved : ("m", 5) ∈ (peerView (after (toDeactivated ++ [moveTo 5])).go).modules := by
    decide +kernel
  have range := (alike _ toDeactivated [] (moveTo 5) rfl).go.range
  rw [after, run_snoc] at moved
  exact absurd (range _ moved) (by decide)

end Edge

end Substrate.Protocol.Lifecycles
