/- ID: Substrate/Protocol/Fingerprints
   digest: When the Go kernel's exchange sort gives a work unit the identity that the Rust kernel gives it. -/

import Substrate.Kernel.Concrete
import Substrate.Kernel.Go

set_option autoImplicit false
set_option relaxedAutoImplicit false

namespace Substrate.Protocol.Fingerprints

open Substrate.Kernel
open Substrate.Kernel.Wire
open Substrate.Kernel.Hashing
open Substrate.Kernel.Memory
open Substrate.Kernel.Registry
open Substrate.Kernel.Schedule
open Substrate.Kernel.Work
open Substrate.Kernel.Api
open Substrate.Library.ExchangeSort

section Bytes

/-- Written out, the rows of no port show the order in which exchanges leave them. -/
def Unturned {α : Type} (write : String × α → Bytes) (rows : List (String × α)) : Prop :=
  ∀ port, (turned (·.1) port rows).flatMap write = (rows.filter (·.1 = port)).flatMap write

theorem exchanged_iff {α : Type} (write : String × α → Bytes) (rows : List (String × α)) :
    (exchangeSort (·.1) rows).flatMap write = (sortByPort rows).flatMap write ↔
      Unturned write rows :=
  flatMap_exchangeSort_iff write rows

theorem sortByPort_eq {α : Type} {rows : List (String × α)} (distinct : (rows.map (·.1)).Nodup) :
    exchangeSort (·.1) rows = sortByPort rows :=
  exchangeSort_eq_insertionSort distinct

def pairBytes (pair : String × String) : Bytes :=
  asBytes pair.1 ++ [sep] ++ asBytes pair.2 ++ [sep]

theorem inputKeyBytes_iff (cap : Capability) (inputs : List NamedArtifact) :
    Go.inputKeyBytes cap inputs = inputKeyBytes cap inputs ↔
      Unturned pairBytes (keyPairs cap inputs) :=
  exchanged_iff pairBytes _

theorem deliveryBytes_iff (rows : List (String × String × UInt64)) :
    Go.deliveryBytes rows = deliveryBytes rows ↔ Unturned deliveryRowBytes rows :=
  exchanged_iff deliveryRowBytes rows

end Bytes

section Identities

variable [Sha256]

theorem inputKey_eq {cap : Capability} {inputs : List NamedArtifact}
    (same : Go.inputKeyBytes cap inputs = inputKeyBytes cap inputs) :
    Go.inputKey cap inputs = inputKey cap inputs := by
  rw [Go.inputKey, same, inputKey]

theorem deliveryFingerprint_eq {slot : RunSlot} {node : AssemblyNode} {inputs : List NamedArtifact}
    (same : ∀ rows, deliveryRows slot node inputs = some rows →
      Go.deliveryBytes rows = deliveryBytes rows) :
    Go.deliveryFingerprint slot node inputs = deliveryFingerprint slot node inputs := by
  rw [Go.deliveryFingerprint, deliveryFingerprint]
  refine Option.map_congr fun rows found => ?_
  rw [same rows found]

theorem workUnitKey_eq {slot : RunSlot} {node : AssemblyNode} {cap : Capability}
    {inputs : List NamedArtifact} (keys : Go.inputKey cap inputs = inputKey cap inputs)
    (deliveries : Go.deliveryFingerprint slot node inputs = deliveryFingerprint slot node inputs)
    (firing : Firing) :
    Go.workUnitKey slot node cap firing.asI32 inputs = workUnitKey slot node cap firing inputs := by
  rw [Go.workUnitKey, keys, deliveries]
  cases firing <;> rfl

omit [Sha256] in
theorem asI32_of_tryFrom {n : Int32} {f : Firing} (declared : Firing.tryFrom n = some f) :
    n = f.asI32 := by
  have found := List.find?_some declared
  exact (beq_iff_eq.mp found).symm

omit [Sha256] in
private theorem tryFrom_asI32 (f : Firing) : Firing.tryFrom f.asI32 = some f := by
  cases f <;> rfl

omit [Sha256] in
private theorem undeclared_ne {n : Int32} (undeclared : Firing.tryFrom n = none) (f : Firing) :
    n ≠ f.asI32 := by
  rintro rfl
  rw [tryFrom_asI32] at undeclared
  cases undeclared

omit [Sha256] in
private theorem firingOf_undeclared {cap : Capability}
    (undeclared : Firing.tryFrom cap.firing = none) : cap.firingOf = .unspecified := by
  rw [Capability.firingOf, undeclared]
  rfl

theorem workUnitKey_read {slot : RunSlot} {node : AssemblyNode} {cap : Capability}
    {inputs : List NamedArtifact} (keys : Go.inputKey cap inputs = inputKey cap inputs)
    (deliveries : Go.deliveryFingerprint slot node inputs = deliveryFingerprint slot node inputs)
    (n : Int32) :
    Go.workUnitKey slot node cap n inputs =
      workUnitKey slot node cap ((Firing.tryFrom n).getD .once) inputs := by
  cases known : Firing.tryFrom n with
  | some f =>
      rw [asI32_of_tryFrom known, workUnitKey_eq keys deliveries, Option.getD_some]
  | none =>
      rw [Go.workUnitKey, if_neg (undeclared_ne known .always),
        if_neg (undeclared_ne known .oncePerKey)]
      rfl

omit [Sha256] in
theorem asI32_ne_zero (f : Firing) : f.asI32 ≠ 0 ↔ f ≠ .unspecified := by
  cases f <;> decide

omit [Sha256] in
/-- The node has no firing of its own in the policy, its capability names none of the declared
ones, and the policy's default is ALWAYS or ONCE_PER_KEY: Rust reads the capability's number as
unspecified and goes on to the default, Go returns the number and fires once. -/
def Overlooked (slot : RunSlot) (node : AssemblyNode) (cap : Capability) : Prop :=
  (slot.run.policy.bind fun p => (p.byNode.get? node.id).filter (· ≠ 0)) = none ∧
    Firing.tryFrom cap.firing = none ∧
    ∃ p, slot.run.policy = some p ∧ (p.defaultOf = .always ∨ p.defaultOf = .oncePerKey)

omit [Sha256] in
theorem effectiveFiring_overlooked {slot : RunSlot} {node : AssemblyNode} {cap : Capability}
    (overlooked : Overlooked slot node cap) :
    Firing.tryFrom (Go.effectiveFiring slot node cap) = none ∧
      (effectiveFiring slot node cap = .always ∨ effectiveFiring slot node cap = .oncePerKey) := by
  obtain ⟨unnamed, undeclared, p, given, fallback⟩ := overlooked
  have nonzero : cap.firing ≠ 0 := undeclared_ne undeclared .unspecified
  rw [Go.effectiveFiring, effectiveFiring, unnamed]
  simp only [firingOf_undeclared undeclared, given, Option.map_some, if_pos nonzero]
  refine ⟨undeclared, ?_⟩
  rcases fallback with default | default <;> simp [default]

omit [Sha256] in
private theorem default_read (policy : Option ExecutionPolicy) :
    (Firing.tryFrom (match (policy.map (·.default)).filter (· ≠ 0) with
      | some f => f
      | none => Firing.once.asI32)).getD .once =
      match policy.map (·.defaultOf) with
      | some f => if f ≠ .unspecified then f else .once
      | none => .once := by
  cases policy with
  | none => rfl
  | some p =>
      rw [Option.map_some, Option.map_some]
      cases known : Firing.tryFrom p.default with
      | some f =>
          have reads : p.defaultOf = f := by rw [ExecutionPolicy.defaultOf, known, Option.getD_some]
          rw [asI32_of_tryFrom known, reads]
          cases f <;> rfl
      | none =>
          have nonzero : p.default ≠ 0 := undeclared_ne known .unspecified
          have reads : p.defaultOf = .unspecified := by rw [ExecutionPolicy.defaultOf, known]; rfl
          have kept : (some p.default).filter (· ≠ 0) = some p.default := by simp [nonzero]
          rw [kept, reads, known]
          rfl

omit [Sha256] in
theorem effectiveFiring_read {slot : RunSlot} {node : AssemblyNode} {cap : Capability}
    (seen : ¬Overlooked slot node cap) :
    (Firing.tryFrom (Go.effectiveFiring slot node cap)).getD .once =
      effectiveFiring slot node cap := by
  rw [Go.effectiveFiring, effectiveFiring]
  cases named : slot.run.policy.bind fun p => (p.byNode.get? node.id).filter (· ≠ 0) with
  | some f => rfl
  | none =>
      cases known : Firing.tryFrom cap.firing with
      | some own =>
          have reads : cap.firingOf = own := by rw [Capability.firingOf, known, Option.getD_some]
          have value := asI32_of_tryFrom known
          cases own with
          | unspecified =>
              simp only [reads, value, Firing.asI32, ne_eq, not_true_eq_false, if_false]
              exact default_read slot.run.policy
          | once | always | oncePerKey => simp [reads, value, tryFrom_asI32, asI32_ne_zero]
      | none =>
          have nonzero : cap.firing ≠ 0 := undeclared_ne known .unspecified
          simp only [firingOf_undeclared known, if_pos nonzero, known, Option.getD_none, ne_eq,
            not_true_eq_false, if_false]
          cases given : slot.run.policy with
          | none => rfl
          | some p =>
              have other : p.defaultOf ≠ .always ∧ p.defaultOf ≠ .oncePerKey :=
                not_or.mp fun fallback => seen ⟨named, known, p, given, fallback⟩
              rw [Option.map_some]
              cases default : p.defaultOf with
              | unspecified | once => rfl
              | always => exact absurd default other.1
              | oncePerKey => exact absurd default other.2

/-- The two kernels hash the same bytes for a unit of the node; with the firing that each of them
works out, they give it the same key, `work.claimed` entry, work id and derivation id. -/
structure SameIdentity (slot : RunSlot) (node : AssemblyNode) (cap : Capability)
    (inputs : List NamedArtifact) : Prop where
  inputKeyBytes : Go.inputKeyBytes cap inputs = inputKeyBytes cap inputs
  deliveryBytes : (deliveryRows slot node inputs).map Go.deliveryBytes =
    (deliveryRows slot node inputs).map deliveryBytes
  unitKey : Go.workUnitKey slot node cap (Go.effectiveFiring slot node cap) inputs =
    workUnitKey slot node cap (effectiveFiring slot node cap) inputs
  current : ∀ modules, capabilityForNode modules node = .ok cap →
    resolveInputs slot node = some inputs →
    Go.currentUnit modules slot node = currentUnit modules slot node
  claimed : ∀ goKey rustKey : String,
    Go.workUnitKey slot node cap (Go.effectiveFiring slot node cap) inputs = some goKey →
    workUnitKey slot node cap (effectiveFiring slot node cap) inputs = some rustKey →
    ∀ (env env' : Env) (runId : String) (outputs : List NamedArtifact),
      let go := Go.claimWork env runId slot node inputs goKey
      let rust := claimWork env' runId slot (node, inputs, rustKey)
      go.id = rust.id ∧ ledgerWorkItem go = ledgerWorkItem rust ∧
        (derivationOf go outputs).id = (derivationOf rust outputs).id

private theorem workUnitKey_overlooked {slot : RunSlot} {node : AssemblyNode} {cap : Capability}
    {inputs : List NamedArtifact} (overlooked : Overlooked slot node cap) :
    Go.workUnitKey slot node cap (Go.effectiveFiring slot node cap) inputs ≠
      workUnitKey slot node cap (effectiveFiring slot node cap) inputs := by
  obtain ⟨undeclared, fires⟩ := effectiveFiring_overlooked overlooked
  rw [Go.workUnitKey, if_neg (undeclared_ne undeclared .always),
    if_neg (undeclared_ne undeclared .oncePerKey)]
  have apart {word rest rest' : String} (filled : word.toList ≠ [])
      (heads : "once:".toList.head? ≠ word.toList.head?) : "once:" ++ rest ≠ word ++ rest' := by
    intro same
    have letters := congrArg (fun text => text.toList.head?) same
    simp only [String.toList_append] at letters
    rw [List.head?_append_of_ne_nil _ (by decide), List.head?_append_of_ne_nil _ filled] at letters
    exact heads letters
  rcases fires with fires | fires
  · rw [fires, workUnitKey]
    cases deliveryFingerprint slot node inputs with
    | none => exact Option.some_ne_none _
    | some fp =>
        rw [Option.map_some, String.append_assoc, String.append_assoc]
        exact fun same => apart (by decide) (by decide) (Option.some.inj same)
  · rw [fires, workUnitKey, String.append_assoc, String.append_assoc]
    exact fun same => apart (by decide) (by decide) (Option.some.inj same)

/-- Whatever the capability, the assembly, the inputs, the derivations and the counters: the two
kernels agree on the identity of a unit exactly when the exchanges turn no two rows of one port
that read differently and Rust overlooks no firing of the capability. -/
theorem sameIdentity_iff (slot : RunSlot) (node : AssemblyNode) (cap : Capability)
    (inputs : List NamedArtifact) :
    SameIdentity slot node cap inputs ↔
      Unturned pairBytes (keyPairs cap inputs) ∧
        (∀ rows, deliveryRows slot node inputs = some rows → Unturned deliveryRowBytes rows) ∧
        ¬Overlooked slot node cap := by
  refine ⟨fun same => ⟨(inputKeyBytes_iff cap inputs).mp same.inputKeyBytes, ?_,
    fun overlooked => workUnitKey_overlooked overlooked same.unitKey⟩, ?_⟩
  · intro rows found
    have bytes := same.deliveryBytes
    rw [found, Option.map_some, Option.map_some, Option.some_inj] at bytes
    exact (deliveryBytes_iff rows).mp bytes
  · rintro ⟨pairs, deliveries, seen⟩
    have keyBytes := (inputKeyBytes_iff cap inputs).mpr pairs
    have rowBytes : ∀ rows, deliveryRows slot node inputs = some rows →
        Go.deliveryBytes rows = deliveryBytes rows := fun rows found =>
      (deliveryBytes_iff rows).mpr (deliveries rows found)
    have unit : Go.workUnitKey slot node cap (Go.effectiveFiring slot node cap) inputs =
        workUnitKey slot node cap (effectiveFiring slot node cap) inputs := by
      rw [workUnitKey_read (inputKey_eq keyBytes) (deliveryFingerprint_eq rowBytes),
        effectiveFiring_read seen]
    refine ⟨keyBytes, Option.map_congr rowBytes, unit, ?_, ?_⟩
    · intro modules found resolved
      rw [Go.currentUnit, currentUnit, resolved, found]
      exact congrArg (Option.map (inputs, ·)) unit
    · intro goKey rustKey go rust env env' runId outputs
      obtain rfl : goKey = rustKey := by
        rw [unit, rust] at go
        exact (Option.some.inj go).symm
      exact ⟨rfl, rfl, rfl⟩

end Identities

section Turned

open Substrate.Kernel.Concrete

/-- `merge@1` takes any number of rows on `z` and one on `a`. -/
def merge : ModuleManifest :=
  { name := "merge", version := "1"
    provides := [{ name := "join", firing := Firing.oncePerKey.asI32
                   inputs := [{ name := "z", multiple := true, traits := ["text"] },
                              { name := "a", traits := ["text"] }]
                   outputs := [{ name := "joined", traits := ["text"] }] }] }

def mergeNode : AssemblyNode := ⟨"n", "merge", "1", "join"⟩

/-- Two bindings to `z`, then one to `a`. -/
def merges : Assembly :=
  { id := "merges", nodes := [mergeNode]
    bindings := [{ toNode := "n", toPort := "z", input := "x" },
                 { toNode := "n", toPort := "z", input := "y" },
                 { toNode := "n", toPort := "a", input := "w" }]
    terminal := some ⟨"n", "joined"⟩ }

def merging : List Call :=
  [callAt 0 (.register merge), callAt 0 (.putArtifact (text "one")),
    callAt 0 (.putArtifact (text "two")), callAt 0 (.putArtifact (text "three")),
    callAt 0 (.startRun { id := "r", assembly := some merges,
                          inputs := [given "x" (text "one"), given "y" (text "two"),
                                     given "w" (text "three")] })]

/-- The rows of `z` come out turned in Go, and with them the identity of the one unit of a run that
the kernel has accepted. -/
theorem merge_turned :
    ∃ slot inputs, (exec policy {} merging).runs.lookup "r" = some slot ∧
      resolveInputs slot mergeNode = some inputs ∧
      (∀ cap ∈ merge.provides, Go.inputKeyBytes cap inputs ≠ inputKeyBytes cap inputs ∧
        Go.workUnitKey slot mergeNode cap (Go.effectiveFiring slot mergeNode cap) inputs ≠
          workUnitKey slot mergeNode cap (effectiveFiring slot mergeNode cap) inputs) := by
  have differs : (((exec policy {} merging).runs.lookup "r").bind fun slot =>
      (resolveInputs slot mergeNode).map fun inputs => merge.provides.all fun cap =>
        Go.inputKeyBytes cap inputs != inputKeyBytes cap inputs &&
          Go.workUnitKey slot mergeNode cap (Go.effectiveFiring slot mergeNode cap) inputs !=
            workUnitKey slot mergeNode cap (effectiveFiring slot mergeNode cap) inputs) =
      some true := by
    decide +kernel
  obtain ⟨slot, found, rest⟩ := Option.bind_eq_some_iff.mp differs
  obtain ⟨inputs, resolved, all⟩ := Option.map_eq_some_iff.mp rest
  refine ⟨slot, inputs, found, resolved, fun cap member => ?_⟩
  simpa using List.all_eq_true.mp all cap member

end Turned

end Substrate.Protocol.Fingerprints
