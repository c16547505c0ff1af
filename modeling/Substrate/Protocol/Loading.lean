/- ID: Substrate/Protocol/Loading
   source: framework/sdk/rust/src/lib.rs
   digest: What a step sees of the inputs of its work item. -/

import Substrate.Protocol.Content
import Substrate.Protocol.Draining
import Substrate.Protocol.Fingerprints

set_option autoImplicit false
set_option relaxedAutoImplicit false

namespace Substrate.Protocol.Loading

open Substrate.Kernel.Wire
open Substrate.Kernel.Hashing
open Substrate.Kernel.Memory
open Substrate.Kernel.Api (Call Reachable readOnly)
open Substrate.Framework.Steps
open Substrate.Framework.Calls
open Substrate.Framework.Drive
open Substrate.Framework.InProcess
open Substrate.Protocol.Content (reachable_storeSound)
open Substrate.Library.FiniteMap
open Substrate.Library.Resumption
open Substrate.Library.Resumption.Act
open Substrate.Library.Resumption.Prog (Environment exec)

section General

variable [Sha256] [Prost] {host : Host} {S : Type}

/-- The entries of a work item, each with its stored artifact. -/
def entriesOf (artifacts : KeyMap String Artifact) (inputs : List NamedArtifact) :
    List (Sigma fun _ : String => Artifact) :=
  inputs.filterMap fun na =>
    (na.artifact.bind fun r => artifacts.lookup r.id).map fun artifact => ⟨na.name, artifact⟩

/-- Every input names an artifact that is in the store. -/
def Present (artifacts : KeyMap String Artifact) (inputs : List NamedArtifact) : Prop :=
  ∀ na ∈ inputs, ∃ r, na.artifact = some r ∧ r.id ∈ artifacts

/-- The ports that a work item's inputs are for, one for each input. -/
def ports (work : WorkItem) : List String := work.inputs.map (·.name)

/-- The step's collection has every entry of the work item as often as the work item has it. -/
def Whole (artifacts : KeyMap String Artifact) (work : WorkItem) (step : StepContext) : Prop :=
  step.inputs.entries.Perm (entriesOf artifacts work.inputs)

/-- Two steps have equal collections. -/
def SameCollection (p q : StepContext) : Prop := ∀ port, p.inputs.lookup port = q.inputs.lookup port

section Entries

variable {artifacts : KeyMap String Artifact} {inputs : List NamedArtifact}

omit [Sha256] [Prost] in
private theorem entriesOf_cons {na : NamedArtifact} {r : ArtifactRef} {artifact : Artifact}
    (given : na.artifact = some r) (stored : artifacts.lookup r.id = some artifact) :
    entriesOf artifacts (na :: inputs) = ⟨na.name, artifact⟩ :: entriesOf artifacts inputs := by
  simp [entriesOf, given, stored]

omit [Sha256] [Prost] in
theorem entriesOf_ports (present : Present artifacts inputs) :
    (entriesOf artifacts inputs).map Sigma.fst = inputs.map (·.name) := by
  induction inputs with
  | nil => rfl
  | cons na inputs ih =>
      obtain ⟨⟨r, given, known⟩, rest⟩ := List.forall_mem_cons.mp present
      obtain ⟨artifact, stored⟩ := lookup_of_mem known
      rw [entriesOf_cons given stored, List.map_cons, ih rest, List.map_cons]

omit [Prost] in
theorem inputs_of_entries (sound : ∀ id a, artifacts.lookup id = some a → id = artifactIdOf a)
    (present : Present artifacts inputs) :
    (entriesOf artifacts inputs).map (fun e => (⟨e.1, some ⟨artifactIdOf e.2⟩⟩ : NamedArtifact)) =
      inputs := by
  induction inputs with
  | nil => rfl
  | cons na inputs ih =>
      obtain ⟨⟨r, given, known⟩, rest⟩ := List.forall_mem_cons.mp present
      obtain ⟨artifact, stored⟩ := lookup_of_mem known
      rw [entriesOf_cons given stored, List.map_cons, ih rest, ← sound r.id artifact stored, ← given]

end Entries

variable {store : ArtifactStorePolicy} {clock : Nat → Env} {outside : Environment S Query Answer}
  {runId : String}

private theorem getArtifact_reads {s : State} (ref : ArtifactRef) :
    Meets (inProcess store clock outside) (fun _ w => w.kernel = s)
      (getArtifact ref : HostAct host Artifact) fun _ r _ w =>
        w.kernel = s ∧ ∀ artifact, r = .ok artifact → s.artifacts.lookup ref.id = some artifact := by
  refine .asked fun answer => ?_
  have kept {w v : World S} (same : w.kernel = s)
      (answered : inProcess store clock outside (.getArtifact ref host.ctx) w = (v, answer)) :
      v.kernel = s ∧ ∀ artifact, answer = .ok artifact → s.artifacts.lookup ref.id = some artifact := by
    change onKernel clock w (fun env state => orReturn (checkDeadline env host.ctx) state fun _ =>
      readOnly state (Substrate.Kernel.Store.getArtifact ref state)) = (v, answer) at answered
    simp only [onKernel, same] at answered
    cases checked : checkDeadline (clock w.calls) host.ctx with
    | error e =>
        rw [checked] at answered
        obtain ⟨rfl, rfl⟩ := Prod.mk.inj answered
        exact ⟨rfl, fun artifact read => by cases read⟩
    | ok _ =>
        rw [checked] at answered
        obtain ⟨rfl, rfl⟩ := Prod.mk.inj answered
        refine ⟨rfl, fun artifact read => ?_⟩
        change Substrate.Kernel.Store.getArtifact ref s = .ok artifact at read
        rw [Substrate.Kernel.Store.getArtifact] at read
        split at read
        · rename_i found
          rw [found, Except.ok.inj read]
        · cases read
  cases answer with
  | error e =>
      refine .throw ?_
      rintro b v ⟨w, same, answered⟩
      exact ⟨(kept same answered).1, fun artifact read => by cases read⟩
  | ok artifact =>
      refine .pure ?_
      rintro b v ⟨w, same, answered⟩
      obtain ⟨after, found⟩ := kept same answered
      refine ⟨after, ?_⟩
      rintro _ ⟨⟩
      exact found artifact rfl

private theorem loadInputs_fills {s : State} (inputs : List NamedArtifact)
    (loaded : KeyMap String Artifact) :
    Meets (inProcess store clock outside) (fun _ w => w.kernel = s)
      (loadInputs inputs loaded : HostAct host (KeyMap String Artifact)) fun _ r _ w =>
        w.kernel = s ∧ ∀ m, r = .ok m → m = fill loaded (entriesOf s.artifacts inputs) := by
  induction inputs generalizing loaded with
  | nil =>
      refine .pure fun _ _ same => ⟨same, ?_⟩
      rintro _ ⟨⟩
      rfl
  | cons na inputs ih =>
      rw [loadInputs]
      cases given : na.artifact with
      | none =>
          have skipped : entriesOf s.artifacts (na :: inputs) = entriesOf s.artifacts inputs := by
            simp [entriesOf, given]
          rw [skipped]
          exact ih loaded
      | some r =>
          refine Meets.bind (getArtifact_reads (s := s) r) (fun artifact told => ?_) ?_
          · rintro b w ⟨same, found⟩
            have stored := found artifact rfl
            obtain ⟨after, filled⟩ := ih (loaded.insert na.name artifact) b w same
            refine ⟨after, fun m done => ?_⟩
            rw [entriesOf_cons given stored]
            exact filled m done
          · rintro e told b w ⟨same, -⟩
            exact ⟨same, nofun⟩

theorem loadStep_fills {work : WorkItem} {books : Books host} {w : World S} {step : StepContext}
    (built : (exec (inProcess store clock outside)
      (start (loadStep runId work : HostAct host StepContext) books) w).2.1 = .ok step) :
    step.inputs = fill ∅ (entriesOf w.kernel.artifacts work.inputs) := by
  have meets : Meets (inProcess store clock outside) (fun _ v => v.kernel = w.kernel)
      (loadStep runId work : HostAct host StepContext) fun _ r _ _ => ∀ step, r = .ok step →
        step.inputs = fill ∅ (entriesOf w.kernel.artifacts work.inputs) := by
    refine Meets.bind (loadInputs_fills (s := w.kernel) work.inputs ∅) (fun inputs told => .pure ?_)
      fun _ _ _ _ _ => nofun
    rintro b v ⟨-, filled⟩ _ ⟨⟩
    exact filled inputs rfl
  exact meets books w rfl step built

/-- A step sees all inputs of its work item exactly when no two of them are for one port. Two steps
do so and are told apart by different inputs exactly when, besides, neither work item has the inputs
of the other in another order. -/
theorem steps_see_inputs (store : ArtifactStorePolicy) (clock : Nat → Env)
    (outside : Environment S Query Answer) (host : Host) (books books' : Books host) (w v : World S)
    (reached : Reachable store w.kernel) (stored : v.kernel.artifacts = w.kernel.artifacts)
    (runId runId' : String) (work other : WorkItem)
    (present : Present w.kernel.artifacts work.inputs)
    (present' : Present w.kernel.artifacts other.inputs) (p q : StepContext)
    (built : (exec (inProcess store clock outside)
      (start (loadStep runId work : HostAct host StepContext) books) w).2.1 = .ok p)
    (built' : (exec (inProcess store clock outside)
      (start (loadStep runId' other : HostAct host StepContext) books') v).2.1 = .ok q) :
    (Whole w.kernel.artifacts work p ↔ (ports work).Nodup) ∧
      (Whole w.kernel.artifacts work p ∧ Whole w.kernel.artifacts other q ∧
          (work.inputs ≠ other.inputs → ¬SameCollection p q) ↔
        (ports work).Nodup ∧ (ports other).Nodup ∧
          (work.inputs.Perm other.inputs → work.inputs = other.inputs)) := by
  have filled := loadStep_fills built
  have filled' := loadStep_fills built'
  rw [stored] at filled'
  have whole : Whole w.kernel.artifacts work p ↔ (ports work).Nodup := by
    rw [Whole, filled, fill_perm_iff, entriesOf_ports present, ports]
  have whole' : Whole w.kernel.artifacts other q ↔ (ports other).Nodup := by
    rw [Whole, filled', fill_perm_iff, entriesOf_ports present', ports]
  rw [whole, whole']
  refine ⟨Iff.rfl, and_congr_right fun distinct => and_congr_right fun distinct' => ?_⟩
  have all := whole.mpr distinct
  have all' := whole'.mpr distinct'
  have sound := fun id a found => (reachable_storeSound reached id a found).1
  have same : SameCollection p q ↔ work.inputs.Perm other.inputs := by
    rw [SameCollection, same_lookups_iff]
    constructor
    · intro perm
      have entries := all.symm.trans (perm.trans all')
      have named := entries.map fun e => (⟨e.1, some ⟨artifactIdOf e.2⟩⟩ : NamedArtifact)
      rwa [inputs_of_entries sound present, inputs_of_entries sound present'] at named
    · intro perm
      exact all.trans ((perm.filterMap _).trans all'.symm)
  rw [same, not_imp_not]

end General

section Fan

open Substrate.Kernel.Concrete
open Substrate.Protocol.Refine (handedOut)
open Substrate.Protocol.Fingerprints (merge mergeNode merging)
open Substrate.Protocol.Draining (sayingClock saying)
open Substrate.Protocol.Orphans (echoHost)

/-- The kernel of calls after it has handed out the run's first unit, with that unit. -/
def claimed (calls : List Call) : State × List WorkItem :=
  let (kernel, reply) := Substrate.Kernel.Api.step policy (Substrate.Kernel.Api.exec policy {} calls)
    (claimAt 0)
  (kernel, handedOut reply)

def loaded (kernel : State) (work : WorkItem) : Except FrameworkError StepContext :=
  (exec (inProcess policy sayingClock saying)
    (start (loadStep "r" work : HostAct echoHost StepContext) {}) ⟨kernel, 0, ()⟩).2.1

/-- How many entries a step sees, and how many its work item has. -/
def counted (p : State × List WorkItem) : List (Option (Nat × Nat)) :=
  p.2.map fun work => (loaded p.1 work).toOption.map fun step =>
    (step.inputs.entries.length, (entriesOf p.1.artifacts work.inputs).length)

instance (artifacts : KeyMap String Artifact) (inputs : List NamedArtifact) :
    Decidable (Present artifacts inputs) :=
  decidable_of_iff (∀ na ∈ inputs, ∃ r ∈ na.artifact.toList, r.id ∈ artifacts) <| by
    simp only [Present, Option.mem_toList]

private theorem claimed_reachable (calls : List Call) : Reachable policy (claimed calls).1 :=
  Substrate.Kernel.Api.reachable_step (claimAt 0) ⟨calls, rfl⟩

private theorem merged :
    counted (claimed merging) = [some (2, 3)] ∧
      ∀ work ∈ (claimed merging).2, Present (claimed merging).1.artifacts work.inputs := by
  decide +kernel

private theorem counted_one {p : State × List WorkItem} {n m : Nat}
    (one : counted p = [some (n, m)]) :
    ∃ work ∈ p.2, ∃ step, loaded p.1 work = .ok step ∧ step.inputs.entries.length = n ∧
      (entriesOf p.1.artifacts work.inputs).length = m := by
  obtain ⟨work, rest, taken, first, -⟩ := List.map_eq_cons_iff.mp one
  obtain ⟨step, built, lengths⟩ := Option.map_eq_some_iff.mp first
  obtain ⟨seen, given⟩ := Prod.mk.inj lengths
  refine ⟨work, by simp [taken], step, ?_, seen, given⟩
  cases result : loaded p.1 work with
  | error e => simp [result, Except.toOption] at built
  | ok found =>
      rw [result] at built
      rw [Option.some.inj built]

/-- The unit of `merge@1` has three inputs, two of them for `z`, and its step sees only two. -/
theorem fan_in_lost :
    Reachable policy (claimed merging).1 ∧
      ∃ work ∈ (claimed merging).2, Present (claimed merging).1.artifacts work.inputs ∧
        ∃ step, loaded (claimed merging).1 work = .ok step ∧
          ¬Whole (claimed merging).1.artifacts work step := by
  obtain ⟨work, handed, step, built, seen, given⟩ := counted_one merged.1
  refine ⟨claimed_reachable merging, work, handed, merged.2 work handed, step, built, fun whole => ?_⟩
  have lengths := whole.length_eq
  rw [seen, given] at lengths
  exact absurd lengths (by decide)

/-- `merge@1` with one binding to each of its ports. -/
def pairs : Assembly :=
  { id := "pairs", nodes := [mergeNode]
    bindings := [{ toNode := "n", toPort := "z", input := "x" },
                 { toNode := "n", toPort := "a", input := "w" }]
    terminal := some ⟨"n", "joined"⟩ }

def pairing (words : String) : List Call :=
  [callAt 0 (.register merge), callAt 0 (.putArtifact (text "one")),
    callAt 0 (.putArtifact (text "two")), callAt 0 (.putArtifact (text "three")),
    callAt 0 (.startRun { id := "r", assembly := some pairs,
                          inputs := [given "x" (text words), given "w" (text "three")] })]

private theorem paired (words : String) (known : words = "one" ∨ words = "two") :
    counted (claimed (pairing words)) = [some (2, 2)] ∧
      ∀ work ∈ (claimed (pairing words)).2,
        work.inputs = [given "z" (text words), given "a" (text "three")] ∧
          Present (claimed (pairing words)).1.artifacts work.inputs := by
  rcases known with rfl | rfl <;> decide +kernel

private theorem pairs_stored :
    (claimed (pairing "two")).1.artifacts = (claimed (pairing "one")).1.artifacts :=
  AList.ext (by decide +kernel)

private theorem pairs_apart : ¬[given "z" (text "one"), given "a" (text "three")].Perm
    [given "z" (text "two"), given "a" (text "three")] := by decide +kernel

/-- Units of `merge@1` with one artifact for each of two ports: their steps see both, and tell the
units apart. -/
theorem steps_see_inputs_pairs :
    ∃ work ∈ (claimed (pairing "one")).2, ∃ other ∈ (claimed (pairing "two")).2, ∃ p q,
      loaded (claimed (pairing "one")).1 work = .ok p ∧
        loaded (claimed (pairing "two")).1 other = .ok q ∧ ports work = ["z", "a"] ∧
        Whole (claimed (pairing "one")).1.artifacts work p ∧
        Whole (claimed (pairing "one")).1.artifacts other q ∧ ¬SameCollection p q := by
  have reached := claimed_reachable (pairing "one")
  have stored := pairs_stored
  obtain ⟨counts, known⟩ := paired "one" (.inl rfl)
  obtain ⟨counts', known'⟩ := paired "two" (.inr rfl)
  have apart := pairs_apart
  generalize claimed (pairing "one") = one at *
  generalize claimed (pairing "two") = two at *
  obtain ⟨work, handed, p, built, -, -⟩ := counted_one counts
  obtain ⟨other, handed', q, built', -, -⟩ := counted_one counts'
  obtain ⟨inputs, present⟩ := known work handed
  obtain ⟨inputs', present'⟩ := known' other handed'
  have named : ports work = ["z", "a"] := by rw [ports, inputs]; rfl
  have named' : ports other = ["z", "a"] := by rw [ports, inputs']; rfl
  obtain ⟨whole, whole', differ⟩ := (steps_see_inputs policy sayingClock saying echoHost {} {}
    ⟨one.1, 0, ()⟩ ⟨two.1, 0, ()⟩ reached stored "r" "r" work other present (stored ▸ present') p q
    built built').2.mpr ⟨by rw [named]; decide, by rw [named']; decide, fun perm => by
      rw [inputs, inputs'] at perm
      exact absurd perm apart⟩
  refine ⟨work, handed, other, handed', p, q, built, built', named, whole, whole', differ ?_⟩
  rw [inputs, inputs']
  exact fun same => apart (.of_eq same)

end Fan

end Substrate.Protocol.Loading
