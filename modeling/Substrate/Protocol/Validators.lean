/- ID: Substrate/Protocol/Validators
   digest: The three validators agree unless Go's missing check of trait refs, or its way of counting, decides. -/

import Substrate.Kernel.Marshal
import Substrate.Protocol.Mirrors
import Substrate.Protocol.Verdicts

set_option autoImplicit false
set_option relaxedAutoImplicit false

namespace Substrate.Protocol.Validators

open Substrate.Kernel
open Substrate.Kernel.Wire
open Substrate.Kernel.Hashing
open Substrate.Kernel.Memory
open Substrate.Kernel.Registry
open Substrate.Kernel.Assembly (invalid orInvalid)
open Substrate.Kernel.Runs (startRunCtx orDefault)
open Substrate.Kernel.Sdks
open Substrate.Protocol.Mirrors
open Substrate.Protocol.Verdicts
open Substrate.Library.Checks
open Substrate.Library.FiniteMap (KeyMap mem_mapValues)

section Rust

variable {modules : List ModuleSlot} {artifacts : KeyMap String Artifact} {a : Assembly}
  {inputs : List NamedArtifact}

private theorem rust_ports (nodeId : String) (names : List String) (ports : List Port) :
    Assembly.validatePorts nodeId names ports = validatePorts Python.dialect nodeId names ports := by
  induction ports generalizing names with
  | nil => rfl
  | cons p ports ih =>
      rw [Assembly.validatePorts, validatePorts, ih]
      simp only [Python.dialect, true_and]

private theorem rust_nodes (seen : List String) (nodes : List AssemblyNode) :
    classed (Assembly.validateNodes modules seen nodes) =
      classed (validateNodes Python.dialect modules seen nodes) := by
  induction nodes generalizing seen with
  | nil => rfl
  | cons n nodes ih =>
      rw [Assembly.validateNodes, validateNodes]
      split_ifs
      · rfl
      · refine classed_bind_congr rfl fun cap _ => ?_
        rw [rust_ports, rust_ports]
        exact classed_bind_congr rfl fun _ _ => classed_bind_congr rfl fun _ _ => ih _

private theorem rust_inputs (seen : List String) :
    classed (Assembly.validateInputs artifacts seen inputs) =
      classed (validateInputs Python.dialect artifacts seen inputs) := by
  induction inputs generalizing seen with
  | nil => rfl
  | cons i inputs ih =>
      rw [Assembly.validateInputs, validateInputs]
      split_ifs
      · rfl
      · refine classed_bind_congr rfl fun r _ => ?_
        split_ifs
        · exact ih _
        · rfl

private theorem rust_binding (nodes : List AssemblyNode) (b : Binding) :
    classed (Assembly.validateBinding modules artifacts nodes inputs b) =
      classed (validateBinding modules artifacts nodes inputs b) := by
  rw [Assembly.validateBinding, validateBinding]
  refine classed_bind_congr (classed_orInvalid _ _ _) fun node _ => ?_
  refine classed_bind_congr rfl fun cap _ => ?_
  refine classed_bind_congr (classed_orInvalid _ _ _) fun target _ => ?_
  simp only
  split_ifs
  · rfl
  · refine classed_bind_congr (classed_orInvalid _ _ _) fun input _ => ?_
    cases (input.artifact.bind fun r => artifacts.lookup r.id) with
    | none => rfl
    | some art =>
        simp only [Option.any_some]
        split_ifs <;> rfl
  · refine classed_bind_congr (classed_orInvalid _ _ _) fun node _ => ?_
    refine classed_bind_congr rfl fun cap _ => ?_
    refine classed_bind_congr (classed_orInvalid _ _ _) fun source _ => ?_
    split_ifs <;> rfl

theorem rust_validateAssembly (env : Env) :
    classed (Assembly.validateAssembly env modules artifacts a inputs) =
      classed (validateAssembly Python.dialect env.iter modules artifacts a inputs) := by
  rw [Assembly.validateAssembly, validateAssembly]
  split_ifs
  · rfl
  · rfl
  · refine classed_bind_congr (classed_orInvalid _ _ _) fun terminal _ => ?_
    refine classed_bind_congr (rust_nodes _ _) fun _ _ => ?_
    refine classed_bind_congr (classed_orInvalid _ _ _) fun node _ => ?_
    refine classed_bind_congr rfl fun cap _ => ?_
    refine classed_bind_congr (classed_orInvalid _ _ _) fun p _ => ?_
    split_ifs
    · rfl
    · refine classed_bind_congr (rust_inputs _) fun _ _ => ?_
      refine classed_bind_congr (classed_forM_congr fun b _ => rust_binding _ b) fun _ _ => ?_
      rfl

end Rust

section Starts

variable {whole a : Assembly} {req : RunRequest} {state : State}

theorem materializeAssembly_ok {env : Env} {order : List String → List String}
    (perm : ∀ ids, (order ids).Perm ids) {includeNodes : List String}
    (cut : Assembly.materializeAssembly env whole includeNodes = .ok a) :
    materializeAssembly order whole includeNodes = .ok a := by
  rw [Assembly.materializeAssembly] at cut
  rw [materializeAssembly]
  split_ifs at cut with all distinct
  · rw [if_pos all]
    exact cut
  · rw [if_neg all, if_neg (not_not.mpr distinct), bind_unit_eq_ok, forM_eq_ok]
    rw [bind_unit_eq_ok, forM_eq_ok] at cut
    obtain ⟨known, rest⟩ := cut
    refine ⟨fun id member => known id ?_, ?_⟩
    · exact (env.iter_perm _).mem_iff.mpr ((perm _).mem_iff.mp member)
    · obtain ⟨terminal, declared, rest⟩ := bind_eq_ok.mp rest
      rw [orInvalid_eq_ok] at declared
      rw [guard_eq_ok, not_not] at rest
      rw [declared, Option.any_some, if_pos (decide_eq_true rest.1)]
      rw [declared] at rest
      exact rest.2
  · exact nomatch cut

/-- A request that any of the kernels looks at the assembly of. -/
structure Startable (req : RunRequest) (a : Assembly) (state : State) : Prop where
  id : req.id ≠ ""
  fresh : req.id ∉ state.runs
  steps : orDefault (req.limits.getD {}).maxSteps (UInt64.ofNat a.nodes.length) ≠ 0

private theorem branches_ok {σ ε β : Type} {p q r : Prop} [Decidable p] [Decidable q] [Decidable r]
    {s s' : σ} {e e' e'' : ε} {v : β} :
    (∃ run, (if p then (s, .error e) else if q then (s, .error e') else
      if r then (s, .error e'') else (s', .ok v) : σ × Except ε β).2 = .ok run) ↔ ¬p ∧ ¬q ∧ ¬r := by
  by_cases hp : p <;> by_cases hq : q <;> by_cases hr : r <;> simp [hp, hq, hr]

private theorem orDefault_eq (v default : UInt64) :
    (if v = 0 then default else v) = orDefault v default := rfl

variable [Sha256] [Prost]

theorem startRun_ok {env : Env} (asked : req.assembly = some whole)
    (cut : Assembly.materializeAssembly env whole req.includeNodes = .ok a) :
    (∃ run, (startRunCtx env req {} state).2 = .ok run) ↔ Startable req a state ∧
      classed (Assembly.validateAssembly env state.modules state.artifacts a req.inputs) = .ok () := by
  have uncached : idempotentGet state "start_run" {} = none := rfl
  rw [startRunCtx, show checkDeadline env {} = .ok () from rfl]
  simp only [orReturn, uncached, asked, cut]
  cases Assembly.validateAssembly env state.modules state.artifacts a req.inputs with
  | error e =>
      refine ⟨fun ⟨run, started⟩ => ?_, fun ⟨_, passed⟩ => (nomatch passed)⟩
      split_ifs at started
  | ok =>
      refine branches_ok.trans ⟨fun ⟨id, fresh, steps⟩ => ⟨⟨id, fresh, steps⟩, rfl⟩, ?_⟩
      rintro ⟨⟨id, fresh, steps⟩, -⟩
      exact ⟨id, fresh, steps⟩

variable [Encodings]

theorem go_startRun_ok {env : Env} (asked : req.assembly = some whole)
    (cut : Go.materializeAssembly env whole req.includeNodes = .ok a) :
    (∃ run, (Go.startRun env req {} state).2 = .ok run) ↔ Startable req a state ∧
      classed (Go.validateAssembly env state.modules state.artifacts a req.inputs) = .ok () := by
  have uncached : idempotentGet state "start_run" {} = none := rfl
  rw [Go.startRun, show checkDeadline env {} = .ok () from rfl]
  simp only [orReturn, uncached, asked, cut, ite_not, orDefault_eq]
  cases Go.validateAssembly env state.modules state.artifacts a req.inputs with
  | error e =>
      refine ⟨fun ⟨run, started⟩ => ?_, fun ⟨_, passed⟩ => (nomatch passed)⟩
      split_ifs at started
  | ok =>
      refine branches_ok.trans ⟨fun ⟨id, fresh, steps⟩ => ⟨⟨id, fresh, steps⟩, rfl⟩, ?_⟩
      rintro ⟨⟨id, fresh, steps⟩, -⟩
      exact ⟨id, fresh, steps⟩

theorem python_startRun_ok {env : Env} (asked : req.assembly = some whole)
    (cut : Python.materializeAssembly whole req.includeNodes = .ok a) :
    (∃ run, (Python.startRun env req {} (widen state)).2 = .ok run) ↔ Startable req a state ∧
      classed (Python.validateAssembly state.modules state.artifacts a req.inputs) = .ok () := by
  have uncached : ((idempotencyKey "start_run" {}).bind fun key =>
    (widen state).idempotency.lookup key) = none := rfl
  have known : req.id ∈ (widen state).runs ↔ req.id ∈ state.runs := mem_mapValues widenSlot _ _
  rw [Python.startRun, show Python.checkDeadline env {} = .ok () from rfl]
  simp only [Python.orRaise, Python.raising, Except.mapError, uncached, asked, cut, known]
  have same : Python.validateAssembly (widen state).modules (widen state).artifacts a req.inputs =
    Python.validateAssembly state.modules state.artifacts a req.inputs := rfl
  rw [same]
  cases Python.validateAssembly state.modules state.artifacts a req.inputs with
  | error e =>
      refine ⟨fun ⟨run, started⟩ => ?_, fun ⟨_, passed⟩ => (nomatch passed)⟩
      split_ifs at started
  | ok =>
      refine branches_ok.trans ⟨fun ⟨id, fresh, steps⟩ => ⟨⟨id, fresh, steps⟩, rfl⟩, ?_⟩
      rintro ⟨⟨id, fresh, steps⟩, -⟩
      exact ⟨id, fresh, steps⟩

end Starts

section Agreement

variable [Sha256] [Prost] [Encodings]

/-- The three validators give the same answers, and a request for the assembly starts a run in all
three kernels or in none. -/
structure ValidatorsAgree (modules : List ModuleSlot) (artifacts : KeyMap String Artifact)
    (a : Assembly) (inputs : List NamedArtifact) : Prop where
  go : ∀ env env' : Env, classed (Go.validateAssembly env' modules artifacts a inputs) =
    classed (Assembly.validateAssembly env modules artifacts a inputs)
  python : ∀ env : Env, classed (Python.validateAssembly modules artifacts a inputs) =
    classed (Assembly.validateAssembly env modules artifacts a inputs)
  starts : ∀ (env env' : Env) (req : RunRequest) (whole : Assembly) (state : State),
    state.modules = modules → state.artifacts = artifacts → req.inputs = inputs →
    req.assembly = some whole →
    Assembly.materializeAssembly env whole req.includeNodes = .ok a →
      ((∃ run, (Go.startRun env' req {} state).2 = .ok run) ↔
          ∃ run, (startRunCtx env req {} state).2 = .ok run) ∧
        ((∃ run, (Python.startRun env' req {} (widen state)).2 = .ok run) ↔
          ∃ run, (startRunCtx env req {} state).2 = .ok run)

section Verdicts

variable {modules : List ModuleSlot} {artifacts : KeyMap String Artifact} {a : Assembly}
  {inputs : List NamedArtifact}

omit [Sha256] [Prost] [Encodings] in
private theorem rust_verdict (env : Env) :
    classed (Assembly.validateAssembly env modules artifacts a inputs) =
      verdict modules artifacts a inputs Python.dialect :=
  (rust_validateAssembly env).trans (classed_validateAssembly env.iter_perm)

omit [Sha256] [Prost] [Encodings] in
private theorem go_verdict (env : Env) :
    classed (Go.validateAssembly env modules artifacts a inputs) =
      verdict modules artifacts a inputs Go.dialect :=
  classed_validateAssembly env.iter_perm

omit [Sha256] [Prost] [Encodings] in
private theorem python_verdict :
    classed (Python.validateAssembly modules artifacts a inputs) =
      verdict modules artifacts a inputs Python.dialect :=
  classed_validateAssembly fun _ => .refl _

omit [Sha256] [Prost] [Encodings] in
theorem stocked_not_firstUnknown (stocked : Stocked artifacts inputs) :
    ¬FirstUnknown artifacts inputs := by
  rw [← @validateInputs_firstUnknown Go.dialect, validateInputs_stocked.mpr stocked]
  exact fun same => nomatch same

omit [Sha256] [Prost] [Encodings] in
private theorem accepted_iff {p q : Prop} [Decidable p] [Decidable q] :
    ((if p then .ok () else .error .invalid : Except ErrorClass Unit) =
      if q then .ok () else .error .invalid) ↔ (p ↔ q) := by
  by_cases hp : p <;> by_cases hq : q <;> simp [hp, hq]

omit [Sha256] [Prost] [Encodings] in
theorem verdicts_agree :
    verdict modules artifacts a inputs Go.dialect =
        verdict modules artifacts a inputs Python.dialect ↔
      (Sound modules a →
        (¬NoEmptyRefs modules a → ¬FirstUnknown artifacts inputs ∧
          ¬(Stocked artifacts inputs ∧ Wired modules artifacts a inputs ∧ Acyclic a ∧
            Counted modules a Go.dialect.samePort)) ∧
        (NoEmptyRefs modules a → Stocked artifacts inputs → Wired modules artifacts a inputs →
          Acyclic a →
            (Counted modules a Go.dialect.samePort ↔ Counted modules a (· == ·)))) := by
  classical
  have known := @stocked_not_firstUnknown artifacts inputs
  have counts : Counted modules a Python.dialect.samePort ↔ Counted modules a (· == ·) := Iff.rfl
  by_cases sound : Sound modules a
  case neg =>
    rw [verdict, verdict, if_neg fun all => sound all.1, if_neg fun all => sound all.1]
    exact ⟨fun _ here => absurd here sound, fun _ => rfl⟩
  have unchecked : Sound modules a ∧ (Go.dialect.checksTraitRefs → NoEmptyRefs modules a) :=
    ⟨sound, fun on => by cases on⟩
  rw [verdict, verdict, if_pos unchecked, ← counts]
  by_cases refs : NoEmptyRefs modules a
  · have checked : Sound modules a ∧ (Python.dialect.checksTraitRefs → NoEmptyRefs modules a) :=
      ⟨sound, fun _ => refs⟩
    rw [if_pos checked]
    by_cases unknown : FirstUnknown artifacts inputs
    · rw [if_pos unknown, if_pos unknown]
      exact ⟨fun _ _ => ⟨fun blank => absurd refs blank, fun _ stocked => absurd unknown (known stocked)⟩,
        fun _ => rfl⟩
    · rw [if_neg unknown, if_neg unknown, accepted_iff]
      simp only [sound, refs, not_true_eq_false, false_implies, true_implies, true_and]
      generalize Counted modules a Go.dialect.samePort = joined
      generalize Counted modules a Python.dialect.samePort = paired
      tauto
  · have refused : ¬(Sound modules a ∧ (Python.dialect.checksTraitRefs → NoEmptyRefs modules a)) :=
      fun all => refs (all.2 rfl)
    rw [if_neg refused]
    by_cases unknown : FirstUnknown artifacts inputs
    · simp [unknown, refs, sound]
    · rw [if_neg unknown]
      split_ifs <;> simp [refs, sound, unknown] <;> tauto

end Verdicts

/-- A host to ask. -/
private def idle : Env := ⟨0, 0, id, List.Perm.refl⟩

/-- The three validators agree exactly when neither Go's missing check nor its way of counting
decides. -/
theorem validatorsAgree_iff (modules : List ModuleSlot) (artifacts : KeyMap String Artifact)
    (a : Assembly) (inputs : List NamedArtifact) :
    ValidatorsAgree modules artifacts a inputs ↔
      (Sound modules a →
        (¬NoEmptyRefs modules a → ¬FirstUnknown artifacts inputs ∧
          ¬(Stocked artifacts inputs ∧ Wired modules artifacts a inputs ∧ Acyclic a ∧
            Counted modules a Go.dialect.samePort)) ∧
        (NoEmptyRefs modules a → Stocked artifacts inputs → Wired modules artifacts a inputs →
          Acyclic a →
            (Counted modules a Go.dialect.samePort ↔ Counted modules a (· == ·)))) := by
  rw [← verdicts_agree]
  constructor
  · intro agree
    have same := agree.go idle idle
    rwa [go_verdict, rust_verdict] at same
  · intro same
    refine ⟨fun env env' => ?_, fun env => ?_, ?_⟩
    · rw [go_verdict, rust_verdict, same]
    · rw [python_verdict, rust_verdict]
    · rintro env env' req whole state rfl rfl rfl asked cut
      rw [startRun_ok asked cut, go_startRun_ok asked (materializeAssembly_ok env'.iter_perm cut),
        python_startRun_ok asked (materializeAssembly_ok (fun _ => .refl _) cut), go_verdict,
        rust_verdict, python_verdict, same]
      exact ⟨Iff.rfl, Iff.rfl⟩

end Agreement

section Blank

open Substrate.Kernel.Api
open Substrate.Kernel.Concrete
open scoped Substrate.Kernel.Marshal

/-- `mute@1` says something of no kind at all. -/
def mute : ModuleManifest :=
  { name := "mute", version := "1"
    provides := [{ name := "say", outputs := [{ name := "said", traits := [""] }] }] }

def mutes : Assembly :=
  { id := "mutes", nodes := [⟨"n", "mute", "1", "say"⟩], terminal := some ⟨"n", "said"⟩ }

def muteState : State := exec policy {} [callAt 0 (.register mute)]

/-- Go starts a run that Rust and Python refuse. -/
theorem blank_ref_accepted :
    Reachable policy muteState ∧
      ¬ValidatorsAgree muteState.modules muteState.artifacts mutes [] := by
  refine ⟨⟨_, rfl⟩, fun agree => ?_⟩
  have same := agree.go (envAt 0) (envAt 0)
  revert same
  decide +kernel

end Blank

end Substrate.Protocol.Validators
