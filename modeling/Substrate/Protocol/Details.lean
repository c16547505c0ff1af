/- ID: Substrate/Protocol/Details
   digest: When the Rust and the Go kernel log the same bytes for a stored artifact. -/

import Substrate.Kernel.Go
import Substrate.Kernel.Marshal
import Substrate.Library.Checks

set_option autoImplicit false
set_option relaxedAutoImplicit false

namespace Substrate.Protocol.Details

open Substrate.Kernel
open Substrate.Kernel.Wire
open Substrate.Kernel.Hashing
open Substrate.Kernel.Memory
open Substrate.Kernel.Store
open Substrate.Kernel.Codec
open Substrate.Kernel.Marshal (marshal)
open Substrate.Library.Checks (forM_eq_ok)
open Substrate.Library.Proto3

section Maps

variable {V : Type} [DecidableEq V] {zero : V} {write : V → Value}

theorem entryFields_eq_iff (e : String × V) :
    entryFields (scalar zero write) e = Marshal.entryFields write e ↔ e.1 ≠ "" ∧ e.2 ≠ zero := by
  by_cases key : e.1 = "" <;> by_cases value : e.2 = zero <;>
    simp [entryFields, Marshal.entryFields, str, scalar, field, key, value]

theorem encodeFields_inj {a b : List Field} : encodeFields a = encodeFields b ↔ a = b := by
  refine ⟨fun same => ?_, congrArg _⟩
  have read := congrArg decodeFields same
  rwa [decodeFields_encodeFields, decodeFields_encodeFields, Option.some_inj] at read

theorem mapEntries_eq_iff (m : BTreeMap V) :
    mapEntries (scalar zero write) m = Marshal.mapEntries write m ↔
      ∀ e ∈ m.entries, e.1 ≠ "" ∧ e.2 ≠ zero := by
  rw [mapEntries, Marshal.mapEntries, List.map_inj_left]
  refine forall₂_congr fun e _ => ?_
  rw [nested, nested, Value.bytes.injEq, encodeFields_inj, entryFields_eq_iff]

end Maps

theorem encode_artifact_iff (a : Artifact) :
    encode (.artifact a) = marshal (.artifact a) ↔
      (∀ e ∈ a.info.entries, e.1 ≠ "" ∧ e.2 ≠ "") ∧
        ∀ e ∈ a.traits.entries, e.1 ≠ "" ∧ e.2 ≠ {} := by
  have infos : mapEntries str a.info = Marshal.mapEntries (fun s => .bytes (asBytes s)) a.info ↔ _ :=
    mapEntries_eq_iff a.info
  have traits := @mapEntries_eq_iff Trait _ {} (nested traitFields) a.traits
  rw [encode, marshal, messageFields, encodeFields_inj, ← infos, ← traits]
  constructor
  · intro same
    constructor
    · simpa [artifactFields, Marshal.artifactFields] using congrArg (occurrences 4) same
    · simpa [artifactFields, Marshal.artifactFields] using congrArg (occurrences 8) same
  · rintro ⟨info, bag⟩
    rw [artifactFields, Marshal.artifactFields, info, bag]

/-- Every `info` entry has a key and a value, and no trait is empty. -/
def NoDefaults (a : Artifact) : Prop :=
  (∀ e ∈ a.info.entries, e.1 ≠ "" ∧ e.2 ≠ "") ∧
    ∀ e ∈ a.traits.entries, e.2.body ≠ [] ∨ e.2.object ≠ none

private theorem cleared_ne_default (t : Trait) :
    (if traitHasExternal t then { t with body := [] } else t) ≠ {} ↔
      t.body ≠ [] ∨ t.object ≠ none := by
  obtain ⟨body, object⟩ := t
  cases object with
  | none => simp [traitHasExternal, traitExternal]
  | some o => split_ifs <;> simp

theorem detail_iff {a : Artifact} (named : ∀ e ∈ a.traits.entries, e.1 ≠ "") (id : String) :
    encode (.artifact (clearExternalBodies { a with id })) =
        marshal (.artifact (clearExternalBodies { a with id })) ↔ NoDefaults a := by
  rw [encode_artifact_iff]
  refine and_congr Iff.rfl ?_
  simp only [clearExternalBodies, List.forall_mem_map]
  refine forall₂_congr fun e member => ?_
  rw [cleared_ne_default]
  exact and_iff_right (named e member)

section Puts

variable [Sha256] {policy : ArtifactStorePolicy} {env : Env} {artifact : Artifact}
  {ctx : RequestContext} {s : State} {r : ArtifactRef}

/-- The checks between a put and its first write. -/
structure Accepts (policy : ArtifactStorePolicy) (env : Env) (artifact : Artifact)
    (ctx : RequestContext) (s : State) : Prop where
  inTime : checkDeadline env ctx = .ok ()
  content : validateArtifactContent artifact policy = .ok ()
  objects : (artifact.traits.entries.forM fun (_, tr) =>
    match traitExternal tr with
    | some object => verifyObjectRefLocked s object
    | none => .ok ()) = (.ok () : Except KernelError Unit)

private theorem accepts_of_ok [Prost]
    (uncached : ∀ r, idempotentGet s "put_artifact" ctx ≠ some (.artifactRef r))
    (accepted : (putArtifactCtx policy env artifact ctx s).2 = .ok r) :
    Accepts policy env artifact ctx s := by
  rw [putArtifactCtx] at accepted
  rcases inTime : checkDeadline env ctx with e | u
  · simp [orReturn, inTime] at accepted
  rcases content : validateArtifactContent artifact policy with e | v
  · simp [orReturn, inTime, content] at accepted
  refine ⟨inTime, content, ?_⟩
  rcases cached : idempotentGet s "put_artifact" ctx with _ | r' | run
  case some.artifactRef => exact absurd cached (uncached r')
  all_goals
    simp only [orReturn, inTime, content, cached] at accepted
    split at accepted
    · assumption
    · cases accepted

private theorem put_ledger [Prost] (accepts : Accepts policy env artifact ctx s)
    (uncached : ∀ r, idempotentGet s "put_artifact" ctx ≠ some (.artifactRef r))
    (fresh : artifactIdOf artifact ∉ s.artifacts) :
    (putArtifactCtx policy env artifact ctx s).1.ledger =
      s.ledger ++ [nextEntry s.ledger "artifact.put" (artifactIdOf artifact)
        (encodeToVec (.artifact
          (clearExternalBodies { artifact with id := artifactIdOf artifact })))] := by
  obtain ⟨inTime, content, objects⟩ := accepts
  have quiet : ∀ t value, (idempotentPut t "put_artifact" ctx value).ledger = t.ledger := by
    intro t value
    obtain ⟨cache, same⟩ := idempotentPut_eq t "put_artifact" ctx value
    rw [same]
  rw [putArtifactCtx]
  rcases cached : idempotentGet s "put_artifact" ctx with _ | r' | run
  case some.artifactRef => exact absurd cached (uncached r')
  all_goals
    simp only [orReturn, inTime, content, if_neg fresh]
    split
    · rw [quiet]
      rfl
    · exact absurd (objects.symm.trans ‹_›) (by simp)

omit [Sha256] in
theorem accepted_named (content : validateArtifactContent artifact policy = .ok ()) :
    ∀ e ∈ artifact.traits.entries, e.1 ≠ "" := by
  intro e member unnamed
  unfold validateArtifactContent at content
  split_ifs at content with empty
  have checked := forM_eq_ok.mp content e member
  simp [validateTrait, unnamed] at checked

end Puts

section Agreement

open scoped Substrate.Kernel.Concrete Substrate.Kernel.Marshal

variable [Sha256] {policy : ArtifactStorePolicy} {env : Env} {artifact : Artifact}
  {ctx : RequestContext} {s : State} {r : ArtifactRef}

/-- An accepted artifact that is new is logged with the same bytes by the two kernels, and their
chains stay equal, exactly when none of its map entries is a default. -/
theorem put_details_iff (accepted : (putArtifactCtx policy env artifact ctx s).2 = .ok r)
    (uncached : ∀ r, idempotentGet s "put_artifact" ctx ≠ some (.artifactRef r))
    (fresh : artifactIdOf artifact ∉ s.artifacts) :
    ∃ rust go : Bytes,
      (putArtifactCtx policy env artifact ctx s).1.ledger =
          s.ledger ++ [nextEntry s.ledger "artifact.put" (artifactIdOf artifact) rust] ∧
        (Go.putArtifact policy env artifact ctx s).1.ledger =
          s.ledger ++ [nextEntry s.ledger "artifact.put" (artifactIdOf artifact) go] ∧
        (rust = go ↔ NoDefaults artifact) ∧
        ((putArtifactCtx policy env artifact ctx s).1.ledger =
          (Go.putArtifact policy env artifact ctx s).1.ledger ↔ NoDefaults artifact) := by
  have accepts := accepts_of_ok uncached accepted
  have rust := put_ledger accepts uncached fresh
  have go : (Go.putArtifact policy env artifact ctx s).1.ledger = _ :=
    @put_ledger _ policy env artifact ctx s ⟨marshal⟩ accepts uncached fresh
  have details := detail_iff (accepted_named accepts.content) (artifactIdOf artifact)
  refine ⟨_, _, rust, go, details, ?_⟩
  rw [rust, go, List.append_cancel_left_eq, List.singleton_inj]
  exact ⟨fun same => details.mp (congrArg LedgerEntry.detail same), fun plain =>
    congrArg (nextEntry s.ledger "artifact.put" (artifactIdOf artifact)) (details.mpr plain)⟩

end Agreement

section Blank

open Substrate.Kernel.Concrete
open scoped Substrate.Kernel.Marshal

/-- A trait with an empty body is accepted, and its entry has no value in the Rust chain. -/
theorem blank_text_parts :
    (putArtifactCtx policy (envAt 0) (text "") {} {}).2 = .ok ⟨artifactIdOf (text "")⟩ ∧
      (Go.putArtifact policy (envAt 0) (text "") {} {}).2 = .ok ⟨artifactIdOf (text "")⟩ ∧
      (putArtifactCtx policy (envAt 0) (text "") {} {}).1.ledger.map (·.hash) ≠
        (Go.putArtifact policy (envAt 0) (text "") {} {}).1.ledger.map (·.hash) := by
  refine ⟨rfl, rfl, ?_⟩
  decide +kernel

theorem put_details_one :
    ∃ rust go : Bytes,
      (putArtifactCtx policy (envAt 0) (text "one") {} {}).1.ledger =
          [] ++ [nextEntry [] "artifact.put" (artifactIdOf (text "one")) rust] ∧
        (Go.putArtifact policy (envAt 0) (text "one") {} {}).1.ledger =
          [] ++ [nextEntry [] "artifact.put" (artifactIdOf (text "one")) go] ∧
        (rust = go ↔ NoDefaults (text "one")) ∧
        ((putArtifactCtx policy (envAt 0) (text "one") {} {}).1.ledger =
          (Go.putArtifact policy (envAt 0) (text "one") {} {}).1.ledger ↔ NoDefaults (text "one")) :=
  @put_details_iff _ policy (envAt 0) (text "one") {} {} ⟨artifactIdOf (text "one")⟩ rfl
    (fun _ => nofun) (AList.notMem_empty _)

end Blank

end Substrate.Protocol.Details
