/- ID: Substrate/Protocol/Content
   digest: When the id of an artifact fixes its bag of traits, and what the store returns otherwise. -/

import Substrate.Kernel.Concrete
import Substrate.Library.Checks
import Substrate.Protocol.Refine

set_option autoImplicit false
set_option relaxedAutoImplicit false

namespace Substrate.Protocol.Content

open Substrate.Kernel.Wire
open Substrate.Kernel.Hashing
open Substrate.Kernel.Memory
open Substrate.Kernel.Store
open Substrate.Kernel.Api
open Substrate.Protocol.Atoms
open Substrate.Protocol.Slots
open Substrate.Protocol.Refine
open Substrate.Protocol.Identity
open Substrate.Library.Checks (forM_eq_ok)
open Substrate.Library.FiniteMap
open Substrate.Library.Framing

/-- The value of a trait: bytes inline, or a reference to a blob. -/
inductive TraitValue
  | inline (body : Bytes)
  | external (object : ObjectRef)
  deriving DecidableEq

def valueOf (tr : Trait) : TraitValue :=
  match traitExternal tr with
  | some object => .external object
  | none => .inline tr.body

/-- An artifact's trait bag: contract refs with their values, in ascending order. -/
def bagOf (a : Artifact) : List (String × TraitValue) :=
  a.traits.entries.map fun e => (e.1, valueOf e.2)

/-- The bytes a value contributes to the id. -/
def TraitValue.content : TraitValue → Bytes
  | .inline body => body
  | .external object => objectRefBytes object

/-- What the encoding does not record about a value. -/
def TraitValue.isExternal : TraitValue → Bool
  | .inline _ => false
  | .external _ => true

theorem content_valueOf (tr : Trait) : (valueOf tr).content = traitContent tr := by
  unfold valueOf traitContent
  cases traitExternal tr <;> rfl

/-- The byte fields that the canonical encoding joins. -/
def fieldsOf (bag : List (String × TraitValue)) : List Bytes :=
  bag.flatMap fun e => [asBytes e.1, e.2.content]

theorem canonicalBytes_eq (a : Artifact) :
    artifactCanonicalBytes a = frame sep (fieldsOf (bagOf a)) := by
  simp only [artifactCanonicalBytes, fieldsOf, bagOf, frame, List.flatMap_map, List.flatMap_assoc]
  refine List.flatMap_congr fun e _ => ?_
  simp [content_valueOf]

/-- Two artifacts whose encodings cut at every separator give the same pieces. -/
def SamePieces (a b : Artifact) : Prop :=
  pieces sep (fieldsOf (bagOf a)) = pieces sep (fieldsOf (bagOf b))

/-- The separators inside each ref and value, and which values are external. -/
def shapeOf (a : Artifact) : List (Nat × Bool × Nat) :=
  (bagOf a).map fun e => ((asBytes e.1).count sep, e.2.isExternal, e.2.content.count sep)

/-- Two artifacts whose traits hold separators in equal numbers and are external alike. -/
def SameShape (a b : Artifact) : Prop := shapeOf a = shapeOf b

theorem canonicalBytes_eq_iff (a b : Artifact) :
    artifactCanonicalBytes a = artifactCanonicalBytes b ↔ SamePieces a b := by
  rw [canonicalBytes_eq, canonicalBytes_eq]
  exact frame_eq_iff_pieces_eq sep _ _

/-- The digest of an external value has the length `put_artifact` checks. -/
def Accepted (v : TraitValue) : Prop :=
  ∀ object, v = .external object → (asBytes object.digest).length = 71

private theorem objectRefBytes_inj {o p : ObjectRef} (ho : (asBytes o.digest).length = 71)
    (hp : (asBytes p.digest).length = 71) (same : objectRefBytes o = objectRefBytes p) : o = p := by
  unfold objectRefBytes at same
  obtain ⟨digest, rest⟩ := List.append_inj same (by rw [ho, hp])
  obtain ⟨size, space⟩ := List.append_inj (List.cons.inj rest).2 (by simp [toBeBytes])
  have count := toBeBytes_inj size
  cases o
  cases p
  simp only at digest count space
  rw [asBytes_inj digest, count, asBytes_inj (List.cons.inj space).2]

theorem content_inj {v w : TraitValue} (hv : Accepted v) (hw : Accepted w)
    (kind : v.isExternal = w.isExternal) (same : v.content = w.content) : v = w := by
  cases v with
  | inline x =>
      cases w with
      | inline y => exact congrArg _ same
      | external p => cases kind
  | external o =>
      cases w with
      | inline y => cases kind
      | external p => exact congrArg _ (objectRefBytes_inj (hv o rfl) (hw p rfl) same)

theorem bag_eq_of_shape {xs ys : List (String × TraitValue)} (hx : ∀ e ∈ xs, Accepted e.2)
    (hy : ∀ e ∈ ys, Accepted e.2)
    (shape : xs.map (fun e => ((asBytes e.1).count sep, e.2.isExternal, e.2.content.count sep)) =
      ys.map fun e => ((asBytes e.1).count sep, e.2.isExternal, e.2.content.count sep))
    (same : frame sep (fieldsOf xs) = frame sep (fieldsOf ys)) : xs = ys := by
  induction xs generalizing ys with
  | nil =>
      cases ys with
      | nil => rfl
      | cons y ys => simp at shape
  | cons x xs ih =>
      cases ys with
      | nil => simp at shape
      | cons y ys =>
          simp only [List.map_cons, List.cons.injEq, Prod.mk.injEq] at shape
          obtain ⟨⟨refCount, kind, valueCount⟩, shapes⟩ := shape
          simp only [fieldsOf, List.flatMap_cons, List.cons_append, List.nil_append,
            frame_cons] at same
          obtain ⟨refs, rest⟩ := field_inj_of_count same refCount
          obtain ⟨contents, rest⟩ := field_inj_of_count rest valueCount
          have values : x.2 = y.2 := content_inj (hx x List.mem_cons_self) (hy y List.mem_cons_self)
            kind contents
          rw [Prod.ext (asBytes_inj refs) values,
            ih (fun e h => hx e (List.mem_cons_of_mem _ h))
              (fun e h => hy e (List.mem_cons_of_mem _ h)) shapes rest]

theorem accepted_of_valid {a : Artifact} {policy : ArtifactStorePolicy}
    (valid : validateArtifactContent a policy = .ok ()) : ∀ e ∈ bagOf a, Accepted e.2 := by
  intro e member object made
  obtain ⟨⟨ref, tr⟩, here, rfl⟩ := List.mem_map.mp member
  have external : traitExternal tr = some object := by
    simp only [valueOf] at made
    cases found : traitExternal tr with
    | none => simp [found] at made
    | some o => simpa [found] using made
  obtain ⟨there, -⟩ := Option.filter_eq_some_iff.mp external
  unfold validateArtifactContent at valid
  split_ifs at valid
  have checked := forM_eq_ok.mp valid _ here
  have hasObj : traitHasExternal tr = true := by simp [traitHasExternal, external]
  simp only [validateTrait, hasObj, there, true_and] at checked
  split_ifs at checked with _ _ _ _ spelled
  simp only [isSha256Digest, Bool.and_eq_true, beq_iff_eq] at spelled
  exact spelled.1.1

section Store

variable [Sha256] [Prost]

/-- Artifacts are stored under their own id and passed the checks on the way in. -/
def StoreSound (s : State) : Prop :=
  ∀ id b, s.artifacts.lookup id = some b →
    id = artifactIdOf b ∧ ∃ policy, validateArtifactContent b policy = .ok ()

theorem artifacts_apply (s : State) (a : Atom) :
    (a.apply s).artifacts = s.artifacts ∨
      ∃ b, a = .artifactStored b ∧ (a.apply s).artifacts = s.artifacts.insert b.id b := by
  cases a with
  | artifactStored b => exact .inr ⟨b, rfl, rfl⟩
  | acted runId act =>
      refine .inl ?_
      simp only [Atom.apply]
      split
      · rw [recordAll_artifacts]
      · rfl
  | _ => exact .inl rfl

theorem storeSound_apply {s : State} {a : Atom} (guard : a.enabled s) (sound : StoreSound s) :
    StoreSound (a.apply s) := by
  rcases artifacts_apply s a with same | ⟨b, rfl, stored⟩
  · intro id b found
    rw [same] at found
    exact sound id b found
  · intro id c found
    rw [stored, lookup_insert_of] at found
    split_ifs at found with here
    · obtain rfl := Option.some.inj found
      exact ⟨here.trans guard.1, guard.2.2⟩
    · exact sound id c found

theorem reachable_storeSound {policy : ArtifactStorePolicy} {s : State}
    (reached : Reachable policy s) : StoreSound s := by
  refine reachable_invariant ?_ (fun _ _ guard _ sound => storeSound_apply guard sound) reached
  intro id b found
  simp at found

/-- What a put that is answered without a request key did to the store. -/
theorem putArtifact_ok {policy : ArtifactStorePolicy} {env : Env} {a : Artifact}
    {ctx : RequestContext} {s after : State} {ref : ArtifactRef} (keyless : ctx.requestKey = "")
    (put : putArtifactCtx policy env a ctx s = (after, .ok ref)) :
    ref.id = artifactIdOf a ∧ validateArtifactContent a policy = .ok () ∧
      after.artifacts = if artifactIdOf a ∈ s.artifacts then s.artifacts
        else s.artifacts.insert (artifactIdOf a) { a with id := artifactIdOf a } := by
  have noKey : idempotencyKey "put_artifact" ctx = none := if_pos keyless
  simp only [putArtifactCtx, orReturn, idempotentGet, idempotentPut, noKey, Option.bind_none]
    at put
  cases late : checkDeadline env ctx with
  | error e => simp [late] at put
  | ok u =>
      cases valid : validateArtifactContent a policy with
      | error e => simp [late, valid] at put
      | ok u =>
          simp only [late, valid] at put
          split at put
          · obtain ⟨stored, answered⟩ := Prod.mk.inj put
            refine ⟨congrArg ArtifactRef.id (Except.ok.inj answered).symm, rfl, ?_⟩
            rw [← stored]
            split_ifs
            · rfl
            · rfl
          · simp at put

/-- The encodings that an answered put may confuse: the new artifact's and the stored ones'. -/
def encodings (s : State) (a : Artifact) : Set Bytes :=
  {bytes | bytes = artifactCanonicalBytes a ∨
    ∃ id b, s.artifacts.lookup id = some b ∧ bytes = artifactCanonicalBytes b}

/-- A put returns the id of what was put, and getting that id returns the same bag exactly when no
stored artifact is cut into the same pieces in another shape. -/
theorem put_get_bag {policy : ArtifactStorePolicy} {env : Env} {a : Artifact}
    {ctx : RequestContext} {s after : State} {ref : ArtifactRef} (reached : Reachable policy s)
    (keyless : ctx.requestKey = "") (put : putArtifactCtx policy env a ctx s = (after, .ok ref))
    (free : Set.InjOn Sha256.digest (encodings s a)) :
    (∃ b, getArtifact ref after = .ok b ∧ bagOf b = bagOf a) ↔
      ∀ id b, s.artifacts.lookup id = some b → SamePieces a b → SameShape a b := by
  have sound := reachable_storeSound reached
  obtain ⟨named, valid, stored⟩ := putArtifact_ok keyless put
  have get : ∀ b, getArtifact ref after = .ok b ↔
      after.artifacts.lookup (artifactIdOf a) = some b := by
    intro b
    unfold getArtifact
    rw [named]
    cases after.artifacts.lookup (artifactIdOf a) <;> simp
  have idOf : ∀ id b, s.artifacts.lookup id = some b →
      (artifactIdOf a = id ↔ SamePieces a b) := by
    intro id b found
    rw [(sound id b found).1, ← canonicalBytes_eq_iff]
    constructor
    · intro same
      exact free (.inl rfl) (.inr ⟨id, b, found, rfl⟩)
        (sha256Hex_inj ((String.append_right_inj "sha256:").mp same))
    · intro same
      rw [artifactIdOf, artifactIdOf, same]
  by_cases known : artifactIdOf a ∈ s.artifacts
  · obtain ⟨b, found⟩ := lookup_of_mem known
    rw [if_pos known] at stored
    have pieces := (idOf _ b found).mp rfl
    constructor
    · rintro ⟨c, there, bag⟩ id d found' pieces'
      rw [get, stored, found] at there
      obtain rfl := Option.some.inj there
      have here := (idOf id d found').mpr pieces'
      rw [← here, found] at found'
      obtain rfl := Option.some.inj found'
      unfold SameShape shapeOf
      rw [bag]
    · intro shapes
      refine ⟨b, (get b).mpr (by rw [stored, found]), ?_⟩
      obtain ⟨-, policy', valid'⟩ := sound _ b found
      have same := (canonicalBytes_eq_iff a b).mpr pieces
      rw [canonicalBytes_eq, canonicalBytes_eq] at same
      exact (bag_eq_of_shape (accepted_of_valid valid) (accepted_of_valid valid')
        (shapes _ b found pieces) same).symm
  · rw [if_neg known] at stored
    constructor
    · rintro - id b found pieces
      rw [← (idOf id b found).mpr pieces] at found
      exact absurd (mem_of_lookup found) known
    · intro _
      refine ⟨{ a with id := artifactIdOf a }, (get _).mpr ?_, rfl⟩
      rw [stored, lookup_insert_of, if_pos rfl]

end Store

section Mixed

open Substrate.Kernel.Concrete

/-- One trait whose body spells out another. -/
def forged : Artifact := { traits := .singleton "a" { body := asBytes "x\x00b\x00y" } }

def genuine : Artifact :=
  { traits := ⟨[("a", { body := asBytes "x" }), ("b", { body := asBytes "y" })], by decide⟩ }

/-- Where the forged artifact came first, putting the genuine one returns a ref to the forged. -/
theorem put_get_bag_mixed :
    artifactCanonicalBytes forged = artifactCanonicalBytes genuine ∧
      let before := exec policy {} [callAt 0 (.putArtifact forged)]
      let put := putArtifactCtx policy (envAt 0) genuine {} before
      put.2 = .ok ⟨artifactIdOf genuine⟩ ∧
        (getArtifact ⟨artifactIdOf genuine⟩ put.1).toOption.map bagOf = some (bagOf forged) ∧
        bagOf forged ≠ bagOf genuine := by
  decide +kernel

private theorem text_stored {id : String} {b : Artifact}
    (found : (exec policy {} [callAt 0 (.putArtifact (text "one"))]).artifacts.lookup id = some b) :
    artifactCanonicalBytes b = artifactCanonicalBytes (text "one") := by
  have all : ∀ e ∈ (exec policy {} [callAt 0 (.putArtifact (text "one"))]).artifacts.entries,
      artifactCanonicalBytes e.2 = artifactCanonicalBytes (text "one") := by decide +kernel
  exact all ⟨id, b⟩ (AList.mem_lookup_iff.mp found)

/-- Beside another artifact, the genuine one is got as it was put. -/
theorem put_get_bag_text :
    let before := exec policy {} [callAt 0 (.putArtifact (text "one"))]
    let put := putArtifactCtx policy (envAt 0) genuine {} before
    ∃ b, getArtifact ⟨artifactIdOf genuine⟩ put.1 = .ok b ∧ bagOf b = bagOf genuine := by
  have apart : artifactCanonicalBytes genuine ≠ artifactCanonicalBytes (text "one") := by
    decide +kernel
  have hashed : Sha256.digest (artifactCanonicalBytes genuine) ≠
      Sha256.digest (artifactCanonicalBytes (text "one")) := by decide +kernel
  refine (put_get_bag ⟨[callAt 0 (.putArtifact (text "one"))], rfl⟩ rfl
    (Prod.ext rfl (by decide +kernel)) ?_).mpr ?_
  · rintro bytes (rfl | ⟨id, b, found, rfl⟩) bytes' (rfl | ⟨id', b', found', rfl⟩) same
    · rfl
    · rw [text_stored found'] at same
      exact absurd same hashed
    · rw [text_stored found] at same
      exact absurd same.symm hashed
    · rw [text_stored found, text_stored found']
  · intro id b found pieces
    exact absurd (((canonicalBytes_eq_iff genuine b).mpr pieces).trans (text_stored found)) apart

end Mixed

end Substrate.Protocol.Content
