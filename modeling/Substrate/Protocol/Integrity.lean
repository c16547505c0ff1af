/- ID: Substrate/Protocol/Integrity
   digest: The store is sound and within its policy, and holds every artifact the kernel names. -/

import Substrate.Kernel.Concrete
import Substrate.Protocol.Content
import Substrate.Protocol.Single
import Substrate.Protocol.Typing

set_option autoImplicit false
set_option relaxedAutoImplicit false

namespace Substrate.Protocol.Integrity

open Substrate.Kernel.Wire
open Substrate.Kernel.Hashing
open Substrate.Kernel.Memory
open Substrate.Kernel.Registry
open Substrate.Kernel.Store
open Substrate.Kernel.Schedule
open Substrate.Kernel.Runs
open Substrate.Kernel.Work
open Substrate.Kernel.Api
open Substrate.Protocol.Atoms
open Substrate.Protocol.Slots
open Substrate.Protocol.Delivery (inputs_apply mem_admitInput readyUnit_eq_some)
open Substrate.Protocol.Refine
open Substrate.Protocol.Content (artifacts_apply reachable_storeSound)
open Substrate.Protocol.Single (currentUnit_resolves)
open Substrate.Protocol.Typing (artifact_persists validateOutput_ok)
open Substrate.Protocol.Validation (InputStored validateAssembly_ok)
open Substrate.Library.Checks
open Substrate.Library.FiniteMap

/-- Every artifact that the entries name is in the store. -/
def Stored (artifacts : KeyMap String Artifact) (entries : List NamedArtifact) : Prop :=
  ∀ entry ∈ entries, ∀ r, entry.artifact = some r → r.id ∈ artifacts

/-- Every artifact that a slot names is in the store. -/
structure SlotStored (artifacts : KeyMap String Artifact) (slot : RunSlot) : Prop where
  inputs : Stored artifacts slot.run.inputs
  answer : ∀ r, slot.run.answer = some r → r.id ∈ artifacts
  claims : ∀ id c, slot.claimed.lookup id = some c → Stored artifacts c.work.inputs
  latest : ∀ node d, slot.latest.lookup node = some d → Stored artifacts d.outputs

/-- Every artifact that a run or a derivation names is in the store. -/
structure Referenced (s : State) : Prop where
  slots : ∀ runId slot, s.runs.lookup runId = some slot → SlotStored s.artifacts slot
  derivations : ∀ d ∈ s.derivations, Stored s.artifacts d.inputs ∧ Stored s.artifacts d.outputs

variable {artifacts : KeyMap String Artifact}

theorem Stored.mono {more : KeyMap String Artifact} {entries : List NamedArtifact}
    (grown : ∀ id, id ∈ artifacts → id ∈ more) (stored : Stored artifacts entries) :
    Stored more entries :=
  fun entry member r carried => grown r.id (stored entry member r carried)

theorem SlotStored.mono {more : KeyMap String Artifact} {slot : RunSlot}
    (grown : ∀ id, id ∈ artifacts → id ∈ more) (stored : SlotStored artifacts slot) :
    SlotStored more slot :=
  ⟨stored.inputs.mono grown, fun r answered => grown r.id (stored.answer r answered),
    fun id c held => (stored.claims id c held).mono grown,
    fun node d latest => (stored.latest node d latest).mono grown⟩

theorem stored_of_inputs {inputs : List NamedArtifact}
    (checked : ∀ input ∈ inputs, InputStored artifacts input) : Stored artifacts inputs := by
  intro input member r carried
  obtain ⟨-, r', carried', present⟩ := checked input member
  rw [carried] at carried'
  obtain rfl := Option.some.inj carried'
  exact present

theorem stored_of_outputs {cap : Capability} {outputs : List NamedArtifact}
    (checked : validateOutputs artifacts cap outputs = .ok ()) : Stored artifacts outputs := by
  obtain ⟨⟨⟩, -, each⟩ := bind_eq_ok.mp checked
  intro output member r carried
  obtain ⟨_, r', artifact, -, carried', found, -⟩ :=
    validateOutput_ok (forM_eq_ok.mp each output member)
  rw [carried] at carried'
  obtain rfl := Option.some.inj carried'
  exact mem_of_lookup found

theorem stored_of_delivered {slot : RunSlot} {b : Binding} {r : ArtifactRef}
    (stored : SlotStored artifacts slot) (delivered : resolveBinding slot b = some r) :
    r.id ∈ artifacts := by
  unfold resolveBinding at delivered
  split_ifs at delivered with external
  · obtain ⟨input, found, given⟩ := Option.bind_eq_some_iff.mp delivered
    exact stored.inputs input (List.mem_of_find?_eq_some found) _ given
  · obtain ⟨output, found, given⟩ := Option.bind_eq_some_iff.mp delivered
    obtain ⟨d, latest, found⟩ := Option.bind_eq_some_iff.mp found
    exact stored.latest _ d latest output (List.mem_of_find?_eq_some found) _ given

/-- What a slot resolves for a node, it holds as an input or a delivery. -/
theorem stored_of_resolved {slot : RunSlot} {node : AssemblyNode} {inputs : List NamedArtifact}
    (stored : SlotStored artifacts slot) (resolved : resolveInputs slot node = some inputs) :
    Stored artifacts inputs := by
  intro entry member r carried
  obtain ⟨b, -, made⟩ := (mapM_mem resolved).2 entry member
  obtain ⟨r', delivered, rfl⟩ := Option.map_eq_some_iff.mp made
  obtain rfl := Option.some.inj carried
  exact stored_of_delivered stored delivered

theorem stored_of_answer {assembly : Assembly} {d : Derivation} {r : ArtifactRef}
    (stored : Stored artifacts d.outputs) (answered : terminalAnswer assembly d = some r) :
    r.id ∈ artifacts := by
  obtain ⟨terminal, -, found⟩ := Option.bind_eq_some_iff.mp answered
  obtain ⟨output, listed, given⟩ := Option.bind_eq_some_iff.mp found
  exact stored output (List.mem_of_find?_eq_some listed) r given

section Acts

variable [Sha256]

theorem answer_apply {modules : List ModuleSlot} {slot : RunSlot} {a : SlotAct} {r : ArtifactRef}
    (answered : (a.apply modules slot).run.answer = some r) :
    slot.run.answer = some r ∨ ∃ c outputs, a = .commit c outputs ∧
      terminalAnswer slot.run.assembly (derivationOf c.work outputs) = some r := by
  by_cases commits : ∃ c outputs, a = .commit c outputs
  · obtain ⟨c, outputs, rfl⟩ := commits
    rw [(commit_run modules slot c outputs).1] at answered
    rcases Option.or_eq_some_iff.mp answered with here | ⟨-, old⟩
    · exact .inr ⟨c, outputs, rfl, here⟩
    · exact .inl old
  · push Not at commits
    rw [(apply_books modules slot commits).answer] at answered
    exact .inl answered

theorem slotStored_apply {modules : List ModuleSlot} {runId : String} {slot : RunSlot} {a : SlotAct}
    (guard : a.enabled modules artifacts runId slot) (stored : SlotStored artifacts slot) :
    SlotStored artifacts (a.apply modules slot) := by
  refine ⟨?_, ?_, ?_, ?_⟩
  · by_cases injects : ∃ input, a = .inject input
    · obtain ⟨input, rfl⟩ := injects
      obtain ⟨⟨r, carried, present⟩, -⟩ := guard
      intro entry member r' carried'
      rcases mem_admitInput member with rfl | old
      · rw [carried] at carried'
        obtain rfl := Option.some.inj carried'
        exact present
      · exact stored.inputs entry old r' carried'
    · push Not at injects
      rw [inputs_apply injects]
      exact stored.inputs
  · intro r answered
    rcases answer_apply answered with old | ⟨c, outputs, rfl, here⟩
    · exact stored.answer r old
    · obtain ⟨-, -, cap, -, checked⟩ := guard
      exact stored_of_answer (d := derivationOf c.work outputs) (stored_of_outputs checked) here
  · intro id c held
    rcases claimed_apply held with old | ⟨work, rfl, -, rfl⟩ | ⟨leaseUntil, old, -, there, rfl⟩
    · exact stored.claims id c old
    · obtain ⟨-, env, node, -, inputs, unitKey, ready, rfl⟩ := guard
      exact stored_of_resolved stored (currentUnit_resolves (readyUnit_eq_some.mp ready).1)
    · exact stored.claims id old there
  · intro node d latest
    rcases latest_origin latest with old | ⟨c, outputs, rfl, -, rfl⟩
    · exact stored.latest node d old
    · obtain ⟨-, -, cap, -, checked⟩ := guard
      exact stored_of_outputs checked

variable [Prost]

theorem referenced_apply {s : State} {a : Atom} (guard : a.enabled s) (before : Referenced s) :
    Referenced (a.apply s) := by
  have grown : ∀ id, id ∈ s.artifacts → id ∈ (a.apply s).artifacts := by
    intro id known
    obtain ⟨artifact, found⟩ := lookup_of_mem known
    exact mem_of_lookup (artifact_persists guard found)
  refine ⟨?_, ?_⟩
  · refine slots_apply (I := fun s _ slot => SlotStored s.artifacts slot) guard
      (fun _ _ stored => stored.mono grown) ?_ ?_ before.slots
    · rintro slot - ⟨env, req, assembly, maxSteps, rfl, -, ok⟩
      refine ⟨stored_of_inputs (validateAssembly_ok ok).stored, ?_, ?_, ?_⟩
      · intro r answered
        cases answered
      · intro id c held
        simp [freshSlot] at held
      · intro node d latest
        simp [freshSlot] at latest
    · intro runId slot act _ _ _ possible stored
      exact slotStored_apply possible stored
  · intro d member
    rw [derivations_apply guard] at member
    rcases List.mem_append.mp member with old | new
    · exact (before.derivations d old).imp (.mono grown) (.mono grown)
    · cases a with
      | acted runId act =>
          cases act with
          | commit c outputs =>
              obtain rfl := List.mem_singleton.mp new
              obtain ⟨slot, found, -, held, -, cap, -, checked⟩ := guard
              exact ⟨((before.slots runId slot found).claims _ c held).mono grown,
                (stored_of_outputs checked).mono grown⟩
          | _ => cases new
      | _ => cases new

theorem reachable_referenced {policy : ArtifactStorePolicy} {s : State}
    (reached : Reachable policy s) : Referenced s := by
  refine reachable_invariant ⟨?_, ?_⟩ (fun _ _ guard _ before => referenced_apply guard before) reached
  · intro runId slot found
    simp at found
  · intro d member
    cases member

omit [Sha256] [Prost] in
/-- A byte vector's length is a `usize`. -/
def Sized (bytes : Bytes) : Prop := bytes.length < 2 ^ 64

omit [Prost] in
/-- A blob is filed under its namespace and the digest of its bytes, and fits the policy. -/
structure BlobSound (policy : ArtifactStorePolicy) (space digest : String) (slot : BlobSlot) :
    Prop where
  ref : slot.ref =
    { digest, byteCount := UInt64.ofNat slot.data.length, space }
  hashed : blobId slot.data = digest
  fits : policy.maxBlobBytes ≠ 0 → Sized slot.data → slot.data.length ≤ policy.maxBlobBytes.toNat

omit [Prost] in
/-- A blob with the namespace, digest and size of a ref, which the store gives back intact. -/
def Backed (s : State) (object : ObjectRef) : Prop :=
  ∃ slot data, s.blobs.lookup (object.space, object.digest) = some slot ∧
    slot.ref = { digest := object.digest, byteCount := object.byteCount, space := object.space } ∧
    getBlob { space := object.space, digest := object.digest } s = .ok data ∧
    blobId data.data = object.digest

omit [Prost] in
/-- A trait holds one value, which fits the policy when it is inline and is backed otherwise. -/
structure TraitSound (policy : ArtifactStorePolicy) (s : State) (tr : Trait) : Prop where
  single : ¬ (tr.body ≠ [] ∧ ∃ object, tr.object = some object ∧ object.digest ≠ "")
  fits : Sized tr.body → tr.body.length ≤ policy.maxInlineBytes.toNat
  backed : ∀ object, tr.object = some object → object.digest ≠ "" → Backed s object

omit [Prost] in
/-- Blobs and traits are sound. -/
structure StoreWithin (policy : ArtifactStorePolicy) (s : State) : Prop where
  blobs : ∀ space digest slot, s.blobs.lookup (space, digest) = some slot →
    BlobSound policy space digest slot
  traits : ∀ id a, s.artifacts.lookup id = some a → ∀ e ∈ a.traits.entries, TraitSound policy s e.2

omit [Sha256] [Prost] in
private theorem le_of_not_lt_ofNat {len : Nat} {bound : UInt64} (sized : len < 2 ^ 64)
    (within : ¬ bound < UInt64.ofNat len) : len ≤ bound.toNat := by
  rw [UInt64.lt_iff_toNat_lt, UInt64.toNat_ofNat_of_lt' sized] at within
  exact not_lt.mp within

omit [Sha256] [Prost] in
theorem enforceBlobSize_ok {policy : ArtifactStorePolicy} {data : Bytes}
    (ok : enforceBlobSize policy data.length = .ok ()) (limited : policy.maxBlobBytes ≠ 0)
    (sized : Sized data) : data.length ≤ policy.maxBlobBytes.toNat := by
  unfold enforceBlobSize at ok
  split_ifs at ok with exceeds
  refine le_of_not_lt_ofNat sized fun more => exceeds ⟨?_, more⟩
  exact UInt64.pos_iff_ne_zero.mpr limited

omit [Sha256] [Prost] in
theorem validateTrait_ok {policy : ArtifactStorePolicy} {contract : String} {tr : Trait}
    (ok : validateTrait policy contract tr = .ok ()) :
    ¬ (traitHasExternal tr ∧ tr.body ≠ []) ∧
      (Sized tr.body → tr.body.length ≤ policy.maxInlineBytes.toNat) := by
  unfold validateTrait at ok
  simp only at ok
  split_ifs at ok with nameless both large
  refine ⟨both, fun sized => ?_⟩
  by_cases empty : tr.body = []
  · rw [empty]
    exact Nat.zero_le _
  · exact le_of_not_lt_ofNat sized fun more => large ⟨empty, more⟩

omit [Sha256] [Prost] in
theorem traitExternal_eq_some {tr : Trait} {object : ObjectRef} :
    traitExternal tr = some object ↔ tr.object = some object ∧ object.digest ≠ "" := by
  simp [traitExternal, Option.filter_eq_some_iff]

omit [Prost] in
theorem backed_of_verified {policy : ArtifactStorePolicy} {s : State} (sound : StoreWithin policy s)
    {object : ObjectRef} (ok : verifyObjectRefLocked s object = .ok ()) : Backed s object := by
  unfold verifyObjectRefLocked at ok
  split at ok
  · cases ok
  · rename_i slot found
    obtain ⟨ref, hashed, -⟩ := sound.blobs _ _ slot found
    split_ifs at ok with counted corrupt
    have count : UInt64.ofNat slot.data.length = object.byteCount := by
      rw [ref] at counted
      exact not_not.mp counted
    rw [count] at ref
    refine ⟨slot,
      { digest := slot.ref.digest, byteCount := slot.ref.byteCount, space := slot.ref.space
        data := slot.data }, found, ref, ?_, hashed⟩
    rw [getBlob, found]
    refine if_neg fun corrupted => ?_
    rw [ref] at corrupted
    exact corrupted.elim (absurd hashed) (absurd count)

omit [Prost] in
theorem Backed.mono {s t : State} {object : ObjectRef}
    (grown : ∀ key slot, s.blobs.lookup key = some slot → t.blobs.lookup key = some slot)
    (backed : Backed s object) : Backed t object := by
  obtain ⟨slot, data, found, ref, got, hashed⟩ := backed
  refine ⟨slot, data, grown _ slot found, ref, ?_, hashed⟩
  unfold getBlob at got ⊢
  rw [found] at got
  rw [grown _ slot found]
  exact got

theorem putArtifact_store (policy : ArtifactStorePolicy) (env : Env) (a : Artifact)
    (ctx : RequestContext) (s : State) :
    (putArtifactCtx policy env a ctx s).1.blobs = s.blobs ∧
      ((putArtifactCtx policy env a ctx s).1.artifacts = s.artifacts ∨
        (validateArtifactContent a policy = .ok () ∧
          (∀ e ∈ a.traits.entries, ∀ object, traitExternal e.2 = some object →
            verifyObjectRefLocked s object = .ok ()) ∧
          (putArtifactCtx policy env a ctx s).1.artifacts =
            s.artifacts.insert (artifactIdOf a) { a with id := artifactIdOf a })) := by
  unfold putArtifactCtx
  cases checkDeadline env ctx with
  | error e => exact ⟨rfl, .inl rfl⟩
  | ok u =>
      cases valid : validateArtifactContent a policy with
      | error e => exact ⟨rfl, .inl rfl⟩
      | ok u =>
          simp only [orReturn]
          split
          · exact ⟨rfl, .inl rfl⟩
          · split
            · rename_i checked
              simp only [idempotentPut_artifacts, idempotentPut_blobs]
              split_ifs
              · exact ⟨rfl, .inl rfl⟩
              · refine ⟨rfl, .inr ⟨trivial, ?_, rfl⟩⟩
                intro e member object external
                have each := forM_eq_ok.mp checked e member
                simpa only [external] using each
            · exact ⟨rfl, .inl rfl⟩

theorem putBlob_store (policy : ArtifactStorePolicy) (req : PutBlobRequest) (s : State) :
    (putBlob policy req s).1.artifacts = s.artifacts ∧
      ((putBlob policy req s).1.blobs = s.blobs ∨ ∃ slot,
        BlobSound policy req.space (blobId req.data) slot ∧ (req.space, blobId req.data) ∉ s.blobs ∧
        (putBlob policy req s).1.blobs = s.blobs.insert (req.space, blobId req.data) slot) := by
  unfold putBlob
  cases sized : enforceBlobSize policy req.data.length with
  | error e => exact ⟨rfl, .inl rfl⟩
  | ok u =>
      simp only [orReturn]
      split_ifs with mode known
      · exact ⟨rfl, .inl rfl⟩
      · exact ⟨rfl, .inl rfl⟩
      · let slot : BlobSlot :=
          { data := req.data
            ref := ⟨blobId req.data, UInt64.ofNat req.data.length, req.space⟩ }
        have sound : BlobSound policy req.space (blobId req.data) slot :=
          ⟨rfl, rfl, enforceBlobSize_ok sized⟩
        exact ⟨rfl, .inr ⟨slot, sound, known, rfl⟩⟩

theorem blobs_apply (s : State) (a : Atom) :
    (a.apply s).blobs = s.blobs ∨ ∃ slot, a = .blobStored slot := by
  cases a with
  | blobStored slot => exact .inr ⟨slot, rfl⟩
  | acted runId act =>
      refine .inl ?_
      simp only [Atom.apply]
      split
      · rw [recordAll_eq]
      · rfl
  | _ => exact .inl rfl

omit [Prost] in
theorem allowed_stored {s : State} {call : Call} {a : Atom} (allowed : Allowed s call a) :
    (∀ b, a = .artifactStored b → ∃ artifact, call.op = .putArtifact artifact) ∧
      ∀ slot, a = .blobStored slot → ∃ req, call.op = .putBlob req := by
  obtain ⟨op, ctx, env⟩ := call
  refine ⟨?_, ?_⟩
  · rintro b rfl
    cases op with
    | putArtifact artifact => exact ⟨artifact, rfl⟩
    | _ => exact absurd allowed (by simp [Allowed])
  · rintro slot rfl
    cases op with
    | putBlob req => exact ⟨req, rfl⟩
    | _ => exact absurd allowed (by simp [Allowed])

theorem store_step (policy : ArtifactStorePolicy) {s : State} (wf : WellFormed s) {call : Call}
    (noArtifact : ∀ artifact, call.op ≠ .putArtifact artifact)
    (noBlob : ∀ req, call.op ≠ .putBlob req) :
    (step policy s call).1.artifacts = s.artifacts ∧ (step policy s call).1.blobs = s.blobs := by
  obtain ⟨atoms, path, allowed, -⟩ := step_explained policy wf call
  refine path.invariant (Allowed s call)
    (P := fun t => t.artifacts = s.artifacts ∧ t.blobs = s.blobs) ?_ allowed ⟨rfl, rfl⟩
  rintro t a ok - ⟨artifacts, blobs⟩
  obtain ⟨putsArtifact, putsBlob⟩ := allowed_stored ok
  refine ⟨?_, ?_⟩
  · rcases artifacts_apply t a with same | ⟨b, rfl, -⟩
    · exact same.trans artifacts
    · obtain ⟨artifact, op⟩ := putsArtifact b rfl
      exact absurd op (noArtifact artifact)
  · rcases blobs_apply t a with same | ⟨slot, rfl⟩
    · exact same.trans blobs
    · obtain ⟨req, op⟩ := putsBlob slot rfl
      exact absurd op (noBlob req)

omit [Prost] in
theorem TraitSound.mono {policy : ArtifactStorePolicy} {s t : State} {tr : Trait}
    (grown : ∀ key slot, s.blobs.lookup key = some slot → t.blobs.lookup key = some slot)
    (sound : TraitSound policy s tr) : TraitSound policy t tr :=
  ⟨sound.single, sound.fits, fun object set digest => (sound.backed object set digest).mono grown⟩

omit [Prost] in
theorem StoreWithin.congr {policy : ArtifactStorePolicy} {s t : State}
    (artifacts : t.artifacts = s.artifacts) (blobs : t.blobs = s.blobs)
    (within : StoreWithin policy s) : StoreWithin policy t := by
  refine ⟨?_, ?_⟩
  · rw [blobs]
    exact within.blobs
  · intro id a found e member
    rw [artifacts] at found
    exact (within.traits id a found e member).mono fun key slot there => by rw [blobs, there]

omit [Prost] in
theorem traitSound_of_checked {policy : ArtifactStorePolicy} {s : State} {a : Artifact}
    (within : StoreWithin policy s) (valid : validateArtifactContent a policy = .ok ())
    (verified : ∀ e ∈ a.traits.entries, ∀ object, traitExternal e.2 = some object →
      verifyObjectRefLocked s object = .ok ()) :
    ∀ e ∈ a.traits.entries, TraitSound policy s e.2 := by
  intro e member
  unfold validateArtifactContent at valid
  split_ifs at valid
  obtain ⟨single, fits⟩ := validateTrait_ok (forM_eq_ok.mp valid e member)
  refine ⟨?_, fits, ?_⟩
  · rintro ⟨body, object, set, digest⟩
    refine single ⟨?_, body⟩
    rw [traitHasExternal, traitExternal_eq_some.mpr ⟨set, digest⟩]
    rfl
  · intro object set digest
    exact backed_of_verified within
      (verified e member object (traitExternal_eq_some.mpr ⟨set, digest⟩))

theorem storeWithin_step (policy : ArtifactStorePolicy) {s : State} (wf : WellFormed s)
    (within : StoreWithin policy s) (call : Call) : StoreWithin policy (step policy s call).1 := by
  by_cases putsArtifact : ∃ artifact, call.op = .putArtifact artifact
  · obtain ⟨op, ctx, env⟩ := call
    obtain ⟨artifact, rfl⟩ := putsArtifact
    obtain ⟨blobs, same | ⟨valid, verified, stored⟩⟩ := putArtifact_store policy env artifact ctx s
    · exact within.congr same blobs
    · refine ⟨fun space digest slot found => within.blobs space digest slot ?_, ?_⟩
      · rw [← blobs]
        exact found
      intro id a found e member
      refine TraitSound.mono (s := s) (fun key slot there => blobs ▸ there) ?_
      change (putArtifactCtx policy env artifact ctx s).1.artifacts.lookup id = some a at found
      rw [stored, lookup_insert_of] at found
      split_ifs at found
      · obtain rfl := Option.some.inj found
        exact traitSound_of_checked within valid verified e member
      · exact within.traits id a found e member
  by_cases putsBlob : ∃ req, call.op = .putBlob req
  · obtain ⟨op, ctx, env⟩ := call
    obtain ⟨req, rfl⟩ := putsBlob
    obtain ⟨artifacts, same | ⟨fresh, sound, absent, stored⟩⟩ := putBlob_store policy req s
    · exact within.congr artifacts same
    · refine ⟨?_, ?_⟩
      · intro space digest slot found
        change (putBlob policy req s).1.blobs.lookup (space, digest) = some slot at found
        rw [stored, lookup_insert_of] at found
        split_ifs at found with here
        · obtain rfl := Option.some.inj found
          obtain ⟨rfl, rfl⟩ := Prod.mk.inj here
          exact sound
        · exact within.blobs space digest slot found
      · intro id a found e member
        change (putBlob policy req s).1.artifacts.lookup id = some a at found
        rw [artifacts] at found
        refine (within.traits id a found e member).mono fun key slot there => ?_
        change (putBlob policy req s).1.blobs.lookup key = some slot
        rw [stored, lookup_insert_of, if_neg, there]
        rintro rfl
        exact absent (mem_of_lookup there)
  · push Not at putsArtifact putsBlob
    obtain ⟨artifacts, blobs⟩ := store_step policy wf putsArtifact putsBlob
    exact within.congr artifacts blobs

theorem reachable_storeWithin {policy : ArtifactStorePolicy} {s : State}
    (reached : Reachable policy s) : StoreWithin policy s := by
  have both : WellFormed s ∧ StoreWithin policy s := by
    refine reachable_induction (P := fun s => WellFormed s ∧ StoreWithin policy s)
      ⟨?_, ?_, ?_⟩ ?_ reached
    · intro runId slot found
      simp at found
    · intro space digest slot found
      simp at found
    · intro id a found
      simp at found
    · rintro state call ⟨wf, within⟩
      exact ⟨wellFormed_step policy wf call, storeWithin_step policy wf within call⟩
  exact both.2

/-- In every state of a kernel under a normalised policy, artifacts are stored under their own ids,
every artifact that a run, a claim or a derivation names is stored, every external trait is backed
by an intact blob, no trait holds two values, and bodies and blobs fit the policy. -/
theorem store_integrity (policy : ArtifactStorePolicy) (calls : List Call) :
    let s := exec (normalizeStorePolicy policy) {} calls
    (∀ id a, s.artifacts.lookup id = some a → id = artifactIdOf a) ∧ Referenced s ∧
      StoreWithin (normalizeStorePolicy policy) s := by
  have reached : Reachable (normalizeStorePolicy policy)
    (exec (normalizeStorePolicy policy) {} calls) := ⟨calls, rfl⟩
  exact ⟨fun id a found => (reachable_storeSound reached id a found).1, reachable_referenced reached,
    reachable_storeWithin reached⟩

end Acts

end Substrate.Protocol.Integrity
