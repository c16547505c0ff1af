/- ID: Substrate/Protocol/Contracts
   digest: What a contract ref holds over time, and when a put under it is judged by its content. -/

import Substrate.Kernel.Concrete
import Substrate.Protocol.Refine

set_option autoImplicit false
set_option relaxedAutoImplicit false

namespace Substrate.Protocol.Contracts

open Substrate.Kernel.Wire
open Substrate.Kernel.Hashing
open Substrate.Kernel.Memory
open Substrate.Kernel.Registry
open Substrate.Kernel.Api
open Substrate.Protocol.Atoms
open Substrate.Protocol.Slots
open Substrate.Protocol.Refine
open Substrate.Protocol.Identity
open Substrate.Library.FiniteMap
open Substrate.Library.Framing
open Substrate.Library.Transition

/-- What a contract says, whatever it is called: the refs it is compatible with in order. -/
def contentOf (c : Contract) : String × String × String × List String :=
  (c.mediaType, c.schema, c.version, sortStrings c.compatibleWith)

/-- The byte fields that the digest joins. -/
def contractFields (c : Contract) : List Bytes :=
  [asBytes c.mediaType, asBytes c.schema, asBytes c.version] ++
    (sortStrings c.compatibleWith).map asBytes

/-- Two contracts whose encodings cut at every separator give the same pieces. -/
def SamePieces (c d : Contract) : Prop :=
  pieces sep (contractFields c) = pieces sep (contractFields d)

/-- Two contracts whose fields, one by one, hold separators in equal numbers. -/
def SameCounts (c d : Contract) : Prop :=
  (contractFields c).map (List.count sep) = (contractFields d).map (List.count sep)

theorem contractFields_inj {c d : Contract} (same : contractFields c = contractFields d) :
    contentOf c = contentOf d := by
  simp only [contractFields, List.cons_append, List.nil_append, List.cons.injEq] at same
  obtain ⟨mediaType, schema, version, compatible⟩ := same
  have listed := List.map_injective_iff.mpr (fun _ _ => asBytes_inj) compatible
  rw [contentOf, contentOf, asBytes_inj mediaType, asBytes_inj schema, asBytes_inj version, listed]

theorem content_placeholder {c : Contract} (empty : isContractPlaceholder c = true) :
    contentOf c = ("", "", "", []) := by
  simp only [isContractPlaceholder, Bool.and_eq_true, beq_iff_eq] at empty
  obtain ⟨⟨⟨mediaType, schema⟩, version⟩, compatible⟩ := empty
  rw [contentOf, mediaType, schema, version, compatible]
  rfl

theorem contractFields_congr {c d : Contract} (same : contentOf c = contentOf d) :
    contractFields c = contractFields d := by
  simp only [contentOf, Prod.mk.injEq] at same
  obtain ⟨mediaType, schema, version, compatible⟩ := same
  rw [contractFields, contractFields, mediaType, schema, version, compatible]

theorem content_eq_iff (c d : Contract) :
    contentOf c = contentOf d ↔ SamePieces c d ∧ SameCounts c d := by
  constructor
  · intro same
    have fields := contractFields_congr same
    exact ⟨congrArg (pieces sep) fields, congrArg (List.map (List.count sep)) fields⟩
  · rintro ⟨pieces, counts⟩
    exact contractFields_inj
      (frame_inj_of_counts ((frame_eq_iff_pieces_eq sep _ _).mpr pieces) counts)

section Digests

variable [Sha256]

theorem contractDigestOf_eq (c : Contract) :
    contractDigestOf c = "sha256:" ++ sha256Hex (frame sep (contractFields c)) := by
  have bytes : frame sep (contractFields c) =
      asBytes c.mediaType ++ [sep] ++ asBytes c.schema ++ [sep] ++ asBytes c.version ++ [sep] ++
        (sortStrings c.compatibleWith).flatMap fun c => asBytes c ++ [sep] := by
    simp [contractFields, frame, List.flatMap_map]
  rw [contractDigestOf, contractDigest, bytes]

theorem contractDigestOf_seal (c : Contract) :
    (sealContract c).digest = contractDigestOf (sealContract c) ∧
      contentOf (sealContract c) = contentOf c := by
  have sorted : sortStrings (sortStrings c.compatibleWith) = sortStrings c.compatibleWith :=
    List.Pairwise.insertionSort_eq (List.pairwise_insertionSort _ _)
  refine ⟨?_, ?_⟩
  · simp only [sealContract, contractDigestOf, sorted]
  · simp only [sealContract, contentOf, sorted]

theorem placeholder_eq {c : Contract} (empty : isContractPlaceholder c = true)
    (digest : c.digest = contractDigestOf c) : c = placeholder c.ref := by
  simp only [isContractPlaceholder, Bool.and_eq_true, beq_iff_eq] at empty
  obtain ⟨⟨⟨mediaType, schema⟩, version⟩, compatible⟩ := empty
  rw [contractDigestOf, mediaType, schema, version, compatible] at digest
  obtain ⟨ref, _, _, _, _, _⟩ := c
  simp only at mediaType schema version compatible digest
  subst mediaType schema version compatible digest
  rfl

end Digests

section History

variable [Sha256]

/-- Contracts are stored under their ref with the digest of their content. -/
def Sealed (contracts : KeyMap String Contract) : Prop :=
  ∀ ref c, contracts.lookup ref = some c → c.ref = ref ∧ c.digest = contractDigestOf c

/-- An entry stays as it is, or a placeholder is filled with content. -/
def Filled (c c' : Contract) : Prop :=
  c' = c ∨ (isContractPlaceholder c = true ∧ isContractPlaceholder c' = false)

omit [Sha256] in
theorem Filled.trans {a b c : Contract} (ab : Filled a b) (bc : Filled b c) : Filled a c := by
  rcases ab with rfl | ⟨empty, full⟩
  · exact bc
  · rcases bc with rfl | ⟨empty', -⟩
    · exact .inr ⟨empty, full⟩
    · rw [full] at empty'
      cases empty'

private theorem ensure_lookup {contracts : KeyMap String Contract} {name ref : String}
    {c : Contract} (found : (ensureContractPlaceholder contracts name).lookup ref = some c) :
    contracts.lookup ref = some c ∨ (ref ∉ contracts ∧ c = placeholder ref) := by
  unfold ensureContractPlaceholder at found
  split_ifs at found with unnamed known
  · exact .inl found
  · exact .inl found
  · rw [lookup_insert_of] at found
    split_ifs at found with here
    · subst here
      exact .inr ⟨known, (Option.some.inj found).symm⟩
    · exact .inl found

private theorem ensure_keeps {contracts : KeyMap String Contract} {ref : String} {c : Contract}
    (found : contracts.lookup ref = some c) (name : String) :
    (ensureContractPlaceholder contracts name).lookup ref = some c := by
  unfold ensureContractPlaceholder
  split_ifs with unnamed known
  · exact found
  · exact found
  · rw [lookup_insert_of, if_neg, found]
    rintro rfl
    exact known (mem_of_lookup found)

theorem foldl_ensure_keeps {contracts : KeyMap String Contract} {ref : String} {c : Contract}
    (found : contracts.lookup ref = some c) (names : List String) :
    (names.foldl ensureContractPlaceholder contracts).lookup ref = some c := by
  induction names generalizing contracts with
  | nil => exact found
  | cons name names ih => exact ih (ensure_keeps found name)

theorem foldl_ensure_sealed {contracts : KeyMap String Contract} (before : Sealed contracts)
    (names : List String) : Sealed (names.foldl ensureContractPlaceholder contracts) := by
  induction names generalizing contracts with
  | nil => exact before
  | cons name names ih =>
      refine ih ?_
      intro ref c found
      rcases ensure_lookup found with old | ⟨-, rfl⟩
      · exact before ref c old
      · exact ⟨rfl, rfl⟩

variable [Prost]

theorem contracts_apply {s : State} {a : Atom} (guard : a.enabled s) :
    (a.apply s).contracts = s.contracts ∨
      (∃ names : List String, (a.apply s).contracts = names.foldl ensureContractPlaceholder s.contracts) ∨
      ∃ c, a = .contractStored c ∧ (a.apply s).contracts = s.contracts.insert c.ref c := by
  cases a with
  | registered manifest => exact .inr (.inl ⟨_, rfl⟩)
  | contractStored c => exact .inr (.inr ⟨c, rfl, rfl⟩)
  | acted runId act =>
      obtain ⟨slot, found, -⟩ := guard
      refine .inl ?_
      simp only [Atom.apply, found, recordAll_eq]
  | _ => exact .inl rfl

omit [Prost] in
private theorem allowed_contract {s : State} {call : Call} {c : Contract}
    (allowed : Allowed s call (.contractStored c)) : ∃ contract, c = sealContract contract := by
  obtain ⟨op, ctx, env⟩ := call
  cases op with
  | putContract contract =>
      cases (show Atom.contractStored c = .contractStored (sealContract contract) from allowed)
      exact ⟨contract, rfl⟩
  | _ => exact absurd allowed (by simp [Allowed])

/-- What a call keeps of the contracts. -/
structure Preserved (s t : State) : Prop where
  seals : Sealed t.contracts
  entries : ∀ ref c, s.contracts.lookup ref = some c →
    ∃ c', t.contracts.lookup ref = some c' ∧ Filled c c'

theorem preserved_apply {s t u : State} {call : Call} {a : Atom} (guard : a.enabled t)
    (allowed : Allowed u call a) (before : Preserved s t) : Preserved s (a.apply t) := by
  obtain ⟨seals, entries⟩ := before
  rcases contracts_apply guard with same | ⟨names, same⟩ | ⟨c, rfl, same⟩
  · exact ⟨by rw [same]; exact seals, by rw [same]; exact entries⟩
  · refine ⟨by rw [same]; exact foldl_ensure_sealed seals names, ?_⟩
    intro ref c found
    obtain ⟨c', there, filled⟩ := entries ref c found
    exact ⟨c', by rw [same]; exact foldl_ensure_keeps there names, filled⟩
  · obtain ⟨contract, rfl⟩ := allowed_contract allowed
    have digest := (contractDigestOf_seal contract).1
    refine ⟨?_, ?_⟩
    · rw [same]
      intro ref c found
      rw [lookup_insert_of] at found
      split_ifs at found with here
      · obtain rfl := Option.some.inj found
        exact ⟨here.symm, digest⟩
      · exact seals ref c found
    · intro ref c found
      obtain ⟨c', there, filled⟩ := entries ref c found
      rw [same, lookup_insert_of]
      by_cases here : ref = (sealContract contract).ref
      · rw [if_pos here]
        refine ⟨_, rfl, filled.trans ?_⟩
        have empty := guard.2 c' (by rw [← here]; exact there)
        cases full : isContractPlaceholder (sealContract contract) with
        | false => exact .inr ⟨empty, full⟩
        | true =>
            left
            rw [placeholder_eq full digest, placeholder_eq empty (seals ref c' there).2,
              (seals ref c' there).1, here]
      · rw [if_neg here]
        exact ⟨c', there, filled⟩

theorem preserved_exec (policy : ArtifactStorePolicy) {s : State} (wf : WellFormed s)
    (seals : Sealed s.contracts) (calls : List Call) : Preserved s (exec policy s calls) := by
  have both : WellFormed (exec policy s calls) ∧ Preserved s (exec policy s calls) := by
    refine run_invariant (P := fun t => WellFormed t ∧ Preserved s t)
      ⟨wf, seals, fun ref c found => ⟨c, found, .inl rfl⟩⟩ ?_
    rintro pre call post - ⟨wf, before⟩
    obtain ⟨atoms, path, allowed, -⟩ := step_explained policy wf call
    refine path.invariant (P := fun t => WellFormed t ∧ Preserved s t) (Allowed _ call) ?_ allowed
      ⟨wf, before⟩
    rintro t a ok guard ⟨wf, before⟩
    exact ⟨wellFormed_apply guard wf, preserved_apply guard ok before⟩
  exact both.2

theorem reachable_sealed {policy : ArtifactStorePolicy} {s : State} (reached : Reachable policy s) :
    Sealed s.contracts := by
  obtain ⟨calls, rfl⟩ := reached
  have wf : WellFormed {} := reachable_wellFormed (⟨[], rfl⟩ : Reachable policy {})
  refine (preserved_exec policy wf ?_ calls).seals
  intro ref c found
  simp at found

end History

section Puts

variable [Sha256]

/-- The law of a put under a ref: it is accepted when the ref is free, holds a placeholder or the same
content, the ref then holds the content put, and a refusal is a conflict without effect. -/
structure PutLaw [Prost] (s : State) (contract : Contract) : Prop where
  accepted : (∃ c, (putContract contract s).2 = .ok c) ↔
    ∀ held, s.contracts.lookup contract.ref = some held →
      isContractPlaceholder held = true ∨ contentOf held = contentOf contract
  stored : ∀ c, (putContract contract s).2 = .ok c →
    (putContract contract s).1.contracts.lookup contract.ref = some c ∧
      contentOf c = contentOf contract
  refused : ∀ e, (putContract contract s).2 = .error e →
    (∃ reason, e = .conflict reason) ∧ (putContract contract s).1 = s

/-- The encodings a put compares by digest: the submitted contract's and those of the registry. -/
def encodings (s : State) (contract : Contract) : Set Bytes :=
  {bytes | ∃ c, (c = contract ∨ ∃ ref, s.contracts.lookup ref = some c) ∧
    bytes = frame sep (contractFields c)}

theorem digest_eq_iff {s : State} {contract held : Contract}
    (free : Set.InjOn Sha256.digest (encodings s contract))
    (found : s.contracts.lookup contract.ref = some held) :
    contractDigestOf held = contractDigestOf contract ↔ SamePieces held contract := by
  unfold SamePieces
  rw [contractDigestOf_eq, contractDigestOf_eq, ← frame_eq_iff_pieces_eq sep]
  constructor
  · intro same
    exact free ⟨held, .inr ⟨_, found⟩, rfl⟩ ⟨contract, .inl rfl, rfl⟩
      (sha256Hex_inj ((String.append_right_inj "sha256:").mp same))
  · intro same
    rw [same]

variable [Prost]

theorem putContract_eq {contract : Contract} (s : State) (named : contract.ref ≠ "")
    (digest : contract.digest = "" ∨ contract.digest = contractDigestOf contract) :
    putContract contract s =
      let store := Atom.apply s (.contractStored (sealContract contract))
      match s.contracts.lookup contract.ref with
      | some held =>
          if held.digest = contractDigestOf contract then (s, .ok held)
          else if isContractPlaceholder held && !isContractPlaceholder (sealContract contract) then
            (store, .ok (sealContract contract))
          else (s, .error (.conflict
            ("contract " ++ contract.ref ++ " already registered with different content")))
      | none => (store, .ok (sealContract contract)) := by
  have matching : ¬ (contract.digest ≠ "" ∧ contract.digest ≠ (sealContract contract).digest) := by
    rintro ⟨given, other⟩
    exact other (digest.resolve_left given)
  simp only [putContract, if_neg named, if_neg matching]
  rfl

private theorem law_stores {s : State} {contract : Contract}
    (put : putContract contract s =
      (Atom.apply s (.contractStored (sealContract contract)), .ok (sealContract contract)))
    (free : ∀ held, s.contracts.lookup contract.ref = some held →
      isContractPlaceholder held = true) : PutLaw s contract := by
  refine ⟨?_, ?_, ?_⟩
  · rw [put]
    exact ⟨fun _ held found => .inl (free held found), fun _ => ⟨_, rfl⟩⟩
  · intro c ok
    rw [put] at ok ⊢
    obtain rfl := Except.ok.inj ok
    refine ⟨?_, (contractDigestOf_seal contract).2⟩
    exact (lookup_insert_of _ _ _ _).trans (if_pos rfl)
  · intro e refused
    rw [put] at refused
    cases refused

private theorem law_holds {s : State} {contract held : Contract}
    (found : s.contracts.lookup contract.ref = some held)
    (put : putContract contract s = (s, .ok held)) :
    PutLaw s contract ↔ contentOf held = contentOf contract := by
  constructor
  · intro law
    exact (law.stored held (by rw [put])).2
  · intro same
    refine ⟨?_, ?_, ?_⟩
    · rw [put]
      refine ⟨?_, fun _ => ⟨_, rfl⟩⟩
      rintro - other found'
      obtain rfl := Option.some.inj (found.symm.trans found')
      exact .inr same
    · intro c ok
      rw [put] at ok ⊢
      obtain rfl := Except.ok.inj ok
      exact ⟨found, same⟩
    · intro e refused
      rw [put] at refused
      cases refused

private theorem law_refuses {s : State} {contract held : Contract} {reason : String}
    (found : s.contracts.lookup contract.ref = some held)
    (full : isContractPlaceholder held = false) (other : contentOf held ≠ contentOf contract)
    (put : putContract contract s = (s, .error (.conflict reason))) : PutLaw s contract := by
  refine ⟨?_, ?_, ?_⟩
  · rw [put]
    constructor
    · rintro ⟨c, ok⟩
      cases ok
    · intro allowed
      rcases allowed held found with empty | same
      · rw [full] at empty
        cases empty
      · exact absurd same other
  · intro c ok
    rw [put] at ok
    cases ok
  · intro e refused
    rw [put] at refused ⊢
    obtain rfl := Except.error.inj refused
    exact ⟨⟨reason, rfl⟩, rfl⟩

theorem put_law_iff {s : State} {contract : Contract} (seals : Sealed s.contracts)
    (named : contract.ref ≠ "")
    (digest : contract.digest = "" ∨ contract.digest = contractDigestOf contract)
    (free : Set.InjOn Sha256.digest (encodings s contract)) :
    PutLaw s contract ↔ ∀ held, s.contracts.lookup contract.ref = some held →
      SamePieces held contract → SameCounts held contract := by
  have put := putContract_eq s named digest
  have content := (contractDigestOf_seal contract).2
  cases found : s.contracts.lookup contract.ref with
  | none =>
      simp only [found] at put
      refine ⟨fun _ held absent => (by cases absent), fun _ => law_stores put ?_⟩
      intro held found'
      rw [found] at found'
      cases found'
  | some held =>
      simp only [found] at put
      have digests : held.digest = contractDigestOf contract ↔ SamePieces held contract := by
        rw [(seals _ held found).2]
        exact digest_eq_iff free found
      by_cases same : held.digest = contractDigestOf contract
      · rw [if_pos same] at put
        rw [law_holds found put, content_eq_iff]
        constructor
        · rintro ⟨-, counts⟩ held' here -
          obtain rfl := Option.some.inj here
          exact counts
        · intro clear
          exact ⟨digests.mp same, clear held rfl (digests.mp same)⟩
      · rw [if_neg same] at put
        have other : contentOf held ≠ contentOf contract := fun equal =>
          same (digests.mpr ((content_eq_iff _ _).mp equal).1)
        refine ⟨?_, fun _ => ?_⟩
        · rintro - held' here pieces
          obtain rfl := Option.some.inj here
          exact absurd (digests.mpr pieces) same
        by_cases fills : isContractPlaceholder held && !isContractPlaceholder (sealContract contract)
        · rw [if_pos fills] at put
          refine law_stores put ?_
          intro held' found'
          obtain rfl := Option.some.inj (found.symm.trans found')
          simpa using (Bool.and_eq_true_iff.mp fills).1
        · rw [if_neg fills] at put
          refine law_refuses found ?_ other put
          cases empty : isContractPlaceholder held with
          | false => rfl
          | true =>
              cases empty' : isContractPlaceholder (sealContract contract) with
              | false => simp [empty, empty'] at fills
              | true =>
                  refine absurd ?_ other
                  rw [content_placeholder empty, ← content, content_placeholder empty']

/-- The contract registry: stored digests are recomputable, entries only ever change from a
placeholder to content and never by a registration, and a put under its own digest obeys the law
exactly when no content held under its ref is cut into the same pieces with its separators elsewhere. -/
theorem contract_registry {policy : ArtifactStorePolicy} {s : State} (reached : Reachable policy s) :
    (∀ ref c, s.contracts.lookup ref = some c → c.digest = contractDigestOf c) ∧
    (∀ manifest ref c, s.contracts.lookup ref = some c →
      (register manifest s).contracts.lookup ref = some c) ∧
    (∀ later ref c, s.contracts.lookup ref = some c →
      ∃ c', (exec policy s later).contracts.lookup ref = some c' ∧ Filled c c') ∧
    ∀ contract, contract.ref ≠ "" →
      (contract.digest = "" ∨ contract.digest = contractDigestOf contract) →
      Set.InjOn Sha256.digest (encodings s contract) →
      (PutLaw s contract ↔ ∀ held, s.contracts.lookup contract.ref = some held →
        SamePieces held contract → SameCounts held contract) := by
  have seals := reachable_sealed reached
  refine ⟨fun ref c found => (seals ref c found).2, ?_, ?_, ?_⟩
  · intro manifest ref c found
    exact foldl_ensure_keeps found _
  · intro later
    exact (preserved_exec policy (reachable_wellFormed reached) seals later).entries
  · intro contract named digest free
    exact put_law_iff seals named digest free

end Puts

section Forged

open Substrate.Kernel.Concrete

/-- `register` names the contract `text`. -/
def registered : List Call := [callAt 0 (.register (echo .once))]

/-- What `text` may be filled with. -/
def plainText : Contract := { ref := "text", mediaType := "text/plain", schema := "utf-8" }

theorem contract_registry_plainText :
    PutLaw (exec policy {} registered) plainText ↔
      ∀ held, (exec policy {} registered).contracts.lookup "text" = some held →
        SamePieces held plainText → SameCounts held plainText := by
  have all : values (exec policy {} registered).contracts = [placeholder "text"] := by
    decide +kernel
  have only : ∀ c, (c = plainText ∨
      ∃ ref, (exec policy {} registered).contracts.lookup ref = some c) →
      c = plainText ∨ c = placeholder "text" := by
    rintro c (rfl | held)
    · exact .inl rfl
    · rw [← mem_values, all] at held
      exact .inr (List.mem_singleton.mp held)
  have apart : Sha256.digest (frame sep (contractFields plainText)) ≠
      Sha256.digest (frame sep (contractFields (placeholder "text"))) := by decide +kernel
  refine (contract_registry ⟨registered, rfl⟩).2.2.2 plainText (by decide) (.inl rfl) ?_
  rintro bytes ⟨c, listed, rfl⟩ bytes' ⟨c', listed', rfl⟩ same
  rcases only c listed with rfl | rfl <;> rcases only c' listed' with rfl | rfl
  · rfl
  · exact absurd same apart
  · exact absurd same.symm apart
  · rfl

/-- `text` filled with one content. -/
def filled : List Call :=
  registered ++ [callAt 0 (.putContract { ref := "text", mediaType := "a\x00b", schema := "c" })]

/-- Other content with the same encoding. -/
def forged : Contract := { ref := "text", mediaType := "a", schema := "b\x00c" }

/-- A put of other content under the same ref succeeds and returns what the ref holds. -/
theorem contract_registry_forged :
    ¬ PutLaw (exec policy {} filled) forged := by
  intro law
  have answers : (putContract forged (exec policy {} filled)).2.toOption.map contentOf =
      some ("a\x00b", "c", "", []) := by decide +kernel
  cases put : (putContract forged (exec policy {} filled)).2 with
  | error e =>
      rw [put] at answers
      cases answers
  | ok c =>
      rw [put] at answers
      have held : contentOf c = ("a\x00b", "c", "", []) := Option.some.inj answers
      rw [(law.stored c put).2] at held
      exact absurd held (by decide)

end Forged

end Substrate.Protocol.Contracts
