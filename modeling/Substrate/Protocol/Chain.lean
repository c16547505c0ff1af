/- ID: Substrate/Protocol/Chain
   digest: What one head hash pins down of a verified chain, and the separators that it leaves open. -/

import Mathlib.Data.List.Induction
import Substrate.Kernel.Concrete
import Substrate.Protocol.Identity

set_option autoImplicit false
set_option relaxedAutoImplicit false

namespace Substrate.Protocol.Chain

open Substrate.Kernel.Wire
open Substrate.Kernel.Hashing
open Substrate.Protocol.Identity
open Substrate.Library.Framing

section Digests

variable [Sha256]

private theorem verifyFrom_snoc (i : Nat) (prev : String) (es : List LedgerEntry) (e : LedgerEntry) :
    verifyFrom i prev (es ++ [e]) = true ↔
      verifyFrom i prev es = true ∧ e.seq = UInt64.ofNat (i + es.length) ∧
        e.prevHash = (es.getLast?.map (·.hash)).getD prev ∧
        ledgerHash e.seq e.kind e.subject e.detail e.prevHash = e.hash := by
  induction es generalizing i prev with
  | nil =>
      simp only [List.nil_append, verifyFrom, List.length_nil, Nat.add_zero, List.getLast?_nil,
        Option.map_none, Option.getD_none]
      split_ifs with linked hashed
      · simp only [false_iff]
        rintro ⟨-, seq, prevHash, -⟩
        rcases linked with bad | bad
        · exact bad seq
        · exact bad prevHash
      · simp only [false_iff]
        rintro ⟨-, -, -, good⟩
        exact hashed good
      · push Not at linked hashed
        exact ⟨fun _ => ⟨trivial, linked.1, linked.2, hashed⟩, fun _ => rfl⟩
  | cons d es ih =>
      have last : (((d :: es).getLast?.map (·.hash)).getD prev) =
          (es.getLast?.map (·.hash)).getD d.hash := by
        rw [List.getLast?_cons]
        cases es.getLast? <;> rfl
      have length : i + (d :: es).length = i + 1 + es.length := by
        rw [List.length_cons]
        omega
      rw [last, length, List.cons_append, verifyFrom, verifyFrom]
      split_ifs
      · simp
      · simp
      · exact ih (i + 1) d.hash

theorem verifyChain_snoc (es : List LedgerEntry) (e : LedgerEntry) :
    verifyChain (es ++ [e]) = true ↔
      verifyChain es = true ∧ e.seq = UInt64.ofNat es.length ∧ e.prevHash = headHash es ∧
        ledgerHash e.seq e.kind e.subject e.detail e.prevHash = e.hash := by
  have snoc := verifyFrom_snoc 0 "" es e
  rw [Nat.zero_add] at snoc
  exact snoc

omit [Sha256] in
@[simp] theorem headHash_snoc (es : List LedgerEntry) (e : LedgerEntry) :
    headHash (es ++ [e]) = e.hash := by
  simp [headHash]

/-- The bytes hashed for an entry. -/
def preimage (e : LedgerEntry) : Bytes := ledgerBytes e.seq e.kind e.subject e.detail e.prevHash

/-- Everything an entry's hash covers but the cuts between kind, subject and detail. -/
structure SameFrame (e f : LedgerEntry) : Prop where
  seq : e.seq = f.seq
  prevHash : e.prevHash = f.prevHash
  hash : e.hash = f.hash
  fields : frame sep [asBytes e.kind, asBytes e.subject, e.detail] =
    frame sep [asBytes f.kind, asBytes f.subject, f.detail]

omit [Sha256] in
private theorem preimage_eq (e : LedgerEntry) : ∃ body,
    preimage e = toBeBytes e.seq ++ (sep :: (body ++ sep :: asBytes e.prevHash)) ∧
      frame sep [asBytes e.kind, asBytes e.subject, e.detail] = body ++ [sep] :=
  ⟨asBytes e.kind ++ sep :: (asBytes e.subject ++ sep :: e.detail),
    by simp [preimage, ledgerBytes], by simp⟩

private theorem headHash_plain (es : List LedgerEntry) (verified : verifyChain es = true) :
    sep ∉ asBytes (headHash es) := by
  induction es using List.reverseRecOn with
  | nil => decide
  | append_singleton es e _ =>
      rw [headHash_snoc, ← ((verifyChain_snoc es e).mp verified).2.2.2]
      exact (asBytes_sha256Hex _).1

omit [Sha256] in
private theorem tail_inj {a b x y : List UInt8} (hx : sep ∉ x) (hy : sep ∉ y)
    (same : a ++ sep :: x = b ++ sep :: y) : a = b ∧ x = y := by
  have reversed := congrArg List.reverse same
  simp only [List.reverse_append, List.reverse_cons, List.append_assoc, List.singleton_append]
    at reversed
  obtain ⟨xy, ab⟩ := field_inj_of_count reversed (by
    rw [List.count_eq_zero_of_not_mem (by simpa using hx),
      List.count_eq_zero_of_not_mem (by simpa using hy)])
  exact ⟨List.reverse_injective ab, List.reverse_injective xy⟩

omit [Sha256] in
private theorem sameFrame_of_preimage {e f : LedgerEntry} (plain : sep ∉ asBytes e.prevHash)
    (plain' : sep ∉ asBytes f.prevHash) (hash : e.hash = f.hash)
    (same : preimage e = preimage f) : SameFrame e f := by
  obtain ⟨body, split, fields⟩ := preimage_eq e
  obtain ⟨body', split', fields'⟩ := preimage_eq f
  rw [split, split'] at same
  obtain ⟨seq, rest⟩ := List.append_inj same (by simp [toBeBytes])
  obtain ⟨bodies, prev⟩ := tail_inj plain plain' (List.cons.inj rest).2
  exact ⟨toBeBytes_inj seq, asBytes_inj prev, hash, by rw [fields, fields', bodies]⟩

theorem sameFrame_of_head {es fs : List LedgerEntry} (verified : verifyChain es = true)
    (verified' : verifyChain fs = true)
    (free : Set.InjOn Sha256.digest {b | ∃ e ∈ es ++ fs, b = preimage e})
    (head : headHash es = headHash fs) : List.Forall₂ SameFrame es fs := by
  induction es using List.reverseRecOn generalizing fs with
  | nil =>
      cases fs using List.reverseRecOn with
      | nil => exact .nil
      | append_singleton fs f =>
          rw [headHash_snoc, ← ((verifyChain_snoc fs f).mp verified').2.2.2] at head
          exact absurd head.symm (sha256Hex_ne_empty _)
  | append_singleton es e ih =>
      obtain ⟨front, -, link, hashed⟩ := (verifyChain_snoc es e).mp verified
      cases fs using List.reverseRecOn with
      | nil =>
          rw [headHash_snoc, ← hashed] at head
          exact absurd head (sha256Hex_ne_empty _)
      | append_singleton fs f =>
          obtain ⟨front', -, link', hashed'⟩ := (verifyChain_snoc fs f).mp verified'
          rw [headHash_snoc, headHash_snoc] at head
          have digests : Sha256.digest (preimage e) = Sha256.digest (preimage f) := by
            rw [← hashed, ← hashed'] at head
            exact sha256Hex_inj head
          have same := free ⟨e, by simp, rfl⟩ ⟨f, by simp, rfl⟩ digests
          have last : SameFrame e f := sameFrame_of_preimage
            (by rw [link]; exact headHash_plain es front)
            (by rw [link']; exact headHash_plain fs front') head same
          refine List.rel_append (ih front front' ?_ ?_) (.cons last .nil)
          · refine free.mono ?_
            rintro b ⟨d, member, rfl⟩
            refine ⟨d, ?_, rfl⟩
            rcases List.mem_append.mp member with h | h <;> simp [h]
          · rw [← link, ← link']
            exact last.prevHash

/-- Separator bytes inside a text. -/
def separators (s : String) : Nat := (asBytes s).count sep

/-- At every common position kind and subject hold equally many separator bytes. -/
def SameSeparators (es fs : List LedgerEntry) : Prop :=
  ∀ (i : Nat) (e f : LedgerEntry), es[i]? = some e → fs[i]? = some f →
    separators e.kind = separators f.kind ∧ separators e.subject = separators f.subject

omit [Sha256] in
private theorem entry_eq {e f : LedgerEntry} (same : SameFrame e f)
    (kind : separators e.kind = separators f.kind)
    (subject : separators e.subject = separators f.subject) : e = f := by
  obtain ⟨seq, prevHash, hash, fields⟩ := same
  simp only [frame_cons, frame_nil] at fields
  obtain ⟨kinds, rest⟩ := field_inj_of_count fields kind
  obtain ⟨subjects, rest⟩ := field_inj_of_count rest subject
  have details : e.detail = f.detail := List.append_cancel_right rest
  cases e
  cases f
  simp only at seq prevHash hash kinds subjects details
  rw [seq, prevHash, hash, details, asBytes_inj kinds, asBytes_inj subjects]

/-- Two verified non-empty chains that end in the same hash, with no collision among what they hash,
are the same list exactly when kinds and subjects hold equally many separators throughout. -/
theorem tamper_evident {es fs : List LedgerEntry} (filled : es ≠ []) (filled' : fs ≠ [])
    (verified : verifyChain es = true) (verified' : verifyChain fs = true)
    (free : Set.InjOn Sha256.digest {b | ∃ e ∈ es ++ fs, b = preimage e})
    (last : (es.getLast filled).hash = (fs.getLast filled').hash) :
    es = fs ↔ SameSeparators es fs := by
  have head : headHash es = headHash fs := by
    simp only [headHash, List.getLast?_eq_some_getLast filled, List.getLast?_eq_some_getLast filled',
      Option.map_some, Option.getD_some, last]
  have frames := sameFrame_of_head verified verified' free head
  constructor
  · rintro rfl i e f he hf
    obtain rfl := Option.some.inj (he.symm.trans hf)
    exact ⟨rfl, rfl⟩
  · intro counts
    refine List.ext_getElem? fun i => ?_
    have length := frames.length_eq
    by_cases inside : i < es.length
    · have inside' : i < fs.length := length ▸ inside
      have he := List.getElem?_eq_getElem inside
      have hf := List.getElem?_eq_getElem inside'
      obtain ⟨kind, subject⟩ := counts i _ _ he hf
      have same : es[i] = fs[i] := entry_eq (frames.get inside inside') kind subject
      rw [he, hf, same]
    · rw [List.getElem?_eq_none (by omega), List.getElem?_eq_none (by omega)]

end Digests

section Forgery

open scoped Substrate.Kernel.Concrete

/-- The only entry of a chain. -/
def lone (kind subject : String) : LedgerEntry :=
  { seq := 0, kind, subject, detail := [], prevHash := "", hash := ledgerHash 0 kind subject [] "" }

/-- Moving a separator from the kind to the subject leaves the hashed bytes as they were. -/
theorem tamper_evident_moved :
    verifyChain [lone "a\x00b" "c"] = true ∧ verifyChain [lone "a" "b\x00c"] = true ∧
      preimage (lone "a\x00b" "c") = preimage (lone "a" "b\x00c") ∧
      (lone "a\x00b" "c").hash = (lone "a" "b\x00c").hash ∧
      [lone "a\x00b" "c"] ≠ [lone "a" "b\x00c"] := by
  decide +kernel

theorem tamper_evident_lone :
    [lone "a\x00b" "c"] = [lone "a" "b\x00c"] ↔
      SameSeparators [lone "a\x00b" "c"] [lone "a" "b\x00c"] := by
  have same : preimage (lone "a\x00b" "c") = preimage (lone "a" "b\x00c") := by decide +kernel
  refine tamper_evident (by simp) (by simp) (by decide +kernel) (by decide +kernel) ?_
    (by decide +kernel)
  rintro b ⟨e, he, rfl⟩ b' ⟨f, hf, rfl⟩ -
  simp only [List.cons_append, List.nil_append, List.mem_cons, List.not_mem_nil, or_false] at he hf
  rcases he with rfl | rfl <;> rcases hf with rfl | rfl <;> simp [same]

end Forgery

end Substrate.Protocol.Chain
