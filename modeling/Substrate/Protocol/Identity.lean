/- ID: Substrate/Protocol/Identity
   digest: Digests have one spelling of fixed length, and unit keys of distinct nodes are distinct. -/

import Substrate.Kernel.Work

set_option autoImplicit false
set_option relaxedAutoImplicit false

namespace Substrate.Protocol.Identity

open Substrate.Kernel.Wire
open Substrate.Kernel.Hashing
open Substrate.Kernel.Memory
open Substrate.Kernel.Schedule
open Substrate.Library.Framing (beBytes_inj)

private theorem asBytes_ofList (l : List Char) :
    asBytes (String.ofList l) = l.flatMap String.utf8EncodeChar := by
  unfold asBytes String.toUTF8
  rw [String.toByteArray_ofList]
  simp [List.utf8Encode]

@[simp] theorem asBytes_append (a b : String) : asBytes (a ++ b) = asBytes a ++ asBytes b := by
  simp [asBytes]

theorem asBytes_inj {a b : String} (same : asBytes a = asBytes b) : a = b := by
  unfold asBytes String.toUTF8 at same
  have bytes : a.toByteArray = b.toByteArray := ByteArray.ext (Array.toList_inj.mp same)
  exact String.toByteArray_inj.mp bytes

theorem toBeBytes_inj {n m : UInt64} (same : toBeBytes n = toBeBytes m) : n = m :=
  UInt64.toNat_inj.mp (beBytes_inj n.toNat_lt m.toNat_lt same)

private theorem hexDigit_inj : ∀ a b : Fin 16, hexDigit a = hexDigit b → a = b := by decide

private theorem toNat_shiftRight_four (b : UInt8) : (b >>> 4).toNat = b.toNat / 16 := by
  rw [UInt8.toNat_shiftRight, Nat.shiftRight_eq_div_pow]
  rfl

private theorem toNat_and_fifteen (b : UInt8) : (b &&& 0x0f).toNat = b.toNat % 16 := by
  rw [UInt8.toNat_and]
  exact Nat.and_two_pow_sub_one_eq_mod b.toNat 4

private theorem nibbles_inj {b c : UInt8}
    (high : hexDigit (b >>> 4).toNat = hexDigit (c >>> 4).toNat)
    (low : hexDigit (b &&& 0x0f).toNat = hexDigit (c &&& 0x0f).toNat) : b = c := by
  rw [toNat_shiftRight_four, toNat_shiftRight_four] at high
  rw [toNat_and_fifteen, toNat_and_fifteen] at low
  have hb := b.toNat_lt
  have hc := c.toNat_lt
  have top := hexDigit_inj ⟨b.toNat / 16, by omega⟩ ⟨c.toNat / 16, by omega⟩ high
  have bottom := hexDigit_inj ⟨b.toNat % 16, by omega⟩ ⟨c.toNat % 16, by omega⟩ low
  simp only [Fin.mk.injEq] at top bottom
  exact UInt8.toNat_inj.mp (by omega)

theorem hex_length (bytes : Bytes) : (hex bytes).toList.length = 2 * bytes.length := by
  rw [hex, String.toList_ofList]
  induction bytes with
  | nil => rfl
  | cons b bytes ih =>
      rw [List.flatMap_cons, List.length_append, ih, List.length_cons]
      simp only [List.length_cons, List.length_nil]
      omega

theorem hex_inj {a b : Bytes} (same : hex a = hex b) : a = b := by
  rw [← String.toList_inj, hex, hex, String.toList_ofList, String.toList_ofList] at same
  induction a generalizing b with
  | nil =>
      cases b with
      | nil => rfl
      | cons c b => simp at same
  | cons x a ih =>
      cases b with
      | nil => simp at same
      | cons y b =>
          simp only [List.flatMap_cons, List.cons_append, List.nil_append, List.cons.injEq] at same
          obtain ⟨high, low, rest⟩ := same
          rw [nibbles_inj high low, ih rest]

private theorem hexDigit_bytes : ∀ n : Fin 16,
    sep ∉ String.utf8EncodeChar (hexDigit n) ∧
      (String.utf8EncodeChar (hexDigit n)).length = 1 := by decide

private theorem hexDigit_getD {n : Nat} (large : 16 ≤ n) : hexDigit n = hexDigit 0 := by
  have beyond : "0123456789abcdef".toList[n]? = none := List.getElem?_eq_none large
  rw [hexDigit, List.getD_eq_getElem?_getD, beyond]
  rfl

private theorem hexDigit_plain (n : Nat) :
    sep ∉ String.utf8EncodeChar (hexDigit n) ∧
      (String.utf8EncodeChar (hexDigit n)).length = 1 := by
  by_cases small : n < 16
  · exact hexDigit_bytes ⟨n, small⟩
  · rw [hexDigit_getD (by omega)]
    exact hexDigit_bytes 0

theorem asBytes_hex (bytes : Bytes) :
    sep ∉ asBytes (hex bytes) ∧ (asBytes (hex bytes)).length = 2 * bytes.length := by
  rw [hex, asBytes_ofList]
  induction bytes with
  | nil => simp
  | cons b bytes ih =>
      obtain ⟨absent, length⟩ := ih
      have high := hexDigit_plain (b >>> 4).toNat
      have low := hexDigit_plain (b &&& 0x0f).toNat
      simp only [List.flatMap_cons, List.flatMap_append, List.flatMap_nil, List.append_nil,
        List.mem_append, List.length_append, List.length_cons]
      refine ⟨?_, by omega⟩
      rintro ((h | h) | h)
      · exact high.1 h
      · exact low.1 h
      · exact absent h

variable [Sha256]

theorem sha256Hex_length (bytes : Bytes) : (sha256Hex bytes).toList.length = 64 := by
  rw [sha256Hex, hex_length, Vector.length_toList]

theorem asBytes_sha256Hex (bytes : Bytes) :
    sep ∉ asBytes (sha256Hex bytes) ∧ (asBytes (sha256Hex bytes)).length = 64 := by
  have plain := asBytes_hex (Sha256.digest bytes).toList
  rw [Vector.length_toList] at plain
  exact plain

theorem sha256Hex_ne_empty (bytes : Bytes) : sha256Hex bytes ≠ "" := by
  intro empty
  have length := sha256Hex_length bytes
  rw [empty] at length
  simp at length

theorem sha256Hex_inj {a b : Bytes} (same : sha256Hex a = sha256Hex b) :
    Sha256.digest a = Sha256.digest b :=
  Vector.toList_inj.mp (hex_inj same)

omit [Sha256] in
private theorem append_right_inj_of_length {a b c d : String} (same : a ++ c = b ++ d)
    (length : c.toList.length = d.toList.length) : a = b ∧ c = d := by
  rw [← String.toList_inj, String.toList_append, String.toList_append] at same
  obtain ⟨front, back⟩ := List.append_inj' same length
  exact ⟨String.toList_inj.mp front, String.toList_inj.mp back⟩

theorem append_sha256Hex_inj {a b : String} {x y : Bytes}
    (same : a ++ sha256Hex x = b ++ sha256Hex y) : a = b ∧ sha256Hex x = sha256Hex y :=
  append_right_inj_of_length same (by rw [sha256Hex_length, sha256Hex_length])

theorem asBytes_artifactIdOf (artifact : Artifact) : (asBytes (artifactIdOf artifact)).length = 71 := by
  rw [artifactIdOf, asBytes_append, List.length_append, (asBytes_sha256Hex _).2]
  rfl

/-- What a unit key spells: the mode, the node and, outside ONCE, the bytes it hashes. -/
inductive UnitIdent
  | once (node : String)
  | always (node : String) (rows : Bytes)
  | key (node : String) (pairs : Bytes)

namespace UnitIdent

omit [Sha256] in
def node : UnitIdent → String
  | once node => node
  | always node _ => node
  | key node _ => node

def spell : UnitIdent → String
  | once node => "once:" ++ node
  | always node rows => "always:" ++ node ++ ":" ++ sha256Hex rows
  | key node pairs => "key:" ++ node ++ ":" ++ sha256Hex pairs

/-- The same unit, as far as digests tell. -/
def Same : UnitIdent → UnitIdent → Prop
  | once a, once b => a = b
  | always a x, always b y => a = b ∧ Sha256.digest x = Sha256.digest y
  | key a x, key b y => a = b ∧ Sha256.digest x = Sha256.digest y
  | _, _ => False

theorem Same.node_eq {u v : UnitIdent} (same : Same u v) : u.node = v.node := by
  cases u with
  | once a => cases v <;> first | exact same | exact same.elim
  | always a x => cases v <;> first | exact same.1 | exact same.elim
  | key a x => cases v <;> first | exact same.1 | exact same.elim

omit [Sha256] in
private theorem between_inj {front a b back x y : String}
    (same : front ++ a ++ back = front ++ b ++ back ∧ x = y) : a = b ∧ x = y :=
  ⟨(String.append_right_inj front).mp ((String.append_left_inj back).mp same.1), same.2⟩

private theorem spell_head (u : UnitIdent) : u.spell.toList.head? =
    some (match u with | once _ => 'o' | always _ _ => 'a' | key _ _ => 'k') := by
  cases u <;> simp [spell]

theorem spell_inj {u v : UnitIdent} (same : u.spell = v.spell) : Same u v := by
  have heads : u.spell.toList.head? = v.spell.toList.head? := by rw [same]
  rw [spell_head, spell_head] at heads
  cases u with
  | once a =>
      cases v with
      | once b => exact (String.append_right_inj "once:").mp same
      | always b y => simp at heads
      | key b y => simp at heads
  | always a x =>
      cases v with
      | once b => simp at heads
      | always b y =>
          obtain ⟨node, digest⟩ := between_inj (append_sha256Hex_inj same)
          exact ⟨node, sha256Hex_inj digest⟩
      | key b y => simp at heads
  | key a x =>
      cases v with
      | once b => simp at heads
      | always b y => simp at heads
      | key b y =>
          obtain ⟨node, digest⟩ := between_inj (append_sha256Hex_inj same)
          exact ⟨node, sha256Hex_inj digest⟩

end UnitIdent

theorem workUnitKey_spell {slot : RunSlot} {node : AssemblyNode} {cap : Capability}
    {firing : Firing} {inputs : List NamedArtifact} {unitKey : String}
    (made : workUnitKey slot node cap firing inputs = some unitKey) :
    ∃ u : UnitIdent, unitKey = u.spell ∧ u.node = node.id := by
  cases firing with
  | always =>
      simp only [workUnitKey, deliveryFingerprint, Option.map_map, Option.map_eq_some_iff] at made
      obtain ⟨rows, -, rfl⟩ := made
      exact ⟨.always node.id (deliveryBytes rows), rfl, rfl⟩
  | oncePerKey =>
      exact ⟨.key node.id (inputKeyBytes cap inputs), (Option.some.inj made).symm, rfl⟩
  | once => exact ⟨.once node.id, (Option.some.inj made).symm, rfl⟩
  | unspecified => exact ⟨.once node.id, (Option.some.inj made).symm, rfl⟩

theorem currentUnit_spell {modules : List ModuleSlot} {slot : RunSlot} {node : AssemblyNode}
    {inputs : List NamedArtifact} {unitKey : String}
    (unit : currentUnit modules slot node = some (inputs, unitKey)) :
    ∃ u : UnitIdent, unitKey = u.spell ∧ u.node = node.id := by
  simp only [currentUnit, Option.bind_eq_some_iff, Option.map_eq_some_iff, Prod.mk.injEq] at unit
  obtain ⟨_, -, cap, -, key, made, rfl, rfl⟩ := unit
  exact workUnitKey_spell made

/-- Units of different nodes have different keys, whatever state each is read in. -/
theorem currentUnit_node {modules modules' : List ModuleSlot} {slot slot' : RunSlot}
    {node node' : AssemblyNode} {inputs inputs' : List NamedArtifact} {unitKey : String}
    (unit : currentUnit modules slot node = some (inputs, unitKey))
    (unit' : currentUnit modules' slot' node' = some (inputs', unitKey)) : node.id = node'.id := by
  obtain ⟨u, rfl, hu⟩ := currentUnit_spell unit
  obtain ⟨v, same, hv⟩ := currentUnit_spell unit'
  rw [← hu, ← hv]
  exact (UnitIdent.spell_inj same).node_eq

end Substrate.Protocol.Identity
