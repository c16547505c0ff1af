/- ID: Substrate/Library/Proto3
   digest: The proto3 wire format: fields of varints and byte strings, written and read back. -/

import Mathlib.Data.List.Basic

set_option autoImplicit false
set_option relaxedAutoImplicit false

namespace Substrate.Library.Proto3

universe u

/-- A field value: wire type 0 or wire type 2. -/
inductive Value
  | varint (n : Nat)
  | bytes (b : List UInt8)
  deriving DecidableEq

/-- A field number and its value. -/
abbrev Field := Nat × Value

/-- Base 128, least significant group first, with the high bit on every byte but the last. -/
def varintFuel : Nat → Nat → List UInt8
  | 0, n => [UInt8.ofNat n]
  | fuel + 1, n =>
      if n < 128 then [UInt8.ofNat n] else UInt8.ofNat (n % 128 + 128) :: varintFuel fuel (n / 128)

def varint (n : Nat) : List UInt8 := varintFuel n n

def readVarint : List UInt8 → Option (Nat × List UInt8)
  | [] => none
  | b :: rest =>
      if b.toNat < 128 then some (b.toNat, rest)
      else (readVarint rest).map fun (n, rest) => (n * 128 + (b.toNat - 128), rest)

private theorem toNat_ofNat_small {n : Nat} (small : n < 256) : (UInt8.ofNat n).toNat = n := by
  rw [UInt8.toNat_ofNat']
  exact Nat.mod_eq_of_lt small

private theorem readVarint_fuel {fuel n : Nat} (enough : n ≤ fuel) (rest : List UInt8) :
    readVarint (varintFuel fuel n ++ rest) = some (n, rest) := by
  induction fuel generalizing n with
  | zero =>
      obtain rfl : n = 0 := Nat.le_zero.mp enough
      rfl
  | succ fuel ih =>
      by_cases last : n < 128
      · have byte := toNat_ofNat_small (show n < 256 by omega)
        simp [varintFuel, last, readVarint, byte]
      · have byte := toNat_ofNat_small (show n % 128 + 128 < 256 by omega)
        have more : ¬ n % 128 + 128 < 128 := by omega
        have value : n / 128 * 128 + n % 128 = n := Nat.div_add_mod' n 128
        simp only [varintFuel, last, if_false, List.cons_append, readVarint, byte, more,
          ih (show n / 128 ≤ fuel by omega), Option.map_some, Nat.add_sub_cancel, value]

theorem readVarint_varint (n : Nat) (rest : List UInt8) :
    readVarint (varint n ++ rest) = some (n, rest) :=
  readVarint_fuel (Nat.le_refl n) rest

private theorem varint_ne_nil (n : Nat) : varint n ≠ [] := by
  intro empty
  have read := readVarint_varint n []
  rw [empty] at read
  cases read

def encodeField : Field → List UInt8
  | (k, .varint n) => varint (k * 8) ++ varint n
  | (k, .bytes b) => varint (k * 8 + 2) ++ (varint b.length ++ b)

def encodeFields (fields : List Field) : List UInt8 := fields.flatMap encodeField

def readField (input : List UInt8) : Option (Field × List UInt8) :=
  (readVarint input).bind fun (tag, rest) =>
    (readVarint rest).bind fun (n, rest) =>
      if tag % 8 = 0 then some ((tag / 8, .varint n), rest)
      else if tag % 8 = 2 ∧ n ≤ rest.length then
        some ((tag / 8, .bytes (rest.take n)), rest.drop n)
      else none

def readFields : Nat → List UInt8 → Option (List Field)
  | _, [] => some []
  | 0, _ :: _ => none
  | fuel + 1, input =>
      (readField input).bind fun (field, rest) => (readFields fuel rest).map (field :: ·)

/-- Every field takes at least one byte, so that the length is fuel enough. -/
def decodeFields (input : List UInt8) : Option (List Field) := readFields input.length input

theorem readField_encodeField (field : Field) (rest : List UInt8) :
    readField (encodeField field ++ rest) = some (field, rest) := by
  obtain ⟨k, value⟩ := field
  cases value with
  | varint n =>
      simp only [encodeField, readField, List.append_assoc, readVarint_varint, Option.bind_some]
      rw [if_pos (by omega), Nat.mul_div_cancel k (by decide)]
  | bytes b =>
      simp only [encodeField, readField, List.append_assoc, readVarint_varint, Option.bind_some]
      rw [if_neg (by omega), if_pos ⟨by omega, by simp⟩, List.take_left, List.drop_left,
        show (k * 8 + 2) / 8 = k by omega]

private theorem encodeField_pos (field : Field) : 0 < (encodeField field).length := by
  obtain ⟨k, value⟩ := field
  have tag := List.length_pos_of_ne_nil (varint_ne_nil (k * 8))
  have tag' := List.length_pos_of_ne_nil (varint_ne_nil (k * 8 + 2))
  cases value <;> simp only [encodeField, List.length_append] <;> omega

private theorem readFields_encodeFields {fuel : Nat} {fields : List Field}
    (enough : (encodeFields fields).length ≤ fuel) :
    readFields fuel (encodeFields fields) = some fields := by
  induction fields generalizing fuel with
  | nil => cases fuel <;> rfl
  | cons field fields ih =>
      have here := encodeField_pos field
      change (encodeField field ++ encodeFields fields).length ≤ fuel at enough
      rw [List.length_append] at enough
      obtain ⟨fuel, rfl⟩ : ∃ smaller, fuel = smaller + 1 := ⟨fuel - 1, by omega⟩
      have read := readField_encodeField field (encodeFields fields)
      have rest : readFields fuel (encodeFields fields) = some fields := ih (by omega)
      show readFields (fuel + 1) (encodeField field ++ encodeFields fields) = _
      cases bytes : encodeField field ++ encodeFields fields with
      | nil => simp [bytes, readField, readVarint] at read
      | cons b more =>
          rw [bytes] at read
          simp only [readFields, read, Option.bind_some, rest, Option.map_some]

/-- Fields are read back as they were written. -/
@[simp] theorem decodeFields_encodeFields (fields : List Field) :
    decodeFields (encodeFields fields) = some fields :=
  readFields_encodeFields (Nat.le_refl _)

/-- Every value under one field number. -/
def field (k : Nat) (values : List Value) : List Field := values.map (k, ·)

def occurrences (k : Nat) (fields : List Field) : List Value :=
  fields.filterMap fun f => if f.1 = k then some f.2 else none

@[simp] theorem occurrences_append (k : Nat) (xs ys : List Field) :
    occurrences k (xs ++ ys) = occurrences k xs ++ occurrences k ys :=
  List.filterMap_append

@[simp] theorem occurrences_field (k k' : Nat) (values : List Value) :
    occurrences k (field k' values) = if k' = k then values else [] := by
  induction values with
  | nil => simp [field, occurrences]
  | cons value values ih =>
      change occurrences k ([(k', value)] ++ field k' values) = _
      rw [occurrences_append, ih]
      by_cases same : k' = k <;> simp [occurrences, same]

variable {α : Type u}

/-- A scalar is left out when it is the zero value. -/
def scalar [DecidableEq α] (zero : α) (write : α → Value) (a : α) : List Value :=
  if a = zero then [] else [write a]

/-- The last occurrence wins; none is the zero value. -/
def readScalar (zero : α) (read : Value → Option α) (values : List Value) : Option α :=
  match values.getLast? with
  | none => some zero
  | some value => read value

theorem readScalar_scalar [DecidableEq α] {zero : α} {write : α → Value} {read : Value → Option α}
    (inverse : ∀ a, read (write a) = some a) (a : α) :
    readScalar zero read (scalar zero write a) = some a := by
  unfold scalar
  split_ifs with absent
  · rw [absent]
    rfl
  · exact inverse a

/-- A message field is left out only when it is absent. -/
def optional (write : α → Value) (a : Option α) : List Value := a.toList.map write

def readOptional (read : Value → Option α) (values : List Value) : Option (Option α) :=
  match values.getLast? with
  | none => some none
  | some value => (read value).map some

theorem readOptional_optional {write : α → Value} {read : Value → Option α}
    (inverse : ∀ a, read (write a) = some a) (a : Option α) :
    readOptional read (optional write a) = some a := by
  cases a with
  | none => rfl
  | some a =>
      show (read (write a)).map some = some (some a)
      rw [inverse, Option.map_some]

theorem readRepeated_map {write : α → Value} {read : Value → Option α}
    (inverse : ∀ a, read (write a) = some a) (l : List α) :
    (l.map write).mapM read = some l := by
  induction l with
  | nil => rfl
  | cons a l ih => rw [List.map_cons, List.mapM_cons, inverse, ih]; rfl

end Substrate.Library.Proto3
