import Peerdup.Foundation.Bytes
import Mathlib.Algebra.Group.Nat.Defs
import Mathlib.Tactic.Common

/-!
# Bincode codecs

Binary codecs in bincode's standard configuration: little-endian variable-length
integers, length-prefixed sequences, bare fixed arrays, and the variant index
before a variant's fields. Each codec carries the proof that decoding an encoded
value gives it back and leaves the rest of the input.
-/

set_option autoImplicit false

namespace Peerdup.Foundation

structure Codec (Value : Type) where
  encode : Value → Bytes
  decode : Bytes → Option (Value × Bytes)
  /-- The values a machine can hold: every length below `2 ^ 64`. -/
  Fits : Value → Prop
  decode_encode : ∀ {value : Value} (rest : Bytes), Fits value →
    decode (encode value ++ rest) = some (value, rest)

namespace Codec

variable {Value Other : Type}

def unit : Codec Unit where
  encode _ := []
  decode bytes := some ((), bytes)
  Fits _ := True
  decode_encode _ _ := rfl

def byte : Codec UInt8 where
  encode value := [value]
  decode
    | [] => none
    | value :: rest => some (value, rest)
  Fits _ := True
  decode_encode _ _ := rfl

/-- A fixed array is written bare. -/
def octets (size : Nat) : Codec (Octets size) where
  encode value := value.bytes
  decode bytes := if size ≤ bytes.length then some (.ofBytes size bytes, bytes.drop size) else none
  Fits _ := True
  decode_encode := by
    intro value rest _
    have enough : size ≤ (value.bytes ++ rest).length := by simp [value.length_bytes]
    have front : Octets.ofBytes size (value.bytes ++ rest) = value := by
      apply Octets.ext
      simp [Octets.ofBytes, ← value.length_bytes]
    have back : (value.bytes ++ rest).drop size = rest := by
      simp [← value.length_bytes]
    rw [if_pos enough, front, back]

def pair (first : Codec Value) (second : Codec Other) : Codec (Value × Other) where
  encode value := first.encode value.1 ++ second.encode value.2
  decode bytes := do
    let (left, bytes) ← first.decode bytes
    let (right, bytes) ← second.decode bytes
    return ((left, right), bytes)
  Fits value := first.Fits value.1 ∧ second.Fits value.2
  decode_encode := by
    intro value rest fits
    simp [List.append_assoc, first.decode_encode _ fits.1, second.decode_encode _ fits.2]

/-- Write a value through another one that determines it. -/
def via (codec : Codec Other) (write : Value → Other) (read : Other → Option Value) :
    Codec Value where
  encode value := codec.encode (write value)
  decode bytes := do
    let (other, bytes) ← codec.decode bytes
    let value ← read other
    return (value, bytes)
  Fits value := codec.Fits (write value) ∧ read (write value) = some value
  decode_encode := by
    intro value rest fits
    simp [codec.decode_encode _ fits.1, fits.2]

/-- The `count` low bytes of a number, lowest first. -/
def littleEndian : Nat → Nat → Bytes
  | 0, _ => []
  | count + 1, value => UInt8.ofNat value :: littleEndian count (value / 256)

def ofLittleEndian : Bytes → Nat
  | [] => 0
  | byte :: bytes => byte.toNat + 256 * ofLittleEndian bytes

@[simp] theorem length_littleEndian (count value : Nat) :
    (littleEndian count value).length = count := by
  induction count generalizing value with
  | zero => rfl
  | succ count ih => simp [littleEndian, ih]

theorem ofLittleEndian_littleEndian {count value : Nat} (small : value < 256 ^ count) :
    ofLittleEndian (littleEndian count value) = value := by
  induction count generalizing value with
  | zero => simp_all [littleEndian, ofLittleEndian]
  | succ count ih =>
      have quotient : value / 256 < 256 ^ count := by
        rw [Nat.div_lt_iff_lt_mul (by decide)]
        simpa [Nat.pow_succ] using small
      rw [littleEndian, ofLittleEndian, ih quotient, UInt8.toNat_ofNat']
      omega

private def readFixed (count : Nat) (bytes : Bytes) : Option (Nat × Bytes) :=
  if count ≤ bytes.length then some (ofLittleEndian (bytes.take count), bytes.drop count) else none

private theorem readFixed_littleEndian {count value : Nat} (rest : Bytes)
    (small : value < 256 ^ count) :
    readFixed count (littleEndian count value ++ rest) = some (value, rest) := by
  have front : (littleEndian count value ++ rest).take count = littleEndian count value := by simp
  have back : (littleEndian count value ++ rest).drop count = rest := by simp
  simp [readFixed, front, back, ofLittleEndian_littleEndian small]

/-- Numbers below 251 are one byte. Larger ones follow a byte that tells their width. -/
def varint : Codec Nat where
  encode value :=
    if value < 251 then [UInt8.ofNat value]
    else if value < 2 ^ 16 then 251 :: littleEndian 2 value
    else if value < 2 ^ 32 then 252 :: littleEndian 4 value
    else 253 :: littleEndian 8 value
  decode
    | [] => none
    | tag :: rest =>
        if tag.toNat < 251 then some (tag.toNat, rest)
        else if tag = 251 then readFixed 2 rest
        else if tag = 252 then readFixed 4 rest
        else if tag = 253 then readFixed 8 rest
        else none
  Fits value := value < 2 ^ 64
  decode_encode := by
    intro value rest fits
    by_cases one : value < 251
    · have small : (UInt8.ofNat value).toNat = value := by
        rw [UInt8.toNat_ofNat']
        omega
      simp [one, small]
    rw [if_neg one]
    by_cases two : value < 2 ^ 16
    · rw [if_pos two, List.cons_append]
      dsimp only
      rw [if_neg (by decide), if_pos rfl]
      exact readFixed_littleEndian rest (show value < 256 ^ 2 by omega)
    rw [if_neg two]
    by_cases four : value < 2 ^ 32
    · rw [if_pos four, List.cons_append]
      dsimp only
      rw [if_neg (by decide), if_neg (by decide), if_pos rfl]
      exact readFixed_littleEndian rest (show value < 256 ^ 4 by omega)
    · rw [if_neg four, List.cons_append]
      dsimp only
      rw [if_neg (by decide), if_neg (by decide), if_neg (by decide), if_pos rfl]
      exact readFixed_littleEndian rest (show value < 256 ^ 8 by omega)

/-- Where a `u32` is read, the form of eight bytes is refused. -/
def varint32 : Codec Nat where
  encode := varint.encode
  decode bytes := if bytes.head? = some 253 then none else varint.decode bytes
  Fits value := value < 2 ^ 32
  decode_encode := by
    intro value rest fits
    have narrow : (varint.encode value ++ rest).head? ≠ some 253 := by
      have first : UInt8.ofNat value = 253 → 251 ≤ value := by
        intro same
        have number := congrArg UInt8.toNat same
        rw [UInt8.toNat_ofNat'] at number
        change value % 256 = 253 at number
        omega
      unfold varint
      dsimp only
      rw [if_pos fits]
      split
      · next one => exact fun same => absurd (first (Option.some.inj same)) (by omega)
      split
      · exact fun same => absurd (Option.some.inj same) (by decide)
      · exact fun same => absurd (Option.some.inj same) (by decide)
    rw [if_neg narrow]
    exact varint.decode_encode rest (show value < 2 ^ 64 by omega)

private def decodeMany (codec : Codec Value) : Nat → Bytes → Option (List Value × Bytes)
  | 0, bytes => some ([], bytes)
  | count + 1, bytes => do
      let (value, bytes) ← codec.decode bytes
      let (values, bytes) ← decodeMany codec count bytes
      return (value :: values, bytes)

private theorem decodeMany_encode (codec : Codec Value) (values : List Value) (rest : Bytes)
    (fits : ∀ value ∈ values, codec.Fits value) :
    decodeMany codec values.length (values.flatMap codec.encode ++ rest) = some (values, rest) := by
  induction values with
  | nil => rfl
  | cons value values ih =>
      have tail := ih fun later member => fits later (List.mem_cons_of_mem _ member)
      simp [decodeMany, List.append_assoc, codec.decode_encode _ (fits value List.mem_cons_self), tail]

/-- A sequence is its length and then its items. -/
def seq (codec : Codec Value) : Codec (List Value) where
  encode values := varint.encode values.length ++ values.flatMap codec.encode
  decode bytes := do
    let (count, bytes) ← varint.decode bytes
    decodeMany codec count bytes
  Fits values := values.length < 2 ^ 64 ∧ ∀ value ∈ values, codec.Fits value
  decode_encode := by
    intro values rest fits
    simp [List.append_assoc, varint.decode_encode _ fits.1, decodeMany_encode codec values rest fits.2]

def option (codec : Codec Value) : Codec (Option Value) where
  encode
    | none => [0]
    | some value => 1 :: codec.encode value
  decode
    | [] => none
    | tag :: bytes =>
        if tag = 0 then some (none, bytes)
        else if tag = 1 then (codec.decode bytes).map fun (value, bytes) => (some value, bytes)
        else none
  Fits value := ∀ inner ∈ value, codec.Fits inner
  decode_encode := by
    intro value rest fits
    cases value with
    | none => rfl
    | some inner => simp [codec.decode_encode rest (fits inner rfl)]

/-- An enumeration is its variant index, a `u32`, and then the fields of that variant. -/
def variants (index : Value → Nat) (fields : Nat → Option (Codec Value)) : Codec Value where
  encode value :=
    varint32.encode (index value) ++ ((fields (index value)).map (·.encode value)).getD []
  decode bytes := do
    let (tag, bytes) ← varint32.decode bytes
    let codec ← fields tag
    codec.decode bytes
  Fits value := index value < 2 ^ 32 ∧ ∃ codec, fields (index value) = some codec ∧ codec.Fits value
  decode_encode := by
    intro value rest ⟨small, codec, found, fits⟩
    simp [found, List.append_assoc, varint32.decode_encode _ small, codec.decode_encode rest fits]

theorem fits_variants {index : Value → Nat} {fields : Nat → Option (Codec Value)} {value : Value}
    {codec : Codec Value} (tag : Nat) (small : tag < 2 ^ 32) (same : index value = tag)
    (found : fields tag = some codec) (fits : codec.Fits value) :
    (variants index fields).Fits value :=
  ⟨same ▸ small, codec, same ▸ found, fits⟩

/-- A byte string behind its length in eight bytes. -/
def lengthPrefixed : Codec Bytes where
  encode value := littleEndian 8 value.length ++ value
  decode bytes := do
    let (count, bytes) ← readFixed 8 bytes
    if count ≤ bytes.length then some (bytes.take count, bytes.drop count) else none
  Fits value := value.length < 2 ^ 64
  decode_encode := by
    intro value rest fits
    rw [List.append_assoc, readFixed_littleEndian (value ++ rest) (show value.length < 256 ^ 8 by omega)]
    simp

/-- Encodings that fit and are never empty can be told apart when they stand in a row. -/
theorem flatMap_encode_injective {codec : Codec Value} (nonempty : ∀ value, codec.encode value ≠ [])
    {left right : List Value} (leftFits : ∀ value ∈ left, codec.Fits value)
    (rightFits : ∀ value ∈ right, codec.Fits value)
    (same : left.flatMap codec.encode = right.flatMap codec.encode) : left = right := by
  induction left generalizing right with
  | nil =>
      cases right with
      | nil => rfl
      | cons value right =>
          rw [List.flatMap_nil, List.flatMap_cons] at same
          exact absurd (List.append_eq_nil_iff.mp same.symm).1 (nonempty value)
  | cons value left ih =>
      cases right with
      | nil =>
          rw [List.flatMap_nil, List.flatMap_cons] at same
          exact absurd (List.append_eq_nil_iff.mp same).1 (nonempty value)
      | cons other right =>
          obtain ⟨fits, leftLater⟩ := List.forall_mem_cons.mp leftFits
          obtain ⟨otherFits, rightLater⟩ := List.forall_mem_cons.mp rightFits
          rw [List.flatMap_cons, List.flatMap_cons] at same
          have decoded := codec.decode_encode (left.flatMap codec.encode) fits
          rw [same, codec.decode_encode _ otherFits] at decoded
          obtain ⟨head, tail⟩ := Prod.mk.inj (Option.some.inj decoded)
          rw [head, ih leftLater rightLater tail.symm]

theorem decode_encode_nil (codec : Codec Value) {value : Value} (fits : codec.Fits value) :
    codec.decode (codec.encode value) = some (value, []) := by
  have decoded := codec.decode_encode [] fits
  rwa [List.append_nil] at decoded

/-- Values that fit are told apart by their encodings. -/
theorem encode_inj (codec : Codec Value) {left right : Value} (leftFits : codec.Fits left)
    (rightFits : codec.Fits right) (same : codec.encode left = codec.encode right) :
    left = right := by
  have decoded := codec.decode_encode_nil leftFits
  rw [same, codec.decode_encode_nil rightFits] at decoded
  exact (Prod.mk.inj (Option.some.inj decoded)).1.symm

end Codec

end Peerdup.Foundation
