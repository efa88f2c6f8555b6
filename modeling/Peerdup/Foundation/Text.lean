import Mathlib.Data.List.DropRight
import Peerdup.Foundation.Codec

/-!
# Text around binary values

Strings inside bincode, white space around a string, and unpadded URL-safe base64, which
writes three bytes as four characters.
-/

set_option autoImplicit false

namespace Peerdup.Foundation

namespace Codec

/-- A string is the sequence of its UTF-8 bytes. -/
def text : Codec String :=
  byte.seq.via (fun string => string.toUTF8.data.toList) fun bytes => String.fromUTF8? ⟨bytes.toArray⟩

theorem text_fits {string : String} (short : string.utf8ByteSize < 2 ^ 64) : text.Fits string := by
  refine ⟨⟨short, fun _ _ => trivial⟩, ?_⟩
  have valid : string.toUTF8.IsValidUTF8 := string.isValidUTF8
  change String.fromUTF8? string.toUTF8 = some string
  unfold String.fromUTF8?
  rw [dif_pos valid]
  rfl

end Codec

/-- ASCII characters are their own bytes. -/
theorem utf8_ofList {letters : List Char} (plain : ∀ letter ∈ letters, letter.utf8Size = 1) :
    (String.ofList letters).toUTF8.data.toList = letters.map fun letter => letter.val.toUInt8 := by
  rw [String.toUTF8_eq_toByteArray, String.toByteArray_ofList, List.utf8Encode]
  induction letters with
  | nil => rfl
  | cons letter letters ih =>
      obtain ⟨single, others⟩ := List.forall_mem_cons.mp plain
      rw [List.map_cons, ← ih others, List.flatMap_cons, String.utf8EncodeChar_eq_singleton single]
      simp

/-- Text whose bytes are ASCII is made of ASCII characters. -/
theorem utf8Size_of_ascii {text : String}
    (plain : ∀ byte ∈ text.toUTF8.data.toList, byte < 0x80) :
    ∀ letter ∈ text.toList, letter.utf8Size = 1 := by
  intro letter member
  have encoded : ∀ byte ∈ String.utf8EncodeChar letter, byte < 0x80 := by
    intro byte inside
    refine plain byte ?_
    have whole : text.toUTF8 = (String.ofList text.toList).toUTF8 := by rw [String.ofList_toList]
    rw [whole, String.toUTF8_eq_toByteArray, String.toByteArray_ofList, List.utf8Encode]
    simpa using ⟨letter, member, inside⟩
  unfold String.utf8EncodeChar at encoded
  have last : ¬ UInt8.ofNat (letter.val.toNat % 64 + 128) < 0x80 := by
    intro small
    have value := UInt8.lt_iff_toNat_lt.mp small
    rw [UInt8.toNat_ofNat'] at value
    have bound : (0x80 : UInt8).toNat = 128 := rfl
    omega
  dsimp only at encoded
  by_cases single : letter.val.toNat ≤ 127
  · exact Char.utf8Size_eq_one_iff.mpr single
  rw [if_neg single] at encoded
  split at encoded
  · exact absurd (encoded _ (by simp)) last
  split at encoded
  · exact absurd (encoded _ (by simp)) last
  · exact absurd (encoded _ (by simp)) last

/-- The bytes of a text that is ASCII, letter by letter. -/
theorem utf8_of_ascii {text : String} (plain : ∀ letter ∈ text.toList, letter.utf8Size = 1) :
    text.toUTF8.data.toList = text.toList.map fun letter => letter.val.toUInt8 := by
  have bytes := utf8_ofList plain
  rwa [String.ofList_toList] at bytes

/-- `char::is_whitespace`. -/
def isWhiteSpace (char : Char) : Bool :=
  let point := char.toNat
  (0x09 ≤ point && point ≤ 0x0D) || point = 0x20 || point = 0x85 || point = 0xA0 ||
    point = 0x1680 || (0x2000 ≤ point && point ≤ 0x200A) || point = 0x2028 || point = 0x2029 ||
    point = 0x202F || point = 0x205F || point = 0x3000

/-- `str::trim`. -/
def trim (text : List Char) : List Char := (text.dropWhile isWhiteSpace).rdropWhile isWhiteSpace

/-- Text without white space of its own is all that is left of it. -/
theorem trim_surrounded {front text back : List Char}
    (before : ∀ char ∈ front, isWhiteSpace char = true)
    (inside : ∀ char ∈ text, isWhiteSpace char = false)
    (after : ∀ char ∈ back, isWhiteSpace char = true) : trim (front ++ text ++ back) = text := by
  have reversed : ∀ char ∈ back.reverse, isWhiteSpace char = true := fun char member =>
    after char (List.mem_reverse.mp member)
  rw [trim, List.append_assoc, List.dropWhile_append_of_pos before]
  cases text with
  | nil =>
      have nothing : (back ++ []).dropWhile isWhiteSpace = [] := List.dropWhile_append_of_pos after
      rw [List.append_nil] at nothing
      rw [List.nil_append, nothing]
      rfl
  | cons char text =>
      have first : ¬ isWhiteSpace char = true := by
        rw [inside char List.mem_cons_self]
        exact Bool.false_ne_true
      have last : (char :: text).rdropWhile isWhiteSpace = char :: text := by
        refine List.rdropWhile_eq_self_iff.mpr fun nonempty => ?_
        rw [inside _ (List.getLast_mem nonempty)]
        exact Bool.false_ne_true
      rw [List.cons_append, List.dropWhile_cons_of_neg first, ← List.cons_append, List.rdropWhile,
        List.reverse_append, List.dropWhile_append_of_pos reversed]
      exact last

namespace Base64

/-- The character of six bits. -/
def digit (bits : Nat) : Char :=
  if bits < 26 then Char.ofNat (0x41 + bits)
  else if bits < 52 then Char.ofNat (0x61 + (bits - 26))
  else if bits < 62 then Char.ofNat (0x30 + (bits - 52))
  else if bits = 62 then '-'
  else '_'

def value (char : Char) : Option Nat :=
  let point := char.toNat
  if 0x41 ≤ point ∧ point ≤ 0x5A then some (point - 0x41)
  else if 0x61 ≤ point ∧ point ≤ 0x7A then some (point - 0x61 + 26)
  else if 0x30 ≤ point ∧ point ≤ 0x39 then some (point - 0x30 + 52)
  else if char = '-' then some 62
  else if char = '_' then some 63
  else none

def encode : Bytes → List Char
  | [] => []
  | [first] => [digit (first.toNat / 4), digit (first.toNat % 4 * 16)]
  | [first, second] =>
      [digit (first.toNat / 4), digit (first.toNat % 4 * 16 + second.toNat / 16),
        digit (second.toNat % 16 * 4)]
  | first :: second :: third :: rest =>
      digit (first.toNat / 4) :: digit (first.toNat % 4 * 16 + second.toNat / 16) ::
        digit (second.toNat % 16 * 4 + third.toNat / 64) :: digit (third.toNat % 64) :: encode rest

/-- Bits that no byte needs have to be zero, and a single character is no byte. -/
def decode : List Char → Option Bytes
  | [] => some []
  | [_] => none
  | [first, second] => do
      let first ← value first
      let second ← value second
      if second % 16 ≠ 0 then none else some [UInt8.ofNat (first * 4 + second / 16)]
  | [first, second, third] => do
      let first ← value first
      let second ← value second
      let third ← value third
      if third % 4 ≠ 0 then none
      else some [UInt8.ofNat (first * 4 + second / 16),
        UInt8.ofNat (second % 16 * 16 + third / 4)]
  | first :: second :: third :: fourth :: rest => do
      let first ← value first
      let second ← value second
      let third ← value third
      let fourth ← value fourth
      let bytes ← decode rest
      return UInt8.ofNat (first * 4 + second / 16) ::
        UInt8.ofNat (second % 16 * 16 + third / 4) ::
        UInt8.ofNat (third % 4 * 64 + fourth) :: bytes

theorem value_digit {bits : Nat} (small : bits < 64) : value (digit bits) = some bits := by
  have each : ∀ bits : Fin 64, value (digit bits.val) = some bits.val := by decide +kernel
  exact each ⟨bits, small⟩

theorem isWhiteSpace_digit {bits : Nat} (small : bits < 64) : isWhiteSpace (digit bits) = false := by
  have each : ∀ bits : Fin 64, isWhiteSpace (digit bits.val) = false := by decide +kernel
  exact each ⟨bits, small⟩

private theorem byte_eq (byte : UInt8) {number : Nat} (same : number = byte.toNat) :
    UInt8.ofNat number = byte := by
  rw [same]
  exact UInt8.ofNat_toNat

theorem decode_encode (bytes : Bytes) : decode (encode bytes) = some bytes := by
  induction bytes using encode.induct with
  | case1 => rfl
  | case2 first =>
      have below := first.toNat_lt
      rw [encode, decode, value_digit (by omega), value_digit (by omega)]
      simp only [Option.bind_eq_bind, Option.bind_some]
      rw [if_neg (by omega), byte_eq first (by omega)]
  | case3 first second =>
      have below := first.toNat_lt
      have next := second.toNat_lt
      rw [encode, decode, value_digit (by omega), value_digit (by omega), value_digit (by omega)]
      simp only [Option.bind_eq_bind, Option.bind_some]
      rw [if_neg (by omega), byte_eq first (by omega), byte_eq second (by omega)]
  | case4 first second third rest ih =>
      have below := first.toNat_lt
      have next := second.toNat_lt
      have last := third.toNat_lt
      rw [encode, decode, value_digit (by omega), value_digit (by omega), value_digit (by omega),
        value_digit (by omega), ih]
      simp only [Option.bind_eq_bind, Option.bind_some, Option.pure_def]
      rw [byte_eq first (by omega), byte_eq second (by omega),
        byte_eq third (by omega)]

theorem isWhiteSpace_encode (bytes : Bytes) : ∀ char ∈ encode bytes, isWhiteSpace char = false := by
  have spaceless : ∀ bits chars, bits < 64 → (∀ char ∈ chars, isWhiteSpace char = false) →
      ∀ char ∈ digit bits :: chars, isWhiteSpace char = false := fun bits chars small others =>
    List.forall_mem_cons.mpr ⟨isWhiteSpace_digit small, others⟩
  have nothing : ∀ char ∈ ([] : List Char), isWhiteSpace char = false := fun _ member => by cases member
  induction bytes using encode.induct with
  | case1 => exact nothing
  | case2 first =>
      have below := first.toNat_lt
      exact spaceless _ _ (by omega) (spaceless _ _ (by omega) nothing)
  | case3 first second =>
      have below := first.toNat_lt
      have next := second.toNat_lt
      exact spaceless _ _ (by omega) (spaceless _ _ (by omega) (spaceless _ _ (by omega) nothing))
  | case4 first second third rest ih =>
      have below := first.toNat_lt
      have next := second.toNat_lt
      have last := third.toNat_lt
      exact spaceless _ _ (by omega) (spaceless _ _ (by omega)
        (spaceless _ _ (by omega) (spaceless _ _ (by omega) ih)))

end Base64

end Peerdup.Foundation
