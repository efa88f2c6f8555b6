import Peerdup.Foundation.Text
import Peerdup.MemberHex
import Peerdup.Rotation

/-!
# Which texts are read as member ids

`from_hex` goes over the bytes in pairs. It takes a plus sign for a digit, and it panics
where a pair ends inside a character.
-/

set_option autoImplicit false

namespace Peerdup.Auth

open Foundation Rotation

variable {high low : UInt8} {bytes rest out : Bytes} {index : Nat}

/-- Every pair of bytes is taken by `from_str_radix`. -/
def Taken : Bytes → Prop
  | [] => True
  | [_] => False
  | high :: low :: rest => (hexByte high low).isSome = true ∧ Taken rest

/-- The first pair that `from_str_radix` does not take is not cut out of a character. -/
def RefusedWhole (bytes : Bytes) : Prop :=
  ∃ front high low rest, bytes = front ++ high :: low :: rest ∧ Taken front ∧
    hexByte high low = none ∧ isCharBoundary (high :: low :: rest) = true ∧
    isCharBoundary rest = true

theorem ascii_of_hexDigit {byte : UInt8} (digit : (hexDigit byte).isSome = true) :
    byte < 0x80 := by
  have each : ∀ value : Fin 256, (hexDigit (UInt8.ofNat value.val)).isSome = true →
      UInt8.ofNat value.val < 0x80 := by decide +kernel
  have held := each ⟨byte.toNat, byte.toNat_lt⟩
  rw [UInt8.ofNat_toNat] at held
  exact held digit

theorem ascii_of_hexByte (taken : (hexByte high low).isSome = true) : high < 0x80 ∧ low < 0x80 := by
  unfold hexByte at taken
  split at taken
  · next plus =>
      rw [Option.isSome_map] at taken
      exact ⟨plus ▸ by decide, ascii_of_hexDigit taken⟩
  · split at taken
    · next upper lower =>
        exact ⟨ascii_of_hexDigit (upper ▸ rfl), ascii_of_hexDigit (lower ▸ rfl)⟩
    · cases taken

theorem isCharBoundary_of_ascii {byte : UInt8} (plain : byte < 0x80) :
    isCharBoundary (byte :: rest) = true := by
  rw [isCharBoundary, decide_eq_true plain, Bool.true_or]

theorem isCharBoundary_of_taken (taken : Taken bytes) : isCharBoundary bytes = true := by
  cases bytes with
  | nil => rfl
  | cons high bytes =>
      cases bytes with
      | nil => exact taken.elim
      | cons low rest => exact isCharBoundary_of_ascii (ascii_of_hexByte taken.1).1

theorem isCharBoundary_of_refused (refused : RefusedWhole bytes) : isCharBoundary bytes = true := by
  obtain ⟨front, high, low, rest, rfl, taken, _, boundary, _⟩ := refused
  cases front with
  | nil => exact boundary
  | cons first front =>
      cases front with
      | nil => exact taken.elim
      | cons second front => exact isCharBoundary_of_ascii (ascii_of_hexByte taken.1).1

theorem refusedWhole_cons (taken : (hexByte high low).isSome = true) :
    RefusedWhole (high :: low :: rest) ↔ RefusedWhole rest := by
  constructor
  · rintro ⟨front, first, second, later, same, pairs, none_, boundaries⟩
    cases front with
    | nil =>
        cases same
        rw [none_] at taken
        cases taken
    | cons _ front =>
        cases front with
        | nil => exact pairs.elim
        | cons _ front =>
            cases same
            exact ⟨front, first, second, later, rfl, pairs.2, none_, boundaries⟩
  · rintro ⟨front, first, second, later, rfl, pairs, none_, boundaries⟩
    exact ⟨high :: low :: front, first, second, later, rfl, ⟨taken, pairs⟩, none_, boundaries⟩

theorem taken_append {front back : Bytes} (pairs : Taken front) (taken : Taken (front ++ back)) :
    Taken back := by
  induction front using Taken.induct with
  | case1 => exact taken
  | case2 byte => exact pairs.elim
  | case3 high low rest ih => exact ih pairs.2 taken.2

theorem not_refused_of_taken (taken : Taken bytes) : ¬ RefusedWhole bytes := by
  rintro ⟨front, high, low, rest, rfl, pairs, refused, _⟩
  have pair := (taken_append pairs taken).1
  rw [refused] at pair
  cases pair

/-- The loop's three ends: all pairs are taken, one is refused, or it panics. -/
theorem fromHexFrom_cases (index : Nat) (bytes : Bytes) :
    (Taken bytes ∧ ∃ out, fromHexFrom index bytes = some (.ok out)) ∨
      (RefusedWhole bytes ∧ ∃ failure, fromHexFrom index bytes = some (.error failure)) ∨
      (¬ Taken bytes ∧ ¬ RefusedWhole bytes ∧ fromHexFrom index bytes = none) := by
  induction index, bytes using fromHexFrom.induct with
  | case1 index => exact .inl ⟨trivial, [], rfl⟩
  | case2 index byte =>
      refine .inr (.inr ⟨id, ?_, rfl⟩)
      rintro ⟨front, first, second, later, same, pairs, _⟩
      have length := congrArg List.length same
      rw [List.length_append] at length
      simp only [List.length_cons, List.length_nil] at length
      omega
  | case3 index high low rest cut =>
      have notWhole : ¬ (isCharBoundary (high :: low :: rest) = true ∧
          isCharBoundary rest = true) := by
        rintro ⟨first, second⟩
        rw [first, second] at cut
        cases cut
      refine .inr (.inr ⟨?_, ?_, ?_⟩)
      · intro taken
        exact notWhole ⟨isCharBoundary_of_taken taken, isCharBoundary_of_taken taken.2⟩
      · intro refused
        have whole := isCharBoundary_of_refused refused
        by_cases taken : (hexByte high low).isSome = true
        · exact notWhole ⟨whole, isCharBoundary_of_refused ((refusedWhole_cons taken).mp refused)⟩
        · obtain ⟨front, first, second, later, same, pairs, none_, boundaries⟩ := refused
          cases front with
          | nil =>
              cases same
              exact notWhole boundaries
          | cons _ front =>
              cases front with
              | nil => exact pairs.elim
              | cons _ front =>
                  cases same
                  exact taken pairs.1
      · rw [fromHexFrom, if_pos cut]
  | case4 index high low rest whole refused =>
      rw [Bool.or_eq_true, Bool.not_eq_true', Bool.not_eq_true', not_or] at whole
      refine .inr (.inl ⟨⟨[], high, low, rest, rfl, trivial, refused, ?_⟩,
        ["invalid hex byte at " ++ toString index], ?_⟩)
      · exact ⟨(Bool.not_eq_false _).mp whole.1, (Bool.not_eq_false _).mp whole.2⟩
      · rw [fromHexFrom, (Bool.not_eq_false _).mp whole.1, (Bool.not_eq_false _).mp whole.2, refused]
        rfl
  | case5 index high low rest whole byte taken ih =>
      have pair : (hexByte high low).isSome = true := taken ▸ rfl
      have step : fromHexFrom index (high :: low :: rest) =
          (fromHexFrom (index + 2) rest).map (Except.map (byte :: ·)) := by
        rw [fromHexFrom, if_neg whole, taken]
      rw [step, Taken, refusedWhole_cons pair]
      rcases ih with ⟨pairs, out, done⟩ | ⟨refused, failure, done⟩ | ⟨notTaken, notRefused, done⟩
      · rw [done]
        exact .inl ⟨⟨pair, pairs⟩, byte :: out, rfl⟩
      · rw [done]
        exact .inr (.inl ⟨refused, failure, rfl⟩)
      · rw [done]
        exact .inr (.inr ⟨fun both => notTaken both.2, notRefused, rfl⟩)

/-- The digit's letter, in lower case. -/
def digitLetter (byte : UInt8) : Char := (Char.ofNat byte.toNat).toLower

/-- The letters of `to_hex`. -/
def hexLetters (bytes : Bytes) : List Char :=
  bytes.flatMap fun byte => [Nat.digitChar (byte.toNat / 16), Nat.digitChar (byte.toNat % 16)]

theorem toHex_eq (id : MemberId) : toHex id = String.ofList (hexLetters id.bytes) := rfl

theorem hexDigit_spec {byte : UInt8} {value : Nat} (digit : hexDigit byte = some value) :
    value < 16 ∧ Nat.digitChar value = digitLetter byte ∧ byte ≠ 0x2B := by
  have each : ∀ number : Fin 256, ∀ value ∈ hexDigit (UInt8.ofNat number.val),
      value < 16 ∧ Nat.digitChar value = digitLetter (UInt8.ofNat number.val) ∧
        UInt8.ofNat number.val ≠ 0x2B := by decide +kernel
  have held := each ⟨byte.toNat, byte.toNat_lt⟩
  rw [UInt8.ofNat_toNat] at held
  exact held value digit

theorem hexDigit_digitChar {value : Nat} (small : value < 16) :
    hexDigit (Nat.digitChar value).val.toUInt8 = some value ∧ (Nat.digitChar value).utf8Size = 1 := by
  have each : ∀ value : Fin 16, hexDigit (Nat.digitChar value.val).val.toUInt8 = some value.val ∧
      (Nat.digitChar value.val).utf8Size = 1 := by decide
  exact each ⟨value, small⟩

theorem hexByte_of_digits {upper lower : Nat} (first : hexDigit high = some upper)
    (second : hexDigit low = some lower) : hexByte high low = some (UInt8.ofNat (upper * 16 + lower)) := by
  rw [hexByte, if_neg (hexDigit_spec first).2.2, first, second]

theorem taken_of_digits {bytes : Bytes} (even : bytes.length % 2 = 0)
    (digits : ∀ byte ∈ bytes, (hexDigit byte).isSome = true) : Taken bytes := by
  induction bytes using Taken.induct with
  | case1 => trivial
  | case2 byte => cases even
  | case3 high low rest ih =>
      obtain ⟨first, digits⟩ := List.forall_mem_cons.mp digits
      obtain ⟨second, digits⟩ := List.forall_mem_cons.mp digits
      obtain ⟨upper, high_eq⟩ := Option.isSome_iff_exists.mp first
      obtain ⟨lower, low_eq⟩ := Option.isSome_iff_exists.mp second
      have evenRest : rest.length % 2 = 0 := by
        rw [List.length_cons, List.length_cons] at even
        omega
      exact ⟨hexByte_of_digits high_eq low_eq ▸ rfl, ih evenRest digits⟩

/-- Pairs of digits are written again in lower case. -/
theorem hexLetters_of_fromHexFrom (index : Nat) {bytes out : Bytes}
    (digits : ∀ byte ∈ bytes, (hexDigit byte).isSome = true)
    (read : fromHexFrom index bytes = some (.ok out)) :
    out.length * 2 = bytes.length ∧ hexLetters out = bytes.map digitLetter := by
  induction index, bytes using fromHexFrom.induct generalizing out with
  | case1 index =>
      cases read
      exact ⟨rfl, rfl⟩
  | case2 index byte => cases read
  | case3 index high low rest cut =>
      rw [fromHexFrom, if_pos cut] at read
      cases read
  | case4 index high low rest whole refused =>
      rw [fromHexFrom, if_neg whole, refused] at read
      cases read
  | case5 index high low rest whole byte taken ih =>
      obtain ⟨first, digits⟩ := List.forall_mem_cons.mp digits
      obtain ⟨second, digits⟩ := List.forall_mem_cons.mp digits
      obtain ⟨upper, high_eq⟩ := Option.isSome_iff_exists.mp first
      obtain ⟨lower, low_eq⟩ := Option.isSome_iff_exists.mp second
      obtain ⟨upperSmall, upperLetter, _⟩ := hexDigit_spec high_eq
      obtain ⟨lowerSmall, lowerLetter, _⟩ := hexDigit_spec low_eq
      cases (hexByte_of_digits high_eq low_eq).symm.trans taken
      rw [fromHexFrom, if_neg whole, taken] at read
      obtain ⟨result, later, same⟩ := Option.map_eq_some_iff.mp read
      cases result with
      | error failure => cases same
      | ok others =>
          cases same
          obtain ⟨length, letters⟩ := ih digits later
          have value : (UInt8.ofNat (upper * 16 + lower)).toNat = upper * 16 + lower := by
            rw [UInt8.toNat_ofNat']
            omega
          have upperHalf : (upper * 16 + lower) / 16 = upper := by omega
          have lowerHalf : (upper * 16 + lower) % 16 = lower := by omega
          refine ⟨?_, ?_⟩
          · rw [List.length_cons, List.length_cons, List.length_cons, ← length]
            omega
          · rw [hexLetters, List.flatMap_cons, value, upperHalf, lowerHalf, upperLetter, lowerLetter,
              List.map_cons, List.map_cons, ← letters]
            rfl

theorem digits_hexLetters (bytes : Bytes) :
    (∀ letter ∈ hexLetters bytes, letter.utf8Size = 1 ∧
      (hexDigit letter.val.toUInt8).isSome = true) ∧ (hexLetters bytes).length = bytes.length * 2 := by
  induction bytes with
  | nil => exact ⟨fun _ member => (by cases member), rfl⟩
  | cons byte bytes ih =>
      have below := byte.toNat_lt
      obtain ⟨upper, upperSize⟩ := hexDigit_digitChar (show byte.toNat / 16 < 16 by omega)
      obtain ⟨lower, lowerSize⟩ := hexDigit_digitChar (show byte.toNat % 16 < 16 by omega)
      rw [hexLetters, List.flatMap_cons, ← hexLetters]
      refine ⟨?_, ?_⟩
      · refine List.forall_mem_cons.mpr ⟨⟨upperSize, upper ▸ rfl⟩, ?_⟩
        exact List.forall_mem_cons.mpr ⟨⟨lowerSize, lower ▸ rfl⟩, ih.1⟩
      · rw [List.length_append, ih.2]
        simp only [List.length_cons, List.length_nil]
        omega

/-- What `to_hex` writes is read back. -/
theorem fromHexFrom_hexLetters (index : Nat) (bytes : Bytes) :
    fromHexFrom index ((hexLetters bytes).map fun letter => letter.val.toUInt8) = some (.ok bytes) := by
  induction bytes generalizing index with
  | nil => rfl
  | cons byte bytes ih =>
      have below := byte.toNat_lt
      obtain ⟨upper, _⟩ := hexDigit_digitChar (show byte.toNat / 16 < 16 by omega)
      obtain ⟨lower, _⟩ := hexDigit_digitChar (show byte.toNat % 16 < 16 by omega)
      have taken := hexByte_of_digits upper lower
      have whole : byte.toNat / 16 * 16 + byte.toNat % 16 = byte.toNat := by omega
      rw [whole, UInt8.ofNat_toNat] at taken
      have digits : ∀ letter ∈ (hexLetters bytes).map fun letter => letter.val.toUInt8,
          (hexDigit letter).isSome = true := by
        intro letter member
        obtain ⟨char, listed, rfl⟩ := List.mem_map.mp member
        exact ((digits_hexLetters bytes).1 char listed).2
      have even : ((hexLetters bytes).map fun letter => letter.val.toUInt8).length % 2 = 0 := by
        rw [List.length_map, (digits_hexLetters bytes).2]
        omega
      have pairs := isCharBoundary_of_taken (taken_of_digits even digits)
      have digit : (hexDigit (Nat.digitChar (byte.toNat / 16)).val.toUInt8).isSome = true := upper ▸ rfl
      rw [hexLetters, List.flatMap_cons, ← hexLetters, List.cons_append, List.cons_append,
        List.nil_append, List.map_cons, List.map_cons, fromHexFrom,
        isCharBoundary_of_ascii (ascii_of_hexDigit digit), pairs, taken]
      exact congrArg (Option.map (Except.map (byte :: ·))) (ih (index + 2))

/-- `char::is_ascii_hexdigit`. -/
def isAsciiHexdigit (letter : Char) : Bool :=
  let point := letter.toNat
  (0x30 ≤ point && point ≤ 0x39) || (0x41 ≤ point && point ≤ 0x46) || (0x61 ≤ point && point ≤ 0x66)

/-- 64 hex digits, in either case. -/
def IsHexId (text : String) : Prop :=
  text.toList.length = 64 ∧ ∀ letter ∈ text.toList, isAsciiHexdigit letter = true

instance (text : String) : Decidable (IsHexId text) :=
  have := List.decidableBAll (fun letter => isAsciiHexdigit letter = true) text.toList
  instDecidableAnd

theorem letter_of_ascii {letter : Char} (single : letter.utf8Size = 1) :
    isAsciiHexdigit letter = (hexDigit letter.val.toUInt8).isSome ∧
      digitLetter letter.val.toUInt8 = letter.toLower := by
  have each : ∀ point : Fin 128, isAsciiHexdigit (Char.ofNat point.val) =
        (hexDigit (Char.ofNat point.val).val.toUInt8).isSome ∧
      digitLetter (Char.ofNat point.val).val.toUInt8 = (Char.ofNat point.val).toLower := by
    decide +kernel
  have small : letter.toNat < 128 := Nat.lt_succ_of_le (Char.utf8Size_eq_one_iff.mp single)
  have held := each ⟨letter.toNat, small⟩
  rwa [Char.ofNat_toNat] at held

theorem ascii_of_isAsciiHexdigit {letter : Char} (digit : isAsciiHexdigit letter = true) :
    letter.utf8Size = 1 := by
  refine Char.utf8Size_eq_one_iff.mpr (UInt32.le_iff_toNat_le.mpr ?_)
  simp only [isAsciiHexdigit, Bool.or_eq_true, Bool.and_eq_true, decide_eq_true_eq] at digit
  change letter.toNat ≤ 127
  omega

/-- The bytes of the text. -/
def textBytes (text : String) : Bytes := text.toUTF8.data.toList

theorem fromHex_of_length {text : String} (length : (textBytes text).length = 64) :
    fromHex text = (fromHexFrom 0 (textBytes text)).map (Except.map (.ofBytes 32)) :=
  if_neg (not_not.mpr length)

theorem isHexId_iff (text : String) : IsHexId text ↔ (textBytes text).length = 64 ∧
    ∀ byte ∈ textBytes text, (hexDigit byte).isSome = true := by
  constructor
  · rintro ⟨length, digits⟩
    have plain : ∀ letter ∈ text.toList, letter.utf8Size = 1 := fun letter member =>
      ascii_of_isAsciiHexdigit (digits letter member)
    rw [textBytes, utf8_of_ascii plain, List.length_map]
    refine ⟨length, ?_⟩
    intro byte member
    obtain ⟨letter, listed, rfl⟩ := List.mem_map.mp member
    rw [← (letter_of_ascii (plain letter listed)).1]
    exact digits letter listed
  · rintro ⟨length, digits⟩
    have plain := utf8Size_of_ascii fun byte member => ascii_of_hexDigit (digits byte member)
    rw [textBytes, utf8_of_ascii plain] at length digits
    rw [List.length_map] at length
    refine ⟨length, ?_⟩
    intro letter member
    rw [(letter_of_ascii (plain letter member)).1]
    exact digits _ (List.mem_map.mpr ⟨letter, member, rfl⟩)

theorem taken_of_isHexId {text : String} (hex : IsHexId text) : Taken (textBytes text) := by
  obtain ⟨length, digits⟩ := (isHexId_iff text).mp hex
  exact taken_of_digits (by rw [length]) digits

/-- What is expected of `from_hex` on one text: hex ids are read and come back in lower case,
everything else is an error. -/
structure ReadExactly (text : String) : Prop where
  accepted : (∃ id, fromHex text = some (.ok id)) ↔ IsHexId text
  refused : ¬ IsHexId text → ∃ failure, fromHex text = some (.error failure)
  lowered : ∀ id, fromHex text = some (.ok id) → toHex id = text.toLower

theorem fromHex_toHex (id : MemberId) : fromHex (toHex id) = some (.ok id) := by
  have digits := digits_hexLetters id.bytes
  have bytes : textBytes (toHex id) = (hexLetters id.bytes).map fun letter => letter.val.toUInt8 := by
    rw [textBytes, toHex_eq]
    exact utf8_ofList fun letter member => (digits.1 letter member).1
  have length : (textBytes (toHex id)).length = 64 := by
    rw [bytes, List.length_map, digits.2, id.length_bytes]
  rw [fromHex_of_length length, bytes, fromHexFrom_hexLetters]
  exact congrArg (some ∘ Except.ok) (Octets.ofBytes_bytes id)

theorem toHex_of_fromHex {text : String} {id : MemberId} (hex : IsHexId text)
    (read : fromHex text = some (.ok id)) : toHex id = text.toLower := by
  obtain ⟨length, digits⟩ := (isHexId_iff text).mp hex
  have plain : ∀ letter ∈ text.toList, letter.utf8Size = 1 := fun letter member =>
    ascii_of_isAsciiHexdigit (hex.2 letter member)
  rw [fromHex_of_length length] at read
  obtain ⟨result, loop, same⟩ := Option.map_eq_some_iff.mp read
  cases result with
  | error failure => cases same
  | ok out =>
      cases same
      obtain ⟨outLength, letters⟩ := hexLetters_of_fromHexFrom 0 digits loop
      have exact_ : out.length = 32 := by omega
      have lower : text.toLower = text.map Char.toLower := rfl
      rw [toHex_eq, Octets.bytes_ofBytes exact_, letters, textBytes, utf8_of_ascii plain, List.map_map,
        lower, ← String.toList_inj, String.toList_ofList, String.toList_map]
      exact List.map_congr_left fun letter member => (letter_of_ascii (plain letter member)).2

/-- Not 64 bytes, or 64 hex digits, or refused before a plus sign or a cut can do harm. -/
def HarmlesslyRead (text : String) : Prop :=
  (textBytes text).length ≠ 64 ∨ IsHexId text ∨ RefusedWhole (textBytes text)

/-- `from_hex` reads back what `to_hex` writes, and it is exact on just these texts. -/
theorem fromHex_exact_iff (text : String) : (∀ id, fromHex (toHex id) = some (.ok id)) ∧
    (ReadExactly text ↔ HarmlesslyRead text) := by
  refine ⟨fromHex_toHex, ?_⟩
  by_cases length : (textBytes text).length = 64
  swap
  · have failed : fromHex text = some (.error ["member id hex must be 64 chars (got " ++
        toString (textBytes text).length ++ ")"]) := if_pos length
    have notHex : ¬ IsHexId text := fun hex => length ((isHexId_iff text).mp hex).1
    refine iff_of_true ⟨?_, fun _ => ⟨_, failed⟩, ?_⟩ (.inl length)
    · refine iff_of_false ?_ notHex
      rintro ⟨id, read⟩
      cases failed.symm.trans read
    · intro id read
      cases failed.symm.trans read
  have loop := fromHex_of_length length
  rcases fromHexFrom_cases 0 (textBytes text) with
    ⟨taken, out, done⟩ | ⟨refused, failure, done⟩ | ⟨notTaken, notRefused, done⟩
  · rw [done] at loop
    by_cases hex : IsHexId text
    · exact iff_of_true ⟨iff_of_true ⟨_, loop⟩ hex, fun notHex => absurd hex notHex,
        fun id read => toHex_of_fromHex hex read⟩ (.inr (.inl hex))
    · refine iff_of_false (fun exact_ => hex (exact_.accepted.mp ⟨_, loop⟩)) ?_
      rintro (short | digits | refused)
      · exact short length
      · exact hex digits
      · exact not_refused_of_taken taken refused
  · rw [done] at loop
    have notHex : ¬ IsHexId text := fun hex =>
      not_refused_of_taken (taken_of_isHexId hex) refused
    refine iff_of_true ⟨iff_of_false ?_ notHex, fun _ => ⟨failure, loop⟩, ?_⟩ (.inr (.inr refused))
    · rintro ⟨id, read⟩
      cases loop.symm.trans read
    · intro id read
      cases loop.symm.trans read
  · rw [done] at loop
    have notHex : ¬ IsHexId text := fun hex => notTaken (taken_of_isHexId hex)
    refine iff_of_false ?_ ?_
    · intro exact_
      obtain ⟨failure, failed⟩ := exact_.refused notHex
      cases loop.symm.trans failed
    · rintro (short | hex | refused)
      · exact short length
      · exact notHex hex
      · exact notRefused refused

/-- A plus sign counts as a digit. -/
def plusId : String := String.ofList ('+' :: List.replicate 63 'a')

/-- The 64 bytes hold a character that the last pair cuts. -/
def cutId : String := String.ofList (List.replicate 61 'a' ++ ['é', 'a'])

/-- Neither text is a member id. One is taken for one, and the other panics. -/
theorem plusId_misread :
    (¬ IsHexId plusId ∧ ∃ id, fromHex plusId = some (.ok id)) ∧
      ¬ IsHexId cutId ∧ fromHex cutId = none :=
  ⟨⟨by decide +kernel, .ofBytes 32 (0x0A :: List.replicate 31 0xAA), by decide +kernel⟩,
    by decide +kernel, by decide +kernel⟩

end Peerdup.Auth
