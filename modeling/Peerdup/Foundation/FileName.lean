import Mathlib.Algebra.Group.Nat.Defs
import Mathlib.Data.List.DropRight
import Peerdup.Foundation.Path

/-! Extensions of file names, and names made of numbers. -/

set_option autoImplicit false

namespace Peerdup.Foundation

/-- `Path::extension`: what follows the last dot, unless nothing stands before that dot. -/
def extension (name : Name) : Option Name :=
  -- The dot itself stays with what is before it.
  let before := name.rdropWhile (· ≠ 0x2E)
  if name = ascii ".." || before = [] || before = [0x2E] then none
  else some (name.rtakeWhile (· ≠ 0x2E))

theorem extension_append {stem suffix : Name} (named : stem ≠ []) (suffixed : suffix ≠ [])
    (dotless : 0x2E ∉ suffix) : extension (stem ++ 0x2E :: suffix) = some suffix := by
  have passed : ∀ byte ∈ suffix.reverse, decide (byte ≠ (0x2E : UInt8)) = true := by
    intro byte member
    refine decide_eq_true fun same => dotless ?_
    rw [← same]
    exact List.mem_reverse.mp member
  have backwards : (stem ++ 0x2E :: suffix).reverse = suffix.reverse ++ 0x2E :: stem.reverse := by
    simp
  have before : (stem ++ 0x2E :: suffix).rdropWhile (· ≠ 0x2E) = stem ++ [0x2E] := by
    rw [List.rdropWhile, backwards, List.dropWhile_append_of_pos passed]
    simp
  have after : (stem ++ 0x2E :: suffix).rtakeWhile (· ≠ 0x2E) = suffix := by
    rw [List.rtakeWhile, backwards, List.takeWhile_append_of_pos passed]
    simp
  have notUp : stem ++ 0x2E :: suffix ≠ ascii ".." := by
    intro same
    have length := congrArg List.length same
    have stemLength := List.length_pos_iff.mpr named
    have suffixLength := List.length_pos_iff.mpr suffixed
    simp only [List.length_append, List.length_cons] at length
    have two : (ascii "..").length = 2 := rfl
    omega
  rw [extension, before, after]
  simp [notUp, named]

theorem ascii_append (left right : String) : ascii (left ++ right) = ascii left ++ ascii right := by
  rw [ascii, String.toList_append, List.map_append, ← ascii, ← ascii]

theorem toList_toString (number : Nat) : (toString number).toList = Nat.toDigits 10 number := by
  rw [Nat.toString_eq_repr, Nat.toList_repr]

/-- The letters of a decimal number are digits, in bytes as in characters. -/
theorem digit_of_mem_ascii {number : Nat} {byte : UInt8} (member : byte ∈ ascii (toString number)) :
    0x30 ≤ byte.toNat ∧ byte.toNat ≤ 0x39 := by
  rw [ascii, toList_toString] at member
  obtain ⟨letter, listed, rfl⟩ := List.mem_map.mp member
  have digit := Char.isDigit_iff_toNat.mp
    (Nat.isDigit_of_mem_toDigits (by decide) (by decide) listed)
  have low : '0'.toNat = 0x30 := rfl
  have high : '9'.toNat = 0x39 := rfl
  rw [UInt8.toNat_ofNat']
  omega

theorem ascii_toString_ne_nil (number : Nat) : ascii (toString number) ≠ [] := by
  rw [ascii, toList_toString]
  simp [Nat.toDigits_ne_nil]

/-- A 64 bit number has at most twenty digits. -/
theorem length_ascii_toString {number : Nat} (bounded : number < 2 ^ 64) :
    (ascii (toString number)).length ≤ 20 := by
  rw [ascii, toList_toString, List.length_map]
  exact (Nat.length_toDigits_le_iff (by decide) (by decide)).mpr (by omega)

theorem legalName_ascii_toString {number : Nat} (bounded : number < 2 ^ 64) :
    legalName (ascii (toString number)) = true := by
  have digits : ∀ {name : Name}, (∃ byte ∈ name, byte.toNat < 0x30) → ascii (toString number) ≠ name := by
    rintro name ⟨byte, member, below⟩ rfl
    exact absurd (digit_of_mem_ascii member).1 (by omega)
  refine (legalName_iff _).mpr ⟨ascii_toString_ne_nil number, digits ?_, digits ?_, ?_, ?_,
    (length_ascii_toString bounded).trans (by decide)⟩
  · exact ⟨0x2E, by decide, by decide⟩
  · exact ⟨0x2E, by decide, by decide⟩
  · exact fun slash => digits ⟨0x2F, slash, by decide⟩ rfl
  · exact fun null => digits ⟨0x00, null, by decide⟩ rfl

theorem ascii_toString_injective : Function.Injective fun number : Nat => ascii (toString number) := by
  intro left right same
  have letters : ∀ number : Nat, (ascii (toString number)).map (fun byte => Char.ofNat byte.toNat) =
      Nat.toDigits 10 number := by
    intro number
    rw [ascii, toList_toString, List.map_map]
    refine (List.map_congr_left fun letter listed => ?_).trans (List.map_id _)
    have digit := Char.isDigit_iff_toNat.mp
      (Nat.isDigit_of_mem_toDigits (by decide) (by decide) listed)
    have high : '9'.toNat = 0x39 := rfl
    have small : (UInt8.ofNat letter.toNat).toNat = letter.toNat := by
      rw [UInt8.toNat_ofNat']
      omega
    rw [Function.comp_apply, small, Char.ofNat_toNat]
    rfl
  have digits : Nat.toDigits 10 left = Nat.toDigits 10 right :=
    (letters left).symm.trans ((congrArg _ same).trans (letters right))
  calc
    left = Nat.ofDigitChars 10 (Nat.toDigits 10 left) 0 := Nat.ofDigitChars_ten_toDigits.symm
    _ = Nat.ofDigitChars 10 (Nat.toDigits 10 right) 0 := by rw [digits]
    _ = right := Nat.ofDigitChars_ten_toDigits

end Peerdup.Foundation
