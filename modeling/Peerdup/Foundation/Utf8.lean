import Mathlib.Data.List.GetD
import Peerdup.Foundation.Bytes

/-!
# UTF-8 in byte strings

Which byte strings are text, and the text that stands in for one that is not: every
maximal ill-formed piece becomes the replacement character.
-/

set_option autoImplicit false

namespace Peerdup.Foundation

private def within (byte : UInt8) (low high : Nat) : Bool := low ≤ byte.toNat && byte.toNat ≤ high

/-- Which second bytes may follow the first byte of a three- or four-byte sequence. -/
private def secondByte (first second : UInt8) : Bool :=
  if first = 0xE0 then within second 0xA0 0xBF
  else if first = 0xED then within second 0x80 0x9F
  else if first = 0xF0 then within second 0x90 0xBF
  else if first = 0xF4 then within second 0x80 0x8F
  else within second 0x80 0xBF

/-- Whether a well-formed sequence starts here, and how many bytes are taken. -/
def utf8Step (first : UInt8) (rest : Bytes) : Bool × Nat :=
  let second := rest.getD 0 0
  let third := rest.getD 1 0
  let fourth := rest.getD 2 0
  if within first 0 0x7F then (true, 1)
  else if within first 0xC2 0xDF then
    if within second 0x80 0xBF then (true, 2) else (false, 1)
  else if within first 0xE0 0xEF then
    if !secondByte first second then (false, 1)
    else if within third 0x80 0xBF then (true, 3) else (false, 2)
  else if within first 0xF0 0xF4 then
    if !secondByte first second then (false, 1)
    else if !within third 0x80 0xBF then (false, 2)
    else if within fourth 0x80 0xBF then (true, 4) else (false, 3)
  else (false, 1)

/-- `to_str`, for at most this many characters. -/
def validUtf8From : Nat → Bytes → Bool
  | 0, bytes => bytes.isEmpty
  | _, [] => true
  | fuel + 1, first :: rest =>
      let (valid, count) := utf8Step first rest
      valid && validUtf8From fuel ((first :: rest).drop count)

def validUtf8 (bytes : Bytes) : Bool := validUtf8From bytes.length bytes

section Suffix

variable {first : UInt8} {rest suffix : Bytes}

/-- A byte past the end reads as zero, and a zero continues nothing, as no ASCII byte does. -/
private theorem within_getD (plain : ∀ byte ∈ suffix, byte.toNat < 0x80) (index : Nat)
    {low high : Nat} (above : 0x80 ≤ low) :
    within ((rest ++ suffix).getD index 0) low high = within (rest.getD index 0) low high := by
  by_cases inside : index < rest.length
  · rw [List.getD_append _ _ _ _ inside]
  have outside : rest.getD index 0 = 0 := List.getD_eq_default _ _ (Nat.not_lt.mp inside)
  rw [outside, List.getD_append_right _ _ _ _ (Nat.not_lt.mp inside)]
  have small : (suffix.getD (index - rest.length) 0).toNat < 0x80 := by
    by_cases held : index - rest.length < suffix.length
    · rw [List.getD_eq_getElem _ _ held]
      exact plain _ (List.getElem_mem held)
    · rw [List.getD_eq_default _ _ (Nat.not_lt.mp held)]
      decide
  have short : ¬ low ≤ (suffix.getD (index - rest.length) 0).toNat := by omega
  have zero : ¬ low ≤ (0 : UInt8).toNat := by
    have value : (0 : UInt8).toNat = 0 := rfl
    omega
  unfold within
  rw [decide_eq_false short, decide_eq_false zero, Bool.false_and, Bool.false_and]

theorem utf8Step_append (plain : ∀ byte ∈ suffix, byte.toNat < 0x80) :
    utf8Step first (rest ++ suffix) = utf8Step first rest := by
  have second : secondByte first ((rest ++ suffix).getD 0 0) = secondByte first (rest.getD 0 0) := by
    unfold secondByte
    rw [within_getD plain 0 (by decide), within_getD plain 0 (by decide),
      within_getD plain 0 (by decide), within_getD plain 0 (by decide),
      within_getD plain 0 (by decide)]
  unfold utf8Step
  dsimp only
  rw [second, within_getD plain 0 (by decide), within_getD plain 1 (by decide),
    within_getD plain 2 (by decide)]

private theorem lt_length_of_within {index low high : Nat} (positive : 0 < low)
    (held : within (rest.getD index 0) low high = true) : index < rest.length := by
  by_contra outside
  rw [List.getD_eq_default _ _ (Nat.not_lt.mp outside)] at held
  have zero : ¬ low ≤ (0 : UInt8).toNat := by
    have value : (0 : UInt8).toNat = 0 := rfl
    omega
  unfold within at held
  rw [decide_eq_false zero, Bool.false_and] at held
  cases held

theorem utf8Step_bounds : 0 < (utf8Step first rest).2 ∧
    ((utf8Step first rest).1 = true → (utf8Step first rest).2 ≤ rest.length + 1) := by
  unfold utf8Step
  dsimp only
  split
  · simp
  split
  · split
    · next second =>
        have held := lt_length_of_within (by decide) second
        exact ⟨by decide, fun _ => by dsimp only; omega⟩
    · simp
  split
  · split
    · simp
    · split
      · next third =>
          have held := lt_length_of_within (by decide) third
          exact ⟨by decide, fun _ => by dsimp only; omega⟩
      · simp
  split
  · split
    · simp
    · split
      · simp
      · split
        · next fourth =>
            have held := lt_length_of_within (by decide) fourth
            exact ⟨by decide, fun _ => by dsimp only; omega⟩
        · simp
  · simp

theorem validUtf8From_congr {fuel more : Nat} {bytes : Bytes} (enough : bytes.length ≤ fuel)
    (alsoEnough : bytes.length ≤ more) : validUtf8From fuel bytes = validUtf8From more bytes := by
  induction fuel generalizing more bytes with
  | zero =>
      rw [List.length_eq_zero_iff.mp (Nat.le_zero.mp enough)]
      cases more <;> rfl
  | succ fuel ih =>
      cases bytes with
      | nil => cases more <;> rfl
      | cons first rest =>
          rw [List.length_cons] at enough alsoEnough
          cases more with
          | zero => omega
          | succ more =>
              have positive : 0 < (utf8Step first rest).2 := utf8Step_bounds.1
              rw [validUtf8From, validUtf8From]
              dsimp only
              congr 1
              refine ih ?_ ?_
              · rw [List.length_drop, List.length_cons]
                omega
              · rw [List.length_drop, List.length_cons]
                omega

theorem validUtf8_cons (first : UInt8) (rest : Bytes) : validUtf8 (first :: rest) =
    ((utf8Step first rest).1 && validUtf8 ((first :: rest).drop (utf8Step first rest).2)) := by
  have positive : 0 < (utf8Step first rest).2 := utf8Step_bounds.1
  rw [validUtf8, List.length_cons, validUtf8From]
  dsimp only
  congr 1
  refine validUtf8From_congr ?_ (Nat.le_refl _)
  rw [List.length_drop, List.length_cons]
  omega

theorem validUtf8_of_ascii {bytes : Bytes} (plain : ∀ byte ∈ bytes, byte.toNat < 0x80) :
    validUtf8 bytes = true := by
  induction bytes with
  | nil => rfl
  | cons first rest ih =>
      obtain ⟨small, others⟩ := List.forall_mem_cons.mp plain
      have single : utf8Step first rest = (true, 1) := by
        have held : within first 0 0x7F = true := by simp [within]; omega
        rw [utf8Step, if_pos held]
      rw [validUtf8_cons, single]
      exact ih others

/-- ASCII bytes at the end do not decide whether a byte string is text. -/
theorem validUtf8_append (plain : ∀ byte ∈ suffix, byte.toNat < 0x80) (bytes : Bytes) :
    validUtf8 (bytes ++ suffix) = validUtf8 bytes := by
  cases bytes with
  | nil => exact validUtf8_of_ascii plain
  | cons first rest =>
      rw [List.cons_append, validUtf8_cons, validUtf8_cons, utf8Step_append plain]
      have positive : 0 < (utf8Step first rest).2 := utf8Step_bounds.1
      by_cases valid : (utf8Step first rest).1 = true
      · have inside : (utf8Step first rest).2 ≤ (first :: rest).length := utf8Step_bounds.2 valid
        rw [← List.cons_append, List.drop_append_of_le_length inside,
          validUtf8_append plain ((first :: rest).drop (utf8Step first rest).2)]
      · rw [Bool.eq_false_iff.mpr valid, Bool.false_and, Bool.false_and]
termination_by bytes.length
decreasing_by
  rw [List.length_drop, List.length_cons]
  omega

end Suffix

def lossyFrom : Nat → Bytes → Bytes
  | 0, _ => []
  | _, [] => []
  | fuel + 1, first :: rest =>
      let (valid, count) := utf8Step first rest
      (if valid then (first :: rest).take count else [0xEF, 0xBF, 0xBD]) ++
        lossyFrom fuel ((first :: rest).drop count)

/-- `to_string_lossy`. -/
def lossy (bytes : Bytes) : Bytes := lossyFrom bytes.length bytes

private theorem lossyFrom_of_validUtf8From {fuel : Nat} {bytes : Bytes}
    (valid : validUtf8From fuel bytes = true) : lossyFrom fuel bytes = bytes := by
  induction fuel generalizing bytes with
  | zero => exact (List.isEmpty_iff.mp valid).symm
  | succ fuel ih =>
      cases bytes with
      | nil => rfl
      | cons first rest =>
          have both : ((utf8Step first rest).1 &&
              validUtf8From fuel ((first :: rest).drop (utf8Step first rest).2)) = true := valid
          obtain ⟨step, later⟩ := Bool.and_eq_true_iff.mp both
          rw [lossyFrom]
          dsimp only
          rw [if_pos step, ih later, List.take_append_drop]

/-- Text stands for itself. -/
theorem lossy_of_validUtf8 {bytes : Bytes} (valid : validUtf8 bytes = true) : lossy bytes = bytes :=
  lossyFrom_of_validUtf8From valid

example : validUtf8 [0xC3, 0xA9, 0x2E] = true := by decide

example : lossy [0x61, 0xFF, 0xE2, 0x82, 0x62] = [0x61, 0xEF, 0xBF, 0xBD, 0xEF, 0xBF, 0xBD, 0x62] := by
  decide

end Peerdup.Foundation
