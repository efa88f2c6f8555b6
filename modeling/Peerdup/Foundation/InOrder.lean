import Mathlib.Data.Set.Basic

/-!
# Numbered items taken in order

A receiver that takes numbered items strictly one after another gets as far as the
items that have arrived go without a gap.
-/

set_option autoImplicit false

namespace Peerdup.Foundation.InOrder

/-- Everything from `start` to `reached` has arrived, and the next has not. -/
structure Frontier (start : Nat) (arrived : Set Nat) (reached : Nat) : Prop where
  start_le : start ≤ reached
  filled : ∀ number, start < number → number ≤ reached → number ∈ arrived
  gap : reached + 1 ∉ arrived

variable {start reached : Nat} {arrived : Set Nat}

theorem Frontier.le {other : Nat} (frontier : Frontier start arrived reached)
    (filled : ∀ number, start < number → number ≤ other → number ∈ arrived) : other ≤ reached := by
  by_contra beyond
  have next := filled (reached + 1) (Nat.lt_succ_of_le frontier.start_le) (by omega)
  exact frontier.gap next

theorem Frontier.unique {other : Nat} (left : Frontier start arrived reached)
    (right : Frontier start arrived other) : reached = other :=
  Nat.le_antisymm (right.le left.filled) (left.le right.filled)

theorem Frontier.congr {others : Set Nat}
    (same : ∀ number, start < number → (number ∈ arrived ↔ number ∈ others))
    (frontier : Frontier start arrived reached) : Frontier start others reached where
  start_le := frontier.start_le
  filled number after below := (same number after).mp (frontier.filled number after below)
  gap := mt (same _ (Nat.lt_succ_of_le frontier.start_le)).mpr frontier.gap

section Marked

variable {α : Type*} (chosen : α → Bool)

/-- The numbers of the chosen items, counted from `start + 1`. -/
def marked (start : Nat) (items : List α) : Set Nat :=
  {number | ∃ index item, items[index]? = some item ∧ chosen item = true ∧
    number = start + index + 1}

theorem mem_marked_nil (start number : Nat) : number ∉ marked chosen start [] := by
  intro ⟨index, item, found, _⟩
  cases found

theorem mem_marked_cons (start number : Nat) (item : α) (items : List α) :
    number ∈ marked chosen start (item :: items) ↔
      chosen item = true ∧ number = start + 1 ∨ number ∈ marked chosen (start + 1) items := by
  constructor
  · intro ⟨index, held, found, picked, same⟩
    cases index with
    | zero =>
        cases found
        exact .inl ⟨picked, same⟩
    | succ index => exact .inr ⟨index, held, found, picked, by omega⟩
  · intro either
    rcases either with ⟨picked, same⟩ | ⟨index, held, found, picked, same⟩
    · exact ⟨0, item, rfl, picked, same⟩
    · exact ⟨index + 1, held, found, picked, by omega⟩

theorem mem_marked_concat (start number : Nat) (items : List α) (item : α) :
    number ∈ marked chosen start (items ++ [item]) ↔
      number ∈ marked chosen start items ∨
        chosen item = true ∧ number = start + items.length + 1 := by
  induction items generalizing start with
  | nil => simp [mem_marked_cons, mem_marked_nil]
  | cons first items ih =>
      have count : start + 1 + items.length + 1 = start + (first :: items).length + 1 := by
        rw [List.length_cons]
        omega
      rw [List.cons_append, mem_marked_cons, ih, mem_marked_cons, or_assoc, count]

theorem frontier_marked (start : Nat) (items : List α) :
    Frontier start (marked chosen start items) (start + (items.takeWhile chosen).length) := by
  induction items generalizing start with
  | nil =>
      refine ⟨Nat.le_refl _, ?_, mem_marked_nil chosen start _⟩
      intro number after below
      exact absurd after (Nat.not_lt.mpr below)
  | cons item items ih =>
      by_cases picked : chosen item = true
      · obtain ⟨_, filled, gap⟩ := ih (start + 1)
        rw [List.takeWhile_cons_of_pos picked, List.length_cons]
        refine ⟨Nat.le_add_right _ _, ?_, ?_⟩
        · intro number after below
          rw [mem_marked_cons]
          by_cases first : number = start + 1
          · exact .inl ⟨picked, first⟩
          · exact .inr (filled number (by omega) (by omega))
        · rw [mem_marked_cons]
          intro either
          rcases either with ⟨_, same⟩ | later
          · omega
          · exact gap (by rwa [Nat.add_right_comm] at later)
      · rw [List.takeWhile_cons_of_neg picked]
        refine ⟨Nat.le_refl _, fun number after below => absurd after (Nat.not_lt.mpr below), ?_⟩
        rw [mem_marked_cons]
        intro either
        rcases either with ⟨contra, _⟩ | ⟨index, _, _, _, same⟩
        · exact picked contra
        · simp only [List.length_nil] at same
          omega

end Marked

end Peerdup.Foundation.InOrder
