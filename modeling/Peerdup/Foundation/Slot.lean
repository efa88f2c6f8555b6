import Mathlib.Logic.Function.Basic
import Mathlib.Logic.Relation

/-!
# Values written in their place

A value that is written in its place, and not beside it first, may be cut short. Nothing is
read there from then on.
-/

set_option autoImplicit false

namespace Peerdup.Foundation

/-- What is found in a value's place. -/
inductive Slot (Value : Type) where
  | empty
  | torn
  | whole (value : Value)
deriving DecidableEq

namespace Slot

variable {Value : Type}

/-- What a write may leave that a crash can cut short. -/
inductive Written (value : Value) : Slot Value → Slot Value → Prop where
  | nothing {slot} : Written value slot slot
  | part {slot} : Written value slot .torn
  | all {slot} : Written value slot (.whole value)

/-- The value that is there, or the fresh one where there is none. -/
def loadOrCreate (fresh : Value) : Slot Value → Option Value × Slot Value
  | .empty => (some fresh, .whole fresh)
  | .torn => (none, .torn)
  | .whole value => (some value, .whole value)

/-- A slot, and the values taken from it so far. -/
structure Source (Value : Type) where
  slot : Slot Value
  taken : List Value

namespace Source

/-- A value is taken, or its creation crashes. -/
inductive Step : Source Value → Source Value → Prop where
  | loaded {slot taken} (fresh : Value) :
      Step ⟨slot, taken⟩ ⟨(slot.loadOrCreate fresh).2, taken ++ (slot.loadOrCreate fresh).1.toList⟩
  | crashed {slot taken} (fresh : Value) :
      Written fresh .empty slot → Step ⟨.empty, taken⟩ ⟨slot, taken⟩

/-- Whatever was taken is still there. -/
def Sound (source : Source Value) : Prop := ∀ value ∈ source.taken, source.slot = .whole value

variable {source next final : Source Value}

theorem sound_fresh (slot : Slot Value) : (⟨slot, []⟩ : Source Value).Sound := by
  intro value member
  cases member

theorem Step.sound (step : Step source next) (sound : source.Sound) : next.Sound := by
  cases step with
  | @loaded slot taken fresh =>
      cases slot with
      | empty =>
          -- Nothing was taken from an empty slot.
          intro value member
          rcases List.mem_append.mp member with before | here
          · cases sound value before
          · rw [List.mem_singleton.mp here]
            rfl
      | torn =>
          intro value member
          rw [loadOrCreate, Option.toList_none, List.append_nil] at member
          exact sound value member
      | whole held =>
          intro value member
          rcases List.mem_append.mp member with before | here
          · exact sound value before
          · rw [List.mem_singleton.mp here]
            rfl
  | crashed fresh written =>
      intro value member
      cases sound value member

theorem Step.of_torn (step : Step source next) (torn : source.slot = .torn) : next = source := by
  cases step with
  | loaded fresh =>
      subst torn
      rw [loadOrCreate, Option.toList_none, List.append_nil]
  | crashed fresh written => cases torn

theorem sound_run (run : Relation.ReflTransGen Step source final) (sound : source.Sound) :
    final.Sound := by
  induction run with
  | refl => exact sound
  | tail _ step ih => exact step.sound ih

theorem torn_run (run : Relation.ReflTransGen Step source final) (torn : source.slot = .torn) :
    final = source := by
  induction run with
  | refl => rfl
  | tail _ step ih =>
      subst ih
      exact step.of_torn torn

/-- Nothing was ever taken from what is torn now. -/
theorem Sound.untaken (sound : source.Sound) (torn : source.slot = .torn) : source.taken = [] := by
  refine List.eq_nil_iff_forall_not_mem.mpr fun value member => ?_
  cases (sound value member).symm.trans torn

end Source

end Slot

/-- Slots under names. -/
abbrev Slots (Name Value : Type) : Type := Name → Slot Value

namespace Slots

variable {Name Value : Type}

def Readable (slots : Slots Name Value) : Prop := ∀ name, slots name ≠ .torn

inductive Move (Name Value : Type) where
  | put (name : Name) (value : Value)
  | cutPut (name : Name) (value : Value)
  | drop (name : Name)
  | cutDrop (name : Name)

namespace Move

/-- A drop that is cut short tears nothing. -/
def mayTear : Move Name Value → Bool
  | cutPut _ _ => true
  | put _ _ | drop _ | cutDrop _ => false

def name : Move Name Value → Name
  | put name _ | cutPut name _ | drop name | cutDrop name => name

def isPut : Move Name Value → Bool
  | put _ _ | cutPut _ _ => true
  | drop _ | cutDrop _ => false

end Move

variable [DecidableEq Name]

/-- A value is put without a look at the others. All are read before one is dropped. -/
inductive Moves : Move Name Value → Slots Name Value → Slots Name Value → Prop where
  | put {slots name value} : Moves (.put name value) slots (Function.update slots name (.whole value))
  | cutPut {slots name value slot} :
      Slot.Written value (slots name) slot →
      Moves (.cutPut name value) slots (Function.update slots name slot)
  | drop {slots name} : Readable slots → Moves (.drop name) slots (Function.update slots name .empty)
  | cutDrop {slots name slot} :
      Readable slots → slot = slots name ∨ slot = .empty →
      Moves (.cutDrop name) slots (Function.update slots name slot)

def Step (allowed : Move Name Value → Prop) (slots after : Slots Name Value) : Prop :=
  ∃ move, allowed move ∧ Moves move slots after

variable {slots after : Slots Name Value} {move : Move Name Value} {name : Name}
  {allowed : Move Name Value → Prop}

theorem Moves.elsewhere (moves : Moves move slots after) (other : name ≠ move.name) :
    after name = slots name := by
  cases moves <;> exact Function.update_of_ne other _ _

theorem Moves.torn (moves : Moves move slots after) (unput : ¬ (move.isPut = true ∧ move.name = name))
    (torn : slots name = .torn) : after name = .torn := by
  by_cases other : name = move.name
  · cases moves with
    | put => exact absurd ⟨rfl, other.symm⟩ unput
    | cutPut _ => exact absurd ⟨rfl, other.symm⟩ unput
    | drop readable => exact absurd torn (readable name)
    | cutDrop readable _ => exact absurd torn (readable name)
  · rw [moves.elsewhere other, torn]

theorem Moves.readable (moves : Moves move slots after) (whole : move.mayTear = false)
    (readable : Readable slots) : Readable after := by
  intro name
  by_cases other : name = move.name
  · cases moves with
    | put =>
        subst other
        simp
    | cutPut _ => cases whole
    | drop _ =>
        subst other
        simp
    | cutDrop _ either =>
        subst other
        rw [Function.update_self]
        rcases either with rfl | rfl
        · exact readable _
        · simp
  · rw [moves.elsewhere other]
    exact readable name

theorem elsewhere_run (run : Relation.ReflTransGen (Step allowed) slots after)
    (others : ∀ move, allowed move → name ≠ move.name) : after name = slots name := by
  induction run with
  | refl => rfl
  | tail _ step ih =>
      obtain ⟨move, allows, moves⟩ := step
      rw [moves.elsewhere (others move allows), ih]

theorem torn_run (run : Relation.ReflTransGen (Step allowed) slots after)
    (unput : ∀ move, allowed move → ¬ (move.isPut = true ∧ move.name = name))
    (torn : slots name = .torn) : after name = .torn := by
  induction run with
  | refl => exact torn
  | tail _ step ih =>
      obtain ⟨move, allows, moves⟩ := step
      exact moves.torn (unput move allows) ih

theorem readable_run (run : Relation.ReflTransGen (Step allowed) slots after)
    (whole : ∀ move, allowed move → move.mayTear = false) (readable : Readable slots) :
    Readable after := by
  induction run with
  | refl => exact readable
  | tail _ step ih =>
      obtain ⟨move, allows, moves⟩ := step
      exact moves.readable (whole move allows) ih

end Slots

end Peerdup.Foundation
