import Mathlib.Data.List.Infix

/-!
# Programs that a crash cuts short

A program is a list of calls on a disk. A crash may come between two calls or in the middle
of one.
-/

set_option autoImplicit false

namespace Peerdup.Foundation

/-- What a call does, and what a crash in the middle of it may leave. -/
structure Call (Disk Cause : Type) where
  run : Disk → Except Cause Unit × Disk
  torn : Disk → Disk → Prop

namespace Call

variable {Disk Cause : Type}

/-- One call after the other, up to the first that fails. -/
def runAll : List (Call Disk Cause) → Disk → Except Cause Unit × Disk
  | [], disk => (.ok (), disk)
  | call :: calls, disk =>
      match call.run disk with
      | (.error cause, disk) => (.error cause, disk)
      | (.ok (), disk) => runAll calls disk

/-- The disks that a crash may leave. A failed call ends the program before the crash. -/
inductive Crashed : List (Call Disk Cause) → Disk → Disk → Prop where
  | between {calls disk} : Crashed calls disk disk
  | inside {call calls disk after} : call.torn disk after → Crashed (call :: calls) disk after
  | failed {call calls disk cause after} :
      call.run disk = (.error cause, after) → Crashed (call :: calls) disk after
  | later {call calls disk next after} :
      call.run disk = (.ok (), next) → Crashed calls next after → Crashed (call :: calls) disk after

variable {front back : List (Call Disk Cause)} {disk after : Disk}

theorem runAll_cons_ok_iff {call : Call Disk Cause} {calls : List (Call Disk Cause)} :
    runAll (call :: calls) disk = (.ok (), after) ↔
      ∃ next, call.run disk = (.ok (), next) ∧ runAll calls next = (.ok (), after) := by
  rw [runAll]
  rcases call.run disk with ⟨result, next⟩
  cases result with
  | error cause => simp
  | ok done => simp

theorem runAll_append_ok_iff : runAll (front ++ back) disk = (.ok (), after) ↔
    ∃ middle, runAll front disk = (.ok (), middle) ∧ runAll back middle = (.ok (), after) := by
  induction front generalizing disk with
  | nil => simp [runAll]
  | cons call front ih =>
      simp only [List.cons_append, runAll_cons_ok_iff, ih]
      constructor
      · rintro ⟨next, ran, middle, before, rest⟩
        exact ⟨middle, ⟨next, ran, before⟩, rest⟩
      · rintro ⟨middle, ⟨next, ran, before⟩, rest⟩
        exact ⟨next, ran, middle, before, rest⟩

theorem crashed_of_front (ran : runAll front disk = (.ok (), after)) :
    Crashed (front ++ back) disk after := by
  induction front generalizing disk with
  | nil =>
      cases ran
      exact .between
  | cons call front ih =>
      obtain ⟨next, first, rest⟩ := runAll_cons_ok_iff.mp ran
      exact .later first (ih rest)

/-- The crash comes in the front, or the front is done. -/
theorem Crashed.of_append (crashed : Crashed (front ++ back) disk after) :
    Crashed front disk after ∨
      ∃ middle, runAll front disk = (.ok (), middle) ∧ Crashed back middle after := by
  induction front generalizing disk with
  | nil => exact .inr ⟨disk, rfl, crashed⟩
  | cons call front ih =>
      cases crashed with
      | between => exact .inl .between
      | inside torn => exact .inl (.inside torn)
      | failed ran => exact .inl (.failed ran)
      | later ran rest =>
          rcases ih rest with early | ⟨middle, done, late⟩
          · exact .inl (.later ran early)
          · exact .inr ⟨middle, runAll_cons_ok_iff.mpr ⟨_, ran, done⟩, late⟩

variable {View : Type}

/-- Seen through what a disk holds, the calls take effect at once or not at all. -/
structure Atomic (holds : View → Disk → Prop) (step : View → View)
    (calls : List (Call Disk Cause)) : Prop where
  done : ∀ view disk after, holds view disk → runAll calls disk = (.ok (), after) →
    holds (step view) after
  crashed : ∀ view disk after, holds view disk → Crashed calls disk after →
    holds view after ∨ holds (step view) after

theorem ran_all {Move : Type} {holds : View → Disk → Prop} {step : View → Move → View}
    {calls : Move → List (Call Disk Cause)} {moves : List Move}
    (atomic : ∀ move ∈ moves, Atomic holds (step · move) (calls move)) {view : View}
    (begins : holds view disk) (ran : runAll (moves.flatMap calls) disk = (.ok (), after)) :
    holds (moves.foldl step view) after := by
  induction moves generalizing view disk with
  | nil =>
      cases ran
      exact begins
  | cons move moves ih =>
      obtain ⟨first, others⟩ := List.forall_mem_cons.mp atomic
      rw [List.flatMap_cons] at ran
      obtain ⟨middle, done, rest⟩ := runAll_append_ok_iff.mp ran
      exact ih others (first.done view disk middle begins done) rest

/-- Where every move is atomic, a crash leaves what the first few of them make. -/
theorem crashed_prefix {Move : Type} {holds : View → Disk → Prop} {step : View → Move → View}
    {calls : Move → List (Call Disk Cause)} {moves : List Move}
    (atomic : ∀ move ∈ moves, Atomic holds (step · move) (calls move)) {view : View}
    (begins : holds view disk) (crashed : Crashed (moves.flatMap calls) disk after) :
    ∃ front, front <+: moves ∧ holds (front.foldl step view) after := by
  induction moves generalizing view disk with
  | nil =>
      cases crashed
      exact ⟨[], List.prefix_rfl, begins⟩
  | cons move moves ih =>
      obtain ⟨first, others⟩ := List.forall_mem_cons.mp atomic
      rw [List.flatMap_cons] at crashed
      rcases crashed.of_append with early | ⟨middle, done, late⟩
      · rcases first.crashed view disk after begins early with none_ | whole
        · exact ⟨[], List.nil_prefix, none_⟩
        · exact ⟨[move], ⟨moves, rfl⟩, whole⟩
      · obtain ⟨front, above, holds⟩ := ih others (first.done view disk middle begins done) late
        exact ⟨move :: front, List.cons_prefix_cons.mpr ⟨rfl, above⟩, holds⟩

end Call

end Peerdup.Foundation
