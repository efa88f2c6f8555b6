import Mathlib.Tactic.Common

/-!
# Event-driven machines

A machine takes one named event at a time and may refuse it. Runs are finite
event sequences, so nondeterminism lies in the choice of events alone.
-/

set_option autoImplicit false

namespace Peerdup.Foundation

universe u v w

structure Machine (State : Type u) (Event : Type v) where
  step : State → Event → Option State

namespace Machine

variable {State : Type u} {Event : Type v} (machine : Machine State Event)

/-- Take the events in order. A refused event refuses the whole run. -/
def run (state : State) : List Event → Option State
  | [] => some state
  | event :: events => (machine.step state event).bind fun next => run next events

/-- Every event the run takes meets the condition in the state that takes it. -/
def Along (condition : State → Event → Prop) (state : State) : List Event → Prop
  | [] => True
  | event :: events =>
      condition state event ∧
        ∀ next, machine.step state event = some next → Along condition next events

/-- `Along`, evaluated. -/
def checkAlong (check : State → Event → Bool) (state : State) : List Event → Bool
  | [] => true
  | event :: events =>
      check state event && (machine.step state event).all fun next => checkAlong check next events

@[simp] theorem run_nil (state : State) : machine.run state [] = some state := rfl

theorem run_cons_iff {state final : State} {event : Event} {events : List Event} :
    machine.run state (event :: events) = some final ↔
      ∃ next, machine.step state event = some next ∧ machine.run next events = some final := by
  simp only [run, Option.bind_eq_some_iff]

theorem run_append_iff {state final : State} {front back : List Event} :
    machine.run state (front ++ back) = some final ↔
      ∃ middle, machine.run state front = some middle ∧ machine.run middle back = some final := by
  induction front generalizing state with
  | nil => simp
  | cons event front ih =>
      simp only [List.cons_append, run_cons_iff, ih]
      constructor
      · rintro ⟨next, stepped, middle, before, after⟩
        exact ⟨middle, ⟨next, stepped, before⟩, after⟩
      · rintro ⟨middle, ⟨next, stepped, before⟩, after⟩
        exact ⟨next, stepped, middle, before, after⟩

theorem along_append_iff {condition : State → Event → Prop} {state : State}
    {front back : List Event} :
    machine.Along condition state (front ++ back) ↔
      machine.Along condition state front ∧
        ∀ middle, machine.run state front = some middle → machine.Along condition middle back := by
  induction front generalizing state with
  | nil => simp [Along]
  | cons event front ih =>
      simp only [List.cons_append, Along, ih, run_cons_iff]
      constructor
      · intro ⟨here, later⟩
        refine ⟨⟨here, fun next stepped => (later next stepped).1⟩, ?_⟩
        intro middle ⟨next, stepped, ran⟩
        exact (later next stepped).2 middle ran
      · intro ⟨⟨here, later⟩, after⟩
        exact ⟨here, fun next stepped =>
          ⟨later next stepped, fun middle ran => after middle ⟨next, stepped, ran⟩⟩⟩

theorem along_of_checkAlong {condition : State → Event → Prop} {check : State → Event → Bool}
    (sound : ∀ state event, check state event = true → condition state event) {state : State}
    {events : List Event} (checked : machine.checkAlong check state events = true) :
    machine.Along condition state events := by
  induction events generalizing state with
  | nil => trivial
  | cons event events ih =>
      rw [checkAlong, Bool.and_eq_true] at checked
      refine ⟨sound state event checked.1, fun next stepped => ih ?_⟩
      rw [stepped] at checked
      exact checked.2

theorem along_and {first second : State → Event → Prop} {state : State} {events : List Event}
    (left : machine.Along first state events) (right : machine.Along second state events) :
    machine.Along (fun state event => first state event ∧ second state event) state events := by
  induction events generalizing state with
  | nil => trivial
  | cons event events ih =>
      exact ⟨⟨left.1, right.1⟩, fun next stepped => ih (left.2 next stepped) (right.2 next stepped)⟩

theorem along_mono {weaker stronger : State → Event → Prop}
    (implies : ∀ state event, stronger state event → weaker state event) {state : State}
    {events : List Event} (met : machine.Along stronger state events) :
    machine.Along weaker state events := by
  induction events generalizing state with
  | nil => trivial
  | cons event events ih =>
      exact ⟨implies state event met.1, fun next stepped => ih (met.2 next stepped)⟩

theorem exists_run (total : ∀ state event, ∃ next, machine.step state event = some next)
    (state : State) (events : List Event) : ∃ final, machine.run state events = some final := by
  induction events generalizing state with
  | nil => exact ⟨state, rfl⟩
  | cons event events ih =>
      obtain ⟨next, stepped⟩ := total state event
      obtain ⟨final, rest⟩ := ih next
      exact ⟨final, machine.run_cons_iff.mpr ⟨next, stepped, rest⟩⟩

/-- An invariant kept by every step that meets the condition holds after every
run along which the condition is met. -/
theorem run_along_invariant {condition : State → Event → Prop} {invariant : State → Prop}
    (preserved : ∀ state event next, invariant state → condition state event →
      machine.step state event = some next → invariant next)
    {state final : State} {events : List Event} (start : invariant state)
    (met : machine.Along condition state events)
    (ran : machine.run state events = some final) : invariant final := by
  induction events generalizing state with
  | nil =>
      cases ran
      exact start
  | cons event events ih =>
      obtain ⟨next, stepped, rest⟩ := machine.run_cons_iff.mp ran
      exact ih (preserved state event next start met.1 stepped) (met.2 next stepped) rest

/-- The same, for an invariant that also speaks of the events taken so far. -/
theorem run_history {condition : State → Event → Prop} {invariant : List Event → State → Prop}
    (preserved : ∀ taken state event next, invariant taken state → condition state event →
      machine.step state event = some next → invariant (taken ++ [event]) next)
    {state final : State} {events : List Event} (start : invariant [] state)
    (met : machine.Along condition state events)
    (ran : machine.run state events = some final) : invariant events final := by
  have onward : ∀ (later taken : List Event) (middle : State), invariant taken middle →
      machine.Along condition middle later → machine.run middle later = some final →
      invariant (taken ++ later) final := by
    intro later
    induction later with
    | nil =>
        intro taken middle holds _ ran
        cases ran
        rw [List.append_nil]
        exact holds
    | cons event later ih =>
        intro taken middle holds met ran
        obtain ⟨next, stepped, rest⟩ := machine.run_cons_iff.mp ran
        have moved := preserved taken middle event next holds met.1 stepped
        rw [List.append_cons]
        exact ih (taken ++ [event]) next moved (met.2 next stepped) rest
  exact onward events [] state start met ran

theorem along_of_forall {condition : State → Event → Prop}
    (always : ∀ state event, condition state event) (state : State) (events : List Event) :
    machine.Along condition state events := by
  induction events generalizing state with
  | nil => trivial
  | cons event events ih => exact ⟨always state event, fun next _ => ih next⟩

/-- A condition on events alone is met along a run when each of its events meets it. -/
theorem along_of_mem {condition : Event → Prop} {events : List Event}
    (each : ∀ event ∈ events, condition event) (state : State) :
    machine.Along (fun _ event => condition event) state events := by
  induction events generalizing state with
  | nil => trivial
  | cons event events ih =>
      exact ⟨each event List.mem_cons_self,
        fun next _ => ih (fun later member => each later (List.mem_cons_of_mem _ member)) next⟩

/-- Where a step keeps a property exactly when it meets the condition, and a refused event
always meets it, the property holds all along a run exactly when the condition is met. -/
theorem along_iff_reached {condition : State → Event → Prop} {holds : State → Prop}
    (stepped : ∀ state event next, holds state → machine.step state event = some next →
      (holds next ↔ condition state event))
    (refused : ∀ state event, machine.step state event = none → condition state event)
    {state : State} {events : List Event} (start : holds state) :
    machine.Along condition state events ↔
      ∀ front back reached, events = front ++ back → machine.run state front = some reached →
        holds reached := by
  constructor
  · intro met front back reached whole ran
    rw [whole, along_append_iff] at met
    exact machine.run_along_invariant
      (fun state event next held kept moved => (stepped state event next held moved).mpr kept)
      start met.1 ran
  · induction events generalizing state with
    | nil => exact fun _ => trivial
    | cons event events ih =>
        intro always
        have onward : ∀ next, machine.step state event = some next → holds next := by
          intro next moved
          exact always [event] events next rfl
            (machine.run_cons_iff.mpr ⟨next, moved, rfl⟩)
        refine ⟨?_, fun next moved => ih (onward next moved) ?_⟩
        · cases moved : machine.step state event with
          | none => exact refused state event moved
          | some next => exact (stepped state event next start moved).mp (onward next moved)
        · intro front back reached whole ran
          exact always (event :: front) back reached (congrArg (event :: ·) whole)
            (machine.run_cons_iff.mpr ⟨next, moved, ran⟩)

theorem run_invariant {invariant : State → Prop}
    (preserved : ∀ state event next, invariant state →
      machine.step state event = some next → invariant next)
    {state final : State} {events : List Event} (start : invariant state)
    (ran : machine.run state events = some final) : invariant final := by
  have always : machine.Along (fun _ _ => True) state events :=
    machine.along_of_forall (fun _ _ => trivial) state events
  exact machine.run_along_invariant
    (fun state event next holds _ stepped => preserved state event next holds stepped)
    start always ran

/-- The machine among events that are not its own and never refused. -/
def disturbed {Outside : Type w} (disturb : State → Outside → State) :
    Machine State (Outside ⊕ Event) where
  step state
    | .inl outside => some (disturb state outside)
    | .inr event => machine.step state event

end Machine

end Peerdup.Foundation
