/-!
# Services

A component that answers calls, and what two components answer alike.
-/

set_option autoImplicit false

namespace Peerdup.Foundation

/-- A call without an answer is a call that fails. -/
structure Service (State Input Output : Type) where
  call : State → Input → Option (Output × State)

namespace Service

variable {State Other Input Output : Type}

/-- The answers to all calls, if each of them succeeds. -/
def serve (service : Service State Input Output) (state : State) :
    List Input → Option (List Output × State)
  | [] => some ([], state)
  | input :: inputs =>
      match service.call state input with
      | none => none
      | some (output, next) =>
          (serve service next inputs).map fun (outputs, final) => (output :: outputs, final)

/-- Both fail, or both give the same answer and the states after it are related. -/
def Alike {Answer : Type} (related : State → Other → Prop) (left : Option (Answer × State))
    (right : Option (Answer × Other)) : Prop :=
  Option.Rel (fun first second => first.1 = second.1 ∧ related first.2 second.2) left right

variable {Answer : Type} {related : State → Other → Prop}
  {left : Option (Answer × State)} {right : Option (Answer × Other)}

theorem Alike.answers_iff (alike : Alike related left right) (answer : Answer) :
    (∃ state, left = some (answer, state)) ↔ ∃ other, right = some (answer, other) := by
  cases alike with
  | none => simp
  | some same =>
      obtain ⟨answers, _⟩ := same
      simp [Prod.ext_iff, answers]

theorem Alike.states {answer : Answer} {state : State} {other : Other}
    (alike : Alike related left right) (first : left = some (answer, state))
    (second : right = some (answer, other)) : related state other := by
  rw [first, second] at alike
  exact (Option.rel_some_some.mp alike).2

variable {one : Service State Input Output} {two : Service Other Input Output}

/-- The first call may start from states that are not related yet. -/
theorem serve_cons_alike {state : State} {other : Other} {input : Input} {inputs : List Input}
    (first : Alike related (one.call state input) (two.call other input))
    (rest : ∀ state other, related state other →
      Alike related (one.serve state inputs) (two.serve other inputs)) :
    Alike related (one.serve state (input :: inputs)) (two.serve other (input :: inputs)) := by
  unfold serve
  generalize one.call state input = taken at first
  generalize two.call other input = mirrored at first
  cases first with
  | none => exact .none
  | some same =>
      obtain ⟨outputs, states⟩ := same
      dsimp only
      have later := rest _ _ states
      generalize one.serve _ inputs = tail at later
      generalize two.serve _ inputs = mirroredTail at later
      cases later with
      | none => exact .none
      | some same =>
          obtain ⟨others, finals⟩ := same
          refine .some ⟨?_, finals⟩
          dsimp only
          rw [outputs, others]

/-- Services whose calls answer alike serve alike. -/
theorem serve_alike
    (calls : ∀ state other input, related state other →
      Alike related (one.call state input) (two.call other input))
    {state : State} {other : Other} (start : related state other) (inputs : List Input) :
    Alike related (one.serve state inputs) (two.serve other inputs) := by
  induction inputs generalizing state other with
  | nil => exact .some ⟨rfl, start⟩
  | cons input inputs ih =>
      apply serve_cons_alike (calls state other input start)
      intro next mirrored states
      exact ih states

end Service

end Peerdup.Foundation
