import Peerdup.Daemon.Watcher

/-! Which file-system notifications reach `handle_local_change`. -/

set_option autoImplicit false

namespace Peerdup.Daemon.WatchLoop

open Foundation

theorem everySentHandled_nil : EverySentHandled [] := by
  intro before after split
  simp at split

theorem everySentHandled_append_handled (log : List WatchEntry) :
    EverySentHandled (log ++ [.handledLocalChange]) := by
  intro before after split
  rcases List.append_eq_append_iff.mp split with ⟨front, _, back⟩ | ⟨front, _, back⟩
  · cases front with
    | nil => simp at back
    | cons entry front => simp at back
  · cases front with
    | nil => simp at back
    | cons entry front =>
        obtain ⟨rfl, rfl⟩ := List.cons.inj back
        simp

/-- An unhandled event is still in the channel or in the hands of the debounce. -/
def Kept (loop : WatchLoop) : Prop :=
  loop.running = true → 0 < loop.queued ∨ loop.debounce = .settling ∨ EverySentHandled loop.log

theorem Kept.noneLost {loop : WatchLoop} (kept : loop.Kept) : loop.NoneLost := by
  rintro ⟨running, empty, waiting⟩
  rcases kept running with queued | settling | handled
  · omega
  · rw [waiting] at settling
    cases settling
  · exact handled

/-- A completed branch drops nothing when the debounce still waits for its first event. -/
theorem Kept.restart {loop : WatchLoop} (kept : loop.Kept) (running : loop.running = true)
    {exits : Bool} (idle : exits = false → loop.debounce = .waiting) : (loop.restart exits).Kept := by
  intro stillRunning
  cases exits with
  | true => cases stillRunning
  | false =>
      rcases kept running with queued | settling | handled
      · exact .inl queued
      · rw [idle rfl] at settling
        cases settling
      · exact .inr (.inr handled)

theorem Kept.polled {loop next : WatchLoop} (kept : loop.Kept) {received : Received}
    (stepped : machine.step loop (.polled received) = some next) : next.Kept := by
  simp only [machine, Bool.not_eq_true'] at stepped
  split at stepped
  · cases stepped
  split at stepped
  · cases stepped
  next running offered =>
    replace running : loop.running = true := by simpa using running
    cases phase : loop.debounce <;> cases received <;>
      simp only [phase, Daemon.debounce, Option.some.injEq] at stepped <;> subst stepped
    case waiting.event => exact fun _ => .inr (.inl rfl)
    case settling.event => exact fun _ => .inr (.inl rfl)
    case waiting.closed => exact kept
    case waiting.elapsed => simp [offers, phase] at offered
    case settling.closed => exact fun _ => .inr (.inr (everySentHandled_append_handled _))
    case settling.elapsed => exact fun _ => .inr (.inr (everySentHandled_append_handled _))

theorem step_kept {loop next : WatchLoop} {event : WatchEvent} (kept : loop.Kept)
    (met : loop.SettlesFirst event) (stepped : machine.step loop event = some next) :
    next.Kept := by
  cases event with
  | polled received => exact kept.polled stepped
  | notified paths =>
      simp only [machine] at stepped
      split at stepped
      · cases stepped
      split at stepped
      · cases stepped
      split at stepped <;> cases stepped
      · exact kept
      · exact fun _ => .inl (Nat.succ_pos _)
  | hangUp =>
      simp only [machine] at stepped
      split at stepped <;> cases stepped
      exact kept
  | announceTick =>
      simp only [machine] at stepped
      split at stepped <;> cases stepped
      next running => exact kept.restart (by simpa using running) (fun _ => met)
  | shareCommand shutdown =>
      simp only [machine] at stepped
      split at stepped <;> cases stepped
      next running => exact kept.restart (by simpa using running) met
  | gossipItem ended =>
      simp only [machine] at stepped
      split at stepped <;> cases stepped
      next running => exact kept.restart (by simpa using running) met

/-- While no branch cuts a settling debounce short, every notification is handled. -/
theorem run_noneLost (events : List WatchEvent) (final : WatchLoop)
    (met : machine.Along SettlesFirst start events) (ran : machine.run start events = some final) :
    final.NoneLost := by
  have kept : start.Kept := fun _ => .inr (.inr everySentHandled_nil)
  exact (machine.run_along_invariant (fun _ _ _ => step_kept) kept met ran).noneLost

/-- A burst of two writes, then a tick. -/
def settledBurst : List WatchEvent := [
  .notified [[ascii "a.txt"]],
  .polled .event,
  .notified [[ascii "a.txt"]],
  .polled .event,
  .polled .elapsed,
  .announceTick]

theorem settledBurst_noneLost :
    ∃ final, machine.run start settledBurst = some final ∧ final.Quiet ∧ final.NoneLost := by
  refine ⟨_, rfl, ⟨rfl, rfl, rfl⟩, run_noneLost settledBurst _ ?_ rfl⟩
  refine ⟨trivial, fun _ stepped => ⟨trivial, fun _ stepped' => ⟨trivial, fun _ stepped'' =>
    ⟨trivial, fun _ stepped''' => ⟨trivial, fun _ stepped'''' => ⟨?_, fun _ _ => trivial⟩⟩⟩⟩⟩⟩
  cases stepped
  cases stepped'
  cases stepped''
  cases stepped'''
  cases stepped''''
  rfl

/-- The tick comes between the event and the end of its settle period. -/
def interruptedWrite : List WatchEvent := [
  .notified [[ascii "a.txt"]],
  .polled .event,
  .announceTick]

theorem interruptedWrite_lost :
    ∃ final, machine.run start interruptedWrite = some final ∧ ¬ final.NoneLost := by
  refine ⟨_, rfl, ?_⟩
  intro noneLost
  have handled := noneLost ⟨rfl, rfl, rfl⟩ [] [] rfl
  cases handled

end Peerdup.Daemon.WatchLoop
