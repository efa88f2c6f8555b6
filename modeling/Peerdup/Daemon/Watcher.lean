import Peerdup.Daemon.Content
import Peerdup.Foundation.Machine

/-!
# The file-system watcher inside `sync_loop`

The watcher thread sends on an unbounded channel. `sync_loop` polls `debounce` next
to its other branches, and when one of those completes `tokio::select!` drops the
debounce together with whatever it has received.
-/

set_option autoImplicit false

namespace Peerdup.Daemon

open Foundation

/-- The watcher's filter: events fully inside the shadow are the daemon's own writes. -/
def allInShadow (paths : List Path) : Bool :=
  !paths.isEmpty && paths.all fun path => path.any (· == peerdupDirName)

/-- What `rx.recv()`, under a timeout once settling, comes back with. -/
inductive Received where
  | event
  | closed
  | elapsed
deriving DecidableEq

/-- The await point of a `debounce` future. -/
inductive Debounce where
  /-- The first `recv`. -/
  | waiting
  /-- The timed `recv` of the loop: at least one event has been taken. -/
  | settling
deriving DecidableEq

inductive Poll where
  | pending (debounce : Debounce)
  | ready (result : Option Unit)

def debounce : Debounce → Received → Poll
  | .waiting, .event => .pending .settling
  | .waiting, .closed => .ready none
  | .waiting, .elapsed => .pending .waiting
  | .settling, .event => .pending .settling
  | .settling, .closed => .ready (some ())
  | .settling, .elapsed => .ready (some ())

/-- What a run has done so far, oldest first. -/
inductive WatchEntry where
  | sent
  | handledLocalChange
deriving DecidableEq

structure WatchLoop where
  running : Bool
  queued : Nat
  closed : Bool
  debounce : Debounce
  log : List WatchEntry

inductive WatchEvent where
  /-- `notify` reports a change. -/
  | notified (paths : List Path)
  /-- The watcher thread ends and its sender is dropped. -/
  | hangUp
  /-- The debounce branch makes progress. -/
  | polled (received : Received)
  | announceTick
  | shareCommand (shutdown : Bool)
  | gossipItem (ended : Bool)

namespace WatchLoop

def start : WatchLoop := ⟨true, 0, false, .waiting, []⟩

/-- Whether the channel can answer so. A timer may fire although an event just arrived. -/
def offers (loop : WatchLoop) : Received → Bool
  | .event => decide (0 < loop.queued)
  | .closed => loop.closed && decide (loop.queued = 0)
  | .elapsed => decide (loop.debounce = .settling)

def take (loop : WatchLoop) : Received → WatchLoop
  | .event => { loop with queued := loop.queued - 1 }
  | _ => loop

/-- Another branch completed: its handler runs and the next iteration starts afresh. -/
def restart (loop : WatchLoop) (exits : Bool) : WatchLoop :=
  { loop with running := !exits, debounce := .waiting }

def machine : Machine WatchLoop WatchEvent where
  step loop event :=
    if !loop.running then none
    else match event with
      | .notified paths =>
          if loop.closed then none
          else if allInShadow paths then some loop
          else some { loop with queued := loop.queued + 1, log := loop.log ++ [.sent] }
      | .hangUp => some { loop with closed := true }
      | .polled received =>
          if !loop.offers received then none
          else match Daemon.debounce loop.debounce received with
            | .pending next => some { loop.take received with debounce := next }
            | .ready none => some loop
            | .ready (some ()) =>
                some { loop.take received with
                  debounce := .waiting, log := loop.log ++ [.handledLocalChange] }
      | .announceTick => some (loop.restart false)
      | .shareCommand shutdown => some (loop.restart shutdown)
      | .gossipItem ended => some (loop.restart ended)

/-- Every event ever sent was followed by a call of `handle_local_change`. -/
def EverySentHandled (log : List WatchEntry) : Prop :=
  ∀ before after, log = before ++ .sent :: after → .handledLocalChange ∈ after

/-- The channel is empty and no debounce is in progress. -/
def Quiet (loop : WatchLoop) : Prop :=
  loop.running = true ∧ loop.queued = 0 ∧ loop.debounce = .waiting

def NoneLost (loop : WatchLoop) : Prop := loop.Quiet → EverySentHandled loop.log

/-- No other branch completes under a settling debounce, unless it ends the loop. -/
def SettlesFirst (loop : WatchLoop) : WatchEvent → Prop
  | .announceTick => loop.debounce = .waiting
  | .shareCommand shutdown => shutdown = false → loop.debounce = .waiting
  | .gossipItem ended => ended = false → loop.debounce = .waiting
  | _ => True

end WatchLoop

end Peerdup.Daemon
