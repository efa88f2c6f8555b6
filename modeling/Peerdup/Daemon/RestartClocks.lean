import Peerdup.Daemon.LifeSteps

/-!
# Clocks across restarts

The persisted clock is the memory of everything the peer has announced. It only grows,
unless a start finds the root empty and forgets it.
-/

set_option autoImplicit false

namespace Peerdup.Daemon

open Foundation Crypto

variable {crypto : Primitives} {root : Path} {peerIdHex : String} {key : KeyRing}

namespace PeerLife

variable {life next : PeerLife}

/-- The clock covers all that was announced and authored, each of which went beyond what
came before. -/
structure Remembered (peerIdHex : String) (clock : VectorClock) (life : PeerLife) : Prop where
  announced_le : ∀ announced ∈ life.announced, ∀ peer, announced.count peer ≤ clock.count peer
  announced_grow : life.announced.Pairwise fun earlier later =>
    ∀ peer, earlier.count peer ≤ later.count peer
  authored_le : ∀ state ∈ life.authored, state.clock.count peerIdHex ≤ clock.count peerIdHex
  authored_grow : life.authored.Pairwise fun earlier later =>
    earlier.clock.count peerIdHex < later.clock.count peerIdHex

/-- The persisted clock covers the past, and a running loop holds it. -/
structure Remembers (peerIdHex : String) (life : PeerLife) : Prop where
  past : Remembered peerIdHex (persistedClock life.device) life
  held : ∀ current, life.running = some current →
    ∀ peer, (currentClock current).count peer = (persistedClock life.device).count peer

theorem Remembered.raise {clock higher : VectorClock} (past : Remembered peerIdHex clock life)
    (covers : ∀ peer, clock.count peer ≤ higher.count peer) : Remembered peerIdHex higher life where
  announced_le announced member peer := (past.announced_le announced member peer).trans (covers peer)
  announced_grow := past.announced_grow
  authored_le state member := (past.authored_le state member).trans (covers peerIdHex)
  authored_grow := past.authored_grow

theorem Remembered.frame {clock : VectorClock} (past : Remembered peerIdHex clock life)
    (announced : next.announced = life.announced) (authored : next.authored = life.authored) :
    Remembered peerIdHex clock next := by
  refine ⟨?_, ?_, ?_, ?_⟩
  · rw [announced]
    exact past.announced_le
  · rw [announced]
    exact past.announced_grow
  · rw [authored]
    exact past.authored_le
  · rw [authored]
    exact past.authored_grow

theorem Remembered.author {clock : VectorClock} {state : ShareState}
    (past : Remembered peerIdHex clock life) (next_ : state.clock = clock.increment peerIdHex)
    (room : clock.count peerIdHex + 1 < 2 ^ 64) :
    Remembered peerIdHex state.clock (life.author state) := by
  have own : state.clock.count peerIdHex = clock.count peerIdHex + 1 := by
    rw [next_, VectorClock.count_increment room, if_pos rfl]
  have covers : ∀ peer, clock.count peer ≤ state.clock.count peer := by
    intro peer
    rw [next_, VectorClock.count_increment room]
    split
    · next same => exact same ▸ Nat.le_succ _
    · exact Nat.le_refl _
  have raised := past.raise covers
  refine ⟨raised.announced_le, raised.announced_grow, ?_, ?_⟩
  · intro version member
    rcases List.mem_append.mp member with earlier | last
    · exact raised.authored_le version earlier
    · rw [List.mem_singleton.mp last]
  · refine List.pairwise_append.mpr ⟨past.authored_grow, List.pairwise_singleton _ _, ?_⟩
    intro earlier member last same
    rw [List.mem_singleton.mp same, own]
    exact Nat.lt_succ_of_le (past.authored_le earlier member)

theorem Remembered.announce {clock : VectorClock} (past : Remembered peerIdHex clock life) :
    Remembered peerIdHex clock { life with announced := life.announced ++ [clock] } := by
  refine ⟨?_, ?_, past.authored_le, past.authored_grow⟩
  · intro announced member peer
    rcases List.mem_append.mp member with earlier | last
    · exact past.announced_le announced earlier peer
    · rw [List.mem_singleton.mp last]
  · refine List.pairwise_append.mpr ⟨past.announced_grow, List.pairwise_singleton _ _, ?_⟩
    intro earlier member last same
    rw [List.mem_singleton.mp same]
    exact past.announced_le earlier member

/-- A handler saves a state that covers the past, and may announce it. -/
theorem Remembered.settle {state : ShareState} {device : Device}
    (past : Remembered peerIdHex state.clock life) (onDisk : persistedClock device = state.clock)
    (killed : Bool) : Remembers peerIdHex (life.settle killed device state) := by
  unfold PeerLife.settle
  cases killed with
  | true =>
      refine ⟨?_, fun _ contra => by cases contra⟩
      change Remembered peerIdHex (persistedClock device) _
      rw [onDisk]
      exact past.frame rfl rfl
  | false =>
      constructor
      · change Remembered peerIdHex (persistedClock device) _
        rw [onDisk]
        exact past.announce.frame rfl rfl
      · intro current same peer
        cases same
        change state.clock.count peer = (persistedClock device).count peer
        rw [onDisk]

theorem Remembers.unmoved {device : Device} (remembers : Remembers peerIdHex life)
    (same : device.stateFile = life.device.stateFile) :
    Remembers peerIdHex { life with device } := by
  have clock : persistedClock device = persistedClock life.device := by
    rw [persistedClock, same, ← persistedClock]
  constructor
  · change Remembered peerIdHex (persistedClock device) _
    rw [clock]
    exact remembers.past.frame rfl rfl
  · intro current held peer
    change _ = (persistedClock device).count peer
    rw [clock]
    exact remembers.held current held peer

theorem KeepsClock.room {event : LifeEvent} {before : VectorClock}
    (keeps : life.KeepsClock crypto root peerIdHex event)
    (incremented : life.clockToIncrement crypto root key event = some before) :
    before.count peerIdHex + 1 < 2 ^ 64 := by
  unfold clockToIncrement at incremented
  split at incremented
  · split at incremented
    · next stopped made =>
        split at incremented
        · next snapshot =>
            split at incremented
            · cases incremented
              rw [VectorClock.count_new]
              decide
            · next held =>
                split at incremented
                · cases incremented
                · next edited =>
                    cases incremented
                    exact (keeps stopped _ _ made held).2 _ _ snapshot edited
        · cases incremented
    · cases incremented
  · split at incremented
    · cases incremented
    next current running =>
      split at incremented
      · next snapshot =>
          split at incremented
          · cases incremented
          next changed =>
            split at incremented
            · cases incremented
            · cases incremented
              exact keeps current running _ _ snapshot (Bool.eq_false_iff.mpr changed)
      · cases incremented
  · cases incremented

/-- The clock about to be incremented covers the past. -/
theorem Remembers.before {event : LifeEvent} {before : VectorClock}
    (remembers : Remembers peerIdHex life)
    (incremented : life.clockToIncrement crypto root key event = some before) :
    Remembered peerIdHex before life := by
  rcases clockToIncrement_cases incremented with onDisk | ⟨current, running, held⟩
  · rw [onDisk]
    exact remembers.past
  · rw [held]
    exact remembers.past.raise fun peer => (remembers.held current running peer).ge

theorem Remembers.step (remembers : Remembers peerIdHex life) {event : LifeEvent}
    (keeps : life.KeepsClock crypto root peerIdHex event)
    (ran : (machine crypto root peerIdHex key).step life event = some next) :
    Remembers peerIdHex next := by
  cases stepped_of_step ran with
  | unmoved same => exact remembers.unmoved same
  | stopped => exact ⟨remembers.past.frame rfl rfl, fun _ contra => by cases contra⟩
  | @waiting _ _ tree device stopped made empty same =>
      have unmoved := remembers.unmoved same
      refine ⟨unmoved.past.frame rfl rfl, fun current held peer => ?_⟩
      cases held
      -- Nothing persisted can have been forgotten: there was content, or nothing was saved.
      have absent : device.stateFile = none := by
        cases found : life.device.stateFile with
        | none => exact same.trans found
        | some persisted => exact absurd empty (keeps stopped tree persisted made found).1
      change VectorClock.new.count peer = (persistedClock device).count peer
      rw [persistedClock, absent]
  | announced running =>
      have held := remembers.held _ running
      have covers := remembers.past.raise fun peer => (held peer).ge
      exact ⟨(covers.announce.raise fun peer => (held peer).le).frame rfl rfl, remembers.held⟩
  | resumed _ again saved => exact (again ▸ remembers.past).settle saved _
  | authored incremented clock saved =>
      exact ((remembers.before incremented).author clock (keeps.room incremented)).settle saved _
  | @merged _ _ saved _ _ _ _ _ running _ clock onDisk =>
      -- The save has succeeded.
      cases (keeps : saved = .ok ())
      refine (remembers.past.raise fun peer => ?_).settle onDisk _
      rw [clock, VectorClock.count_merge, ← remembers.held _ running peer]
      exact Nat.le_max_left _ _

theorem Remembers.clocksSurvive (remembers : Remembers peerIdHex life) :
    life.ClocksSurvive peerIdHex where
  announced := remembers.past.announced_grow.imp VectorClock.covers_iff.mpr
  authored := by
    rw [List.Nodup, List.pairwise_map]
    refine remembers.past.authored_grow.imp fun less same => ?_
    exact less.ne (congrArg UInt64.toNat same)

/-- While no start forgets the persisted state and no counter wraps, clocks survive. -/
theorem run_clocksSurvive (crypto : Primitives) (root : Path) (peerIdHex : String) (key : KeyRing)
    (tree : FileTree) (events : List LifeEvent) (final : PeerLife)
    (keeps : (machine crypto root peerIdHex key).Along (KeepsClock crypto root peerIdHex)
      (fresh tree) events)
    (ran : (machine crypto root peerIdHex key).run (fresh tree) events = some final) :
    final.ClocksSurvive peerIdHex := by
  have start : Remembers peerIdHex (fresh tree) := by
    refine ⟨⟨?_, List.Pairwise.nil, ?_, List.Pairwise.nil⟩, fun _ contra => by cases contra⟩
    · exact fun _ member => absurd member List.not_mem_nil
    · exact fun _ member => absurd member List.not_mem_nil
  have preserved : ∀ (life : PeerLife) (event : LifeEvent) (next : PeerLife),
      Remembers peerIdHex life → life.KeepsClock crypto root peerIdHex event →
      (machine crypto root peerIdHex key).step life event = some next → Remembers peerIdHex next :=
    fun _ _ _ remembers keeps stepped => remembers.step keeps stepped
  exact ((machine crypto root peerIdHex key).run_along_invariant preserved start keeps ran).clocksSurvive

theorem keepsClock_of_check {event : LifeEvent}
    (checked : life.keepsClock crypto root peerIdHex event = true) :
    life.KeepsClock crypto root peerIdHex event := by
  cases event with
  | start inputs killed =>
      intro stopped tree persisted made held
      simp only [keepsClock, stopped, made, held, Bool.and_eq_true, decide_eq_true_eq] at checked
      constructor
      · intro empty
        rw [empty] at checked
        exact checked.1 rfl
      · intro diskVh manifest snapshot edited
        rw [snapshot] at checked
        simpa [edited] using checked.2
  | localChange inputs killed =>
      intro current running newVhash manifest snapshot changed
      simpa [keepsClock, running, snapshot, changed] using checked
  | userEdits tree => trivial
  | stop => trivial
  | announceTick => trivial
  | receive announce fetch saved killed =>
      cases saved with
      | error failure => cases checked
      | ok done => rfl

section Samples

open Reference

def soloTree : FileTree := .ofFiles [(share ++ [ascii "a"], [1])]

def editedTree : FileTree := .ofFiles [(share ++ [ascii "a"], [2])]

/-- An edit is published, and another one is made while the daemon is down. -/
def editedAndRestarted : List LifeEvent :=
  [.start sampleInputs false, .userEdits editedTree, .localChange sampleInputs true,
    .userEdits soloTree, .start sampleInputs false, .announceTick]

theorem editedAndRestarted_survive : ∃ final,
    (machine cleartext share "p" shareRing).run (fresh soloTree) editedAndRestarted = some final ∧
      final.announced.map (·.count "p") = [1, 3, 3] ∧ final.ClocksSurvive "p" := by
  obtain ⟨final, ran⟩ := Option.isSome_iff_exists.mp (show ((machine cleartext share "p"
    shareRing).run (fresh soloTree) editedAndRestarted).isSome = true by decide +kernel)
  have keeps : (machine cleartext share "p" shareRing).Along (KeepsClock cleartext share "p")
      (fresh soloTree) editedAndRestarted :=
    Machine.along_of_checkAlong _ (fun _ _ checked => keepsClock_of_check checked)
      (show (machine cleartext share "p" shareRing).checkAlong (keepsClock cleartext share "p")
        (fresh soloTree) editedAndRestarted = true by decide +kernel)
  have announced : ((machine cleartext share "p" shareRing).run (fresh soloTree)
      editedAndRestarted).map (fun life => life.announced.map (·.count "p")) = some [1, 3, 3] := by
    decide +kernel
  rw [ran] at announced
  exact ⟨final, ran, Option.some.inj announced,
    run_clocksSurvive cleartext share "p" shareRing soloTree editedAndRestarted final keeps ran⟩

/-- The root is empty at a start, and a file is written after it. -/
def emptiedAndRestarted : List LifeEvent :=
  [.start sampleInputs false, .userEdits editedTree, .localChange sampleInputs false, .stop,
    .userEdits .empty, .start sampleInputs false, .userEdits soloTree,
    .localChange sampleInputs false]

/-- The clock starts again from nothing, and a counter is used twice. -/
theorem emptiedAndRestarted_forgotten : ∃ final,
    (machine cleartext share "p" shareRing).run (fresh soloTree) emptiedAndRestarted = some final ∧
      final.announced.map (·.count "p") = [1, 2, 1] ∧
      final.authored.map (fun state => state.clock.count "p") = [1, 2, 1] ∧
      ¬ final.ClocksSurvive "p" := by
  obtain ⟨final, ran⟩ := Option.isSome_iff_exists.mp (show ((machine cleartext share "p"
    shareRing).run (fresh soloTree) emptiedAndRestarted).isSome = true by decide +kernel)
  have counts : ((machine cleartext share "p" shareRing).run (fresh soloTree)
      emptiedAndRestarted).map (fun life => (life.announced.map (·.count "p"),
        life.authored.map fun state => state.clock.count "p")) =
      some ([1, 2, 1], [1, 2, 1]) := by
    decide +kernel
  rw [ran] at counts
  obtain ⟨announced, authored⟩ := Prod.mk.inj (Option.some.inj counts)
  refine ⟨final, ran, announced, authored, fun survive => ?_⟩
  have distinct : (final.authored.map fun state => state.clock.count "p").Nodup := by
    have injective : Function.Injective UInt64.toNat := fun _ _ => UInt64.toNat.inj
    have mapped := survive.authored.map injective
    rwa [List.map_map] at mapped
  rw [authored] at distinct
  revert distinct
  decide

end Samples

end PeerLife

end Peerdup.Daemon
