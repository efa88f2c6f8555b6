import Peerdup.Daemon.RestartClocks

/-!
# Local edits over a daemon's life

A local edit increments the own entry of the clock held so far. The new clock dominates the
old one exactly when that entry is not at its maximum, and any announce can take it there.
-/

set_option autoImplicit false

namespace Peerdup.Daemon.PeerLife

open Foundation Crypto

variable (crypto : Primitives) (root : Path) (peerIdHex : String) (key : KeyRing)

/-- The clock a handler builds dominates the one before, no debug build panics over it, and
every version authored carries such a clock. -/
structure EditDominates (life : PeerLife) (event : LifeEvent) : Prop where
  dominates : ∀ before, life.clockToIncrement crypto root key event = some before →
    (before.increment peerIdHex).compare before = .selfDominates
  unpanicked : ∀ before, life.clockToIncrement crypto root key event = some before →
    before.incrementChecked peerIdHex = some (before.increment peerIdHex)
  authored : ∀ next state, (machine crypto root peerIdHex key).step life event = some next →
    next.authored = life.authored ++ [state] →
      ∃ before, life.clockToIncrement crypto root key event = some before ∧
        state.clock = before.increment peerIdHex

/-- The own entry that is about to be incremented is below its maximum. -/
def HasRoom (life : PeerLife) (event : LifeEvent) : Prop :=
  ∀ before, life.clockToIncrement crypto root key event = some before →
    before.count peerIdHex + 1 < 2 ^ 64

variable {crypto root peerIdHex key} {life next : PeerLife}

@[simp] theorem authored_settle (life : PeerLife) (killed : Bool) (device : Device)
    (state : ShareState) : (life.settle killed device state).authored = life.authored := by
  unfold settle
  cases killed with
  | false => rfl
  | true => rfl

/-- Whoever authors a version has incremented a clock for it. -/
theorem incremented_of_authored {event : LifeEvent} {state : ShareState}
    (ran : (machine crypto root peerIdHex key).step life event = some next)
    (more : next.authored = life.authored ++ [state]) :
    ∃ before, life.clockToIncrement crypto root key event = some before ∧
      state.clock = before.increment peerIdHex := by
  cases stepped_of_step ran with
  | unmoved _ => simp at more
  | stopped => simp at more
  | waiting _ _ _ _ => simp at more
  | announced _ => simp at more
  | resumed _ _ _ => simp at more
  | authored incremented clock _ =>
      rw [authored_settle] at more
      cases List.append_cancel_left more
      exact ⟨_, incremented, clock⟩
  | merged _ _ _ _ => simp at more

/-- One event's edit dominates exactly when its entry has room. -/
theorem editDominates_iff (life : PeerLife) (event : LifeEvent) :
    life.EditDominates crypto root peerIdHex key event ↔
      life.HasRoom crypto root peerIdHex key event := by
  constructor
  · intro dominates before incremented
    exact (VectorClock.compare_increment_iff before peerIdHex).mp
      (dominates.dominates before incremented)
  · intro room
    refine ⟨fun before incremented => VectorClock.compare_increment (room before incremented), ?_, ?_⟩
    · intro before incremented
      exact (VectorClock.incrementChecked_eq_some_iff before peerIdHex).mpr (room before incremented)
    · exact fun next state stepped authored => incremented_of_authored stepped authored

/-- All along a run local edits dominate exactly while no entry to be incremented is full. -/
theorem run_editsDominate_iff (crypto : Primitives) (root : Path) (peerIdHex : String)
    (key : KeyRing) (life : PeerLife) (events : List LifeEvent) :
    (machine crypto root peerIdHex key).Along (EditDominates crypto root peerIdHex key) life events ↔
      (machine crypto root peerIdHex key).Along (HasRoom crypto root peerIdHex key) life events := by
  constructor
  · exact Machine.along_mono _ fun life event => (editDominates_iff life event).mp
  · exact Machine.along_mono _ fun life event => (editDominates_iff life event).mpr

/-- Every announce counts the peer's own edits up to this many. -/
def HearsAtMost (peerIdHex : String) (bound : Nat) : LifeEvent → Prop
  | .receive announce _ _ _ => ∀ clock, announce.clock = some clock → clock.count peerIdHex ≤ bound
  | _ => True

theorem HearsAtMost.mono {bound higher : Nat} {event : LifeEvent}
    (hears : HearsAtMost peerIdHex bound event) (below : bound ≤ higher) :
    HearsAtMost peerIdHex higher event := by
  cases event with
  | receive announce fetch saved killed => exact fun clock same => (hears clock same).trans below
  | userEdits tree => trivial
  | start inputs killed => trivial
  | stop => trivial
  | localChange inputs killed => trivial
  | announceTick => trivial

/-- The peer's own entry in the clock it holds and in the one on disk. -/
structure OwnAtMost (peerIdHex : String) (limit : Nat) (life : PeerLife) : Prop where
  held : ∀ current, life.running = some current → (currentClock current).count peerIdHex ≤ limit
  onDisk : (persistedClock life.device).count peerIdHex ≤ limit

theorem OwnAtMost.mono {limit higher : Nat} (own : OwnAtMost peerIdHex limit life)
    (below : limit ≤ higher) : OwnAtMost peerIdHex higher life where
  held current running := (own.held current running).trans below
  onDisk := own.onDisk.trans below

theorem OwnAtMost.unmoved {limit : Nat} {device : Device} (own : OwnAtMost peerIdHex limit life)
    (same : device.stateFile = life.device.stateFile) :
    OwnAtMost peerIdHex limit { life with device } where
  held := own.held
  onDisk := by
    change (persistedClock device).count peerIdHex ≤ limit
    rw [persistedClock, same]
    exact own.onDisk

theorem ownAtMost_settle {limit : Nat} {device : Device} {state : ShareState}
    (onDisk : (persistedClock device).count peerIdHex ≤ limit)
    (low : state.clock.count peerIdHex ≤ limit)
    (life : PeerLife) (killed : Bool) : OwnAtMost peerIdHex limit (life.settle killed device state) := by
  unfold settle
  cases killed with
  | true =>
      exact ⟨fun _ contra => (by cases contra), onDisk⟩
  | false =>
      refine ⟨?_, onDisk⟩
      rintro current ⟨⟩
      exact low

theorem count_increment_le (clock : VectorClock) (peer : String) :
    (clock.increment peer).count peer ≤ clock.count peer + 1 := by
  rw [VectorClock.count_increment_mod, if_pos rfl]
  exact Nat.mod_le _ _

theorem clock_of_remote? {announce : Announce} {remote : RemoteVersion}
    (complete : announce.remote? = some remote) : announce.clock = some remote.clock := by
  unfold Announce.remote? at complete
  split at complete
  · next clock _ =>
      cases complete
      exact clock
  · cases complete

theorem OwnAtMost.before {limit : Nat} {event : LifeEvent} {before : VectorClock}
    (own : OwnAtMost peerIdHex limit life)
    (incremented : life.clockToIncrement crypto root key event = some before) :
    before.count peerIdHex ≤ limit := by
  rcases clockToIncrement_cases incremented with onDisk | ⟨current, running, held⟩
  · rw [onDisk]
    exact own.onDisk
  · rw [held]
    exact own.held current running

/-- One event raises the peer's own entry by one at most, up to what it hears. -/
theorem OwnAtMost.step {limit : Nat} (own : OwnAtMost peerIdHex limit life) {event : LifeEvent}
    (hears : HearsAtMost peerIdHex limit event)
    (ran : (machine crypto root peerIdHex key).step life event = some next) :
    OwnAtMost peerIdHex (limit + 1) next := by
  have raised := own.mono (Nat.le_succ limit)
  cases stepped_of_step ran with
  | unmoved same => exact raised.unmoved same
  | stopped => exact ⟨fun _ contra => (by cases contra), raised.onDisk⟩
  | waiting _ _ _ same =>
      refine ⟨?_, (raised.unmoved same).onDisk⟩
      rintro current ⟨⟩
      rw [currentClock, VectorClock.count_new]
      exact Nat.zero_le _
  | announced _ => exact ⟨raised.held, raised.onDisk⟩
  | resumed _ again onDisk =>
      have low := again ▸ raised.onDisk
      exact ownAtMost_settle (onDisk ▸ low) low _ _
  | @authored _ _ _ _ state incremented clock onDisk =>
      have low : state.clock.count peerIdHex ≤ limit + 1 := by
        rw [clock]
        exact (count_increment_le _ _).trans (Nat.succ_le_succ (own.before incremented))
      exact ownAtMost_settle (onDisk ▸ low) low _ _
  | @merged _ _ saved _ _ _ _ state running complete clock onDisk =>
      have low : state.clock.count peerIdHex ≤ limit + 1 := by
        rw [clock, VectorClock.count_merge]
        exact (max_le (own.held _ running) (hears _ (clock_of_remote? complete))).trans
          (Nat.le_succ limit)
      refine ownAtMost_settle ?_ low _ _
      rw [onDisk]
      cases saved with
      | error failure => exact raised.onDisk
      | ok done => exact low

theorem OwnAtMost.hasRoom {limit : Nat} (own : OwnAtMost peerIdHex limit life)
    (short : limit + 1 < 2 ^ 64) (event : LifeEvent) :
    life.HasRoom crypto root peerIdHex key event :=
  fun _ incremented => lt_of_le_of_lt (Nat.succ_le_succ (own.before incremented)) short

/-- A peer that never hears a count near the maximum keeps its room for a whole life. -/
theorem run_hasRoom {bound : Nat} (tree : FileTree) {events : List LifeEvent}
    (hears : ∀ event ∈ events, HearsAtMost peerIdHex bound event)
    (short : bound + events.length < 2 ^ 64) :
    (machine crypto root peerIdHex key).Along (HasRoom crypto root peerIdHex key) (fresh tree)
      events := by
  have start : OwnAtMost peerIdHex bound (fresh tree) :=
    ⟨fun _ contra => (by cases contra), by
      rw [persistedClock]
      exact Nat.zero_le _⟩
  generalize fresh tree = life at start ⊢
  induction events generalizing life bound with
  | nil => trivial
  | cons event events ih =>
      rw [List.length_cons] at short
      refine ⟨start.hasRoom (by omega) event, fun next stepped => ?_⟩
      have moved := start.step (hears event List.mem_cons_self) stepped
      refine ih (fun later member => ?_) (by omega) next moved
      exact (hears later (List.mem_cons_of_mem _ member)).mono (Nat.le_succ bound)

section Samples

open Reference

/-- An older version on another peer. -/
def olderAnnounce (counters : Std.TreeMap String UInt64) : Announce where
  infoHash := "seed"
  btEndpoints := []
  versionHash := some ""
  clock := some ⟨counters⟩
  timestamp := some 1

/-- Two announces lose to the local version. The second one counts our edits to the top. -/
def overheard : List LifeEvent :=
  [.start sampleInputs false,
    .receive (olderAnnounce ((∅ : Std.TreeMap String UInt64).insert "q" 1)) noFetch (.ok ())
      false,
    .receive (olderAnnounce ((∅ : Std.TreeMap String UInt64).insert "p" 18446744073709551615))
      noFetch (.ok ()) false,
    .userEdits editedTree]

/-- The edit that follows wraps to zero and falls behind the version it was made from. -/
theorem overheard_wraps : ∃ life before,
    (machine cleartext share "p" shareRing).run (fresh soloTree) overheard = some life ∧
      life.clockToIncrement cleartext share shareRing (.localChange sampleInputs false) =
        some before ∧
      (before.increment "p").compare before = .otherDominates ∧
      before.incrementChecked "p" = none ∧
      ¬ (machine cleartext share "p" shareRing).Along (EditDominates cleartext share "p" shareRing)
        (fresh soloTree) (overheard ++ [.localChange sampleInputs false]) := by
  have evaluated : (((machine cleartext share "p" shareRing).run (fresh soloTree) overheard).bind
      fun life => (life.clockToIncrement cleartext share shareRing
        (.localChange sampleInputs false)).map (·.count "p")) = some (2 ^ 64 - 1) := by
    decide +kernel
  obtain ⟨life, ran, later⟩ := Option.bind_eq_some_iff.mp evaluated
  obtain ⟨before, incremented, top⟩ := Option.map_eq_some_iff.mp later
  have full : ¬ before.count "p" + 1 < 2 ^ 64 := by
    rw [top]
    decide
  have behind := VectorClock.compare_increment_full full
  refine ⟨life, before, ran, incremented, behind, ?_, ?_⟩
  · exact if_neg full
  · intro along
    have edit := ((Machine.along_append_iff _).mp along).2 life ran
    have dominates := edit.1.dominates before incremented
    rw [behind] at dominates
    cases dominates

end Samples

end Peerdup.Daemon.PeerLife
