import Peerdup.ClockOrder
import Peerdup.Daemon.FailedSync
import Peerdup.Daemon.PeerLife

/-!
# Steps of a peer's life

What one event can do to the clocks of a share. A handler that fails moves none of them.
-/

set_option autoImplicit false

namespace Peerdup.Daemon

open Foundation Crypto

variable {crypto : Primitives} {root : Path} {peerIdHex : String} {key : KeyRing}
  {device after : Device} {inputs : LocalInputs}

theorem stateFile_createAndAddShadowTorrent (device : Device) (seed : Seed) :
    (createAndAddShadowTorrent device seed).2.stateFile = device.stateFile := by
  unfold createAndAddShadowTorrent
  split
  · rfl
  · split
    · rfl
    · rfl
    · rfl

theorem stateFile_deleteCurrent (device : Device) (current : Option ShareState) :
    (device.deleteCurrent current).stateFile = device.stateFile := by
  cases current with
  | none => rfl
  | some state => rfl

theorem stateFile_seedContent (crypto : Primitives) (root : Path) (key : KeyRing) (device : Device)
    (inputs : LocalInputs) (manifest : Manifest) :
    (seedContent crypto root key device inputs manifest).2.stateFile = device.stateFile := by
  unfold seedContent
  split
  · rfl
  · exact stateFile_createAndAddShadowTorrent _ _

/-- The persisted form of a state. -/
def ShareState.persisted (state : ShareState) : PersistedState :=
  ⟨state.versionHash, state.clock, state.timestamp, state.manifest⟩

theorem stateFile_persist {saved : Except SyncFailure Unit} {state : ShareState}
    {result : Except SyncFailure Unit} (ran : persist device saved state = (result, after)) :
    after.stateFile = match result with
      | .ok () => some state.persisted
      | .error _ => device.stateFile := by
  unfold persist at ran
  split at ran
  · cases ran
    rfl
  · cases ran
    rfl

/-- A local change that comes to a version saves it, one above the clock held. -/
theorem handleLocalChange_clock {current : Option ShareState}
    {result : Except SyncFailure (Option ShareState)}
    (ran : handleLocalChange crypto device root peerIdHex key inputs current = (result, after)) :
    (∃ state newVhash manifest seeded, result = .ok (some state) ∧
        hasContent device.tree root = .ok true ∧
        snapshotContent crypto device.tree root = .ok (newVhash, manifest) ∧
        unchanged current newVhash = false ∧
        (seedContent crypto root key (device.deleteCurrent current) inputs manifest).1 = .ok seeded ∧
        state.clock = (currentClock current).increment peerIdHex ∧
        after.stateFile = some state.persisted) ∨
      (∀ state, result ≠ .ok (some state)) ∧ after.stateFile = device.stateFile := by
  unfold handleLocalChange at ran
  split at ran
  · cases ran
    exact .inr ⟨fun _ contra => (by cases contra), rfl⟩
  · cases ran
    exact .inr ⟨fun _ contra => (by cases contra), rfl⟩
  next walk =>
    split at ran
    · cases ran
      exact .inr ⟨fun _ contra => (by cases contra), rfl⟩
    next newVhash manifest snapshot =>
      split at ran
      · cases ran
        exact .inr ⟨fun _ contra => (by cases contra), rfl⟩
      next changed =>
        dsimp only at ran
        have deleted := stateFile_deleteCurrent device current
        split at ran
        · cases ran
          exact .inr ⟨fun _ contra => (by cases contra), deleted⟩
        next tree shadow =>
          have kept := stateFile_createAndAddShadowTorrent
            ((device.deleteCurrent current).withTree tree) (inputs.seed tree)
          split at ran
          · next torrent =>
              rw [torrent] at kept
              cases ran
              exact .inr ⟨fun _ contra => (by cases contra), kept.trans deleted⟩
          next infoHash torrentId _ torrent =>
            rw [torrent] at kept
            have seeded : (seedContent crypto root key (device.deleteCurrent current) inputs
                manifest).1 = .ok (infoHash, torrentId) := by
              rw [seedContent, shadow]
              dsimp only
              rw [torrent]
            split at ran
            · next saving =>
                cases ran
                have unsaved := (stateFile_persist saving).trans (kept.trans deleted)
                exact .inr ⟨fun _ contra => (by cases contra), unsaved⟩
            · next saving =>
                cases ran
                exact .inl ⟨_, newVhash, manifest, _, rfl, walk, snapshot,
                  Bool.eq_false_iff.mpr changed, seeded, rfl, stateFile_persist saving⟩

theorem applyRemoteSync_clock {remote : RemoteVersion} {fetch : FileTree → Fetch}
    {current : Option ShareState} {result : Except SyncFailure ShareState}
    (ran : applyRemoteSync crypto device root remote key fetch current = (result, after)) :
    after.stateFile = device.stateFile ∧
      ∀ state, result = .ok state → state.clock = (currentClock current).merge remote.clock := by
  have deleted := stateFile_deleteCurrent device current
  have failed : ∀ (failure : SyncFailure) (state : ShareState), Except.error failure = .ok state →
      state.clock = (currentClock current).merge remote.clock := by
    intro failure state contra
    cases contra
  unfold applyRemoteSync at ran
  split at ran
  · cases ran
    exact ⟨rfl, failed _⟩
  dsimp only at ran
  split at ran
  · cases ran
    exact ⟨deleted, failed _⟩
  split at ran
  · cases ran
    exact ⟨deleted, failed _⟩
  · cases ran
    exact ⟨deleted, failed _⟩
  split at ran
  · cases ran
    exact ⟨deleted, failed _⟩
  split at ran
  · cases ran
    exact ⟨deleted, failed _⟩
  split at ran
  · cases ran
    exact ⟨deleted, failed _⟩
  split at ran
  · cases ran
    exact ⟨deleted, failed _⟩
  · cases current with
    | none =>
        cases ran
        exact ⟨rfl, fun state same => (by cases same; rfl)⟩
    | some held =>
        cases ran
        exact ⟨rfl, fun state same => (by cases same; rfl)⟩

/-- The clock of a local win takes the announced one in. -/
theorem judgeAnnounce_localWins {current : Option ShareState} {announce : Announce}
    {state : ShareState} (judged : judgeAnnounce current announce = .localWins state) :
    ∃ remote, announce.remote? = some remote ∧
      state.clock = (currentClock current).merge remote.clock := by
  unfold judgeAnnounce at judged
  split at judged
  · cases judged
  next remote complete =>
    split at judged
    · cases judged
    · split at judged
      · cases judged
      · cases judged
      · split at judged
        · cases judged
          exact ⟨remote, complete, rfl⟩
        · cases judged
      · cases judged

theorem judgeAnnounce_applies {current : Option ShareState} {announce : Announce}
    {remote : RemoteVersion} (judged : judgeAnnounce current announce = .applies remote) :
    announce.remote? = some remote := by
  unfold judgeAnnounce at judged
  split at judged
  · cases judged
  next complete =>
    split at judged
    · cases judged
      exact complete
    · split at judged
      · cases judged
      · cases judged
      · split at judged
        · cases judged
        · cases judged
          exact complete
      · cases judged
        exact complete

/-- What the persisted state stands for. -/
def persistedClock (device : Device) : VectorClock :=
  match device.stateFile with
  | none => .new
  | some persisted => persisted.clock

/-- What the persisted state stands for once the save of a state has come to its end. -/
def savedClock (saved : Except SyncFailure Unit) (state : ShareState) (device : Device) :
    VectorClock :=
  match saved with
  | .ok () => state.clock
  | .error _ => persistedClock device

theorem persistedClock_persist (device : Device) (saved : Except SyncFailure Unit)
    (state : ShareState) :
    persistedClock (persist device saved state).2 = savedClock saved state device := by
  cases saved with
  | error failure => rfl
  | ok done => rfl

theorem savedClock_congr (saved : Except SyncFailure Unit) (state : ShareState)
    (same : after.stateFile = device.stateFile) :
    savedClock saved state after = savedClock saved state device := by
  cases saved with
  | error failure => simp only [savedClock, persistedClock, same]
  | ok done => rfl

theorem reconcileOnStart_clock {state : ShareState}
    (ran : reconcileOnStart crypto root peerIdHex key device inputs = (.ok (some state), after)) :
    hasContent device.tree root = .ok true ∧
      (∃ manifest, snapshotContent crypto device.tree root = .ok (state.versionHash, manifest)) ∧
      persistedClock after = state.clock ∧
      state.clock = if PeerLife.authorsOnStart device state
        then (persistedClock device).increment peerIdHex else persistedClock device := by
  unfold reconcileOnStart at ran
  split at ran
  · cases ran
  · cases ran
  next walk =>
    split at ran
    · cases ran
    next diskVh manifest snapshot =>
      have seeded := stateFile_seedContent crypto root key device inputs manifest
      split at ran
      · cases ran
      next torrent =>
        rw [torrent] at seeded
        dsimp only at ran seeded
        rw [seeded] at ran
        unfold PeerLife.authorsOnStart persistedClock
        cases held : device.stateFile with
        | none =>
            rw [held] at ran
            dsimp only at ran
            split at ran
            · cases ran
            · next saving =>
                cases ran
                have kept := stateFile_persist saving
                dsimp only at kept
                rw [kept]
                exact ⟨walk, ⟨manifest, snapshot⟩, rfl, rfl⟩
        | some persisted =>
            rw [held] at ran
            dsimp only at ran
            by_cases same : persisted.versionHash = diskVh
            · rw [if_pos same] at ran
              cases ran
              rw [seeded, held]
              refine ⟨walk, ⟨manifest, snapshot⟩, rfl, ?_⟩
              rw [if_neg (by simpa using same)]
            · rw [if_neg same] at ran
              split at ran
              · cases ran
              · next saving =>
                  cases ran
                  have kept := stateFile_persist saving
                  dsimp only at kept
                  rw [kept]
                  refine ⟨walk, ⟨manifest, snapshot⟩, rfl, ?_⟩
                  rw [if_pos (by simpa using same)]

theorem reconcileOnStart_stateFile {result : Except SyncFailure (Option ShareState)}
    (ran : reconcileOnStart crypto root peerIdHex key device inputs = (result, after))
    (none_ : ∀ state, result ≠ .ok (some state)) :
    after.stateFile = device.stateFile ∧
      (result = .ok none → hasContent device.tree root = .ok false) := by
  unfold reconcileOnStart at ran
  split at ran
  · cases ran
    exact ⟨rfl, fun contra => by cases contra⟩
  · next walk =>
      cases ran
      exact ⟨rfl, fun _ => walk⟩
  split at ran
  · cases ran
    exact ⟨rfl, fun contra => by cases contra⟩
  next diskVh manifest snapshot =>
    have seeded := stateFile_seedContent crypto root key device inputs manifest
    split at ran
    · next torrent =>
        rw [torrent] at seeded
        cases ran
        exact ⟨seeded, fun contra => by cases contra⟩
    next torrent =>
      rw [torrent] at seeded
      dsimp only at ran
      split at ran
      · split at ran
        · next saving =>
            cases ran
            exact ⟨(stateFile_persist saving).trans seeded, fun contra => by cases contra⟩
        · cases ran
          exact absurd rfl (none_ _)
      · split at ran
        · cases ran
          exact absurd rfl (none_ _)
        · split at ran
          · next saving =>
              cases ran
              exact ⟨(stateFile_persist saving).trans seeded, fun contra => by cases contra⟩
          · cases ran
            exact absurd rfl (none_ _)

namespace PeerLife

variable (crypto root peerIdHex key)

/-- The clock whose own entry the event's handler increments, where it comes to that. -/
def clockToIncrement (life : PeerLife) : LifeEvent → Option VectorClock
  | .start _ _ =>
      match life.running, life.device.tree.createDirAll root with
      | none, .ok tree =>
          match hasContent tree root, snapshotContent crypto tree root with
          | .ok true, .ok (diskVh, _) =>
              match life.device.stateFile with
              | none => some .new
              | some persisted =>
                  if persisted.versionHash = diskVh then none else some persisted.clock
          | _, _ => none
      | _, _ => none
  | .localChange inputs _ =>
      match life.running with
      | none => none
      | some current =>
          match hasContent life.device.tree root, snapshotContent crypto life.device.tree root with
          | .ok true, .ok (newVhash, newManifest) =>
              if unchanged current newVhash then none
              else
                match (seedContent crypto root key (life.device.deleteCurrent current) inputs
                  newManifest).1 with
                -- Here the clock is made after the shadow.
                | .error _ => none
                | .ok _ => some (currentClock current)
          | _, _ => none
  | _ => none

/-- What one event can do. Only these cases move a clock. -/
inductive Stepped (life : PeerLife) : LifeEvent → PeerLife → Prop where
  | unmoved {event device} :
      device.stateFile = life.device.stateFile → Stepped life event { life with device }
  | stopped : Stepped life .stop { life with running := none }
  /-- There is no content yet, so nothing is held, whatever was persisted. -/
  | waiting {inputs killed tree device} :
      life.running = none → life.device.tree.createDirAll root = .ok tree →
      hasContent tree root = .ok false → device.stateFile = life.device.stateFile →
      Stepped life (.start inputs killed) { life with device, running := some none }
  | announced {state} :
      life.running = some (some state) →
      Stepped life .announceTick { life with announced := life.announced ++ [state.clock] }
  | resumed {inputs killed device state} :
      life.running = none → state.clock = persistedClock life.device →
      persistedClock device = state.clock →
      Stepped life (.start inputs killed) (life.settle killed device state)
  | authored {event before killed device state} :
      life.clockToIncrement crypto root key event = some before →
      state.clock = before.increment peerIdHex → persistedClock device = state.clock →
      Stepped life event ((life.author state).settle killed device state)
  | merged {announce fetch saved killed current remote device state} :
      life.running = some current → announce.remote? = some remote →
      state.clock = (currentClock current).merge remote.clock →
      persistedClock device = savedClock saved state life.device →
      Stepped life (.receive announce fetch saved killed) (life.settle killed device state)

variable {crypto root peerIdHex key} {life next : PeerLife} {killed : Bool}

theorem stepped_startLoop (stopped : life.running = none) (inputs : LocalInputs) (killed : Bool) :
    Stepped crypto root peerIdHex key life (.start inputs killed)
      (life.startLoop crypto root peerIdHex key inputs killed) := by
  unfold startLoop
  split
  · exact .unmoved rfl
  next tree made =>
    dsimp only
    split
    · next ran =>
        exact .unmoved (reconcileOnStart_stateFile ran fun _ contra => by cases contra).1
    · next ran =>
        obtain ⟨same, empty⟩ := reconcileOnStart_stateFile ran fun _ contra => by cases contra
        exact .waiting stopped made (empty rfl) same
    · next state after ran =>
        obtain ⟨walk, ⟨manifest, snapshot⟩, saved, clock⟩ := reconcileOnStart_clock ran
        split
        · next authors =>
            rw [if_pos authors] at clock
            refine .authored ?_ clock saved
            dsimp only at walk snapshot
            rw [clockToIncrement, stopped, made]
            dsimp only
            rw [walk, snapshot]
            dsimp only
            unfold authorsOnStart at authors
            unfold persistedClock
            cases held : life.device.stateFile with
            | none => rfl
            | some persisted =>
                rw [held] at authors
                exact if_neg (by simpa using authors)
        · next again =>
            rw [if_neg again] at clock
            exact .resumed stopped clock saved

theorem stepped_changeLocally {current : Option ShareState} (running : life.running = some current)
    (inputs : LocalInputs) (killed : Bool) :
    Stepped crypto root peerIdHex key life (.localChange inputs killed)
      (life.changeLocally crypto root peerIdHex key current inputs killed) := by
  unfold changeLocally
  rcases ran : handleLocalChange crypto life.device root peerIdHex key inputs current with
    ⟨result, device⟩
  rcases handleLocalChange_clock ran with
    ⟨state, newVhash, manifest, shadow, same, walk, snapshot, changed, seeded, clock, saved⟩ |
      ⟨none_, same⟩
  · rw [same]
    refine .authored ?_ clock (by rw [persistedClock, saved]; rfl)
    rw [clockToIncrement, running]
    dsimp only
    rw [walk, snapshot]
    dsimp only
    rw [changed, if_neg Bool.false_ne_true, seeded]
  · cases result with
    | error failure => exact .unmoved same
    | ok outcome =>
        cases outcome with
        | none => exact .unmoved same
        | some state => exact absurd rfl (none_ state)

theorem stepped_receiveAnnounce {current : Option ShareState} (running : life.running = some current)
    (announce : Announce) (fetch : FileTree → Fetch) (saved : Except SyncFailure Unit)
    (killed : Bool) :
    Stepped crypto root peerIdHex key life (.receive announce fetch saved killed)
      (life.receiveAnnounce crypto root key current announce fetch saved killed) := by
  unfold receiveAnnounce
  split
  · exact .unmoved rfl
  · next state judged =>
      obtain ⟨remote, complete, clock⟩ := judgeAnnounce_localWins judged
      exact .merged running complete clock (persistedClock_persist _ _ _)
  · next remote judged =>
      rcases ran : applyRemoteSync crypto life.device root remote key fetch current with
        ⟨result, device⟩
      obtain ⟨same, clock⟩ := applyRemoteSync_clock ran
      cases result with
      | error failure => exact .unmoved same
      | ok state =>
          refine .merged running (judgeAnnounce_applies judged) (clock state rfl) ?_
          rw [persistedClock_persist, savedClock_congr saved state same]

theorem stepped_of_step {event : LifeEvent}
    (ran : (machine crypto root peerIdHex key).step life event = some next) :
    Stepped crypto root peerIdHex key life event next := by
  unfold machine at ran
  cases event with
  | userEdits tree =>
      cases ran
      exact .unmoved rfl
  | stop =>
      cases ran
      exact .stopped
  | start inputs killed =>
      dsimp only at ran
      split at ran
      · next stopped =>
          cases ran
          exact stepped_startLoop stopped inputs killed
      · cases ran
        exact .unmoved rfl
  | localChange inputs killed =>
      dsimp only at ran
      split at ran
      · cases ran
        exact .unmoved rfl
      · next running =>
          cases ran
          exact stepped_changeLocally running inputs killed
  | announceTick =>
      dsimp only at ran
      split at ran
      · next running =>
          cases ran
          exact .announced running
      · cases ran
        exact .unmoved rfl
      · cases ran
        exact .unmoved rfl
  | receive announce fetch saved killed =>
      dsimp only at ran
      split at ran
      · cases ran
        exact .unmoved rfl
      · next running =>
          cases ran
          exact stepped_receiveAnnounce running announce fetch saved killed

/-- What is incremented is the clock held, or the persisted one of a peer that is stopped. -/
theorem clockToIncrement_cases {event : LifeEvent} {before : VectorClock}
    (incremented : life.clockToIncrement crypto root key event = some before) :
    before = persistedClock life.device ∨
      ∃ current, life.running = some current ∧ before = currentClock current := by
  unfold clockToIncrement at incremented
  split at incremented
  · split at incremented
    · split at incremented
      · split at incremented
        · next absent =>
            cases incremented
            exact .inl (by rw [persistedClock, absent])
        · next held =>
            split at incremented
            · cases incremented
            · cases incremented
              exact .inl (by rw [persistedClock, held])
      · cases incremented
    · cases incremented
  · split at incremented
    · cases incremented
    next current running =>
      split at incremented
      · split at incremented
        · cases incremented
        · split at incremented
          · cases incremented
          · cases incremented
            exact .inr ⟨current, running, rfl⟩
      · cases incremented
  · cases incremented

end PeerLife

end Peerdup.Daemon
