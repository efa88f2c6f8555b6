import Peerdup.ClockProperties
import Peerdup.Daemon.SyncNetwork
import Peerdup.Foundation.LastWriter
import Mathlib.Data.Prod.Lex
import Mathlib.Data.String.Basic

/-!
# Convergence of equal clocks

A version is what last-writer-wins compares: its timestamp, then its hash. While
every edit beats the version it replaces, the version that travels with a clock is
the greatest one among the edits the clock counts, so the clock determines it.
-/

set_option autoImplicit false

namespace Peerdup.Daemon

open Foundation

abbrev Version := ℤ ×ₗ String

def ShareState.version (state : ShareState) : Version := toLex (state.timestamp, state.versionHash)

def RemoteVersion.version (remote : RemoteVersion) : Version :=
  toLex (remote.timestamp, remote.versionHash)

theorem lwwWeWin_iff (localTs : Timestamp) (localVhash : String) (remoteTs : Timestamp)
    (remoteVhash : String) :
    lwwWeWin localTs localVhash remoteTs remoteVhash = true ↔
      (toLex (remoteTs, remoteVhash) : Version) < toLex (localTs, localVhash) := by
  rw [Prod.Lex.toLex_lt_toLex, lwwWeWin]
  cases order : compare localTs remoteTs with
  | lt =>
      have earlier := compare_lt_iff_lt.mp order
      simp [earlier.not_gt, earlier.ne']
  | eq =>
      cases compare_eq_iff_eq.mp order
      simp only [lt_irrefl, decide_eq_true_eq, true_and, false_or, gt_iff_lt]
  | gt =>
      have later := compare_gt_iff_gt.mp order
      simp [later]

/-- Both peers of a concurrent pair compute the same winner. -/
theorem lwwWeWin_asymm {leftTs rightTs : Timestamp} {leftVhash rightVhash : String}
    (distinct : leftVhash ≠ rightVhash) :
    lwwWeWin leftTs leftVhash rightTs rightVhash = !lwwWeWin rightTs rightVhash leftTs leftVhash := by
  have apart : (toLex (leftTs, leftVhash) : Version) ≠ toLex (rightTs, rightVhash) := by
    intro same
    exact distinct (congrArg Prod.snd (toLex.injective same))
  rw [Bool.eq_iff_iff, Bool.not_eq_true', ← Bool.not_eq_true, lwwWeWin_iff, lwwWeWin_iff, not_lt]
  exact ⟨le_of_lt, fun below => lt_of_le_of_ne below apart.symm⟩

/-- Everything `sync_loop` can decide about an announce. -/
theorem judgeAnnounce_cases (state : Option ShareState) (announce : Announce) :
    judgeAnnounce state announce = .ignored ∨
    (∃ current remote, state = some current ∧ announce.remote? = some remote ∧
      current.clock.compare remote.clock = .concurrent ∧
      lwwWeWin current.timestamp current.versionHash remote.timestamp remote.versionHash = true ∧
      judgeAnnounce state announce =
        .localWins { current with clock := current.clock.merge remote.clock }) ∨
    (∃ remote, announce.remote? = some remote ∧
      (∀ current, state = some current →
        current.clock.compare remote.clock = .otherDominates ∨
        current.clock.compare remote.clock = .concurrent ∧
          lwwWeWin current.timestamp current.versionHash remote.timestamp remote.versionHash = false) ∧
      judgeAnnounce state announce = .applies remote) := by
  unfold judgeAnnounce
  cases complete : announce.remote? with
  | none => exact .inl rfl
  | some remote =>
      cases state with
      | none => exact .inr (.inr ⟨remote, rfl, by simp, rfl⟩)
      | some current =>
          dsimp only
          cases order : current.clock.compare remote.clock with
          | equal => exact .inl rfl
          | selfDominates => exact .inl rfl
          | otherDominates => exact .inr (.inr ⟨remote, rfl, by simp [order], rfl⟩)
          | concurrent =>
              cases win : lwwWeWin current.timestamp current.versionHash remote.timestamp
                  remote.versionHash with
              | true => exact .inr (.inl ⟨current, remote, rfl, rfl, order, win, rfl⟩)
              | false => exact .inr (.inr ⟨remote, rfl, by simp [order, win], rfl⟩)

theorem remote?_publishSyncAnnounce (state : ShareState) (btPort : UInt16) :
    (publishSyncAnnounce state btPort).remote? = some ⟨state.infoHash,
      [("127.0.0.1", btPort)], state.versionHash, state.clock, state.timestamp⟩ := rfl

namespace SyncNetwork

variable {btPort : String → UInt16}

theorem states_install (network : SyncNetwork) (peer other : String) (state : ShareState) :
    (network.install btPort peer state).states other =
      if other = peer then some state else network.states other :=
  Function.update_apply ..

/-- A clock and its version travel together, held as state or published. -/
inductive Circulates (network : SyncNetwork) : VectorClock → Version → Prop where
  | held {peer : String} {state : ShareState} (found : network.states peer = some state) :
      Circulates network state.clock state.version
  | published {announce : Announce} {remote : RemoteVersion} (member : announce ∈ network.published)
      (complete : announce.remote? = some remote) : Circulates network remote.clock remote.version

/-- How many edits a peer has made: its own counter in its own clock. -/
def edits (network : SyncNetwork) (peer : String) : ℕ :=
  (currentClock (network.states peer)).count peer

/-- Whatever circulates is the register of `history` at its own clock. -/
structure Ordered (network : SyncNetwork) (history : String → ℕ → Version) : Prop where
  latest : ∀ clock version, network.Circulates clock version →
    LastWriter.Latest history clock.count version
  bounded : ∀ clock version, network.Circulates clock version →
    ∀ peer, clock.count peer ≤ network.edits peer

theorem start_ordered (history : String → ℕ → Version) : start.Ordered history := by
  have nothing : ∀ clock version, ¬ start.Circulates clock version := by
    rintro clock version (⟨found⟩ | ⟨member, _⟩)
    · cases found
    · cases member
  exact ⟨fun clock version found => (nothing clock version found).elim,
    fun clock version found => (nothing clock version found).elim⟩

theorem circulates_install {network : SyncNetwork} {peer : String} {state : ShareState}
    {clock : VectorClock} {version : Version}
    (found : (network.install btPort peer state).Circulates clock version) :
    network.Circulates clock version ∨ clock = state.clock ∧ version = state.version := by
  cases found with
  | @held holder held found =>
      by_cases own : holder = peer
      · subst own
        rw [states_install, if_pos rfl] at found
        cases found
        exact .inr ⟨rfl, rfl⟩
      · rw [states_install, if_neg own] at found
        exact .inl (.held found)
  | @published announce remote member complete =>
      rcases List.mem_append.mp member with earlier | latest
      · exact .inl (.published earlier complete)
      · cases List.mem_singleton.mp latest
        cases complete
        exact .inr ⟨rfl, rfl⟩

theorem edits_install (network : SyncNetwork) (peer other : String) (state : ShareState) :
    (network.install btPort peer state).edits other =
      if other = peer then state.clock.count peer else network.edits other := by
  rw [edits, states_install]
  split
  · next own => rw [own]; rfl
  · rfl

theorem Ordered.install {network : SyncNetwork} {history extended : String → ℕ → Version}
    (ordered : network.Ordered history) {peer : String} {state : ShareState}
    (latest : LastWriter.Latest extended state.clock.count state.version)
    (kept : ∀ clock version, network.Circulates clock version →
      LastWriter.Latest extended clock.count version)
    (grown : network.edits peer ≤ state.clock.count peer)
    (bounded : ∀ other, other ≠ peer → state.clock.count other ≤ network.edits other) :
    (network.install btPort peer state).Ordered extended := by
  constructor
  · intro clock version found
    rcases circulates_install found with earlier | ⟨rfl, rfl⟩
    · exact kept clock version earlier
    · exact latest
  · intro clock version found other
    rw [edits_install]
    rcases circulates_install found with earlier | ⟨rfl, rfl⟩
    · have before := ordered.bounded clock version earlier other
      split
      · next own => exact own ▸ before.trans (own ▸ grown)
      · exact before
    · split
      · next own => rw [own]
      · next apart => exact bounded other apart

/-- Taking the greater version under the merged clock keeps order. -/
theorem Ordered.install_merge {network : SyncNetwork} {history : String → ℕ → Version}
    (ordered : network.Ordered history) {peer : String} {clock : VectorClock} {version : Version}
    {state : ShareState} (found : network.Circulates clock version)
    (merged : state.clock = (currentClock (network.states peer)).merge clock)
    (greater : ∀ current, network.states peer = some current →
      state.version = max current.version version)
    (first : network.states peer = none → state.version = version) :
    (network.install btPort peer state).Ordered history := by
  have arrived := ordered.latest clock version found
  have known : ∀ other, (currentClock (network.states peer)).count other ≤ network.edits other := by
    intro other
    cases held : network.states peer with
    | none => simp [currentClock]
    | some current => exact ordered.bounded _ _ (.held held) other
  refine ordered.install ?_ ordered.latest ?_ ?_
  · rw [merged, funext (VectorClock.count_merge _ clock)]
    cases held : network.states peer with
    | none => simpa [currentClock, first held] using arrived
    | some current =>
        rw [greater current held]
        exact (ordered.latest _ _ (.held held)).merge arrived
  · rw [merged, VectorClock.count_merge]
    exact le_max_left _ _
  · intro other _
    rw [merged, VectorClock.count_merge]
    exact max_le (known other) (ordered.bounded clock version found other)

theorem Ordered.install_edit {network : SyncNetwork} {history : String → ℕ → Version}
    (ordered : network.Ordered history) {peer : String} {state : ShareState}
    (advanced : state.clock = (currentClock (network.states peer)).increment peer)
    (room : network.edits peer + 1 < 2 ^ 64)
    (beats : ∀ current, network.states peer = some current → current.version ≤ state.version) :
    (network.install btPort peer state).Ordered
      (LastWriter.record history peer (network.edits peer) state.version) := by
  have counted : ∀ other, ((currentClock (network.states peer)).increment peer).count other =
      if other = peer then (currentClock (network.states peer)).count peer + 1
      else (currentClock (network.states peer)).count other :=
    VectorClock.count_increment room
  refine ordered.install ?_ ?_ ?_ ?_
  · rw [advanced]
    cases held : network.states peer with
    | none =>
        have fresh : ∀ other, (currentClock (network.states peer)).count other = 0 := by
          intro other
          simp [held, currentClock]
        have only : LastWriter.Latest (LastWriter.record history peer
            ((currentClock (network.states peer)).count peer) state.version) _ state.version :=
          LastWriter.Latest.record_first fresh counted
        rw [← held]
        exact only
    | some current =>
        have before := ordered.latest _ _ (.held held)
        have counts : (currentClock (network.states peer)).count = current.clock.count := by
          rw [held]
          rfl
        rw [← counts] at before
        rw [← held]
        exact before.record_next (beats current held) counted
  · intro clock version found
    exact (ordered.latest clock version found).record_of_le (ordered.bounded clock version found peer)
  · rw [advanced, counted, if_pos rfl]
    exact Nat.le_succ _
  · intro other apart
    rw [advanced, counted, if_neg apart]
    cases held : network.states peer with
    | none => simp [currentClock]
    | some current => exact ordered.bounded _ _ (.held held) other

theorem Ordered.announceTick {network : SyncNetwork} {history : String → ℕ → Version}
    (ordered : network.Ordered history) {peer : String} {state : ShareState}
    (held : network.states peer = some state) :
    SyncNetwork.Ordered { network with
      published := network.published ++ [publishSyncAnnounce state (btPort peer)] } history := by
  have same : ∀ clock version, SyncNetwork.Circulates { network with
      published := network.published ++ [publishSyncAnnounce state (btPort peer)] } clock version →
      network.Circulates clock version := by
    intro clock version found
    cases found with
    | held found => exact .held found
    | published member complete =>
        rcases List.mem_append.mp member with earlier | latest
        · exact .published earlier complete
        · cases List.mem_singleton.mp latest
          cases complete
          exact .held held
  exact ⟨fun clock version found => ordered.latest clock version (same clock version found),
    fun clock version found => ordered.bounded clock version (same clock version found)⟩

/-- What `sync_loop` installs for an announce is the merged clock with the greater version. -/
theorem Ordered.receive {network : SyncNetwork} {history : String → ℕ → Version}
    (ordered : network.Ordered history) {announce : Announce} (member : announce ∈ network.published)
    (peer : String) (torrentId : Nat) (manifest : Manifest) :
    (match judgeAnnounce (network.states peer) announce with
      | .ignored => network
      | .localWins state => network.install btPort peer state
      | .applies remote => network.install btPort peer
          (appliedState (network.states peer) remote torrentId manifest)).Ordered history := by
  rcases judgeAnnounce_cases (network.states peer) announce with
    judged | ⟨current, remote, held, complete, _, win, judged⟩ | ⟨remote, complete, loses, judged⟩
  · rw [judged]
    exact ordered
  · rw [judged]
    refine ordered.install_merge (.published member complete) (by rw [held]; rfl) ?_ (by simp [held])
    intro other present
    cases held.symm.trans present
    exact (max_eq_left ((lwwWeWin_iff ..).mp win).le).symm
  · rw [judged]
    have found := Circulates.published member complete
    refine ordered.install_merge found rfl ?_ (fun _ => rfl)
    intro current held
    apply Eq.symm
    apply max_eq_right
    rcases loses current held with order | ⟨_, lost⟩
    · -- A clock that dominates has seen our version, so its own is at least as great.
      have spec := VectorClock.compare_spec current.clock remote.clock
      rw [order] at spec
      exact (ordered.latest _ _ (.held held)).le_of_le (ordered.latest _ _ found) spec.1
    · exact not_lt.mp (mt (lwwWeWin_iff ..).mpr (by simp [lost]))

theorem step_ordered {network next : SyncNetwork} {event : SyncEvent}
    (ordered : ∃ history, network.Ordered history) (met : network.EditBeatsReplaced event)
    (stepped : (machine btPort).step network event = some next) :
    ∃ history, next.Ordered history := by
  obtain ⟨history, ordered⟩ := ordered
  cases event with
  | localEdit peer versionHash infoHash torrentId timestamp manifest =>
      simp only [machine] at stepped
      split at stepped
      · cases stepped
        exact ⟨history, ordered⟩
      · next changed =>
          cases stepped
          have differs : ∀ current, network.states peer = some current →
              current.versionHash ≠ versionHash := by
            intro current held same
            simp [unchanged, held, same] at changed
          refine ⟨_, ordered.install_edit rfl ?_ ?_⟩
          · cases held : network.states peer with
            | none => simp [edits, held, currentClock]
            | some current =>
                rw [edits, held]
                exact (met current held (differs current held)).2
          · intro current held
            exact ((lwwWeWin_iff ..).mp (met current held (differs current held)).1).le
  | receive peer index torrentId manifest =>
      obtain ⟨announce, found, rfl⟩ := Option.map_eq_some_iff.mp stepped
      exact ⟨history, ordered.receive (List.mem_of_getElem? found) peer torrentId manifest⟩
  | announceTick peer =>
      simp only [machine] at stepped
      split at stepped
      · cases stepped
        exact ⟨history, ordered⟩
      · next state held =>
          cases stepped
          exact ⟨history, ordered.announceTick held⟩

theorem Ordered.equalClocksAgree {network : SyncNetwork} {history : String → ℕ → Version}
    (ordered : network.Ordered history) : network.EqualClocksAgree := by
  intro left right leftState rightState leftHeld rightHeld same
  have equal := LastWriter.Latest.unique (ordered.latest _ _ (.held leftHeld))
    (ordered.latest _ _ (.held rightHeld)) (VectorClock.compare_eq_equal same)
  exact congrArg Prod.snd (toLex.injective equal)

/-- While every edit beats the version it replaces, equal clocks mean equal content. -/
theorem run_equalClocksAgree (btPort : String → UInt16) (events : List SyncEvent)
    (final : SyncNetwork)
    (met : (machine btPort).Along EditBeatsReplaced start events)
    (ran : (machine btPort).run start events = some final) : final.EqualClocksAgree := by
  have initially : ∃ history, start.Ordered history := ⟨fun _ _ => toLex (0, ""), start_ordered _⟩
  obtain ⟨history, ordered⟩ := (machine btPort).run_along_invariant
    (fun _ _ _ ordered met stepped => step_ordered ordered met stepped) initially met ran
  exact ordered.equalClocksAgree

/-- `b` takes `a`'s version, edits it later, and `a` takes the edit. -/
def handOver : List SyncEvent := [
  .localEdit "a" "h1" "i1" 1 10 [],
  .receive "b" 0 1 [],
  .localEdit "b" "h2" "i2" 2 11 [],
  .receive "a" 2 2 []]

theorem handOver_editBeatsReplaced :
    (machine fun _ => 6881).Along EditBeatsReplaced start handOver := by
  refine ⟨?_, fun _ stepped => ⟨trivial, ?_⟩⟩
  · intro current held
    cases held
  · cases stepped
    refine fun _ stepped => ⟨?_, fun _ stepped => ⟨trivial, fun _ _ => trivial⟩⟩
    cases stepped
    intro current held _
    cases held
    exact ⟨by decide, by decide⟩

theorem handOver_equalClocksAgree :
    ∃ final, (machine fun _ => 6881).run start handOver = some final ∧ final.EqualClocksAgree :=
  ⟨_, rfl, run_equalClocksAgree _ handOver _ handOver_editBeatsReplaced rfl⟩

/-- `b` edits `a`'s version under a slow wall clock while `c` edits on its own. -/
def slowEditor : List SyncEvent := [
  .localEdit "a" "h1" "i1" 1 10 [],
  .localEdit "c" "h3" "i3" 1 7 [],
  .receive "b" 0 1 [],
  .localEdit "b" "h2" "i2" 2 5 [],
  .receive "c" 0 2 [],
  .receive "c" 3 3 [],
  .receive "b" 1 3 []]

/-- `b` ends with `h3` and `c` with `h1` under the same clock. -/
theorem slowEditor_not_equalClocksAgree :
    ∃ final, (machine fun _ => 6881).run start slowEditor = some final ∧
      ¬ final.EqualClocksAgree := by
  refine ⟨_, rfl, ?_⟩
  intro agree
  have same := agree "b" "c" _ _ rfl rfl (by decide)
  exact absurd same (by decide)

end SyncNetwork

end Peerdup.Daemon
