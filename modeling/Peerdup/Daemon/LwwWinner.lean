import Mathlib.Data.List.GetD
import Peerdup.Daemon.SyncConvergence

/-!
# The winner that a clock stands for

The edits of a run, numbered for each author as its clock counts them. Whatever
circulates with a clock is the greatest of the edits that the clock covers.
-/

set_option autoImplicit false

namespace Peerdup.Daemon.SyncNetwork

open Foundation

/-- The version an event creates, with its author. -/
def editOf (network : SyncNetwork) : SyncEvent → List (String × Version)
  | .localEdit peer versionHash _ _ timestamp _ =>
      if unchanged (network.states peer) versionHash then []
      else [(peer, toLex (timestamp, versionHash))]
  | _ => []

/-- The versions a run creates, oldest first. -/
def editsOf (btPort : String → UInt16) : SyncNetwork → List SyncEvent → List (String × Version)
  | _, [] => []
  | network, event :: events =>
      match (machine btPort).step network event with
      | none => []
      | some next => network.editOf event ++ editsOf btPort next events

def editsBy (log : List (String × Version)) (peer : String) : List Version :=
  (log.filter (·.1 = peer)).map Prod.snd

/-- The first `clock[p]` edits of every peer `p`. -/
def covered (log : List (String × Version)) (clock : VectorClock) : Set Version :=
  {version | ∃ peer index, index < clock.count peer ∧ (editsBy log peer)[index]? = some version}

structure LwwWinner (network : SyncNetwork) (log : List (String × Version)) : Prop where
  complete : ∀ announce ∈ network.published, announce.remote?.isSome = true
  greatest : ∀ clock version, network.Circulates clock version →
    IsGreatest (covered log clock) version
  determined : ∀ clock version other otherVersion, network.Circulates clock version →
    network.Circulates other otherVersion → clock.compare other = .equal → version = otherVersion
  neverLoses : ∀ clock version other otherVersion, network.Circulates clock version →
    network.Circulates other otherVersion → clock.compare other = .otherDominates →
      version ≤ otherVersion

/-- An edit's timestamp is later than that of the version it replaces. -/
def EditIsLater (network : SyncNetwork) : SyncEvent → Prop
  | .localEdit peer versionHash _ _ timestamp _ =>
      ∀ current, network.states peer = some current → current.versionHash ≠ versionHash →
        current.timestamp < timestamp
  | _ => True

/-- The author's own counter does not wrap. -/
def CounterHasRoom (network : SyncNetwork) : SyncEvent → Prop
  | .localEdit peer versionHash _ _ _ _ =>
      unchanged (network.states peer) versionHash = false → network.edits peer + 1 < 2 ^ 64
  | _ => True

/-- A log as a counted history. -/
def historyOf (log : List (String × Version)) (peer : String) (index : ℕ) : Version :=
  (editsBy log peer).getD index (toLex (0, ""))

theorem editsBy_append (log more : List (String × Version)) (peer : String) :
    editsBy (log ++ more) peer = editsBy log peer ++ editsBy more peer := by
  rw [editsBy, List.filter_append, List.map_append]
  rfl

theorem editsBy_singleton (author peer : String) (version : Version) :
    editsBy [(author, version)] peer = if author = peer then [version] else [] := by
  by_cases own : author = peer
  · simp [editsBy, own]
  · simp [editsBy, own]

theorem historyOf_append (log : List (String × Version)) (author : String) (version : Version) :
    historyOf (log ++ [(author, version)]) =
      LastWriter.record (historyOf log) author (editsBy log author).length version := by
  funext peer index
  rw [historyOf, editsBy_append, editsBy_singleton, LastWriter.record]
  by_cases own : author = peer
  · subst own
    rw [if_pos rfl]
    rcases lt_trichotomy index (editsBy log author).length with earlier | here | later
    · rw [List.getD_append _ _ _ _ earlier, if_neg fun both => earlier.ne both.2]
      rfl
    · rw [if_pos ⟨rfl, here⟩, List.getD_append_right _ _ _ _ here.ge, here, Nat.sub_self]
      rfl
    · rw [if_neg fun both => later.ne' both.2, historyOf, List.getD_eq_default _ _ later.le,
        List.getD_eq_default]
      rw [List.length_append, List.length_singleton]
      omega
  · rw [if_neg own, List.append_nil, if_neg fun both => own both.1.symm]
    rfl

/-- The network's registers follow the log, which holds each author's edits. -/
structure Logged (network : SyncNetwork) (log : List (String × Version)) : Prop where
  ordered : network.Ordered (historyOf log)
  counted : ∀ peer, network.edits peer = (editsBy log peer).length
  complete : ∀ announce ∈ network.published, announce.remote?.isSome = true

variable {btPort : String → UInt16} {network next : SyncNetwork} {log : List (String × Version)}

theorem start_logged : start.Logged [] := by
  refine ⟨start_ordered _, ?_, ?_⟩
  · intro peer
    simp [edits, start, currentClock, editsBy]
  · intro announce impossible
    cases impossible

theorem complete_install {peer : String} {state : ShareState}
    (complete : ∀ announce ∈ network.published, announce.remote?.isSome = true) :
    ∀ announce ∈ (network.install btPort peer state).published, announce.remote?.isSome = true := by
  intro announce member
  rcases List.mem_append.mp member with earlier | latest
  · exact complete announce earlier
  · rw [List.mem_singleton.mp latest]
    rfl

theorem edits_receive (ordered : network.Ordered (historyOf log)) {announce : Announce}
    (member : announce ∈ network.published) (peer other : String) (torrentId : Nat)
    (manifest : Manifest) :
    (match judgeAnnounce (network.states peer) announce with
      | .ignored => network
      | .localWins state => network.install btPort peer state
      | .applies remote => network.install btPort peer
          (appliedState (network.states peer) remote torrentId manifest)).edits other =
      network.edits other := by
  have merged : ∀ {remote : RemoteVersion}, announce.remote? = some remote →
      max ((currentClock (network.states peer)).count peer) (remote.clock.count peer) =
        network.edits peer := by
    intro remote complete
    exact max_eq_left (ordered.bounded _ _ (.published member complete) peer)
  rcases judgeAnnounce_cases (network.states peer) announce with
    judged | ⟨current, remote, held, complete, _, _, judged⟩ | ⟨remote, complete, _, judged⟩
  · rw [judged]
  · rw [judged]
    dsimp only
    rw [edits_install]
    split
    · next own =>
        have same := merged complete
        rw [held] at same
        rw [own, VectorClock.count_merge]
        exact same
    · rfl
  · rw [judged]
    dsimp only
    rw [edits_install]
    split
    · next own =>
        rw [own, appliedState, VectorClock.count_merge]
        exact merged complete
    · rfl

theorem step_logged {event : SyncEvent} (logged : network.Logged log)
    (later : network.EditIsLater event) (room : network.CounterHasRoom event)
    (stepped : (machine btPort).step network event = some next) :
    next.Logged (log ++ network.editOf event) := by
  cases event with
  | localEdit peer versionHash infoHash torrentId timestamp manifest =>
      simp only [machine] at stepped
      split at stepped
      · next same =>
          cases stepped
          rw [editOf, if_pos same, List.append_nil]
          exact logged
      next changed =>
        cases stepped
        rw [editOf, if_neg changed]
        have grows := room (Bool.eq_false_iff.mpr changed)
        have differs : ∀ current, network.states peer = some current →
            current.versionHash ≠ versionHash := by
          intro current held same
          simp [unchanged, held, same] at changed
        refine ⟨?_, ?_, complete_install logged.complete⟩
        · rw [historyOf_append, ← logged.counted]
          refine logged.ordered.install_edit rfl grows ?_
          intro current held
          exact (Prod.Lex.toLex_lt_toLex.mpr (.inl (later current held (differs current held)))).le
        · intro other
          rw [edits_install, editsBy_append, editsBy_singleton, List.length_append, ← logged.counted]
          by_cases own : other = peer
          · rw [if_pos own, if_pos own.symm, own, changedState, VectorClock.count_increment grows,
              if_pos rfl]
            rfl
          · rw [if_neg own, if_neg fun same => own same.symm]
            rfl
  | receive peer index torrentId manifest =>
      obtain ⟨announce, found, rfl⟩ := Option.map_eq_some_iff.mp stepped
      have member := List.mem_of_getElem? found
      have nothing : network.editOf (.receive peer index torrentId manifest) = [] := rfl
      rw [nothing, List.append_nil]
      refine ⟨logged.ordered.receive member peer torrentId manifest, ?_, ?_⟩
      · intro other
        exact (edits_receive logged.ordered member peer other torrentId manifest).trans
          (logged.counted other)
      · split
        · exact logged.complete
        · exact complete_install logged.complete
        · exact complete_install logged.complete
  | announceTick peer =>
      have nothing : network.editOf (.announceTick peer) = [] := rfl
      rw [nothing, List.append_nil]
      simp only [machine] at stepped
      split at stepped
      · cases stepped
        exact logged
      next state held =>
        cases stepped
        refine ⟨logged.ordered.announceTick held, logged.counted, ?_⟩
        intro announce member
        rcases List.mem_append.mp member with earlier | latest
        · exact logged.complete announce earlier
        · rw [List.mem_singleton.mp latest]
          rfl

theorem run_logged {final : SyncNetwork} {events : List SyncEvent} (logged : network.Logged log)
    (met : (machine btPort).Along (fun network event =>
      network.EditIsLater event ∧ network.CounterHasRoom event) network events)
    (ran : (machine btPort).run network events = some final) :
    final.Logged (log ++ editsOf btPort network events) := by
  induction events generalizing network log with
  | nil =>
      cases ran
      rw [editsOf, List.append_nil]
      exact logged
  | cons event events ih =>
      obtain ⟨next, stepped, rest⟩ := (machine btPort).run_cons_iff.mp ran
      have here := step_logged logged met.1.1 met.1.2 stepped
      rw [editsOf, stepped]
      dsimp only
      rw [← List.append_assoc]
      exact ih here (met.2 next stepped) rest

/-- A clock within the counters covers the history's writes and the log's edits alike. -/
theorem covered_eq (logged : network.Logged log) {clock : VectorClock}
    (bounded : ∀ peer, clock.count peer ≤ network.edits peer) :
    covered log clock = LastWriter.covered (historyOf log) clock.count := by
  ext version
  refine exists_congr fun peer => exists_congr fun index => and_congr_right fun below => ?_
  have inside : index < (editsBy log peer).length := by
    rw [← logged.counted]
    exact below.trans_le (bounded peer)
  rw [historyOf, List.getD_eq_getElem _ _ inside, List.getElem?_eq_getElem inside, Option.some.injEq]

theorem Logged.lwwWinner (logged : network.Logged log) : network.LwwWinner log := by
  refine ⟨logged.complete, ?_, ?_, ?_⟩
  · intro clock version found
    rw [covered_eq logged (logged.ordered.bounded clock version found)]
    exact logged.ordered.latest clock version found
  · intro clock version other otherVersion found otherFound same
    exact LastWriter.Latest.unique (logged.ordered.latest _ _ found)
      (logged.ordered.latest _ _ otherFound) (VectorClock.compare_eq_equal same)
  · intro clock version other otherVersion found otherFound order
    have spec := VectorClock.compare_spec clock other
    rw [order] at spec
    exact (logged.ordered.latest _ _ found).le_of_le (logged.ordered.latest _ _ otherFound) spec.1

/-- While edits are later than what they replace and no counter wraps, every clock's
version is the greatest edit it covers. -/
theorem run_lwwWinner (btPort : String → UInt16) (events : List SyncEvent) (final : SyncNetwork)
    (met : (machine btPort).Along (fun network event =>
      network.EditIsLater event ∧ network.CounterHasRoom event) start events)
    (ran : (machine btPort).run start events = some final) :
    final.LwwWinner (editsOf btPort start events) :=
  (run_logged start_logged met ran).lwwWinner

theorem handOver_lwwWinner : ∃ final, (machine fun _ => 6881).run start handOver = some final ∧
    final.LwwWinner (editsOf (fun _ => 6881) start handOver) := by
  refine ⟨_, rfl, run_lwwWinner _ handOver _ ?_ rfl⟩
  refine ⟨⟨?_, ?_⟩, fun _ stepped => ⟨⟨trivial, trivial⟩, ?_⟩⟩
  · intro current held
    cases held
  · intro _
    decide
  · cases stepped
    refine fun _ stepped => ⟨⟨?_, ?_⟩, fun _ stepped => ⟨⟨trivial, trivial⟩, fun _ _ => trivial⟩⟩
    · cases stepped
      intro current held _
      cases held
      decide
    · cases stepped
      intro _
      decide

/-- Two contents in turn. -/
def contentAt (index : ℕ) : String := if index % 2 = 0 then "even" else "odd"

/-- One peer edits on, under a clock that ticks with every edit. -/
def editAt (index : ℕ) : SyncEvent := .localEdit "a" (contentAt index) "i" index index []

def editsUpTo (count : ℕ) : List SyncEvent := (List.range count).map editAt

/-- The state after the edit at an index: the counter holds one more, up to wrapping. -/
structure EditedAt (index : ℕ) (network : SyncNetwork) (state : ShareState) : Prop where
  held : network.states "a" = some state
  counter : ∀ peer, state.clock.get peer = if peer = "a" then UInt64.ofNat (index + 1) else 0
  timestamp : state.timestamp = index
  hash : state.versionHash = contentAt index

theorem get_increment (clock : VectorClock) (author peer : String) :
    (clock.increment author).get peer =
      if peer = author then clock.get author + 1 else clock.get peer := by
  by_cases own : peer = author
  · subst own
    simp [VectorClock.get, VectorClock.increment]
  · have other : author ≠ peer := fun same => own same.symm
    simp [VectorClock.get, VectorClock.increment, Std.TreeMap.getD_insert, own, other]

theorem editsUpTo_edited (btPort : String → UInt16) (index : ℕ) : ∃ final state,
    (machine btPort).run start (editsUpTo (index + 1)) = some final ∧
      (machine btPort).Along EditIsLater start (editsUpTo (index + 1)) ∧
      EditedAt index final state := by
  have first : ∀ peer, (VectorClock.new.increment "a").get peer =
      if peer = "a" then UInt64.ofNat (0 + 1) else 0 := by
    intro peer
    rw [get_increment]
    split
    · rfl
    · rfl
  induction index with
  | zero =>
      refine ⟨_, _, rfl, ⟨?_, fun _ _ => trivial⟩, rfl, first, rfl, rfl⟩
      intro current impossible
      cases impossible
  | succ index ih =>
      obtain ⟨middle, state, ran, later, edited⟩ := ih
      have split : editsUpTo (index + 1 + 1) = editsUpTo (index + 1) ++ [editAt (index + 1)] := by
        rw [editsUpTo, List.range_succ, List.map_append]
        rfl
      have differs : state.versionHash ≠ contentAt (index + 1) := by
        rw [edited.hash, contentAt, contentAt]
        rcases Nat.mod_two_eq_zero_or_one index with even | odd
        · rw [if_pos even, if_neg (by omega)]
          decide
        · rw [if_neg (by omega), if_pos (by omega)]
          decide
      have changed : unchanged (middle.states "a") (contentAt (index + 1)) = false := by
        simp [unchanged, edited.held, differs]
      refine ⟨middle.install btPort "a" (changedState "a" (middle.states "a") (contentAt (index + 1)) "i"
        (index + 1) (index + 1 : ℕ) []), _, ?_, ?_,
        by rw [states_install, if_pos rfl], ?_, rfl, rfl⟩
      · rw [split, Machine.run_append_iff]
        refine ⟨middle, ran, ?_⟩
        rw [Machine.run, editAt, machine]
        dsimp only
        rw [changed, if_neg Bool.false_ne_true]
        rfl
      · rw [split, Machine.along_append_iff]
        refine ⟨later, fun reached again => ⟨?_, fun _ _ => trivial⟩⟩
        cases ran.symm.trans again
        intro current held _
        cases edited.held.symm.trans held
        rw [edited.timestamp]
        exact Int.ofNat_lt.mpr (Nat.lt_succ_self index)
      · intro peer
        rw [edited.held, changedState, currentClock]
        dsimp only
        rw [get_increment, edited.counter, edited.counter]
        by_cases own : peer = "a"
        · rw [if_pos own, if_pos own, if_pos rfl, UInt64.ofNat_add (index + 1) 1]
          rfl
        · rw [if_neg own, if_neg own, if_neg own]

/-- After `2 ^ 64` edits the counter is zero again, and the version covers nothing. -/
theorem not_lwwWinner_of_wrapped (index : ℕ) (full : index + 1 = 2 ^ 64) : ∃ events final,
    (machine btPort).Along EditIsLater start events ∧
      (machine btPort).run start events = some final ∧
      ¬ final.LwwWinner (editsOf btPort start events) := by
  obtain ⟨final, state, ran, later, edited⟩ := editsUpTo_edited btPort index
  refine ⟨_, final, later, ran, ?_⟩
  intro winner
  obtain ⟨peer, number, below, _⟩ := (winner.greatest _ _ (.held edited.held)).1
  have zero : state.clock.count peer = 0 := by
    rw [VectorClock.count, edited.counter, full]
    split
    · rfl
    · rfl
  omega

theorem editsUpTo_wraps : ∃ events final,
    (machine fun _ => 6881).Along EditIsLater start events ∧
      (machine fun _ => 6881).run start events = some final ∧
      ¬ final.LwwWinner (editsOf (fun _ => 6881) start events) :=
  not_lwwWinner_of_wrapped (2 ^ 64 - 1) (by decide)

end Peerdup.Daemon.SyncNetwork
