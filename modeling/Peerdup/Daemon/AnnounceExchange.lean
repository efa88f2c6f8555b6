import Mathlib.Algebra.BigOperators.Group.Finset.Basic
import Mathlib.Algebra.Order.BigOperators.Group.Finset
import Mathlib.Data.List.MinMax
import Peerdup.ClockOrder
import Peerdup.Daemon.SyncConvergence

/-!
# The announce exchange comes to rest

Without local edits every received announce either changes nothing or raises its
receiver's clock, and no clock rises above the highest counters announced so far.
-/

set_option autoImplicit false

namespace Peerdup.Daemon.SyncNetwork

open Foundation

/-- A peer's counter in an announce. -/
def announcedCount (announce : Announce) (peer : String) : ℕ :=
  match announce.clock with
  | none => 0
  | some clock => clock.count peer

/-- The highest counter of a peer in anything published. -/
def highest (network : SyncNetwork) (peer : String) : ℕ :=
  (network.published.map fun announce => announcedCount announce peer).foldr max 0

/-- The peers that some published clock counts. -/
def authors (network : SyncNetwork) : Finset String :=
  (network.published.flatMap fun announce =>
    match announce.clock with
    | none => []
    | some clock => clock.counters.keys).toFinset

/-- Whether a peer's `sync_loop` takes the announce up. -/
def takesUp (network : SyncNetwork) : SyncEvent → Bool
  | .receive peer index _ _ =>
      match network.published[index]? with
      | none => false
      | some announce =>
          match judgeAnnounce (network.states peer) announce with
          | .ignored => false
          | _ => true
  | _ => false

/-- How many announces a run takes up. -/
def takenUp (btPort : String → UInt16) : SyncNetwork → List SyncEvent → ℕ
  | _, [] => 0
  | network, event :: events =>
      match (machine btPort).step network event with
      | none => 0
      | some next => (if network.takesUp event then 1 else 0) + takenUp btPort next events

/-- What a peer's clock can still rise by, and one more for a peer without a state. -/
def distance (network : SyncNetwork) (counted : Finset String) (peer : String) : ℕ :=
  (if (network.states peer).isNone then 1 else 0) +
    ∑ author ∈ counted, (network.highest author - (currentClock (network.states peer)).count author)

/-- No edit is made, and only these peers receive. -/
def Receives (peers : Finset String) : SyncEvent → Prop
  | .localEdit _ _ _ _ _ _ => False
  | .receive peer _ _ _ => peer ∈ peers
  | .announceTick _ => True

/-- Every state held has been published. -/
structure Announced (network : SyncNetwork) : Prop where
  complete : ∀ announce ∈ network.published, announce.remote?.isSome = true
  held : ∀ peer state, network.states peer = some state →
    ∃ announce ∈ network.published, announce.clock = some state.clock

variable {btPort : String → UInt16} {network next : SyncNetwork}

theorem count_le_highest {announce : Announce} (member : announce ∈ network.published)
    (peer : String) : announcedCount announce peer ≤ network.highest peer :=
  List.le_max_of_le' 0 (List.mem_map.mpr ⟨announce, member, rfl⟩) (le_refl _)

theorem highest_le {peer : String} {bound : ℕ}
    (bounded : ∀ announce ∈ network.published, announcedCount announce peer ≤ bound) :
    network.highest peer ≤ bound := by
  refine List.max_le_of_forall_le _ _ ?_
  intro count member
  obtain ⟨announce, published, rfl⟩ := List.mem_map.mp member
  exact bounded announce published

/-- No published clock counts a peer that is no author. -/
theorem highest_eq_zero {peer : String} (uncounted : peer ∉ network.authors) :
    network.highest peer = 0 := by
  refine Nat.le_zero.mp (highest_le ?_)
  intro announce member
  unfold announcedCount
  cases carried : announce.clock with
  | none => exact le_refl 0
  | some clock =>
      have absent : peer ∉ clock.counters.keys := by
        intro listed
        refine uncounted (List.mem_toFinset.mpr (List.mem_flatMap.mpr ⟨announce, member, ?_⟩))
        rw [carried]
        exact listed
      have zero : clock.get peer = 0 :=
        Std.TreeMap.getD_eq_fallback (mt Std.TreeMap.mem_keys.mpr absent)
      dsimp only
      rw [VectorClock.count, zero]
      exact le_refl 0

theorem remote?_clock {announce : Announce} {remote : RemoteVersion}
    (complete : announce.remote? = some remote) : announce.clock = some remote.clock := by
  unfold Announce.remote? at complete
  split at complete
  · next carried _ =>
      cases complete
      exact carried
  · cases complete

/-- What one announce does to its receiver. -/
theorem receive_cases {peer : String} {index torrentId : Nat} {manifest : Manifest}
    (stepped : (machine btPort).step network (.receive peer index torrentId manifest) = some next) :
    network.takesUp (.receive peer index torrentId manifest) = false ∧ next = network ∨
      network.takesUp (.receive peer index torrentId manifest) = true ∧
        ∃ state remote announce, next = network.install btPort peer state ∧
          announce ∈ network.published ∧ announce.clock = some remote ∧
          state.clock = (currentClock (network.states peer)).merge remote ∧
          (network.states peer = none ∨ ∃ current, network.states peer = some current ∧
            ∃ author, current.clock.count author < remote.count author) := by
  obtain ⟨announce, found, rfl⟩ := Option.map_eq_some_iff.mp stepped
  have member := List.mem_of_getElem? found
  rw [takesUp, found]
  dsimp only
  rcases judgeAnnounce_cases (network.states peer) announce with
    judged | ⟨current, remote, held, complete, order, _, judged⟩ | ⟨remote, complete, loses, judged⟩
  · rw [judged]
    exact .inl ⟨rfl, rfl⟩
  · have spec := VectorClock.compare_spec current.clock remote.clock
    rw [order] at spec
    rw [judged]
    refine .inr ⟨rfl, _, remote.clock, announce, rfl, member, remote?_clock complete, ?_, .inr ⟨current, held, spec.2⟩⟩
    rw [held]
    rfl
  · rw [judged]
    refine .inr ⟨rfl, _, remote.clock, announce, rfl, member, remote?_clock complete, rfl, ?_⟩
    cases held : network.states peer with
    | none => exact .inl rfl
    | some current =>
        have spec := VectorClock.compare_spec current.clock remote.clock
        refine .inr ⟨current, rfl, ?_⟩
        rcases loses current held with order | ⟨order, _⟩
        · rw [order] at spec
          exact spec.2
        · rw [order] at spec
          exact spec.2

theorem start_announced : start.Announced := by
  refine ⟨?_, ?_⟩
  · intro announce impossible
    cases impossible
  · intro peer state impossible
    cases impossible

theorem Announced.install (announced : network.Announced) (peer : String) (state : ShareState) :
    (network.install btPort peer state).Announced := by
  refine ⟨?_, ?_⟩
  · intro announce member
    rcases List.mem_append.mp member with earlier | latest
    · exact announced.complete announce earlier
    · rw [List.mem_singleton.mp latest]
      rfl
  · intro holder held found
    rw [states_install] at found
    split at found
    · cases found
      exact ⟨_, List.mem_append_right _ (List.mem_singleton_self _), rfl⟩
    · obtain ⟨announce, member, carried⟩ := announced.held holder held found
      exact ⟨announce, List.mem_append_left _ member, carried⟩

theorem Announced.announceTick (announced : network.Announced) (peer : String) (state : ShareState) :
    SyncNetwork.Announced { network with
      published := network.published ++ [publishSyncAnnounce state (btPort peer)] } := by
  refine ⟨?_, ?_⟩
  · intro announce member
    rcases List.mem_append.mp member with earlier | latest
    · exact announced.complete announce earlier
    · rw [List.mem_singleton.mp latest]
      rfl
  · intro holder held found
    obtain ⟨announce, member, carried⟩ := announced.held holder held found
    exact ⟨announce, List.mem_append_left _ member, carried⟩

theorem step_announced {event : SyncEvent} (announced : network.Announced)
    (stepped : (machine btPort).step network event = some next) : next.Announced := by
  cases event with
  | localEdit peer versionHash infoHash torrentId timestamp manifest =>
      simp only [machine] at stepped
      split at stepped
      · cases stepped
        exact announced
      · cases stepped
        exact announced.install peer _
  | receive peer index torrentId manifest =>
      rcases receive_cases stepped with ⟨_, rfl⟩ | ⟨_, state, _, _, rfl, _⟩
      · exact announced
      · exact announced.install peer state
  | announceTick peer =>
      simp only [machine] at stepped
      split at stepped
      · cases stepped
        exact announced
      · cases stepped
        exact announced.announceTick peer _

theorem Announced.count_le_highest (announced : network.Announced) (peer author : String) :
    (currentClock (network.states peer)).count author ≤ network.highest author := by
  cases held : network.states peer with
  | none => simp [currentClock]
  | some state =>
      obtain ⟨announce, member, carried⟩ := announced.held peer state held
      have below := SyncNetwork.count_le_highest member author
      rw [announcedCount, carried] at below
      exact below

theorem highest_append {announce : Announce} {author : String}
    (grown : next.published = network.published ++ [announce])
    (within : announcedCount announce author ≤ network.highest author) :
    next.highest author = network.highest author := by
  refine le_antisymm (highest_le ?_) (highest_le ?_)
  · intro other member
    rw [grown] at member
    rcases List.mem_append.mp member with earlier | latest
    · exact count_le_highest earlier author
    · rw [List.mem_singleton.mp latest]
      exact within
  · intro other member
    refine count_le_highest ?_ author
    rw [grown]
    exact List.mem_append_left _ member

theorem Announced.merged_le (announced : network.Announced) {peer : String} {state : ShareState}
    {remote : VectorClock} {announce : Announce} (member : announce ∈ network.published)
    (carried : announce.clock = some remote)
    (merged : state.clock = (currentClock (network.states peer)).merge remote) (author : String) :
    state.clock.count author ≤ network.highest author := by
  have arrived := SyncNetwork.count_le_highest member author
  rw [announcedCount, carried] at arrived
  rw [merged, VectorClock.count_merge]
  exact max_le (announced.count_le_highest peer author) arrived

theorem step_highest {event : SyncEvent} {peers : Finset String} (announced : network.Announced)
    (exchange : Receives peers event) (stepped : (machine btPort).step network event = some next)
    (author : String) : next.highest author = network.highest author := by
  cases event with
  | localEdit => exact exchange.elim
  | receive peer index torrentId manifest =>
      rcases receive_cases stepped with
        ⟨_, rfl⟩ | ⟨_, state, remote, announce, rfl, member, carried, merged, _⟩
      · rfl
      · exact highest_append rfl (announced.merged_le member carried merged author)
  | announceTick peer =>
      simp only [machine] at stepped
      split at stepped
      · cases stepped
        rfl
      next state held =>
        cases stepped
        have within := announced.count_le_highest peer author
        rw [held] at within
        exact highest_append rfl within

/-- Taking an announce up brings the receiver nearer to the highest counters. -/
theorem distance_install {counted : Finset String} {peer : String} {state : ShareState}
    {remote : VectorClock} (uncounted : ∀ author, author ∉ counted → network.highest author = 0)
    (same : ∀ author, (network.install btPort peer state).highest author = network.highest author)
    (within : ∀ author, state.clock.count author ≤ network.highest author)
    (merged : state.clock = (currentClock (network.states peer)).merge remote)
    (news : network.states peer = none ∨ ∃ current, network.states peer = some current ∧
      ∃ author, current.clock.count author < remote.count author) :
    (network.install btPort peer state).distance counted peer < network.distance counted peer := by
  rw [distance, distance, states_install, if_pos rfl]
  simp only [same]
  have raised : ∀ author ∈ counted, network.highest author - state.clock.count author ≤
      network.highest author - (currentClock (network.states peer)).count author := by
    intro author _
    refine Nat.sub_le_sub_left ?_ _
    rw [merged, VectorClock.count_merge]
    exact le_max_left _ _
  rcases news with nothing | ⟨current, held, author, behind⟩
  · have sums := Finset.sum_le_sum raised
    rw [nothing] at sums ⊢
    simpa [currentClock, Nat.lt_one_add_iff] using sums
  · have gained : (currentClock (network.states peer)).count author < state.clock.count author := by
      rw [merged, VectorClock.count_merge, held]
      exact lt_max_of_lt_right behind
    have listed : author ∈ counted := by
      by_contra absent
      have zero := uncounted author absent
      have bound := within author
      omega
    have nearer : network.highest author - state.clock.count author <
        network.highest author - (currentClock (network.states peer)).count author := by
      have bound := within author
      omega
    have sums := Finset.sum_lt_sum raised ⟨author, listed, nearer⟩
    rw [held] at sums ⊢
    simpa [currentClock] using sums

theorem distance_of_states {counted : Finset String} {peer : String}
    (held : next.states peer = network.states peer)
    (same : ∀ author, next.highest author = network.highest author) :
    next.distance counted peer = network.distance counted peer := by
  rw [distance, distance, held]
  simp only [same]

theorem step_distance {event : SyncEvent} {peers counted : Finset String}
    (announced : network.Announced)
    (uncounted : ∀ author, author ∉ counted → network.highest author = 0)
    (exchange : Receives peers event) (stepped : (machine btPort).step network event = some next) :
    (if network.takesUp event then 1 else 0) + ∑ peer ∈ peers, next.distance counted peer ≤
      ∑ peer ∈ peers, network.distance counted peer := by
  have same := step_highest announced exchange stepped
  cases event with
  | localEdit => exact exchange.elim
  | receive peer index torrentId manifest =>
      rcases receive_cases stepped with
        ⟨passed, rfl⟩ | ⟨taken, state, remote, announce, rfl, member, carried, merged, news⟩
      · rw [passed, if_neg Bool.false_ne_true, Nat.zero_add]
      · rw [taken, if_pos rfl, Nat.add_comm, Nat.add_one_le_iff]
        refine Finset.sum_lt_sum ?_ ⟨peer, exchange, ?_⟩
        · intro other _
          by_cases own : other = peer
          · rw [own]
            exact (distance_install uncounted same (announced.merged_le member carried merged) merged
              news).le
          · refine (distance_of_states ?_ same).le
            rw [states_install, if_neg own]
        · exact distance_install uncounted same (announced.merged_le member carried merged) merged news
  | announceTick peer =>
      have unheard : network.takesUp (.announceTick peer) = false := rfl
      rw [unheard, if_neg Bool.false_ne_true, Nat.zero_add]
      refine (Finset.sum_congr rfl ?_).le
      intro other _
      refine distance_of_states ?_ same
      simp only [machine] at stepped
      split at stepped
      · cases stepped
        rfl
      · cases stepped
        rfl

theorem run_takenUp {final : SyncNetwork} {events : List SyncEvent} {peers counted : Finset String}
    (announced : network.Announced)
    (uncounted : ∀ author, author ∉ counted → network.highest author = 0)
    (exchange : ∀ event ∈ events, Receives peers event)
    (ran : (machine btPort).run network events = some final) :
    takenUp btPort network events + ∑ peer ∈ peers, final.distance counted peer ≤
        ∑ peer ∈ peers, network.distance counted peer ∧
      (∀ author, final.highest author = network.highest author) ∧ final.Announced := by
  induction events generalizing network with
  | nil =>
      cases ran
      rw [takenUp, Nat.zero_add]
      exact ⟨le_refl _, fun _ => rfl, announced⟩
  | cons event events ih =>
      obtain ⟨next, stepped, rest⟩ := (machine btPort).run_cons_iff.mp ran
      obtain ⟨here, later⟩ := List.forall_mem_cons.mp exchange
      have same := step_highest announced here stepped
      have nearer := step_distance announced uncounted here stepped
      obtain ⟨bounded, highest, finally_⟩ := ih (step_announced announced stepped)
        (fun author absent => (same author).trans (uncounted author absent)) later rest
      rw [takenUp, stepped]
      dsimp only
      exact ⟨by omega, fun author => (highest author).trans (same author), finally_⟩

/-- A receiver either keeps its state or takes the announce up under a greater clock. -/
theorem step_raises {event : SyncEvent} {peers : Finset String} (exchange : Receives peers event)
    (stepped : (machine btPort).step network event = some next) (peer : String) :
    next.states peer = network.states peer ∨
      network.takesUp event = true ∧ ∃ state, next.states peer = some state ∧
        (network.states peer = none ∨ ∃ current, network.states peer = some current ∧
          current.clock.compare state.clock = .otherDominates) := by
  cases event with
  | localEdit => exact exchange.elim
  | receive receiver index torrentId manifest =>
      rcases receive_cases stepped with ⟨_, rfl⟩ | ⟨taken, state, remote, _, rfl, _, _, merged, news⟩
      · exact .inl rfl
      by_cases own : peer = receiver
      swap
      · rw [states_install, if_neg own]
        exact .inl rfl
      refine .inr ⟨taken, state, by rw [states_install, if_pos own], ?_⟩
      rw [own]
      refine news.imp_right ?_
      intro ⟨current, held, behind⟩
      refine ⟨current, held, ?_⟩
      rw [merged, held]
      exact VectorClock.compare_merge behind
  | announceTick ticking =>
      simp only [machine] at stepped
      split at stepped
      · cases stepped
        exact .inl rfl
      · cases stepped
        exact .inl rfl

/-- No peer of the group would change on receiving another one's current announce. -/
def RestsIn (network : SyncNetwork) (btPort : String → UInt16) (group : Set String) : Prop :=
  ∀ peer ∈ group, ∀ other ∈ group, peer ≠ other → ∀ torrentId manifest next,
    (machine btPort).run network [.announceTick other,
      .receive peer network.published.length torrentId manifest] = some next →
    next.states peer = network.states peer

/-- An announce that changes nothing is ignored: taking one up moves the clock. -/
theorem RestsIn.ignored {group : Set String} (rests : network.RestsIn btPort group)
    {peer other : String} (inside : peer ∈ group) (otherInside : other ∈ group)
    (apart : peer ≠ other) {state : ShareState} (held : network.states other = some state) :
    judgeAnnounce (network.states peer) (publishSyncAnnounce state (btPort other)) = .ignored := by
  let announced : SyncNetwork := { network with
    published := network.published ++ [publishSyncAnnounce state (btPort other)] }
  have ticked : (machine btPort).step network (.announceTick other) = some announced := by
    simp only [machine, held]
    rfl
  have heard : announced.published[network.published.length]? =
      some (publishSyncAnnounce state (btPort other)) := List.getElem?_concat_length
  obtain ⟨next, stepped⟩ : ∃ next, (machine btPort).step announced
      (.receive peer network.published.length 0 []) = some next := by
    simp only [machine, heard]
    exact ⟨_, rfl⟩
  have same := rests peer inside other otherInside apart 0 [] next
    ((Machine.run_cons_iff _).mpr ⟨announced, ticked, (Machine.run_cons_iff _).mpr
      ⟨next, stepped, rfl⟩⟩)
  rcases receive_cases stepped with
    ⟨passed, _⟩ | ⟨_, taken, remote, _, rfl, _, _, merged, news⟩
  · rw [takesUp, heard] at passed
    dsimp only at passed
    split at passed
    · next ignored => exact ignored
    · cases passed
  · rw [states_install, if_pos rfl] at same
    rcases news with none_ | ⟨current, before, author, behind⟩
    · cases same.trans none_
    · cases same.trans before
      have count := congrArg (·.count author) merged
      rw [before, VectorClock.count_merge] at count
      exact absurd (count ▸ behind.trans_le (le_max_right _ _)) (Nat.lt_irrefl _)

theorem count_le_of_ignored {current : Option ShareState} {state : ShareState} {port : UInt16}
    (ignored : judgeAnnounce current (publishSyncAnnounce state port) = .ignored) :
    ∃ held, current = some held ∧ ∀ author, state.clock.count author ≤ held.clock.count author := by
  cases current with
  | none => cases ignored
  | some held =>
      refine ⟨held, rfl, ?_⟩
      have spec := VectorClock.compare_spec held.clock state.clock
      rw [judgeAnnounce, remote?_publishSyncAnnounce] at ignored
      dsimp only at ignored
      cases order : held.clock.compare state.clock with
      | equal =>
          rw [order] at spec
          exact fun author => (spec author).ge
      | selfDominates =>
          rw [order] at spec
          exact spec.1
      | otherDominates =>
          rw [order] at ignored
          cases ignored
      | concurrent =>
          rw [order] at ignored
          dsimp only at ignored
          split at ignored
          · cases ignored
          · cases ignored

theorem restsIn_equal {group : Set String} (rests : network.RestsIn btPort group) {holder : String}
    {state : ShareState} (member : holder ∈ group) (held : network.states holder = some state) :
    ∀ peer ∈ group, ∃ own, network.states peer = some own ∧
      ∀ other ∈ group, ∃ theirs, network.states other = some theirs ∧
        own.clock.compare theirs.clock = .equal := by
  have all : ∀ peer ∈ group, ∃ own, network.states peer = some own := by
    intro peer inside
    by_cases same : peer = holder
    · exact ⟨state, same ▸ held⟩
    · obtain ⟨own, found, _⟩ := count_le_of_ignored (rests.ignored inside member same held)
      exact ⟨own, found⟩
  have below : ∀ peer ∈ group, ∀ other ∈ group, ∀ own theirs, network.states peer = some own →
      network.states other = some theirs → ∀ author, theirs.clock.count author ≤ own.clock.count author := by
    intro peer inside other otherInside own theirs found otherFound
    by_cases same : peer = other
    · subst same
      cases found.symm.trans otherFound
      exact fun author => le_refl _
    · obtain ⟨current, again, known⟩ :=
        count_le_of_ignored (rests.ignored inside otherInside same otherFound)
      cases found.symm.trans again
      exact known
  intro peer inside
  obtain ⟨own, found⟩ := all peer inside
  refine ⟨own, found, ?_⟩
  intro other otherInside
  obtain ⟨theirs, otherFound⟩ := all other otherInside
  refine ⟨theirs, otherFound, ?_⟩
  have spec := VectorClock.compare_spec own.clock theirs.clock
  have up := below peer inside other otherInside own theirs found otherFound
  have down := below other otherInside peer inside theirs own otherFound found
  cases order : own.clock.compare theirs.clock with
  | equal => rfl
  | selfDominates =>
      rw [order] at spec
      obtain ⟨author, ahead⟩ := spec.2
      exact absurd ahead (down author).not_gt
  | otherDominates =>
      rw [order] at spec
      obtain ⟨author, ahead⟩ := spec.2
      exact absurd ahead (up author).not_gt
  | concurrent =>
      rw [order] at spec
      obtain ⟨author, ahead⟩ := spec.1
      exact absurd ahead (down author).not_gt

/-- From any reachable configuration the exchange of announces quiesces. -/
theorem exchange_quiesces (btPort : String → UInt16) (before events : List SyncEvent)
    (network final : SyncNetwork) (peers : Finset String)
    (reached : (machine btPort).run start before = some network)
    (exchange : ∀ event ∈ events, Receives peers event)
    (ran : (machine btPort).run network events = some final) :
    takenUp btPort network events ≤ ∑ peer ∈ peers, network.distance network.authors peer ∧
      (∀ author, final.highest author = network.highest author) ∧
      (∀ peer state, final.states peer = some state →
        ∀ author, state.clock.count author ≤ network.highest author) ∧
      (∀ front event back middle next, events = front ++ event :: back →
        (machine btPort).run network front = some middle →
        (machine btPort).step middle event = some next → ∀ peer,
          next.states peer = middle.states peer ∨
            middle.takesUp event = true ∧ ∃ state, next.states peer = some state ∧
              (middle.states peer = none ∨ ∃ current, middle.states peer = some current ∧
                current.clock.compare state.clock = .otherDominates)) ∧
      ∀ (config : SyncNetwork) (group : Set String), config.RestsIn btPort group →
        (∃ holder ∈ group, ∃ state, config.states holder = some state) →
        ∀ peer ∈ group, ∃ own, config.states peer = some own ∧
          ∀ other ∈ group, ∃ theirs, config.states other = some theirs ∧
            own.clock.compare theirs.clock = .equal := by
  have announced : network.Announced := (machine btPort).run_invariant
    (fun _ _ _ announced stepped => step_announced announced stepped) start_announced reached
  obtain ⟨bounded, highest, finally_⟩ :=
    run_takenUp announced (fun _ => highest_eq_zero) exchange ran
  refine ⟨by omega, highest, ?_, ?_, ?_⟩
  · intro peer state held author
    have within := finally_.count_le_highest peer author
    rw [held, highest] at within
    exact within
  · intro front event back middle next split _ stepped
    have here := exchange event (by rw [split]; simp)
    exact step_raises here stepped
  · intro config group rests ⟨holder, member, state, held⟩
    exact restsIn_equal rests member held

def firstEdit : List SyncEvent := [.localEdit "a" "h1" "i1" 1 10 []]

/-- `b` adopts `a`'s first version and repeats it, and `a` has nothing to learn. -/
def adoption : List SyncEvent := [.receive "b" 0 1 [], .announceTick "b", .receive "a" 2 2 []]

theorem adoption_quiesces : ∃ network final,
    (machine fun _ => 6881).run start firstEdit = some network ∧
      (machine fun _ => 6881).run network adoption = some final ∧
      takenUp (fun _ => 6881) network adoption ≤
        ∑ peer ∈ {"a", "b"}, network.distance network.authors peer := by
  refine ⟨_, _, rfl, rfl, (exchange_quiesces _ firstEdit adoption _ _ {"a", "b"} rfl ?_ rfl).1⟩
  intro event member
  simp only [adoption, List.mem_cons, List.not_mem_nil, or_false] at member
  rcases member with rfl | rfl | rfl
  · simp [Receives]
  · trivial
  · simp [Receives]

end Peerdup.Daemon.SyncNetwork
