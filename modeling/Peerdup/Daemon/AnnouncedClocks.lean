import Peerdup.Daemon.RunShareProperties

/-!
# The clocks a task announces

Whatever happens between two announces of a task, the later one is no older.
-/

set_option autoImplicit false

namespace Peerdup.Daemon

open Foundation Auth Crypto Rotation

variable {crdt : GroupCrdt} {crypto : Primitives}

def ShareMsg.clock? : ShareMsg → Option VectorClock
  | .announce sent => sent.clock
  | .authOps _ => none
  | .keyRotation _ => none

/-- The clocks announced so far, oldest first. -/
def announcedClocks (published : List ShareMsg) : List VectorClock :=
  published.filterMap ShareMsg.clock?

/-- Every clock announced covers those before it, and the one held covers them all. -/
structure ClocksGrow (share : RunningShare crdt) : Prop where
  ordered : (announcedClocks share.published).Pairwise fun earlier later => later.Covers earlier
  held : ∀ current, share.role = .sync current →
    ∀ clock ∈ announcedClocks share.published, (currentClock current).Covers clock
  legacy : ∀ announce, share.role = .seed announce → announce.clock = none

/-- No counter stands at its maximum when a change makes a new version and increments it. -/
def HasRoom (setup : ShareSetup crypto) (box : CommandChannel crdt) :
    FileTree ⊕ Actor.Event ShareCommand Turn (Branch × Turn) → Prop
  | .inr (.act (.localChange inputs, _)) => ∀ current state, box.state.role = .sync current →
      (handleLocalChange crypto box.state.device setup.root setup.peerIdHex box.state.loop.key
        inputs current).1 = .ok (some state) →
      (currentClock current).count setup.peerIdHex + 1 < 2 ^ 64
  | _ => True

section Clocks

variable {setup : ShareSetup crypto} {share next : RunningShare crdt} {entry : TaskEntry}

theorem announcedClocks_append (published messages : List ShareMsg) :
    announcedClocks (published ++ messages) =
      announcedClocks published ++ announcedClocks messages := List.filterMap_append

theorem announcedClocks_rotations (pending : List SignedRotation) :
    announcedClocks (pending.map .keyRotation) = [] := by
  induction pending with
  | nil => rfl
  | cons rotation pending ih => exact ih

theorem announcedClocks_authOps (authState : AuthState crdt) :
    announcedClocks (RunningShare.authOpsMessages authState) = [] := by
  unfold RunningShare.authOpsMessages
  split <;> rfl

/-- A tick repeats the clock that a sync peer holds, and no other loop's tick has one. -/
theorem announcedClocks_tick (setup : ShareSetup crypto) (grow : ClocksGrow share)
    (speaks : RunningShare.isLeech share.role = false) :
    announcedClocks (share.announceTick setup).published =
      announcedClocks share.published ++
        match share.role with
        | .sync (some state) => [state.clock]
        | _ => [] := by
  rw [RunningShare.announceTick_eq share speaks]
  change announcedClocks (share.published ++ _) = _
  rw [announcedClocks_append, announcedClocks_append, announcedClocks_append,
    announcedClocks_authOps, announcedClocks_rotations, List.append_nil, List.append_nil]
  congr 1
  cases role : share.role with
  | seed announce =>
      exact List.filterMap_cons_none (grow.legacy announce role)
  | leech completed => rfl
  | sync state => cases state <;> rfl

theorem ClocksGrow.hold (grow : ClocksGrow share) {current : Option ShareState}
    (role : share.role = .sync current) (device : Device) {state : ShareState}
    (covers : state.clock.Covers (currentClock current)) :
    ClocksGrow ((share.withDevice device).hold setup state) := by
  have clocks : announcedClocks ((share.withDevice device).hold setup state).published =
      announcedClocks share.published ++ [state.clock] := announcedClocks_append _ _
  have above : ∀ clock ∈ announcedClocks share.published, state.clock.Covers clock := by
    intro clock member
    rw [VectorClock.covers_iff] at covers ⊢
    exact (VectorClock.covers_iff.mp (grow.held current role clock member)).trans covers
  refine ⟨?_, fun held same => ?_, fun announce same => by cases same⟩
  · rw [clocks, List.pairwise_append]
    refine ⟨grow.ordered, List.pairwise_singleton _ _, fun earlier member later last => ?_⟩
    rw [List.mem_singleton.mp last]
    exact above earlier member
  · cases same
    rw [clocks]
    intro clock member
    rcases List.mem_append.mp member with earlier | last
    · exact above clock earlier
    · rw [List.mem_singleton.mp last]
      exact VectorClock.covers_iff.mpr le_rfl

theorem ClocksGrow.tick (grow : ClocksGrow share)
    (speaks : RunningShare.isLeech share.role = false) :
    ClocksGrow (share.announceTick setup) := by
  have clocks := announcedClocks_tick setup grow speaks
  have role : (share.announceTick setup).role = share.role := by
    rw [RunningShare.announceTick_eq share speaks, RunningShare.publish_role]
  have known : ∀ clock ∈ announcedClocks (share.announceTick setup).published,
      clock ∈ announcedClocks share.published ∨
        ∃ state, share.role = .sync (some state) ∧ clock = state.clock := by
    intro clock member
    rw [clocks] at member
    rcases List.mem_append.mp member with earlier | last
    · exact .inl earlier
    · split at last
      · next state same => exact .inr ⟨state, same, List.mem_singleton.mp last⟩
      · cases last
  refine ⟨?_, fun current same clock member => ?_, fun announce same => ?_⟩
  · rw [clocks, List.pairwise_append]
    refine ⟨grow.ordered, ?_, fun earlier member later last => ?_⟩
    · split
      · exact List.pairwise_singleton _ _
      · exact .nil
    · split at last
      · next state same =>
          rw [List.mem_singleton.mp last]
          exact grow.held (some state) same earlier member
      · cases last
  · rw [role] at same
    rcases known clock member with earlier | ⟨state, held, rfl⟩
    · exact grow.held current same clock earlier
    · cases same.symm.trans held
      exact VectorClock.covers_iff.mpr le_rfl
  · rw [role] at same
    exact grow.legacy announce same

theorem ClocksGrow.effect (grow : ClocksGrow share)
    (room : ∀ inputs turn current state, entry = .acted (.localChange inputs, turn) →
      share.role = .sync current →
      (handleLocalChange crypto share.device setup.root setup.peerIdHex share.loop.key inputs
        current).1 = .ok (some state) → (currentClock current).count setup.peerIdHex + 1 < 2 ^ 64)
    (effect : RunningShare.Effect setup share entry next) : ClocksGrow next := by
  cases effect with
  | still _ => exact grow
  | loop _ _ => exact ⟨grow.ordered, grow.held, grow.legacy⟩
  | tick speaks => exact grow.tick speaks
  | failed _ => exact ⟨grow.ordered, grow.held, grow.legacy⟩
  | fetched _ =>
      exact ⟨grow.ordered, fun _ contra => (by cases contra), fun _ contra => (by cases contra)⟩
  | @authored inputs turn current state device role ran clock =>
      refine grow.hold role device ?_
      rw [clock]
      exact .inr (VectorClock.compare_increment
        (room inputs turn current state rfl role (congrArg Prod.fst ran)))
  | took role clock =>
      refine grow.hold role _ ?_
      rw [clock, VectorClock.covers_iff]
      exact (VectorClock.isLUB_merge _ _).1 (.inl rfl)

/-- A task that nothing has announced a clock for yet. -/
theorem clocksGrow_silent (silent : announcedClocks share.published = [])
    (legacy : ∀ announce, share.role = .seed announce → announce.clock = none) :
    ClocksGrow share where
  ordered := by
    rw [silent]
    exact .nil
  held _ _ clock member := by
    rw [silent] at member
    cases member
  legacy := legacy

theorem clocksGrow_start {loop : ShareLoop crdt} {device : Device} {inputs : LocalInputs}
    {role : ShareRole} (started : (RunningShare.start setup loop device inputs role).1 = .ok share) :
    ClocksGrow share := by
  have blank (device : Device) : ClocksGrow (⟨loop, device, .sync none, []⟩ : RunningShare crdt) :=
    clocksGrow_silent rfl fun announce contra => by cases contra
  cases RunningShare.started_of_start started with
  | seed legacy =>
      refine clocksGrow_silent rfl fun announce same => ?_
      cases same
      exact legacy
  | leech =>
      refine clocksGrow_silent ?_ fun announce contra => by cases contra
      exact announcedClocks_rotations loop.pendingRotations
  | sync => exact blank _
  | @holding device state =>
      refine (blank device).hold rfl device (VectorClock.covers_iff.mpr fun peer => ?_)
      rw [currentClock, VectorClock.count_new]
      exact Nat.zero_le _

/-- Whatever the user edits, whatever keys are installed and whatever commands come meanwhile,
every version that a task announces covers all those it announced before. -/
theorem announces_cover (crypto : Primitives) (crdt : GroupCrdt) (setup : ShareSetup crypto)
    (loop : ShareLoop crdt) (device : Device) (inputs : LocalInputs) (role : ShareRole)
    (share : RunningShare crdt)
    (started : (RunningShare.start setup loop device inputs role).1 = .ok share)
    (events : List (FileTree ⊕ Actor.Event ShareCommand Turn (Branch × Turn)))
    (box : CommandChannel crdt)
    (room : (editedMachine crdt setup).Along (HasRoom setup) (.fresh share) events)
    (ran : (editedMachine crdt setup).run (.fresh share) events = some box) :
    (announcedClocks box.state.published).Pairwise fun earlier later => later.Covers earlier := by
  have preserved : ∀ (box : CommandChannel crdt) event next, ClocksGrow box.state →
      HasRoom setup box event → (editedMachine crdt setup).step box event = some next →
      ClocksGrow next.state := by
    intro box event next grow room stepped
    cases event with
    | inl tree =>
        cases stepped
        exact ⟨grow.ordered, grow.held, grow.legacy⟩
    | inr event =>
    rcases (Actor.moved_of_step (show (channelMachine crdt setup).step box event = some next from
      stepped)).state_cases with
      same | ⟨call, command, turn, reply, goesOn, does⟩ | ⟨own, goesOn, rfl, does⟩
    · rw [same]
      exact grow
    · exact grow.effect (fun _ _ _ _ contra => by cases contra) (RunningShare.effect_of_does does)
    · refine grow.effect (fun inputs turn current state same held => ?_)
        (RunningShare.effect_of_does does)
      cases same
      exact room current state held
  exact ((editedMachine crdt setup).run_along_invariant preserved (clocksGrow_start started) room
    ran).ordered

end Clocks

section Samples

open Reference ShareLoop

/-- Every torrent is added and every file is written. -/
def workingInputs : LocalInputs where
  nonces _ := .ofBytes 24 [3]
  seed _ := ⟨.ok "4f", .ok (some 0)⟩
  now := 0
  saved := .ok ()

/-- A sync task that adopts one file. -/
def adoptedDocs : Except SyncFailure (RunningShare sequentialGroup) :=
  (RunningShare.start docsSetup (docsLoop founded)
    ⟨.ofFiles [([ascii "docs", ascii "a"], [1])], [], none⟩ workingInputs .sync).1

/-- The file changes, the task notices, and a tick comes. -/
def editAndTick : List (FileTree ⊕ Actor.Event ShareCommand Turn (Branch × Turn)) :=
  [.inl (.ofFiles [([ascii "docs", ascii "a"], [2])]),
    .inr (.act (.localChange workingInputs, quietTurn)),
    .inr (.act (.announceTick, quietTurn))]

/-- The counter has room whether or not there is a new version. -/
def hasRoom (setup : ShareSetup crypto) (box : CommandChannel crdt) :
    FileTree ⊕ Actor.Event ShareCommand Turn (Branch × Turn) → Bool
  | .inr (.act (.localChange _, _)) =>
      match box.state.role with
      | .sync current => (currentClock current).count setup.peerIdHex + 1 < 2 ^ 64
      | .seed _ => true
      | .leech _ => true
  | _ => true

theorem adoptedDocs_announces : ∃ share box, adoptedDocs = .ok share ∧
    (editedMachine sequentialGroup docsSetup).run (.fresh share) editAndTick = some box ∧
      (announcedClocks box.state.published).length = 3 ∧
      (announcedClocks box.state.published).Pairwise fun earlier later => later.Covers earlier := by
  have ends : (adoptedDocs.toOption.bind fun share =>
      (editedMachine sequentialGroup docsSetup).run (.fresh share) editAndTick).map
        (fun box => (announcedClocks box.state.published).length) = some 3 := by decide +kernel
  have roomy : adoptedDocs.toOption.map (fun share =>
      (editedMachine sequentialGroup docsSetup).checkAlong (hasRoom docsSetup) (.fresh share)
        editAndTick) = some true := by decide +kernel
  rcases started : adoptedDocs with failure | share
  · rw [started] at ends
    cases ends
  rw [started] at ends roomy
  obtain ⟨box, ran, length⟩ := Option.map_eq_some_iff.mp ends
  have room : (editedMachine sequentialGroup docsSetup).Along (HasRoom docsSetup) (.fresh share)
      editAndTick := by
    refine Machine.along_of_checkAlong _ (fun box event checked => ?_) (Option.some.inj roomy)
    unfold HasRoom
    split
    · intro current state role _
      simpa only [hasRoom, role, decide_eq_true_eq] using checked
    · trivial
  exact ⟨share, box, rfl, ran, length, announces_cover cleartext sequentialGroup docsSetup
    (docsLoop founded) _ workingInputs .sync share started editAndTick box room ran⟩

end Samples

end Peerdup.Daemon
