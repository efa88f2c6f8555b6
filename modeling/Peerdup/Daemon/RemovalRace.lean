import Peerdup.Daemon.ReAdd
import Peerdup.Foundation.Machine

/-!
# Adding a share while it is being removed

`share_remove` gives the lock back before it deletes anything. Its calls go on file operation
by file operation here, and the part of `share_add` under the lock is one step.
-/

set_option autoImplicit false

namespace Peerdup.Daemon.ShareFiles

open Foundation Auth Crypto Rotation FileTree RawPath

section Add

variable {tree after : FileTree} {dataDir : RawPath} {crypto : Primitives} {crdt : GroupCrdt}
  {identity : crypto.PrivateKey} {created : Key} {running added : List String}
  {id value : String} {json : Except String Bytes}

/-- An add that succeeds has written both files, and its task has left them alone. -/
theorem addLocked_ok (accepted : addLocked tree dataDir crypto crdt identity created running id json =
      (.ok value, added, after)) :
    id ∉ running ∧ ConfigStored after (resolve [] (shareDir dataDir id)) json ∧
      after.look (resolve [] (shareDir dataDir id) ++ [ascii "auth.log"]) =
        some (.file (creationLog crdt crypto identity id)) := by
  unfold addLocked at accepted
  dsimp only at accepted
  split at accepted
  · cases accepted
  next unknown =>
  refine ⟨unknown, ?_⟩
  cases creating : crdt.process crdt.new (ownCreation crdt crypto identity id) with
  | error cause =>
      obtain ⟨failure, left, rejected⟩ := createGroup_rejected ⟨cause, creating⟩
      rw [rejected] at accepted
      cases accepted
  | ok next =>
  rw [createGroup_accepted creating] at accepted
  dsimp only at accepted
  split at accepted
  · cases accepted
  next configured saving =>
  obtain ⟨present, bytes, known, stored⟩ := saveConfig_ok saving
  split at accepted
  · cases accepted
  next logged writing =>
  obtain ⟨there, written, others⟩ := saveFile_ok present (by decide) (by decide) (by decide) writing
  split at accepted
  · cases accepted
  next started spawning =>
  cases accepted
  have kept := (others _ (names_apart (by decide)) (names_apart (by decide))).trans stored
  by_cases unloadable : KeyringUnloadable logged (resolve [] (shareDir dataDir id))
  · obtain ⟨failure, loading⟩ := loadKeyring_unloadable there unloadable created
    rw [spawnTask, loading] at spawning
    cases spawning
  obtain ⟨ring, keyed, loading, _, untouched⟩ := loadKeyring_loadable there unloadable created
  rw [spawnTask, loading] at spawning
  dsimp only at spawning
  split at spawning
  · cases spawning
  cases spawning
  constructor
  · exact ⟨bytes, known, (untouched _ (names_apart (by decide)) (names_apart (by decide))).trans kept⟩
  · rw [untouched _ (names_apart (by decide)) (names_apart (by decide)), written]
    rfl

theorem addLocked_error {failure : SyncFailure}
    (refused : addLocked tree dataDir crypto crdt identity created running id json =
      (.error failure, added, after)) : added = running ∧ (id ∈ running → after = tree) := by
  unfold addLocked at refused
  dsimp only at refused
  split at refused
  · cases refused
    exact ⟨rfl, fun _ => rfl⟩
  next unknown =>
  have vacuous : id ∈ running → after = tree := fun known => absurd known unknown
  split at refused
  · cases refused
    exact ⟨rfl, fun _ => rfl⟩
  split at refused
  · cases refused
    exact ⟨rfl, vacuous⟩
  split at refused
  · cases refused
    exact ⟨rfl, vacuous⟩
  split at refused
  · cases refused
    exact ⟨rfl, vacuous⟩
  · cases refused

end Add

/-- How far a call of `share_remove` has come. -/
inductive Removing where
  | begun
  /-- `load_all` has these entries to look at and has read these configurations. -/
  | listing (entries : List (Name × Node)) (configs : List StoredConfig)
  | reading (name : Name) (entries : List (Name × Node)) (configs : List StoredConfig)
  | loaded (root : Option RawPath)
  /-- The sender is out of the map, and the task has been asked to end. -/
  | unregistered (root : Option RawPath)
  | stopped (root : Option RawPath)
  /-- `remove_dir_all` is at work in the share's directory. -/
  | deleting (root : Option RawPath)
  | removed (root : Option RawPath)
  /-- It is at work in the shadow. -/
  | clearing (root : RawPath)

/-- What a successful `share_add` wrote, and where its share's root is. -/
structure Added where
  json : Except String Bytes
  log : Bytes
  root : Option RawPath

structure RaceState where
  tree : FileTree
  running : List String
  /-- The calls of `share_remove` that have not returned. -/
  removes : List Removing
  last : Option Added

inductive RaceEvent where
  | add (topic : String) (path : Bytes) (role : ShareRole) (now : Timestamp) (created : Key)
  | remove
  | proceed (call : Nat)
  /-- One entry that `remove_dir_all` takes, in whatever order the disk lists them. -/
  | unlink (call : Nat) (path : Path)
  /-- `remove_dir_all` fails on an entry. -/
  | giveUp (call : Nat)

/-- The daemon, and the id that the calls are about. -/
structure Race where
  crdt : GroupCrdt
  crypto : Primitives
  formats : AddFormats
  identity : crypto.PrivateKey
  dataDir : RawPath
  cwd : Except SyncFailure RawPath
  id : String

namespace Race

variable (race : Race)

def dir : Path := resolve [] (shareDir race.dataDir race.id)

def shadow (root : RawPath) : Path := resolve [] root ++ [peerdupDirName]

/-- The next step of a call that depends on nothing but the disk. A call that returns is gone. -/
def proceed (state : RaceState) : Removing → Option (Option Removing)
  | .begun =>
      if !state.tree.existsAt (sharesDir race.dataDir) then some (some (.loaded none))
      else
        match state.tree.readDirAt (sharesDir race.dataDir) with
        | .error _ => some none
        | .ok entries => some (some (.listing entries []))
  | .listing [] configs =>
      let configs := configs.insertionSort fun left right => left.id ≤ right.id
      some (some (.loaded (rootOf configs race.id)))
  | .listing ((_, .file _) :: entries) configs => some (some (.listing entries configs))
  | .listing ((name, .directory) :: entries) configs =>
      if !state.tree.existsAt (sharesDir race.dataDir ++ [name, ascii "share.json"]) then
        some (some (.listing entries configs))
      else some (some (.reading name entries configs))
  | .reading name entries configs =>
      match state.tree.readAt (sharesDir race.dataDir ++ [name, ascii "share.json"]) with
      | .error _ => some none
      | .ok bytes =>
          match race.formats.parseConfig bytes with
          | none => some none
          | some config => some (some (.listing entries (configs ++ [config])))
  | .loaded root => some (some (.unregistered root))
  | .unregistered root => some (some (.stopped root))
  | .stopped root =>
      if !state.tree.existsAt (shareDir race.dataDir race.id) then some none
      else some (some (.deleting root))
  | .removed none => some none
  | .removed (some root) =>
      if !state.tree.existsAt (root ++ [peerdupDirName]) then some none
      else some (some (.clearing root))
  | .deleting _ | .clearing _ => none

/-- The directory that a call is deleting, and what follows when it is gone. -/
def target : Removing → Option (Path × Option Removing)
  | .deleting root => some (race.dir, some (.removed root))
  | .clearing root => some (shadow root, none)
  | _ => none

/-- Replace a call by what it has come to. -/
def become (removes : List Removing) (call : Nat) : Option Removing → List Removing
  | none => removes.eraseIdx call
  | some removing => removes.set call removing

def step (state : RaceState) : RaceEvent → Option RaceState
  | .add topic path role now created =>
      if idFromTopic race.crypto topic = race.id then
        let json := race.formats.addedJson ⟨race.id, topic⟩ path role now
        match addLocked state.tree race.dataDir race.crypto race.crdt race.identity created
            state.running race.id json with
        | (.error _, running, tree) => some { state with tree, running }
        | (.ok _, running, tree) =>
            some { state with
              tree, running,
              last := some ⟨json, creationLog race.crdt race.crypto race.identity race.id,
                (absolutePath race.cwd path).toOption⟩ }
      else none
  | .remove => some { state with removes := state.removes ++ [.begun] }
  | .proceed call =>
      match state.removes[call]? with
      | none => none
      | some removing =>
          match race.proceed state removing with
          | none => none
          | some next =>
              let running :=
                match removing with
                | .loaded _ => state.running.filter (· ≠ race.id)
                | _ => state.running
              some { state with running, removes := become state.removes call next }
  | .unlink call path =>
      match state.removes[call]?.bind race.target with
      | none => none
      | some (dir, next) =>
          if state.tree.look dir = some .directory ∧ dir <+: path ∧
              (state.tree.look path).isSome = true ∧ state.tree.children path = [] then
            let tree := state.tree.without path
            if path = dir then
              some { state with tree, removes := become state.removes call next }
            else some { state with tree }
          else none
  | .giveUp call =>
      match state.removes[call]?.bind race.target with
      | none => none
      | some _ => some { state with removes := become state.removes call none }

def machine : Machine RaceState RaceEvent := ⟨race.step⟩

/-- While the share is registered, its directory has what the last add wrote. -/
def Untorn (state : RaceState) : Prop :=
  race.id ∈ state.running → ∃ added, state.last = some added ∧
    ConfigStored state.tree race.dir added.json ∧
    state.tree.look (race.dir ++ [ascii "auth.log"]) = some (.file added.log)

/-- What the share has on the disk: its directory and its shadow. -/
def OnDisk (root : Option RawPath) (path : Path) : Prop :=
  race.dir <+: path ∨ InShadow root path

/-- The call can do nothing to a share that has this root: it has not reached its lock yet, or
it has only a shadow left to delete that is not the share's. -/
def Harmless (root : Option RawPath) : Removing → Prop
  | .unregistered _ | .stopped _ | .deleting _ => False
  | .removed (some old) | .clearing old =>
      ∀ path, race.OnDisk root path → ¬ shadow old <+: path
  | _ => True

/-- Nothing that is under way can tear the share. -/
def Quiet (state : RaceState) : Prop :=
  race.id ∈ state.running → ∀ added, state.last = some added →
    ∀ removing ∈ state.removes, race.Harmless added.root removing

/-- No share is added while a removal that could still harm it is under way. -/
def AddsApart (state : RaceState) : RaceEvent → Prop
  | .add _ path _ _ _ =>
      race.id ∈ state.running ∨
        ∀ removing ∈ state.removes, race.Harmless (absolutePath race.cwd path).toOption removing
  | _ => True

section Steps

variable {race} {state next : RaceState} {removing : Removing} {root : Option RawPath}

theorem mem_become {removes : List Removing} {call : Nat} {result : Option Removing}
    (member : removing ∈ become removes call result) :
    removing ∈ removes ∨ result = some removing := by
  cases result with
  | none => exact .inl (List.mem_of_mem_eraseIdx member)
  | some onward => exact (List.mem_or_eq_of_mem_set member).imp_right (congrArg some ·.symm)

/-- A call that is harmless stays so, unless it takes the lock. -/
theorem harmless_proceed {onward : Removing} (proceeds : race.proceed state removing = some (some onward))
    (harmless : race.Harmless root removing) (unlocked : ∀ root, removing ≠ .loaded root) :
    race.Harmless root onward := by
  cases removing with
  | begun =>
      rw [proceed] at proceeds
      split at proceeds
      · cases proceeds
        trivial
      split at proceeds
      · cases proceeds
      · cases proceeds
        trivial
  | listing entries configs =>
      cases entries with
      | nil =>
          cases proceeds
          trivial
      | cons entry entries =>
          obtain ⟨name, node⟩ := entry
          cases node with
          | file content =>
              cases proceeds
              trivial
          | directory =>
              rw [proceed] at proceeds
              split at proceeds
              · cases proceeds
                trivial
              · cases proceeds
                trivial
  | reading name entries configs =>
      rw [proceed] at proceeds
      split at proceeds
      · cases proceeds
      split at proceeds
      · cases proceeds
      · cases proceeds
        trivial
  | loaded root => exact absurd rfl (unlocked root)
  | unregistered root => exact harmless.elim
  | stopped root => exact harmless.elim
  | removed old =>
      cases old with
      | none => cases proceeds
      | some old =>
          rw [proceed] at proceeds
          split at proceeds
          · cases proceeds
          · cases proceeds
            exact harmless
  | deleting root => cases proceeds
  | clearing old => cases proceeds

/-- A call that deletes is in the share's directory or in a shadow. -/
theorem target_cases {aim : Path} {onward : Option Removing}
    (aims : race.target removing = some (aim, onward)) :
    (∃ root, removing = .deleting root ∧ aim = race.dir ∧ onward = some (.removed root)) ∨
      ∃ root, removing = .clearing root ∧ aim = shadow root ∧ onward = none := by
  cases removing with
  | deleting root =>
      cases aims
      exact .inl ⟨root, rfl, rfl, rfl⟩
  | clearing root =>
      cases aims
      exact .inr ⟨root, rfl, rfl, rfl⟩
  | begun => cases aims
  | listing entries configs => cases aims
  | reading name entries configs => cases aims
  | loaded root => cases aims
  | unregistered root => cases aims
  | stopped root => cases aims
  | removed root => cases aims

/-- A harmless call that deletes is at a shadow, and returns after it. -/
theorem target_of_harmless {aim : Path} {onward : Option Removing}
    (harmless : race.Harmless root removing) (aims : race.target removing = some (aim, onward)) :
    ∃ old, removing = .clearing old ∧ shadow old = aim ∧ onward = none := by
  obtain ⟨given, rfl, _, _⟩ | ⟨old, rfl, rfl, rfl⟩ := target_cases aims
  · exact harmless.elim
  · exact ⟨old, rfl, rfl, rfl⟩

def RaceEvent.IsAdd : RaceEvent → Prop
  | .add .. => True
  | _ => False

variable (race) in
/-- The map after a call's step, which takes the share's sender out of it once. -/
def runningAfter (running : List String) : Removing → List String
  | .loaded _ => running.filter (· ≠ race.id)
  | _ => running

/-- Everything a step of a removal can be: it begins, goes on, takes an entry, or gives up. -/
theorem removal_cases {event : RaceEvent} (removal : ¬ RaceEvent.IsAdd event)
    (stepped : race.step state event = some next) :
    (event = .remove ∧ next = { state with removes := state.removes ++ [.begun] }) ∨
    (∃ call removing onward, state.removes[call]? = some removing ∧
      race.proceed state removing = some onward ∧
      next = { state with
        running := race.runningAfter state.running removing
        removes := become state.removes call onward }) ∨
    (∃ call removing aim onward path, state.removes[call]? = some removing ∧
      race.target removing = some (aim, onward) ∧ state.tree.look aim = some .directory ∧
      aim <+: path ∧
      (path = aim ∧ next = { state with
          tree := state.tree.without path, removes := become state.removes call onward } ∨
        path ≠ aim ∧ next = { state with tree := state.tree.without path })) ∨
    ∃ call, event = .giveUp call ∧
      next = { state with removes := become state.removes call none } := by
  cases event with
  | add topic path role now created => exact absurd trivial removal
  | remove =>
      cases stepped
      exact .inl ⟨rfl, rfl⟩
  | proceed call =>
      rw [step] at stepped
      split at stepped
      · cases stepped
      next removing listed =>
        split at stepped
        · cases stepped
        next onward proceeds =>
          cases stepped
          refine .inr (.inl ⟨call, removing, onward, listed, proceeds, ?_⟩)
          cases removing <;> rfl
  | unlink call path =>
      rw [step] at stepped
      split at stepped
      · cases stepped
      next aim onward aimed =>
        obtain ⟨removing, listed, aims⟩ := Option.bind_eq_some_iff.mp aimed
        split at stepped
        swap
        · cases stepped
        next leaf =>
          refine .inr (.inr (.inl ⟨call, removing, aim, onward, path, listed, aims, leaf.1,
            leaf.2.1, ?_⟩))
          dsimp only at stepped
          split at stepped
          · next whole =>
            cases stepped
            exact .inl ⟨whole, rfl⟩
          · next inside =>
            cases stepped
            exact .inr ⟨inside, rfl⟩
  | giveUp call =>
      rw [step] at stepped
      split at stepped
      · cases stepped
      · cases stepped
        exact .inr (.inr (.inr ⟨call, rfl, rfl⟩))

theorem mem_runningAfter {id : String}
    (known : id ∈ race.runningAfter state.running removing) : id ∈ state.running := by
  unfold runningAfter at known
  split at known
  · exact List.mem_of_mem_filter known
  · exact known

theorem look_of_harmless {aim path other : Path} {onward : Option Removing}
    (harmless : race.Harmless root removing) (aims : race.target removing = some (aim, onward))
    (below : aim <+: path) (own : race.OnDisk root other) :
    (state.tree.without path).look other = state.tree.look other := by
  obtain ⟨old, clears, same, _⟩ := target_of_harmless harmless aims
  subst clears same
  have nonempty : path ≠ [] := by
    intro top
    rw [top, List.prefix_nil] at below
    exact List.append_ne_nil_of_right_ne_nil _ (List.cons_ne_nil _ _) below
  rw [look_without nonempty, if_neg]
  exact fun inside => harmless other own (below.trans inside)

/-- A step of a removal touches neither the last add's record nor a quiet share's files. -/
theorem removal_step (quiet : race.Quiet state) {event : RaceEvent} (removal : ¬ RaceEvent.IsAdd event)
    (stepped : race.step state event = some next) :
    next.last = state.last ∧ (race.id ∈ next.running → race.id ∈ state.running) ∧
      (race.id ∈ state.running → ∀ added, state.last = some added → ∀ path,
        race.OnDisk added.root path → next.tree.look path = state.tree.look path) := by
  rcases removal_cases removal stepped with ⟨_, rfl⟩ | ⟨call, removing, onward, _, _, rfl⟩ |
    ⟨call, removing, aim, onward, path, listed, aims, _, below, either⟩ | ⟨call, _, rfl⟩
  · exact ⟨rfl, fun known => known, fun _ _ _ _ _ => rfl⟩
  · exact ⟨rfl, mem_runningAfter, fun _ _ _ _ _ => rfl⟩
  · have untouched (known : race.id ∈ state.running) (added : Added)
        (last : state.last = some added) (other : Path) (own : race.OnDisk added.root other) :
        (state.tree.without path).look other = state.tree.look other :=
      look_of_harmless (quiet known added last removing (List.mem_of_getElem? listed)) aims below own
    rcases either with ⟨_, rfl⟩ | ⟨_, rfl⟩
    · exact ⟨rfl, fun known => known, untouched⟩
    · exact ⟨rfl, fun known => known, untouched⟩
  · exact ⟨rfl, fun known => known, fun _ _ _ _ _ => rfl⟩

/-- The calls that are under way after a step of a removal. -/
theorem quiet_of_removal (quiet : race.Quiet state) {event : RaceEvent}
    (removal : ¬ RaceEvent.IsAdd event) (stepped : race.step state event = some next) :
    race.Quiet next := by
  intro registered added last removing member
  obtain ⟨lastKept, runningKept, _⟩ := removal_step quiet removal stepped
  have known := runningKept registered
  have harmless := quiet known added (lastKept ▸ last)
  rcases removal_cases removal stepped with ⟨_, rfl⟩ | ⟨call, old, onward, listed, proceeds, rfl⟩ |
    ⟨call, old, aim, onward, path, listed, aims, _, _, either⟩ | ⟨call, _, rfl⟩
  · rcases List.mem_append.mp member with earlier | fresh
    · exact harmless removing earlier
    · cases List.mem_singleton.mp fresh
      trivial
  · rcases mem_become member with earlier | same
    · exact harmless removing earlier
    · subst same
      refine harmless_proceed proceeds (harmless old (List.mem_of_getElem? listed)) ?_
      -- A call that takes the lock takes the share out of the map.
      intro root same
      subst same
      exact absurd rfl (of_decide_eq_true (List.mem_filter.mp registered).2)
  · rcases either with ⟨_, rfl⟩ | ⟨_, rfl⟩
    · rcases mem_become member with earlier | same
      · exact harmless removing earlier
      · subst same
        obtain ⟨_, _, _, returns⟩ :=
          target_of_harmless (harmless old (List.mem_of_getElem? listed)) aims
        cases returns
    · exact harmless removing member
  · have listed : removing ∈ become state.removes call none := member
    rcases mem_become listed with earlier | contra
    · exact harmless removing earlier
    · cases contra

theorem untorn_quiet_step {event : RaceEvent} (untorn : race.Untorn state)
    (quiet : race.Quiet state) (apart : race.AddsApart state event)
    (stepped : race.step state event = some next) : race.Untorn next ∧ race.Quiet next := by
  by_cases removal : RaceEvent.IsAdd event
  swap
  · refine ⟨fun registered => ?_, quiet_of_removal quiet removal stepped⟩
    obtain ⟨lastKept, runningKept, untouched⟩ := removal_step quiet removal stepped
    have known := runningKept registered
    obtain ⟨added, last, ⟨bytes, json, config⟩, log⟩ := untorn known
    have own (name : Name) : race.OnDisk added.root (race.dir ++ [name]) :=
      .inl (List.prefix_append _ _)
    refine ⟨added, lastKept.trans last, ⟨bytes, json, ?_⟩, ?_⟩
    · rw [untouched known added last _ (own _), config]
    · rw [untouched known added last _ (own _), log]
  cases event with
  | add topic path role now created =>
      rw [step] at stepped
      split at stepped
      swap
      · cases stepped
      dsimp only at stepped
      split at stepped
      · next failure running tree refused =>
        cases stepped
        obtain ⟨same, unmoved⟩ := addLocked_error refused
        subst same
        refine ⟨fun registered => ?_, quiet⟩
        obtain ⟨added, last, config, log⟩ := untorn registered
        have sameTree := unmoved registered
        subst sameTree
        exact ⟨added, last, config, log⟩
      · next value running tree accepted =>
        cases stepped
        obtain ⟨unknown, config, log⟩ := addLocked_ok accepted
        refine ⟨fun _ => ⟨_, rfl, config, log⟩, ?_⟩
        intro _ added last
        cases last
        exact apart.resolve_left unknown
  | remove => exact removal.elim
  | proceed call => exact removal.elim
  | unlink call path => exact removal.elim
  | giveUp call => exact removal.elim

end Steps

/-- As long as shares are added apart from their removals, a registered share's directory has
what its add wrote, and no removal takes anything of it. -/
theorem run_untorn {start final : RaceState} {events : List RaceEvent} (untorn : race.Untorn start)
    (idle : start.removes = []) (apart : race.machine.Along race.AddsApart start events)
    (ran : race.machine.run start events = some final) :
    race.Untorn final ∧ ∀ event next, ¬ RaceEvent.IsAdd event → race.step final event = some next →
      race.id ∈ final.running → ∀ added, final.last = some added → ∀ path,
        race.OnDisk added.root path → next.tree.look path = final.tree.look path := by
  have quiet : race.Quiet start := by
    intro _ added _ removing member
    rw [idle] at member
    cases member
  have kept : ∀ state event next, race.Untorn state ∧ race.Quiet state →
      race.AddsApart state event → race.machine.step state event = some next →
        race.Untorn next ∧ race.Quiet next :=
    fun _ _ _ holds met stepped => untorn_quiet_step holds.1 holds.2 met stepped
  have reached := race.machine.run_along_invariant kept ⟨untorn, quiet⟩ apart ran
  exact ⟨reached.1, fun event next removal stepped => (removal_step reached.2 removal stepped).2.2⟩

section Sample

open Reference

def raceFormats : AddFormats where
  configJson := sampleFormats.configJson
  parseConfig bytes := if bytes = sampleJson teamDocs then some teamDocs else none
  addedJson config path _ _ := sampleFormats.configJson ⟨config, RawPath.join [] path, .sync, 0⟩

/-- A guest's daemon that is asked to add and to remove the share of one topic. -/
def teamRace : Race where
  crdt := sequentialGroup
  crypto := cleartext
  formats := raceFormats
  identity := guest
  dataDir := sampleDataDir
  cwd := .ok []
  id := teamDocs.id

def raceStart : RaceState := ⟨FileTree.empty, [], [], none⟩

def addTeamDocs : RaceEvent := .add "team docs" (ascii "/home/docs") .sync 0 (.ofBytes 32 [])

/-- A removal from its first step to where the task has ended, and from there on. -/
def removalFront : List RaceEvent := .remove :: List.replicate 6 (.proceed 0)

def removalBack : List RaceEvent :=
  [.proceed 0, .unlink 0 (teamRace.dir ++ [ascii "share.json"]),
    .unlink 0 (teamRace.dir ++ [ascii "auth.log"]), .unlink 0 (teamRace.dir ++ [ascii "keys.bin"]),
    .unlink 0 teamRace.dir, .proceed 0]

def idleAdds (state : RaceState) : RaceEvent → Bool
  | .add .. => state.removes.isEmpty
  | _ => true

theorem addsApart_of_idle (state : RaceState) (event : RaceEvent)
    (idle : idleAdds state event = true) : teamRace.AddsApart state event := by
  cases event with
  | add topic path role now created =>
      refine .inr fun removing member => ?_
      rw [List.isEmpty_iff.mp idle] at member
      cases member
  | remove => trivial
  | proceed call => trivial
  | unlink call path => trivial
  | giveUp call => trivial

theorem exists_run_of {events : List RaceEvent} {check : RaceState → Bool}
    (ends : (teamRace.machine.run raceStart events).any check = true) :
    ∃ final, teamRace.machine.run raceStart events = some final ∧ check final = true := by
  cases ran : teamRace.machine.run raceStart events with
  | none =>
      rw [ran] at ends
      cases ends
  | some final =>
      rw [ran] at ends
      exact ⟨final, rfl, ends⟩

/-- A share that is removed and then added again. -/
theorem addedAgain_untorn :
    ∃ final, teamRace.machine.run raceStart
        (addTeamDocs :: removalFront ++ removalBack ++ [addTeamDocs]) = some final ∧
      teamRace.id ∈ final.running ∧ teamRace.Untorn final := by
  obtain ⟨final, ran, registered⟩ : ∃ final, teamRace.machine.run raceStart
      (addTeamDocs :: removalFront ++ removalBack ++ [addTeamDocs]) = some final ∧
        decide (teamRace.id ∈ final.running) = true := exists_run_of (by decide +kernel)
  have apart : teamRace.machine.Along teamRace.AddsApart raceStart
      (addTeamDocs :: removalFront ++ removalBack ++ [addTeamDocs]) :=
    teamRace.machine.along_of_checkAlong addsApart_of_idle (by decide +kernel)
  have untorn : teamRace.Untorn raceStart := by
    intro registered
    cases registered
  have kept := teamRace.run_untorn untorn rfl apart ran
  exact ⟨final, ran, of_decide_eq_true registered, kept.1⟩

/-- A share that is added again while the removal of the first one waits for its task. -/
theorem addedBetween_torn :
    ∃ final, teamRace.machine.run raceStart
        (addTeamDocs :: removalFront ++ addTeamDocs :: removalBack) = some final ∧
      final.removes = [] ∧ teamRace.id ∈ final.running ∧ final.tree.look teamRace.dir = none ∧
      ¬ teamRace.Untorn final := by
  obtain ⟨final, ran, ends⟩ : ∃ final, teamRace.machine.run raceStart
      (addTeamDocs :: removalFront ++ addTeamDocs :: removalBack) = some final ∧
        (final.removes.isEmpty && decide (teamRace.id ∈ final.running ∧
          final.tree.look teamRace.dir = none)) = true := exists_run_of (by decide +kernel)
  rw [Bool.and_eq_true, List.isEmpty_iff, decide_eq_true_eq] at ends
  obtain ⟨returned, registered, gone⟩ := ends
  refine ⟨final, ran, returned, registered, gone, ?_⟩
  intro untorn
  obtain ⟨added, _, ⟨_, _, config⟩, _⟩ := untorn registered
  cases gone.symm.trans (look_parent config)

end Sample

end Race

end Peerdup.Daemon.ShareFiles
