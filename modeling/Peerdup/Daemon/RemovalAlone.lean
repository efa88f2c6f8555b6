import Peerdup.Daemon.RemovalRace

/-!
# A removal that nothing comes between

The race takes `share_remove` apart into its file operations. A call that runs alone there
does what `share_remove` does as a whole.
-/

set_option autoImplicit false

namespace Peerdup.Daemon.ShareFiles.Race

open Foundation FileTree RawPath

variable (race : Race)

/-- What a removal deletes once the share is out of the map. -/
def removeFiles (tree : FileTree) (root : Option RawPath) : FileTree :=
  match ShareFiles.remove tree race.dataDir race.id with
  | (.error _, tree) => tree
  | (.ok (), tree) => removeShadow tree root

/-- What is left to do when these entries have still to be read. -/
def readRest (tree : FileTree) (running : List String) (entries : List (Name × Node))
    (configs : List StoredConfig) : List String × FileTree :=
  match entries.foldlM (loadEntry race.formats.toFileFormats tree race.dataDir) configs with
  | .error _ => (running, tree)
  | .ok configs =>
      (running.filter (· ≠ race.id),
        race.removeFiles tree
          (rootOf (configs.insertionSort fun left right => left.id ≤ right.id) race.id))

/-- The rest of a call at once, on the map and the disk. -/
def rest (tree : FileTree) (running : List String) : Removing → List String × FileTree
  | .begun => (shareRemove race.formats.toFileFormats tree race.dataDir running race.id).2
  | .listing entries configs => race.readRest tree running entries configs
  | .reading name entries configs =>
      match tree.readAt (sharesDir race.dataDir ++ [name, ascii "share.json"]) with
      | .error _ => (running, tree)
      | .ok bytes =>
          match race.formats.parseConfig bytes with
          | none => (running, tree)
          | some config => race.readRest tree running entries (configs ++ [config])
  | .loaded root => (running.filter (· ≠ race.id), race.removeFiles tree root)
  | .unregistered root | .stopped root => (running, race.removeFiles tree root)
  | .deleting root =>
      (running,
        if tree.look race.dir = some .directory then removeShadow (tree.without race.dir) root
        else tree)
  | .removed root => (running, removeShadow tree root)
  | .clearing root =>
      (running,
        if tree.look (shadow root) = some .directory then tree.without (shadow root) else tree)

def restOf (tree : FileTree) (running : List String) : Option Removing → List String × FileTree
  | none => (running, tree)
  | some removing => race.rest tree running removing

/-- The paths that a removal follows to what it deletes do not go up. -/
structure Plain : Prop where
  legal : legalName (idBytes race.id) = true
  dataDir : Straight race.dataDir
  stored : ∀ bytes config, race.formats.parseConfig bytes = some config → Straight config.rootPath

/-- The roots that the call has read so far are straight. -/
def StraightRoots : Removing → Prop
  | .begun => True
  | .listing _ configs | .reading _ _ configs => ∀ config ∈ configs, Straight config.rootPath
  | .loaded root | .unregistered root | .stopped root | .deleting root | .removed root =>
      ∀ given, root = some given → Straight given
  | .clearing root => Straight root

/-- A call goes on, and nothing fails. -/
def RaceEvent.GoesOn : RaceEvent → Prop
  | .proceed _ | .unlink _ _ => True
  | .add .. | .remove | .giveUp _ => False

section Alone

variable {race} {state next : RaceState} {removing : Removing} {onward : Option Removing}
  {tree : FileTree} {raw : RawPath} {running : List String}

theorem straight_rootOf {configs : List StoredConfig}
    (straight : ∀ config ∈ configs, Straight config.rootPath) {id : String} {given : RawPath}
    (found : rootOf (configs.insertionSort fun left right => left.id ≤ right.id) id = some given) :
    Straight given := by
  obtain ⟨config, picked, rfl⟩ := Option.map_eq_some_iff.mp found
  exact straight config ((List.mem_insertionSort _).mp (List.mem_of_find?_eq_some picked))

/-- `remove_dir_all` by a straight path, where the path leads somewhere. -/
theorem removeDirAllAt_of_straight {name : Name} (straight : Straight raw)
    (legal : legalName name = true) (there : tree.existsAt (raw ++ [name]) = true) :
    tree.removeDirAllAt (raw ++ [name]) =
      if tree.look (resolve [] raw ++ [name]) = some .directory then
        (.ok (), tree.without (resolve [] raw ++ [name]))
      else (.error .notADirectory, tree) := by
  unfold existsAt at there
  split at there
  · cases there
  next path walked =>
    have leads : resolve [] raw ++ [name] = path := by
      rw [← walk_resolve walked, resolve_append, resolve_of_legal _ legal]
    rw [leads, removeDirAllAt, walked]
    dsimp only
    split
    · next absent =>
        rw [absent] at there
        cases there
    · next content file =>
        rw [file]
        rfl
    · next directory =>
        rw [directory, removable_of_straight straight legal walked]
        rfl

theorem removeFiles_of_plain (plain : race.Plain) (root : Option RawPath) :
    race.removeFiles tree root =
      if !tree.existsAt (shareDir race.dataDir race.id) then tree
      else if tree.look race.dir = some .directory then removeShadow (tree.without race.dir) root
      else tree := by
  have last : shareDir race.dataDir race.id = sharesDir race.dataDir ++ [idBytes race.id] :=
    join_of_legal _ plain.legal
  have straight : Straight (sharesDir race.dataDir) := by
    intro name member
    rcases List.mem_append.mp member with inside | shares
    · exact plain.dataDir name inside
    · rw [List.mem_singleton.mp shares]
      decide
  have aim : resolve [] (sharesDir race.dataDir) ++ [idBytes race.id] = race.dir := by
    rw [dir, last, resolve_append, resolve_of_legal _ plain.legal]
  unfold removeFiles ShareFiles.remove
  rw [last]
  dsimp only
  by_cases absent : tree.existsAt (sharesDir race.dataDir ++ [idBytes race.id]) = true
  swap
  · rw [Bool.not_eq_true] at absent
    rw [absent]
    rfl
  rw [absent, removeDirAllAt_of_straight straight plain.legal absent, aim]
  by_cases directory : tree.look race.dir = some .directory
  · rw [if_pos directory, if_pos directory]
    rfl
  · rw [if_neg directory, if_neg directory]
    rfl

theorem removeShadow_of_straight {root : RawPath} (straight : Straight root) :
    removeShadow tree (some root) =
      if !tree.existsAt (root ++ [peerdupDirName]) then tree
      else if tree.look (shadow root) = some .directory then tree.without (shadow root)
      else tree := by
  rw [removeShadow]
  by_cases there : tree.existsAt (root ++ [peerdupDirName]) = true
  swap
  · rw [Bool.not_eq_true] at there
    rw [there]
    rfl
  rw [there, removeDirAllAt_of_straight straight (by decide) there, shadow]
  by_cases directory : tree.look (resolve [] root ++ [peerdupDirName]) = some .directory
  · rw [if_pos directory, if_pos directory]
    rfl
  · rw [if_neg directory, if_neg directory]
    rfl

theorem shareRemove_files :
    (shareRemove race.formats.toFileFormats tree race.dataDir running race.id).2 =
      match loadAll race.formats.toFileFormats tree race.dataDir with
      | .error _ => (running, tree)
      | .ok configs =>
          (running.filter (· ≠ race.id), race.removeFiles tree (rootOf configs race.id)) := by
  unfold shareRemove removeFiles
  cases loadAll race.formats.toFileFormats tree race.dataDir with
  | error failure => rfl
  | ok configs =>
      dsimp only
      obtain ⟨result, after⟩ := ShareFiles.remove tree race.dataDir race.id
      cases result with
      | error failure => rfl
      | ok done => rfl

/-- A step that depends on the disk alone leaves the rest of the call as it was. -/
theorem restOf_proceed (plain : race.Plain) (straight : StraightRoots removing)
    (proceeds : race.proceed state removing = some onward) :
    race.restOf state.tree (race.runningAfter state.running removing) onward =
      race.rest state.tree state.running removing := by
  cases removing with
  | begun =>
      rw [rest, shareRemove_files, loadAll]
      rw [proceed] at proceeds
      split at proceeds
      · next absent =>
          cases proceeds
          rw [if_pos absent]
          rfl
      next present =>
      rw [if_neg present]
      cases listed : state.tree.readDirAt (sharesDir race.dataDir) with
      | error error =>
          rw [listed] at proceeds
          cases proceeds
          rfl
      | ok entries =>
          rw [listed] at proceeds
          cases proceeds
          dsimp only [restOf, rest, readRest]
          cases entries.foldlM (loadEntry race.formats.toFileFormats state.tree race.dataDir) [] with
          | error failure => rfl
          | ok configs => rfl
  | listing entries configs =>
      cases entries with
      | nil =>
          cases proceeds
          rfl
      | cons entry entries =>
          obtain ⟨name, node⟩ := entry
          cases node with
          | file content =>
              cases proceeds
              rfl
          | directory =>
              rw [proceed] at proceeds
              rw [rest, readRest, List.foldlM_cons, loadEntry]
              split at proceeds
              · next absent =>
                  cases proceeds
                  rw [if_pos absent]
                  rfl
              next present =>
              cases proceeds
              rw [if_neg present, restOf, rest]
              cases state.tree.readAt (sharesDir race.dataDir ++ [name, ascii "share.json"]) with
              | error error => rfl
              | ok bytes =>
                  dsimp only
                  cases race.formats.parseConfig bytes with
                  | none => rfl
                  | some config => rfl
  | reading name entries configs =>
      rw [proceed] at proceeds
      rw [rest]
      cases read : state.tree.readAt (sharesDir race.dataDir ++ [name, ascii "share.json"]) with
      | error error =>
          rw [read] at proceeds
          cases proceeds
          rfl
      | ok bytes =>
          rw [read] at proceeds
          dsimp only at proceeds ⊢
          cases parsed : race.formats.parseConfig bytes with
          | none =>
              rw [parsed] at proceeds
              cases proceeds
              rfl
          | some config =>
              rw [parsed] at proceeds
              cases proceeds
              rfl
  | loaded root =>
      cases proceeds
      rfl
  | unregistered root =>
      cases proceeds
      rfl
  | stopped root =>
      rw [proceed] at proceeds
      rw [rest, removeFiles_of_plain plain]
      split at proceeds
      · next absent =>
          cases proceeds
          rw [if_pos absent]
          rfl
      · next present =>
          cases proceeds
          rw [if_neg present]
          rfl
  | removed root =>
      cases root with
      | none =>
          cases proceeds
          rfl
      | some root =>
          rw [proceed] at proceeds
          rw [rest, removeShadow_of_straight (straight root rfl)]
          split at proceeds
          · next absent =>
              cases proceeds
              rw [if_pos absent]
              rfl
          · next present =>
              cases proceeds
              rw [if_neg present]
              rfl
  | deleting root => cases proceeds
  | clearing root => cases proceeds

theorem straightRoots_proceed {onward : Removing} (plain : race.Plain)
    (straight : StraightRoots removing) (proceeds : race.proceed state removing = some (some onward)) :
    StraightRoots onward := by
  cases removing with
  | begun =>
      rw [proceed] at proceeds
      split at proceeds
      · cases proceeds
        intro given found
        cases found
      split at proceeds
      · cases proceeds
      · cases proceeds
        intro config member
        cases member
  | listing entries configs =>
      cases entries with
      | nil =>
          cases proceeds
          exact fun given found => straight_rootOf straight found
      | cons entry entries =>
          obtain ⟨name, node⟩ := entry
          cases node with
          | file content =>
              cases proceeds
              exact straight
          | directory =>
              rw [proceed] at proceeds
              split at proceeds
              · cases proceeds
                exact straight
              · cases proceeds
                exact straight
  | reading name entries configs =>
      rw [proceed] at proceeds
      split at proceeds
      · cases proceeds
      next bytes read =>
      split at proceeds
      · cases proceeds
      · next config parsed =>
          cases proceeds
          intro other member
          rcases List.mem_append.mp member with earlier | last
          · exact straight other earlier
          · rw [List.mem_singleton.mp last]
            exact plain.stored bytes config parsed
  | loaded root =>
      cases proceeds
      exact straight
  | unregistered root =>
      cases proceeds
      exact straight
  | stopped root =>
      rw [proceed] at proceeds
      split at proceeds
      · cases proceeds
      · cases proceeds
        exact straight
  | removed root =>
      cases root with
      | none => cases proceeds
      | some root =>
          rw [proceed] at proceeds
          split at proceeds
          · cases proceeds
          · cases proceeds
            exact straight root rfl
  | deleting root => cases proceeds
  | clearing root => cases proceeds

theorem straightRoots_target {aim : Path} {onward : Removing}
    (aims : race.target removing = some (aim, some onward)) (straight : StraightRoots removing) :
    StraightRoots onward := by
  obtain ⟨root, rfl, _, onwards⟩ | ⟨root, _, _, returns⟩ := target_cases aims
  · cases onwards
    exact straight
  · cases returns

theorem target_nonempty {aim : Path} (plain : race.Plain)
    (aims : race.target removing = some (aim, onward)) : aim ≠ [] := by
  obtain ⟨root, _, rfl, _⟩ | ⟨root, _, rfl, _⟩ := target_cases aims
  · rw [dir, shareDir_of_legal plain.legal]
    exact List.append_ne_nil_of_right_ne_nil _ (List.cons_ne_nil _ _)
  · exact List.concat_ne_nil _ _

/-- What a call at a directory has left to do, while the directory is there. -/
theorem rest_of_target {aim : Path} (aims : race.target removing = some (aim, onward))
    (directory : tree.look aim = some .directory) :
    race.rest tree running removing = race.restOf (tree.without aim) running onward := by
  obtain ⟨root, rfl, rfl, rfl⟩ | ⟨root, rfl, rfl, rfl⟩ := target_cases aims
  · rw [rest, if_pos directory]
    rfl
  · rw [rest, if_pos directory]
    rfl

/-- An entry that is taken would have gone with the directory. -/
theorem rest_unlink {aim path : Path} (plain : race.Plain)
    (aims : race.target removing = some (aim, onward)) (directory : tree.look aim = some .directory)
    (below : aim <+: path) (inside : path ≠ aim) :
    race.rest (tree.without path) running removing = race.rest tree running removing := by
  have nonempty : path ≠ [] := by
    intro top
    rw [top, List.prefix_nil] at below
    exact target_nonempty plain aims below
  have still : (tree.without path).look aim = some .directory := by
    rw [look_without nonempty, if_neg, directory]
    exact fun above => inside (above.eq_of_length_le below.length_le)
  rw [rest_of_target aims still, rest_of_target aims directory, without_without below]

variable (race) in
/-- One call at most is under way, and what is left of it leads here. -/
def LeadsTo (outcome : List String × FileTree) (state : RaceState) : Prop :=
  ∃ onward : Option Removing, state.removes = onward.toList ∧
    (∀ removing, onward = some removing → StraightRoots removing) ∧
    race.restOf state.tree state.running onward = outcome

theorem leadsTo_step {outcome : List String × FileTree} {event : RaceEvent} (plain : race.Plain)
    (leads : race.LeadsTo outcome state) (ongoing : RaceEvent.GoesOn event)
    (stepped : race.step state event = some next) : race.LeadsTo outcome next := by
  obtain ⟨current, only, straight, same⟩ := leads
  have removal : ¬ RaceEvent.IsAdd event := by
    intro add
    cases event with
    | add topic path role now created => exact ongoing
    | remove => exact add
    | proceed call => exact add
    | unlink call path => exact add
    | giveUp call => exact add
  have first {call : Nat} {removing : Removing} (listed : state.removes[call]? = some removing) :
      call = 0 ∧ current = some removing := by
    rw [only] at listed
    cases current with
    | none => cases listed
    | some current =>
        cases call with
        | zero => exact ⟨rfl, listed⟩
        | succ call => cases listed
  have became {removing : Removing} (onward : Option Removing) (here : current = some removing) :
      become state.removes 0 onward = onward.toList := by
    rw [only, here]
    cases onward with
    | none => rfl
    | some onward => rfl
  rcases removal_cases removal stepped with ⟨fresh, _⟩ | ⟨call, removing, onward, listed, proceeds, rfl⟩ |
    ⟨call, removing, aim, onward, path, listed, aims, directory, below, either⟩ | ⟨call, failed, _⟩
  · subst fresh
    exact ongoing.elim
  · obtain ⟨rfl, here⟩ := first listed
    subst here
    refine ⟨onward, became onward rfl, ?_, ?_⟩
    · intro later goes
      subst goes
      exact straightRoots_proceed plain (straight removing rfl) proceeds
    · exact (restOf_proceed plain (straight removing rfl) proceeds).trans same
  · obtain ⟨rfl, here⟩ := first listed
    subst here
    rcases either with ⟨whole, rfl⟩ | ⟨inside, rfl⟩
    · subst whole
      refine ⟨onward, became onward rfl, ?_, ?_⟩
      · intro later goes
        subst goes
        exact straightRoots_target aims (straight removing rfl)
      · rw [← rest_of_target aims directory]
        exact same
    · refine ⟨some removing, only, straight, ?_⟩
      exact (rest_unlink plain aims directory below inside).trans same
  · subst failed
    exact ongoing.elim

/-- A removal that meets no failure and runs alone to its end leaves the map and the disk as
`share_remove` does. -/
theorem removal_alone {final : RaceState} {events : List RaceEvent} {last : Option Added}
    (plain : race.Plain) (alone : ∀ event ∈ events, RaceEvent.GoesOn event)
    (ran : race.machine.run ⟨tree, running, [.begun], last⟩ events = some final)
    (returned : final.removes = []) :
    (final.running, final.tree) =
      (shareRemove race.formats.toFileFormats tree race.dataDir running race.id).2 := by
  have start : race.LeadsTo
      (shareRemove race.formats.toFileFormats tree race.dataDir running race.id).2
      ⟨tree, running, [.begun], last⟩ := by
    refine ⟨some .begun, rfl, ?_, rfl⟩
    intro removing same
    cases same
    trivial
  obtain ⟨onward, only, _, same⟩ := race.machine.run_along_invariant
    (fun _ _ _ leads ongoing stepped => leadsTo_step plain leads ongoing stepped) start
    (race.machine.along_of_mem alone _) ran
  cases onward with
  | none => exact same
  | some removing =>
      rw [returned] at only
      cases only

end Alone

end Peerdup.Daemon.ShareFiles.Race
