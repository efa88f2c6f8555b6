import Peerdup.Daemon.ConfiguredShares
import Peerdup.Daemon.PlacedFiles
import Peerdup.Daemon.ShareScope

/-!
# The configurations and a crash of the process

`share.json` is written in its place, and `load_all` reads all of them or fails. A crash while
one share is saved can keep every share from being loaded.
-/

set_option autoImplicit false

namespace Peerdup.Daemon.ShareFiles

open Foundation Auth Crypto FileTree RawPath Call

variable {formats : FileFormats} {tree made after : FileTree} {dataDir : RawPath}
  {config : StoredConfig} {id : String} {name : Name} {part : Bytes}

section Slots

def slotOf (formats : FileFormats) : Option Node → Slot StoredConfig
  | none => .empty
  | some .directory => .torn
  | some (.file bytes) =>
      match formats.parseConfig bytes with
      | none => .torn
      | some config => .whole config

/-- What is found for the shares, by the names of their directories. -/
def configSlots (formats : FileFormats) (tree : FileTree) (dataDir : RawPath) :
    Slots Name StoredConfig :=
  fun name => slotOf formats (tree.look (configPath dataDir name))

theorem readable_iff :
    Readable formats tree dataDir name ↔ configSlots formats tree dataDir name ≠ .torn := by
  unfold Readable Lists configSlots
  cases tree.look (configPath dataDir name) with
  | none => simp [slotOf]
  | some node =>
      cases node with
      | directory => simp [slotOf]
      | file bytes => cases parsed : formats.parseConfig bytes <;> simp [slotOf, parsed]

theorem lists_iff :
    Lists formats tree dataDir name config ↔ configSlots formats tree dataDir name = .whole config := by
  unfold Lists configSlots
  cases tree.look (configPath dataDir name) with
  | none => simp [slotOf]
  | some node =>
      cases node with
      | directory => simp [slotOf]
      | file bytes => cases parsed : formats.parseConfig bytes <;> simp [slotOf, parsed]

/-- A data directory that is there, named by a path without `..`. -/
structure DataDir (tree : FileTree) (dataDir : RawPath) : Prop where
  straight : Straight dataDir
  present : Present tree dataDir
  notFile : ∀ content, tree.look (sharesPath dataDir) ≠ some (.file content)

theorem sharesPath_eq (dataDir : RawPath) :
    sharesPath dataDir = resolve [] dataDir ++ [ascii "shares"] := by
  rw [sharesPath, sharesDir, resolve_append, resolve_of_legal _ (by decide)]

theorem configPath_inj {other : Name} (same : configPath dataDir name = configPath dataDir other) :
    name = other := by
  have inner := List.append_cancel_right same
  exact (List.cons.inj (List.append_cancel_left inner)).1

theorem configPath_eq (legal : legalName (idBytes id) = true) :
    resolve [] (shareDir dataDir id) ++ [ascii "share.json"] = configPath dataDir (idBytes id) := by
  rw [shareDir_of_legal legal, configPath, sharesPath_eq]
  simp

/-- All configurations are loaded, or one of them is torn. -/
theorem loadAll_slots (dir : DataDir tree dataDir) :
    (Slots.Readable (configSlots formats tree dataDir) ∧
      ∃ configs, loadAll formats tree dataDir = .ok configs ∧
        configs.Pairwise (fun left right => left.id ≤ right.id) ∧
        ∀ config, config ∈ configs ↔ ∃ name, configSlots formats tree dataDir name = .whole config) ∨
    (∃ name, configSlots formats tree dataDir name = .torn) ∧
      ∃ failure, loadAll formats tree dataDir = .error failure := by
  cases held : tree.look (sharesPath dataDir) with
  | none =>
      have empty : ∀ name, configSlots formats tree dataDir name = .empty := by
        intro name
        rw [configSlots, configPath, look_below_none (look_below_none held)]
        rfl
      refine .inl ⟨fun name => by simp [empty name], [], ?_, .nil, by simp [empty]⟩
      have missing : tree.existsAt (sharesDir dataDir) = false := by
        rw [sharesDir, dir.present.existsAt_eq (by decide), ← sharesPath_eq, held]
        rfl
      unfold loadAll
      dsimp only
      rw [missing]
      rfl
  | some node =>
  cases node with
  | file content => exact absurd held (dir.notFile content)
  | directory =>
      have present : Present tree (sharesDir dataDir) := by
        refine ⟨?_, held⟩
        rw [sharesDir, dir.present.reaches (by decide), ← sharesPath_eq, sharesPath, sharesDir]
      have listed : ∀ entry ∈ tree.children (sharesPath dataDir),
          tree.look (sharesPath dataDir ++ [entry.1]) = some entry.2 := fun _ => mem_children.mp
      have named {name : Name} {node : Node}
          (found : tree.look (configPath dataDir name) = some node) :
          ∃ entry ∈ tree.children (sharesPath dataDir), entry.1 = name :=
        ⟨(name, .directory), mem_children.mpr (look_parent found), rfl⟩
      rw [loadAll_of_present present]
      cases folded : (tree.children (sharesPath dataDir)).foldlM (loadEntry formats tree dataDir) [] with
      | error failure =>
          refine .inr ⟨?_, failure, rfl⟩
          by_contra whole
          rw [not_exists] at whole
          obtain ⟨configs, loaded⟩ : ∃ configs,
              (tree.children (sharesPath dataDir)).foldlM (loadEntry formats tree dataDir) [] =
                .ok configs :=
            loadEntries_of_readable present listed fun entry _ => readable_iff.mpr (whole entry.1)
          cases folded.symm.trans loaded
      | ok unsorted =>
          obtain ⟨readable, members⟩ := mem_of_loadEntries present listed folded
          refine .inl ⟨fun name => ?_, _, rfl, ?_, fun config => ?_⟩
          · rw [← readable_iff]
            cases found : tree.look (configPath dataDir name) with
            | none => exact .inl found
            | some node =>
                obtain ⟨entry, inside, same⟩ := named found
                exact same ▸ readable entry inside
          · have : Std.Total fun left right : StoredConfig => left.id ≤ right.id :=
              ⟨fun left right => String.le_total left.id right.id⟩
            have : IsTrans StoredConfig fun left right => left.id ≤ right.id :=
              ⟨fun _ _ _ first second => String.le_trans first second⟩
            exact List.pairwise_insertionSort _ unsorted
          · rw [(List.perm_insertionSort _ unsorted).mem_iff, members config]
            simp only [List.not_mem_nil, false_or]
            constructor
            · rintro ⟨entry, _, lists⟩
              exact ⟨entry.1, lists_iff.mp lists⟩
            · rintro ⟨name, whole⟩
              obtain ⟨bytes, found, _⟩ := lists_iff.mpr whole
              obtain ⟨entry, inside, same⟩ := named found
              exact ⟨entry, inside, lists_iff.mpr (same ▸ whole)⟩

end Slots

section Save

/-- The id is one component, and if the configuration can be written as JSON, the library reads
that back, and nothing that ends before it does. -/
structure Storable (formats : FileFormats) (config : StoredConfig) : Prop where
  legal : legalName (idBytes config.id) = true
  whole : ∀ {json}, formats.configJson config = .ok json → formats.parseConfig json = some config
  part : ∀ {json} part, formats.configJson config = .ok json → part <+: json → part ≠ json →
    formats.parseConfig part = none

def configCalls (formats : FileFormats) (dataDir : RawPath) (config : StoredConfig) :
    List (Call FileTree SyncFailure) :=
  let dir := shareDir dataDir config.id
  match formats.configJson config with
  | .error reason => [createDirs dir, refuse [.text reason]]
  | .ok json => [createDirs dir, put (.about "write share.json in" dir) dir (ascii "share.json") json]

theorem runAll_configCalls (formats : FileFormats) (tree : FileTree) (dataDir : RawPath)
    (config : StoredConfig) :
    runAll (configCalls formats dataDir config) tree = config.save formats tree dataDir := by
  unfold configCalls StoredConfig.save
  cases formats.configJson config with
  | error reason =>
      dsimp only [runAll, createDirs, refuse]
      rcases tree.createDirAllAt (shareDir dataDir config.id) with ⟨_ | _, made⟩ <;> rfl
  | ok json =>
      dsimp only [runAll, createDirs]
      rcases tree.createDirAllAt (shareDir dataDir config.id) with ⟨error | done, made⟩
      · rfl
      · dsimp only [put]
        cases made.writeAt (shareDir dataDir config.id) (ascii "share.json") json <;> rfl

variable {json : Bytes}

theorem Storable.slot_whole (storable : Storable formats config)
    (written : formats.configJson config = .ok json) :
    slotOf formats (some (.file json)) = .whole config := by
  rw [slotOf, storable.whole written]

theorem Storable.slot_part (storable : Storable formats config)
    (written : formats.configJson config = .ok json) (above : part <+: json)
    (slot : Slot StoredConfig) :
    Slot.Written config slot (slotOf formats (some (.file part))) := by
  by_cases whole : part = json
  · rw [whole, storable.slot_whole written]
    exact .all
  · rw [slotOf, storable.part part written above whole]
    exact .part

/-- The directories of a share are no configuration. -/
theorem config_createDirs (dir : DataDir tree dataDir) (legal : legalName (idBytes id) = true)
    (creates : CreatesDirs tree made [] (shareDir dataDir id)) :
    DataDir made dataDir ∧ configSlots formats made dataDir = configSlots formats tree dataDir := by
  refine ⟨⟨dir.straight, dir.present.mono fun path found => creates.keeps found, ?_⟩, funext fun name => ?_⟩
  · intro content file
    rcases creates (sharesPath dataDir) with same | ⟨_, directory, _⟩
    · exact dir.notFile content (same ▸ file)
    · cases file.symm.trans directory
  · rw [configSlots, configSlots]
    rcases creates (configPath dataDir name) with same | ⟨absent, _, front, above, leads⟩
    · rw [same]
    -- What is created is no longer than the share's directory.
    rw [shareDir, join_of_legal _ legal] at above
    have length := congrArg List.length leads
    rcases List.prefix_concat_iff.mp above with whole | inside
    · rw [whole, resolve_append, resolve_of_legal _ legal, ← sharesPath, configPath] at length
      simp at length
    rcases List.prefix_concat_iff.mp (show front <+: dataDir ++ [ascii "shares"] from inside) with
      whole | ⟨rest, whole⟩
    · rw [whole, ← sharesDir, ← sharesPath, configPath] at length
      simp at length
    · have present := dir.present
      rw [← whole] at present
      have there := present.above.directory
      rw [leads, absent] at there
      cases there

theorem config_writeAt (dir : DataDir made dataDir) (legal : legalName (idBytes id) = true)
    (wrote : made.writeAt (shareDir dataDir id) (ascii "share.json") part = .ok after) :
    DataDir after dataDir ∧ configSlots formats after dataDir =
      Function.update (configSlots formats made dataDir) (idBytes id)
        (slotOf formats (some (.file part))) := by
  have written := (writeAt_ok wrote).2.2
  have look := look_write written
  rw [configPath_eq legal] at look
  refine ⟨⟨dir.straight, dir.present.mono fun _ found => directory_write written found, ?_⟩,
    funext fun name => ?_⟩
  · intro content file
    have apart : sharesPath dataDir ≠ configPath dataDir (idBytes id) := by simp [configPath]
    rw [look, if_neg apart] at file
    exact dir.notFile content file
  · rw [configSlots, look]
    by_cases own : name = idBytes id
    · subst own
      rw [if_pos rfl, Function.update_self]
    · rw [if_neg fun same => own (configPath_inj same), Function.update_of_ne own]
      rfl

theorem config_crashed (dir : DataDir tree dataDir) (storable : Storable formats config)
    (crashed : Crashed (configCalls formats dataDir config) tree after) :
    DataDir after dataDir ∧ ∃ slot,
      Slot.Written config (configSlots formats tree dataDir (idBytes config.id)) slot ∧
      configSlots formats after dataDir =
        Function.update (configSlots formats tree dataDir) (idBytes config.id) slot := by
  unfold configCalls at crashed
  cases written : formats.configJson config with
  | error reason =>
      rw [written] at crashed
      obtain ⟨made, creates, rest⟩ := crashed_createDirs crashed
      obtain ⟨madeDir, same⟩ := config_createDirs dir storable.legal creates
      cases crashed_refuse rest
      exact ⟨madeDir, _, .nothing, by rw [same, Function.update_eq_self]⟩
  | ok json =>
      rw [written] at crashed
      obtain ⟨made, creates, left⟩ := crashed_put crashed
      obtain ⟨madeDir, same⟩ := config_createDirs dir storable.legal creates
      rcases left with rfl | ⟨part, above, wrote⟩
      · exact ⟨madeDir, _, .nothing, by rw [same, Function.update_eq_self]⟩
      · obtain ⟨afterDir, slots⟩ := config_writeAt madeDir storable.legal wrote
        exact ⟨afterDir, _, storable.slot_part written above _, by rw [slots, same]⟩

theorem config_saved (dir : DataDir tree dataDir) (storable : Storable formats config)
    (saved : config.save formats tree dataDir = (.ok (), after)) :
    DataDir after dataDir ∧ configSlots formats after dataDir =
      Function.update (configSlots formats tree dataDir) (idBytes config.id) (.whole config) := by
  have creates := createDirAllAt_creates tree (shareDir dataDir config.id)
  unfold StoredConfig.save at saved
  dsimp only at saved
  split at saved
  · cases saved
  next made created =>
    rw [created] at creates
    obtain ⟨madeDir, same⟩ := config_createDirs dir storable.legal creates
    split at saved
    · cases saved
    next json written =>
      split at saved
      · cases saved
      next wrote =>
        cases saved
        obtain ⟨afterDir, slots⟩ := config_writeAt madeDir storable.legal wrote
        rw [slots, same, storable.slot_whole written]
        exact ⟨afterDir, rfl⟩

theorem config_refused {failure : SyncFailure} (dir : DataDir tree dataDir)
    (legal : legalName (idBytes config.id) = true)
    (refused : config.save formats tree dataDir = (.error failure, after)) :
    DataDir after dataDir ∧ configSlots formats after dataDir = configSlots formats tree dataDir := by
  have creates := createDirAllAt_creates tree (shareDir dataDir config.id)
  unfold StoredConfig.save at refused
  dsimp only at refused
  split at refused
  · next failed =>
      rw [failed] at creates
      cases refused
      exact config_createDirs dir legal creates
  next made created =>
    rw [created] at creates
    split at refused
    · cases refused
      exact config_createDirs dir legal creates
    split at refused
    · cases refused
      exact config_createDirs dir legal creates
    · cases refused

end Save

section Remove

/-- What a removal leaves that a crash may cut short. -/
def CutRemoval (tree : FileTree) (dataDir : RawPath) (id : String) (after : FileTree) : Prop :=
  ∀ path, after.look path = tree.look path ∨
    tree.Removes (shareDir dataDir id) path ∧ after.look path = none

theorem cutRemoval_of_remove {result : Except SyncFailure Unit}
    (removed : remove tree dataDir id = (result, after)) : CutRemoval tree dataDir id after := by
  intro path
  have left : after = (tree.removeDirAllAt (shareDir dataDir id)).2 := by
    rw [← (remove_spec tree dataDir id).1, removed]
  obtain ⟨changes, either⟩ := look_removeDirAllAt tree (shareDir dataDir id) path
  rw [← left] at changes either
  by_cases same : after.look path = tree.look path
  · exact .inl same
  · exact .inr ⟨changes.mp same, either.resolve_left same⟩

theorem config_removal (dir : DataDir tree dataDir) (legal : legalName (idBytes id) = true)
    (removal : CutRemoval tree dataDir id after) :
    DataDir after dataDir ∧ ∃ slot,
      (slot = configSlots formats tree dataDir (idBytes id) ∨ slot = .empty) ∧
      configSlots formats after dataDir =
        Function.update (configSlots formats tree dataDir) (idBytes id) slot := by
  have inside {path : Path} (removes : tree.Removes (shareDir dataDir id) path) :
      sharesPath dataDir ++ [idBytes id] <+: path := by
    have below := (inShareDir_of_removes legal removes).2
    rwa [List.append_cons, ← sharesPath_eq] at below
  have kept : ∀ path, ¬ sharesPath dataDir ++ [idBytes id] <+: path →
      after.look path = tree.look path := fun path outside =>
    (removal path).resolve_right fun gone => outside (inside gone.1)
  have above : ∀ path, path <+: sharesPath dataDir → after.look path = tree.look path := by
    intro path front
    refine kept path fun below => ?_
    have length := (below.trans front).length_le
    rw [List.length_append, List.length_singleton] at length
    omega
  have dataAbove : resolve [] dataDir <+: sharesPath dataDir := by
    rw [sharesPath_eq]
    exact List.prefix_append _ _
  refine ⟨⟨dir.straight, ⟨?_, ?_⟩, ?_⟩,
    configSlots formats after dataDir (idBytes id), ?_, funext fun name => ?_⟩
  · rw [walk_of_above dir.straight fun path front => above path (front.trans dataAbove)]
    exact dir.present.walked
  · rw [above _ dataAbove]
    exact dir.present.directory
  · intro content
    rw [above _ (List.prefix_refl _)]
    exact dir.notFile content
  · rw [configSlots, configSlots]
    rcases removal (configPath dataDir (idBytes id)) with same | ⟨_, gone⟩
    · exact .inl (by rw [same])
    · exact .inr (by rw [gone]; rfl)
  · by_cases own : name = idBytes id
    · subst own
      rw [Function.update_self]
    · have outside : ¬ sharesPath dataDir ++ [idBytes id] <+: configPath dataDir name := by
        intro below
        rw [configPath, List.append_assoc, List.prefix_append_right_inj] at below
        simp only [List.singleton_append, List.cons_prefix_cons] at below
        exact own below.1.symm
      rw [Function.update_of_ne own, configSlots, configSlots, kept _ outside]

theorem config_removed (dir : DataDir tree dataDir) (legal : legalName (idBytes id) = true)
    (removed : remove tree dataDir id = (.ok (), after)) :
    DataDir after dataDir ∧ configSlots formats after dataDir =
      Function.update (configSlots formats tree dataDir) (idBytes id) .empty := by
  have removal := cutRemoval_of_remove removed
  have gone : after.look (configPath dataDir (idBytes id)) = none := by
    obtain ⟨left, done⟩ := remove_spec tree dataDir id
    rw [removed] at left done
    obtain ⟨_, share, walked, directory, _⟩ := done rfl
    obtain ⟨changes, either⟩ := look_removeDirAllAt tree (shareDir dataDir id)
      (configPath dataDir (idBytes id))
    rw [← left] at changes either
    cases held : tree.look (configPath dataDir (idBytes id)) with
    | none => exact either.elim (fun same => same.trans held) fun gone => gone
    | some node =>
        have leads : share ++ [ascii "share.json"] = configPath dataDir (idBytes id) := by
          rw [← walk_resolve walked, configPath_eq legal]
        refine either.resolve_left (changes.mpr ⟨share, walked, directory, ?_, ?_, .inl ?_⟩)
        · rw [← leads]
          exact List.prefix_append _ _
        · rw [held]
          rfl
        · rw [← leads]
          simp
  obtain ⟨afterDir, slot, _, slots⟩ :
      DataDir after dataDir ∧ ∃ slot, _ ∧ configSlots formats after dataDir =
        Function.update (configSlots formats tree dataDir) (idBytes id) slot :=
    config_removal dir legal removal
  have empty := congrFun slots (idBytes id)
  rw [Function.update_self, configSlots, gone] at empty
  rw [slots, ← empty]
  exact ⟨afterDir, rfl⟩

end Remove

section Runs

/-- A save or a removal, whole or cut short, or something that leaves every configuration. All of
them are loaded before one is removed. -/
inductive ConfigStep (formats : FileFormats) (dataDir : RawPath) :
    Option (Slots.Move Name StoredConfig) → FileTree → FileTree → Prop where
  | save {tree after : FileTree} {config : StoredConfig} :
      Storable formats config → config.save formats tree dataDir = (.ok (), after) →
      ConfigStep formats dataDir (some (.put (idBytes config.id) config)) tree after
  | refused {tree after : FileTree} {config : StoredConfig} {failure : SyncFailure} :
      Storable formats config → config.save formats tree dataDir = (.error failure, after) →
      ConfigStep formats dataDir none tree after
  | cutSave {tree after : FileTree} {config : StoredConfig} :
      Storable formats config → Crashed (configCalls formats dataDir config) tree after →
      ConfigStep formats dataDir (some (.cutPut (idBytes config.id) config)) tree after
  | remove {tree after : FileTree} {id : String} {configs : List StoredConfig} :
      legalName (idBytes id) = true → loadAll formats tree dataDir = .ok configs →
      remove tree dataDir id = (.ok (), after) →
      ConfigStep formats dataDir (some (.drop (idBytes id))) tree after
  | cutRemove {tree after : FileTree} {id : String} {configs : List StoredConfig} :
      legalName (idBytes id) = true → loadAll formats tree dataDir = .ok configs →
      CutRemoval tree dataDir id after →
      ConfigStep formats dataDir (some (.cutDrop (idBytes id))) tree after
  | elsewhere {tree after : FileTree} :
      (∀ name, after.look (configPath dataDir name) = tree.look (configPath dataDir name)) →
      (DataDir tree dataDir → DataDir after dataDir) →
      ConfigStep formats dataDir none tree after

/-- Runs of the moves that are allowed, and of anything else. -/
def ConfigRun (formats : FileFormats) (dataDir : RawPath)
    (allowed : Slots.Move Name StoredConfig → Prop) : FileTree → FileTree → Prop :=
  Relation.ReflTransGen fun tree after => ∃ move, (∀ made, move = some made → allowed made) ∧
    ConfigStep formats dataDir move tree after

variable {allowed : Slots.Move Name StoredConfig → Prop}
  {move : Option (Slots.Move Name StoredConfig)}

theorem readable_of_loadAll {configs : List StoredConfig} (dir : DataDir tree dataDir)
    (loaded : loadAll formats tree dataDir = .ok configs) :
    Slots.Readable (configSlots formats tree dataDir) := by
  rcases loadAll_slots dir with ⟨readable, _⟩ | ⟨_, failure, failed⟩
  · exact readable
  · cases loaded.symm.trans failed

/-- Every step on the disk is its move on the slots, or changes none. -/
theorem ConfigStep.slots (step : ConfigStep formats dataDir move tree after)
    (dir : DataDir tree dataDir) :
    DataDir after dataDir ∧
      (configSlots formats after dataDir = configSlots formats tree dataDir ∨
        ∃ made, move = some made ∧
          Slots.Moves made (configSlots formats tree dataDir) (configSlots formats after dataDir)) := by
  cases step with
  | save storable saved =>
      obtain ⟨there, slots⟩ := config_saved dir storable saved
      refine ⟨there, .inr ⟨_, rfl, ?_⟩⟩
      rw [slots]
      exact .put
  | refused storable failed =>
      obtain ⟨there, same⟩ := config_refused dir storable.legal failed
      exact ⟨there, .inl same⟩
  | cutSave storable crashed =>
      obtain ⟨there, slot, written, slots⟩ := config_crashed dir storable crashed
      refine ⟨there, .inr ⟨_, rfl, ?_⟩⟩
      rw [slots]
      exact .cutPut written
  | remove legal loaded removed =>
      obtain ⟨there, slots⟩ := config_removed dir legal removed
      refine ⟨there, .inr ⟨_, rfl, ?_⟩⟩
      rw [slots]
      exact .drop (readable_of_loadAll dir loaded)
  | cutRemove legal loaded removal =>
      obtain ⟨there, slot, either, slots⟩ := config_removal dir legal removal
      refine ⟨there, .inr ⟨_, rfl, ?_⟩⟩
      rw [slots]
      exact .cutDrop (readable_of_loadAll dir loaded) either
  | elsewhere same keeps =>
      refine ⟨keeps dir, .inl (funext fun name => ?_)⟩
      rw [configSlots, configSlots, same name]

theorem ConfigRun.slots (run : ConfigRun formats dataDir allowed tree after)
    (dir : DataDir tree dataDir) :
    DataDir after dataDir ∧ Relation.ReflTransGen (Slots.Step allowed)
      (configSlots formats tree dataDir) (configSlots formats after dataDir) := by
  induction run with
  | refl => exact ⟨dir, .refl⟩
  | tail _ step ih =>
      obtain ⟨there, before⟩ := ih
      obtain ⟨move, allows, stepped⟩ := step
      obtain ⟨onward, same | ⟨made, known, moves⟩⟩ := stepped.slots there
      · exact ⟨onward, same ▸ before⟩
      · exact ⟨onward, before.tail ⟨made, allows made known, moves⟩⟩

/-- Nothing can be listed, removed or joined, over D-Bus or by the commands, and what refuses
leaves the disk as it is. -/
structure Stuck (formats : FileFormats) (tree : FileTree) (dataDir : RawPath) : Prop where
  loads : ∃ failure, loadAll formats tree dataDir = .error failure
  removes : ∀ running id, ∃ failure,
    shareRemove formats tree dataDir running id = (.error failure, running, tree)
  removesDirect : ∀ id, ∃ failure,
    cmdShareRemoveDirect formats tree dataDir id = (.error failure, tree)
  joins : ∀ (crypto : Primitives) (identity : crypto.PrivateKey) (crdt : GroupCrdt) (created : Key)
    (now : Timestamp) (running : List String) (cwd : Except SyncFailure RawPath)
    (decoded : Except Failure Ticket) (path : Bytes),
    ∃ failure, shareJoin formats tree dataDir crypto identity crdt created now running cwd decoded
      path = (.error failure, running, tree)
  joinsDirect : ∀ (crypto : Primitives) (crdt : GroupCrdt) (keys : KeyBytes crypto)
    (fresh : crypto.PrivateKey) (now : Timestamp) (cwd : Except SyncFailure RawPath)
    (decoded : Except Failure Ticket) (path : Bytes),
    ∃ failure, cmdShareJoinDirect tree dataDir crypto formats crdt keys fresh now cwd decoded path =
      (.error failure, tree)

theorem stuck_of_unloaded {failure : SyncFailure}
    (failed : loadAll formats tree dataDir = .error failure) : Stuck formats tree dataDir where
  loads := ⟨failure, failed⟩
  removes running id := ⟨failure, by rw [shareRemove, failed]⟩
  removesDirect id := ⟨failure, by rw [cmdShareRemoveDirect, failed]⟩
  joins crypto identity crdt created now running cwd decoded path := by
    unfold shareJoin
    cases decoded with
    | error cause => exact ⟨_, rfl⟩
    | ok ticket =>
        dsimp only
        split
        · exact ⟨_, rfl⟩
        split
        · exact ⟨_, rfl⟩
        split
        · exact ⟨_, rfl⟩
        rw [failed]
        exact ⟨_, rfl⟩
  joinsDirect crypto crdt keys fresh now cwd decoded path := by
    unfold cmdShareJoinDirect
    cases decoded with
    | error cause => exact ⟨_, rfl⟩
    | ok ticket =>
        dsimp only
        rw [failed]
        exact ⟨_, rfl⟩

theorem stuck_of_torn (dir : DataDir tree dataDir)
    (torn : configSlots formats tree dataDir name = .torn) : Stuck formats tree dataDir := by
  rcases loadAll_slots dir with ⟨readable, _⟩ | ⟨_, failure, failed⟩
  · exact absurd torn (readable name)
  · exact stuck_of_unloaded failed

end Runs

/-- `load_all` lists what was last saved under each name, or fails where a crash left a part of
one `share.json`. Then every removal and every join is refused from there on, until that same
share is saved again. No other step can make it fail. -/
theorem configs_acrossCrashes (formats : FileFormats) (dataDir : RawPath) (tree disk : FileTree)
    (begins : DataDir tree dataDir) (run : ConfigRun formats dataDir (fun _ => True) tree disk) :
    ((∃ configs, loadAll formats disk dataDir = .ok configs ∧
        configs.Pairwise (fun left right => left.id ≤ right.id) ∧
        ∀ config, config ∈ configs ↔ ∃ name, configSlots formats disk dataDir name = .whole config) ∨
      (∃ name, configSlots formats disk dataDir name = .torn) ∧ Stuck formats disk dataDir) ∧
    (∀ config after, Storable formats config → config.save formats disk dataDir = (.ok (), after) →
      configSlots formats after dataDir (idBytes config.id) = .whole config) ∧
    (∀ name later, ConfigRun formats dataDir (·.name ≠ name) disk later →
      configSlots formats later dataDir name = configSlots formats disk dataDir name) ∧
    (∀ later, ConfigRun formats dataDir (·.mayTear = false) disk later →
      (∃ configs, loadAll formats disk dataDir = .ok configs) →
        ∃ configs, loadAll formats later dataDir = .ok configs) ∧
    ∀ name later, configSlots formats disk dataDir name = .torn →
      ConfigRun formats dataDir (fun move => ¬ (move.isPut = true ∧ move.name = name)) disk later →
        Stuck formats later dataDir := by
  obtain ⟨dir, _⟩ := run.slots begins
  refine ⟨?_, ?_, ?_, ?_, ?_⟩
  · rcases loadAll_slots dir with ⟨_, loaded⟩ | ⟨torn, failure, failed⟩
    · exact .inl loaded
    · exact .inr ⟨torn, stuck_of_unloaded failed⟩
  · intro config after storable saved
    rw [(config_saved dir storable saved).2, Function.update_self]
  · intro name later onward
    exact Slots.elsewhere_run (onward.slots dir).2 fun _ other => other.symm
  · rintro later onward ⟨configs, loaded⟩
    obtain ⟨there, moves⟩ := onward.slots dir
    have readable := Slots.readable_run moves (fun _ whole => whole) (readable_of_loadAll dir loaded)
    rcases loadAll_slots there with ⟨_, configs, loads, _⟩ | ⟨⟨name, torn⟩, _⟩
    · exact ⟨configs, loads⟩
    · exact absurd torn (readable name)
  · intro name later torn onward
    obtain ⟨there, moves⟩ := onward.slots dir
    exact stuck_of_torn there (Slots.torn_run moves (fun _ unput => unput) torn)

section Sample

open Reference

theorem docsConfig_json : sampleFormats.configJson docsConfig = .ok (sampleJson docsConfig) := by
  decide +kernel

theorem docsConfig_storable : Storable sampleFormats docsConfig where
  legal := by decide +kernel
  whole written := by
    cases docsConfig_json.symm.trans written
    simp [sampleFormats]
  part part written _ short := by
    cases docsConfig_json.symm.trans written
    exact if_neg short

/-- A daemon that dies while its first share is added. -/
theorem tornConfig_blocks : ∃ disk,
    ConfigRun sampleFormats sampleDataDir (fun _ => True) lockedDisk disk ∧
    ∀ later, ConfigRun sampleFormats sampleDataDir
        (fun move => ¬ (move.isPut = true ∧ move.name = idBytes "docs")) disk later →
      Stuck sampleFormats later sampleDataDir := by
  have begins : DataDir lockedDisk sampleDataDir := by
    refine ⟨?_, ⟨by decide +kernel, by decide +kernel⟩, fun content => ?_⟩
    · intro name member
      rw [List.mem_singleton.mp member]
      decide
    · have absent : lockedDisk.look (sharesPath sampleDataDir) = none := by decide +kernel
      rw [absent]
      simp
  obtain ⟨made, created⟩ : ∃ made, lockedDisk.createDirAllAt (shareDir sampleDataDir "docs") =
      (.ok (), made) := by
    have done : (lockedDisk.createDirAllAt (shareDir sampleDataDir "docs")).1 = .ok () := by
      decide +kernel
    exact ⟨_, Prod.ext done rfl⟩
  have legal : legalName (idBytes "docs") = true := by decide +kernel
  obtain ⟨walked, directory⟩ := createDirAllAt_ok created
  have present : Present made (shareDir sampleDataDir "docs") := ⟨walked, directory⟩
  have creates := createDirAllAt_creates lockedDisk (shareDir sampleDataDir "docs")
  rw [created] at creates
  obtain ⟨madeDir, slots⟩ :
      DataDir made sampleDataDir ∧ configSlots sampleFormats made sampleDataDir = _ :=
    config_createDirs begins legal creates
  have free : made.look (resolve [] (shareDir sampleDataDir "docs") ++ [ascii "share.json"]) ≠
      some .directory := by
    have empty := congrFun slots (idBytes "docs")
    have absent : lockedDisk.look (configPath sampleDataDir (idBytes "docs")) = none := by
      decide +kernel
    rw [configSlots, configSlots, absent, ← configPath_eq legal] at empty
    intro held
    rw [held] at empty
    cases empty
  -- Nothing of the file is written.
  obtain ⟨disk, wrote, _⟩ := present.writes (by decide) free []
  have ran : (createDirs (shareDir sampleDataDir "docs")).run lockedDisk = (.ok (), made) := by
    dsimp only [createDirs]
    rw [created]
  have crashed : Crashed (configCalls sampleFormats sampleDataDir docsConfig) lockedDisk disk := by
    rw [configCalls, docsConfig_json]
    exact .later ran (.inside ⟨[], List.nil_prefix, wrote⟩)
  have run : ConfigRun sampleFormats sampleDataDir (fun _ => True) lockedDisk disk :=
    .single ⟨_, fun _ _ => trivial, .cutSave docsConfig_storable crashed⟩
  have torn : configSlots sampleFormats disk sampleDataDir (idBytes "docs") = .torn := by
    have written : configSlots sampleFormats disk sampleDataDir = _ :=
      (config_writeAt madeDir legal wrote).2
    have short : [] ≠ sampleJson docsConfig := by decide +kernel
    rw [written, Function.update_self, slotOf, docsConfig_storable.part [] docsConfig_json List.nil_prefix short]
  obtain ⟨_, _, _, _, blocks⟩ := configs_acrossCrashes sampleFormats sampleDataDir lockedDisk disk
    begins run
  exact ⟨disk, run, fun later onward => blocks (idBytes "docs") later torn onward⟩

end Sample

end Peerdup.Daemon.ShareFiles
