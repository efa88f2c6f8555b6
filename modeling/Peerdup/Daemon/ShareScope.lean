import Peerdup.Daemon.ShareFiles
import Peerdup.Reference

/-!
# Which files a share operation reaches

A removal and a join stay with their share exactly when the id is a single component, or
happens to reach nothing else.
-/

set_option autoImplicit false

namespace Peerdup.Daemon.ShareFiles

open Foundation Auth Crypto FileTree RawPath

variable {formats : FileFormats} {tree after : FileTree} {dataDir : RawPath} {id : String}
  {path : Path}

/-- The removal is `remove_dir_all` of the joined path, and success removes something. -/
theorem remove_spec (tree : FileTree) (dataDir : RawPath) (id : String) :
    (remove tree dataDir id).2 = (tree.removeDirAllAt (shareDir dataDir id)).2 ∧
      ((remove tree dataDir id).1 = .ok () → ∃ dir, tree.Removes (shareDir dataDir id) dir) := by
  unfold remove
  dsimp only
  cases there : tree.existsAt (shareDir dataDir id) with
  | false =>
      refine ⟨?_, fun contra => by cases contra⟩
      have unmoved : ∀ raw, tree.existsAt raw = false → (tree.removeDirAllAt raw).2 = tree := by
        intro raw absent
        rw [existsAt] at absent
        unfold removeDirAllAt
        split
        · rfl
        · next walked =>
            rw [walked] at absent
            dsimp only at absent
            split
            · rfl
            · rfl
            · next directory =>
                rw [directory] at absent
                cases absent
      exact (unmoved _ there).symm
  | true =>
      have done : (tree.removeDirAllAt (shareDir dataDir id)).1 = .ok () →
        ∃ dir, tree.Removes (shareDir dataDir id) dir := removes_of_ok
      rw [if_neg (by decide)]
      split
      · next outcome =>
          rw [outcome]
          exact ⟨rfl, fun contra => by cases contra⟩
      · next outcome =>
          rw [outcome] at done ⊢
          exact ⟨rfl, fun _ => done rfl⟩

theorem look_removeShadow (tree : FileTree) (root : Option RawPath) (path : Path) :
    (removeShadow tree root).look path = tree.look path ∨
      (removeShadow tree root).look path = none ∧ InShadow root path := by
  cases root with
  | none => exact .inl rfl
  | some given =>
      unfold removeShadow
      dsimp only
      split
      · obtain ⟨changes, either⟩ := look_removeDirAllAt tree (given ++ [peerdupDirName]) path
        by_cases same : (tree.removeDirAllAt (given ++ [peerdupDirName])).2.look path = tree.look path
        · exact .inl same
        refine .inr ⟨either.resolve_left same, given, rfl, ?_⟩
        obtain ⟨dir, walked, _, above, _⟩ := changes.mp same
        have legal : legalName peerdupDirName = true := by decide
        rw [← walk_resolve walked, resolve_append, resolve_of_legal _ legal] at above
        exact above
      · exact .inl rfl

/-- A removal and the shadow after it, whatever they come to. -/
structure Removal (tree : FileTree) (dataDir : RawPath) (id : String) (root : Option RawPath)
    (result : Except SyncFailure Unit) (after : FileTree) : Prop where
  changes : ∀ path, after.look path ≠ tree.look path →
    tree.Removes (shareDir dataDir id) path ∨ InShadow root path
  removed : ∀ path, tree.Removes (shareDir dataDir id) path → after.look path ≠ tree.look path
  done : result = .ok () → ∃ dir, tree.Removes (shareDir dataDir id) dir

theorem not_inShadow_none : ¬ InShadow none path := by
  intro ⟨_, contra, _⟩
  cases contra

theorem inShareDir_of_removes (legal : legalName (idBytes id) = true)
    (removes : tree.Removes (shareDir dataDir id) path) : InShareDir dataDir id path := by
  obtain ⟨dir, walked, _, above, _⟩ := removes
  refine ⟨legal, ?_⟩
  have sharesLegal : legalName (ascii "shares") = true := by decide
  rw [← walk_resolve walked, shareDir, join_of_legal _ legal, sharesDir, resolve_append,
    resolve_append, resolve_of_legal _ sharesLegal, resolve_of_legal _ legal] at above
  rwa [List.append_assoc] at above

theorem removal_of_remove {root : Option RawPath} {result : Except SyncFailure Unit}
    (shadowed : after = (remove tree dataDir id).2 ∨
      after = removeShadow (remove tree dataDir id).2 root)
    (same : result = (remove tree dataDir id).1) : Removal tree dataDir id root result after := by
  obtain ⟨removedTree, done⟩ := remove_spec tree dataDir id
  have look := look_removeDirAllAt tree (shareDir dataDir id)
  rw [removedTree] at shadowed
  -- Whatever `remove_dir_all` has left, the shadow's removal only takes more.
  have onward : ∀ path, after.look path = (tree.removeDirAllAt (shareDir dataDir id)).2.look path ∨
      after.look path = none ∧ InShadow root path := by
    intro path
    rcases shadowed with same | same
    · rw [same]
      exact .inl rfl
    · rw [same]
      exact look_removeShadow _ root path
  refine ⟨?_, ?_, fun ok => done (same ▸ ok)⟩
  · intro path changed
    rcases onward path with kept | taken
    · rw [kept] at changed
      exact .inl ((look path).1.mp changed)
    · exact .inr taken.2
  · intro path removes
    have gone := (look path).2.resolve_left ((look path).1.mpr removes)
    have absent : after.look path = none := by
      rcases onward path with kept | taken
      · rw [kept, gone]
      · exact taken.1
    obtain ⟨_, _, _, _, there, _⟩ := removes
    rw [absent]
    intro none_
    rw [← none_] at there
    cases there

theorem removesOwn_iff {configs : List StoredConfig} {result : Except SyncFailure Unit}
    (loaded : loadAll formats tree dataDir = .ok configs)
    (removal : Removal tree dataDir id (rootOf configs id) result after) :
    RemovesOwn formats tree dataDir id result after ↔ RemovalScoped formats tree dataDir id := by
  have root : configuredRoot formats tree dataDir id = rootOf configs id := by
    rw [configuredRoot, loaded]
  constructor
  · intro own
    refine .inr ?_
    by_cases harmless : ∀ path, ¬ tree.Removes (shareDir dataDir id) path
    · exact .inl harmless
    refine .inr ⟨?_, ?_⟩
    · rw [Option.isSome_iff_ne_none]
      intro absent
      refine harmless fun path removes => ?_
      exact removal.removed path removes ((own.configured absent).2 path)
    · refine or_iff_not_imp_left.mpr fun illegal path removes => ?_
      exact (own.inside path (removal.removed path removes)).resolve_left fun inside =>
        illegal inside.1
  · intro condition
    rcases condition with ⟨failure, failed⟩ | harmless | ⟨configured, reach⟩
    · rw [loaded] at failed
      cases failed
    · constructor
      · intro path changed
        rw [root]
        exact .inr ((removal.changes path changed).resolve_left (harmless path))
      · intro absent
        rw [root] at absent
        constructor
        · cases outcome : result with
          | error failure => exact ⟨failure, rfl⟩
          | ok done =>
              obtain ⟨dir, removes⟩ := removal.done outcome
              exact absurd removes (harmless dir)
        · intro path
          by_contra changed
          rcases removal.changes path changed with removes | shadow
          · exact harmless path removes
          · exact not_inShadow_none (absent ▸ shadow)
    · constructor
      · intro path changed
        rcases removal.changes path changed with removes | shadow
        · rcases reach with legal | shadowed
          · exact .inl (inShareDir_of_removes legal removes)
          · exact .inr (shadowed path removes)
        · rw [root]
          exact .inr shadow
      · intro absent
        rw [absent] at configured
        cases configured

theorem removesOwn_of_unloaded {failure reported : SyncFailure}
    (unloaded : loadAll formats tree dataDir = .error failure) :
    RemovesOwn formats tree dataDir id (.error reported) tree ↔
      RemovalScoped formats tree dataDir id := by
  refine iff_of_true ⟨fun path changed => absurd rfl changed, fun _ => ⟨⟨reported, rfl⟩, fun _ => rfl⟩⟩ ?_
  exact .inl ⟨failure, unloaded⟩

theorem cmdShareRemoveDirect_iff (formats : FileFormats) (tree : FileTree) (dataDir : RawPath)
    (id : String) :
    RemovesOwn formats tree dataDir id (cmdShareRemoveDirect formats tree dataDir id).1
        (cmdShareRemoveDirect formats tree dataDir id).2 ↔
      RemovalScoped formats tree dataDir id := by
  unfold cmdShareRemoveDirect
  cases loaded : loadAll formats tree dataDir with
  | error failure => exact removesOwn_of_unloaded loaded
  | ok configs =>
      dsimp only
      have removal {result : Except SyncFailure Unit} {after : FileTree}
          (shadowed : after = (remove tree dataDir id).2 ∨
            after = removeShadow (remove tree dataDir id).2 (rootOf configs id))
          (same : result = (remove tree dataDir id).1) := removal_of_remove shadowed same
      cases outcome : remove tree dataDir id with
      | mk result removedTree =>
          rw [outcome] at removal
          cases result with
          | error failure => exact removesOwn_iff loaded (removal (.inl rfl) rfl)
          | ok done => exact removesOwn_iff loaded (removal (.inr rfl) rfl)

/-- Ending the task does not reach the disk. -/
theorem shareRemove_direct (running : List String) :
    (shareRemove formats tree dataDir running id).1 = (cmdShareRemoveDirect formats tree dataDir id).1 ∧
      (shareRemove formats tree dataDir running id).2.2 =
        (cmdShareRemoveDirect formats tree dataDir id).2 := by
  unfold shareRemove cmdShareRemoveDirect
  split
  · exact ⟨rfl, rfl⟩
  dsimp only
  split
  · exact ⟨rfl, rfl⟩
  · exact ⟨rfl, rfl⟩

section Join

variable {dir joinPath : RawPath} {tmp name : Name} {content held : Bytes}

/-- What writing a file through a temporary does, whether it succeeds or not. -/
structure SavesFile (tree : FileTree) (dir : RawPath) (tmp name : Name) (content : Bytes)
    (result : Except SyncFailure Unit) (after : FileTree) : Prop where
  changes : ChangesAt tree after dir
  keeps : ∀ path held, path ≠ resolve [] dir ++ [tmp] → path ≠ resolve [] dir ++ [name] →
    tree.look path = some (.file held) → after.look path = some (.file held)
  written : result = .ok () → after.look (resolve [] dir ++ [name]) = some (.file content)

theorem saveFile_spec (apart : tmp ≠ name) (tree : FileTree) (dir : RawPath) (content : Bytes) :
    SavesFile tree dir tmp name content (saveFile tree dir tmp name content).1
      (saveFile tree dir tmp name content).2 := by
  have created := createDirAllAt_creates tree (dir.rdropWhile isDot)
  have changesDirs : ChangesAt tree (tree.createDirAllAt (dir.rdropWhile isDot)).2 dir :=
    changesAt_createDirAllAt tree (List.rdropWhile_prefix isDot dir)
  unfold saveFile
  dsimp only
  split
  · next outcome =>
      rw [outcome] at created changesDirs
      exact ⟨changesDirs, fun _ _ _ _ found => created.keeps found, fun contra => by cases contra⟩
  next made outcome =>
    rw [outcome] at created changesDirs
    split
    · exact ⟨changesDirs, fun _ _ _ _ found => created.keeps found, fun contra => by cases contra⟩
    next temporary wrote =>
      have look := look_write (writeAt_ok wrote).2.2
      have kept : ∀ path held, path ≠ resolve [] dir ++ [tmp] →
          tree.look path = some (.file held) → temporary.look path = some (.file held) := by
        intro path held other found
        rw [look, if_neg other]
        exact created.keeps found
      split
      · exact ⟨changesDirs.trans (changesAt_writeAt wrote),
          fun path held other _ found => kept path held other found, fun contra => by cases contra⟩
      next after renamed =>
        have inPlace : temporary.look (resolve [] dir ++ [tmp]) = some (.file content) := by
          rw [look, if_pos rfl]
        have moved := look_renameAt apart inPlace renamed
        have changesRename : ChangesAt temporary after dir := by
          intro path
          rw [moved]
          split
          · next same => exact .inr (.inl (same ▸ List.prefix_append _ _))
          split
          · next same => exact .inr (.inl (same ▸ List.prefix_append _ _))
          · exact .inl rfl
        refine ⟨(changesDirs.trans (changesAt_writeAt wrote)).trans changesRename, ?_, ?_⟩
        · intro path held notTmp notName found
          rw [moved, if_neg notTmp, if_neg notName]
          exact kept path held notTmp found
        · intro _
          rw [moved, if_neg (names_apart apart.symm), if_pos rfl]

theorem save_spec (formats : FileFormats) (tree : FileTree) (dataDir : RawPath)
    (config : StoredConfig) :
    ChangesAt tree (config.save formats tree dataDir).2 (shareDir dataDir config.id) ∧
      ((config.save formats tree dataDir).1 = .ok () →
        (config.save formats tree dataDir).2.walk [] (shareDir dataDir config.id) =
            some (resolve [] (shareDir dataDir config.id)) ∧
          (config.save formats tree dataDir).2.look (resolve [] (shareDir dataDir config.id)) =
            some .directory) ∧
      ∀ path, (tree.look path).isSome = true →
        ((config.save formats tree dataDir).2.look path).isSome = true := by
  have created := createDirAllAt_creates tree (shareDir dataDir config.id)
  have changesDirs : ChangesAt tree (tree.createDirAllAt (shareDir dataDir config.id)).2
      (shareDir dataDir config.id) := changesAt_createDirAllAt tree (List.prefix_refl _)
  have kept : ∀ path, (tree.look path).isSome = true →
      ((tree.createDirAllAt (shareDir dataDir config.id)).2.look path).isSome = true := by
    intro path there
    obtain ⟨node, found⟩ := Option.isSome_iff_exists.mp there
    rw [created.keeps found]
    rfl
  unfold StoredConfig.save
  dsimp only
  split
  · next outcome =>
      rw [outcome] at changesDirs kept
      exact ⟨changesDirs, fun contra => (by cases contra), kept⟩
  next made outcome =>
    rw [outcome] at changesDirs kept
    split
    · exact ⟨changesDirs, fun contra => (by cases contra), kept⟩
    split
    · exact ⟨changesDirs, fun contra => (by cases contra), kept⟩
    next after wrote =>
      obtain ⟨walked, directory, written⟩ := writeAt_ok wrote
      refine ⟨changesDirs.trans (changesAt_writeAt wrote), fun _ => ⟨?_, ?_⟩, ?_⟩
      · exact walk_mono (fun _ found => directory_write written found) walked
      · exact directory_write written directory
      · intro path there
        rw [look_write written]
        split
        · rfl
        · exact kept path there

theorem shareDir_of_legal (legal : legalName (idBytes id) = true) :
    resolve [] (shareDir dataDir id) = resolve [] dataDir ++ [ascii "shares", idBytes id] := by
  have sharesLegal : legalName (ascii "shares") = true := by decide
  rw [shareDir, join_of_legal _ legal, sharesDir, resolve_append, resolve_append,
    resolve_of_legal _ sharesLegal, resolve_of_legal _ legal, List.append_assoc]
  rfl

/-- An installed keyring is a file that was not there before. -/
theorem installKeyring_spec (tree : FileTree) (dir : RawPath) (keys : List Key) :
    ChangesAt tree (installKeyring tree dir keys).2 dir ∧
      ((installKeyring tree dir keys).1 = .ok () →
        tree.existsAt (dir ++ [ascii "keys.bin"]) = false ∧
          ∃ content, (installKeyring tree dir keys).2.look (resolve [] dir ++ [ascii "keys.bin"]) =
            some (.file content)) := by
  unfold installKeyring
  dsimp only
  split
  · exact ⟨ChangesAt.refl tree dir, fun contra => (by cases contra)⟩
  next absent =>
    split
    · exact ⟨ChangesAt.refl tree dir, fun contra => (by cases contra)⟩
    next nonempty =>
      have saves : SavesFile tree dir (ascii "keys.bin.tmp") (ascii "keys.bin") _ _ _ :=
        saveFile_spec (by decide) tree dir (KeyRing.fileBytes ⟨keys, nonempty⟩)
      exact ⟨saves.changes, fun done => ⟨Bool.not_eq_true _ ▸ absent, _, saves.written done⟩⟩

variable {crdt : GroupCrdt} {crypto : Primitives} {identity : crypto.PrivateKey} {ticket : Ticket}
  {now : Timestamp} {authState : AuthState crdt}

/-- What a join that succeeds on the disk has done: the join path's directories, then the
share's own files, the keyring among them. -/
structure JoinedFiles (tree : FileTree) (dir joinPath : RawPath) (after : FileTree) : Prop where
  changes : ∃ joinable, CreatesDirs tree joinable [] joinPath ∧ ChangesAt joinable after dir
  keyring : tree.look (resolve [] dir ++ [ascii "keys.bin"]) = none ∧
    ∃ content, after.look (resolve [] dir ++ [ascii "keys.bin"]) = some (.file content)

theorem joinOnDisk_ok
    (joined : joinOnDisk formats tree dataDir crypto identity ticket joinPath now =
      (.ok authState, after)) :
    JoinedFiles tree (shareDir dataDir ticket.shareId) joinPath after := by
  have creates := createDirAllAt_creates tree joinPath
  unfold joinOnDisk at joined
  dsimp only at joined
  split at joined
  · cases joined
  next joinable outcome =>
    rw [outcome] at creates
    obtain ⟨changesSave, walkedSave, keepsSave⟩ := save_spec formats joinable dataDir
      ⟨⟨ticket.shareId, ticket.topic⟩, joinPath, ticket.role, now⟩
    split at joined
    · cases joined
    next saved outcome =>
      rw [outcome] at changesSave walkedSave keepsSave
      obtain ⟨walked, directory⟩ := walkedSave rfl
      obtain ⟨changesKeys, installed⟩ :=
        installKeyring_spec saved (shareDir dataDir ticket.shareId) ticket.keys
      split at joined
      · cases joined
      next keyed outcome =>
        rw [outcome] at changesKeys installed
        obtain ⟨unlisted, content, keyring⟩ := installed rfl
        split at joined
        · cases joined
        next replayed _ =>
          split at joined
          · cases joined
          have saves : SavesFile keyed (shareDir dataDir ticket.shareId) (ascii "auth.log.tmp")
              (ascii "auth.log") _ _ _ := saveFile_spec (by decide) keyed _
            ((Codec.seq signedOpCodec).encode replayed.ops)
          rw [← saveAuth] at saves
          split at joined
          · cases joined
          next written outcome =>
            rw [outcome] at saves
            cases joined
            refine ⟨⟨joinable, creates, (changesSave.trans changesKeys).trans saves.changes⟩, ?_, ?_⟩
            · -- The keyring would not have been installed over a file.
              by_contra there
              rw [← ne_eq, ← Option.isSome_iff_ne_none] at there
              obtain ⟨node, found⟩ := Option.isSome_iff_exists.mp there
              have before : (joinable.look (resolve [] (shareDir dataDir ticket.shareId) ++
                  [ascii "keys.bin"])).isSome = true := by
                rw [creates.keeps found]
                rfl
              have later := keepsSave _ before
              have reached : saved.walk [] (shareDir dataDir ticket.shareId ++ [ascii "keys.bin"]) =
                  some (resolve [] (shareDir dataDir ticket.shareId) ++ [ascii "keys.bin"]) := by
                rw [walk_append, walked, Option.bind_some, walk, if_neg (not_not.mpr directory)]
                rfl
              rw [existsAt, reached] at unlisted
              dsimp only at unlisted
              rw [unlisted] at later
              cases later
            · exact ⟨content, saves.keeps _ content (names_apart (by decide))
                (names_apart (by decide)) keyring⟩

theorem joinsOwn_iff (joined : JoinedFiles tree (shareDir dataDir id) joinPath after) :
    JoinsOwn tree dataDir id joinPath after ↔ legalName (idBytes id) = true := by
  obtain ⟨joinable, creates, changes⟩ := joined.changes
  obtain ⟨absent, content, keyring⟩ := joined.keyring
  constructor
  · intro own
    have changed : after.look (resolve [] (shareDir dataDir id) ++ [ascii "keys.bin"]) ≠
        tree.look (resolve [] (shareDir dataDir id) ++ [ascii "keys.bin"]) := by
      rw [absent, keyring]
      exact Option.some_ne_none _
    rcases own _ changed with inside | ⟨legal, _⟩ | ⟨_, directory, _⟩
    · exact inside.1
    · exact legal
    · cases keyring.symm.trans directory
  · intro legal path changed
    rcases changes path with same | below | ⟨missing, made, way⟩
    · rcases creates path with unmoved | ⟨missing, made, way⟩
      · exact absurd (same.trans unmoved) changed
      · exact .inr (.inr ⟨missing, same.trans made, way⟩)
    · refine .inl ⟨legal, ?_⟩
      rwa [shareDir_of_legal legal] at below
    · refine .inr (.inl ⟨legal, ?_, made, way⟩)
      rcases creates path with unmoved | ⟨before, _⟩
      · exact unmoved ▸ missing
      · exact before

/-- A ticket that is accepted has its files where its id leads. -/
theorem shareJoin_ok {created : Key} {running joinedRunning : List String}
    {cwd : Except SyncFailure RawPath} {path : Bytes}
    (accepted : shareJoin formats tree dataDir crypto identity crdt created now running cwd
      (.ok ticket) path = (.ok id, joinedRunning, after)) :
    ∃ joinPath, absolutePath cwd path = .ok joinPath ∧
      JoinedFiles tree (shareDir dataDir ticket.shareId) joinPath after := by
  unfold shareJoin at accepted
  dsimp only at accepted
  split at accepted
  · cases accepted
  next joinPath absolute =>
    refine ⟨joinPath, absolute, ?_⟩
    split at accepted
    · cases accepted
    split at accepted
    · cases accepted
    split at accepted
    · cases accepted
    split at accepted
    · cases accepted
    split at accepted
    · cases accepted
    next onDisk =>
      split at accepted
      · cases accepted
      · cases accepted
        exact joinOnDisk_ok onDisk

theorem joinOnDisk_authState
    (joined : joinOnDisk formats tree dataDir crypto identity ticket joinPath now =
      (.ok authState, after)) :
    ticket.keys ≠ [] ∧
      (AuthState.empty : AuthState crdt).replay crypto
        ("applying auth op while joining " ++ ticket.shareId) ticket.authLog = .ok authState ∧
      authState.isMember (groupIdFor crypto ticket.shareId) (crypto.publicKey identity) = true := by
  unfold joinOnDisk at joined
  dsimp only at joined
  split at joined
  · cases joined
  split at joined
  · cases joined
  split at joined
  · cases joined
  next installing =>
    split at joined
    · cases joined
    next replayed replaying =>
      split at joined
      · cases joined
      next member =>
        split at joined
        · cases joined
        cases joined
        refine ⟨?_, replaying, ?_⟩
        · intro empty
          rw [empty, installKeyring] at installing
          split at installing
          · cases installing
          · cases installing
        · rwa [Bool.not_eq_true, Bool.not_eq_false'] at member

/-- What a share gets from an accepted ticket is what it gets in the network of its peers. -/
theorem shareJoin_loop {created : Key} {running : List String}
    {cwd : Except SyncFailure RawPath} {path : Bytes}
    (accepted : (shareJoin formats tree dataDir crypto identity crdt created now running cwd
      (.ok ticket) path).1 = .ok id) :
    id = ticket.shareId ∧
      ∃ loop, (Daemon.shareJoin crypto identity created ticket : Except Failure (ShareLoop crdt)) =
        .ok loop := by
  unfold shareJoin at accepted
  dsimp only at accepted
  split at accepted
  · cases accepted
  split at accepted
  · cases accepted
  next invited =>
    split at accepted
    · cases accepted
    split at accepted
    · cases accepted
    split at accepted
    · cases accepted
    split at accepted
    · cases accepted
    next onDisk =>
      obtain ⟨nonempty, replaying, member⟩ := joinOnDisk_authState onDisk
      split at accepted
      · cases accepted
      next loop spawned =>
        refine ⟨(Except.ok.inj accepted).symm, loop, ?_⟩
        unfold Daemon.shareJoin
        rw [if_neg invited, Crypto.installKeyring, dif_neg nonempty]
        dsimp only
        rw [replaying]
        dsimp only
        rw [member]
        exact spawned

end Join

/-- Removals and joins stay with their share exactly under the conditions on the id. -/
theorem shareFiles_own_iff (formats : FileFormats) (tree : FileTree) (dataDir : RawPath) :
    (∀ id, RemovesOwn formats tree dataDir id (cmdShareRemoveDirect formats tree dataDir id).1
        (cmdShareRemoveDirect formats tree dataDir id).2 ↔
      RemovalScoped formats tree dataDir id) ∧
    (∀ running id, RemovesOwn formats tree dataDir id
        (shareRemove formats tree dataDir running id).1
        (shareRemove formats tree dataDir running id).2.2 ↔
      RemovalScoped formats tree dataDir id) ∧
    ∀ (crdt : GroupCrdt) (crypto : Primitives) (identity : crypto.PrivateKey) (created : Key)
      (now : Timestamp) (running : List String) (cwd : Except SyncFailure RawPath)
      (ticket : Ticket) (path : Bytes) (id : String),
      (shareJoin formats tree dataDir crypto identity crdt created now running cwd (.ok ticket)
        path).1 = .ok id →
      ∃ joinPath, absolutePath cwd path = .ok joinPath ∧
        (JoinsOwn tree dataDir ticket.shareId joinPath
            (shareJoin formats tree dataDir crypto identity crdt created now running cwd
              (.ok ticket) path).2.2 ↔
          legalName (idBytes ticket.shareId) = true) := by
  refine ⟨cmdShareRemoveDirect_iff formats tree dataDir, ?_, ?_⟩
  · intro running id
    have direct : (shareRemove formats tree dataDir running id).1 = _ ∧ _ :=
      shareRemove_direct running
    rw [direct.1, direct.2]
    exact cmdShareRemoveDirect_iff formats tree dataDir id
  · intro crdt crypto identity created now running cwd ticket path id accepted
    obtain ⟨joinPath, absolute, joined⟩ := shareJoin_ok (Prod.ext accepted rfl)
    exact ⟨joinPath, absolute, joinsOwn_iff joined⟩

section Sample

open Reference

/-- `share.json` as the daemon writes it, for shares created at the epoch. -/
def sampleJson (config : StoredConfig) : Bytes :=
  ascii "\x7b\n  \"id\": \"" ++ idBytes config.id ++ ascii "\",\n  \"topic\": \"" ++
    idBytes config.topic ++ ascii "\",\n  \"root_path\": \"" ++
    config.rootPath.flatMap (0x2F :: ·) ++
    ascii "\",\n  \"role\": \"sync\",\n  \"created_at\": \"1970-01-01T00:00:00Z\"\n\x7d"

def docsConfig : StoredConfig :=
  ⟨⟨"docs", "team docs"⟩, [ascii "home", ascii "docs"], .sync, 0⟩

def sampleFormats : FileFormats where
  configJson config :=
    if validUtf8 (config.rootPath.flatMap (0x2F :: ·)) then .ok (sampleJson config)
    else .error "path contains invalid UTF-8 characters"
  parseConfig bytes := if bytes = sampleJson docsConfig then some docsConfig else none

def sampleDataDir : RawPath := [ascii "data"]

/-- A data directory with an identity and one share. -/
def sampleDisk : FileTree :=
  FileTree.ofFiles [([ascii "data", ascii "identity.key"], founder.val.bytes),
    ([ascii "data", ascii "shares", ascii "docs", ascii "share.json"], sampleJson docsConfig)]

def docsTicket : Ticket :=
  ⟨ticketVersion, "docs", "team docs", [.ofBytes 32 [9]],
    (grown [(cleartext.publicKey guest, .writer)]).ops, cleartext.publicKey guest, .sync⟩

/-- A share that is joined from nothing, under the id its inviter gave it. -/
theorem docsTicket_own :
    ∃ joinPath, absolutePath (.ok []) (ascii "/home/docs") = .ok joinPath ∧
      JoinsOwn FileTree.empty sampleDataDir "docs" joinPath
        (shareJoin sampleFormats FileTree.empty sampleDataDir cleartext guest sequentialGroup
          (.ofBytes 32 []) 0 [] (.ok []) (.ok docsTicket) (ascii "/home/docs")).2.2 := by
  obtain ⟨joinPath, absolute, own⟩ :=
    (shareFiles_own_iff sampleFormats FileTree.empty sampleDataDir).2.2 sequentialGroup cleartext
      guest (.ofBytes 32 []) 0 [] (.ok []) docsTicket (ascii "/home/docs") "docs"
      (by decide +kernel)
  exact ⟨joinPath, absolute, own.mpr (by decide +kernel)⟩

/-- The empty id is no share's, and its removal takes every share. -/
theorem emptyId_removesEverything :
    (cmdShareRemoveDirect sampleFormats sampleDisk sampleDataDir "").1 = .ok () ∧
      (cmdShareRemoveDirect sampleFormats sampleDisk sampleDataDir "").2.look
        [ascii "data", ascii "shares", ascii "docs", ascii "share.json"] = none ∧
      ¬ RemovesOwn sampleFormats sampleDisk sampleDataDir ""
        (cmdShareRemoveDirect sampleFormats sampleDisk sampleDataDir "").1
        (cmdShareRemoveDirect sampleFormats sampleDisk sampleDataDir "").2 := by
  have done : (cmdShareRemoveDirect sampleFormats sampleDisk sampleDataDir "").1 = .ok () := by
    decide +kernel
  refine ⟨done, by decide +kernel, ?_⟩
  intro own
  obtain ⟨⟨failure, failed⟩, _⟩ := own.configured (by decide +kernel)
  rw [done] at failed
  cases failed

end Sample

end Peerdup.Daemon.ShareFiles
