import Peerdup.Daemon.ShareCommands

/-!
# A share's files where the directory exists

Each file helper of a share, on a directory that the path leads to: what stands in its way,
and the disk it leaves.
-/

set_option autoImplicit false

namespace Peerdup.Daemon.ShareFiles

open Foundation Auth Crypto FileTree RawPath

variable {tree after : FileTree} {dir : RawPath} {tmp name : Name} {content : Bytes}

section Save

/-- There is no JSON to write, or a directory stands in the place of `share.json`. -/
def ConfigUnwritable (tree : FileTree) (dir : Path) (json : Except String Bytes) : Prop :=
  json.isOk = false ∨ tree.look (dir ++ [ascii "share.json"]) = some .directory

instance (tree : FileTree) (dir : Path) (json : Except String Bytes) :
    Decidable (ConfigUnwritable tree dir json) :=
  inferInstanceAs (Decidable (_ ∨ _))

/-- The file holds this JSON already. -/
def ConfigStored (tree : FileTree) (dir : Path) (json : Except String Bytes) : Prop :=
  ∃ bytes, json = .ok bytes ∧ tree.look (dir ++ [ascii "share.json"]) = some (.file bytes)

@[simp] theorem configStored_ok {dir : Path} {bytes : Bytes} : ConfigStored tree dir (.ok bytes) ↔
    tree.look (dir ++ [ascii "share.json"]) = some (.file bytes) := by
  simp [ConfigStored]

theorem saveConfig_unwritable (present : Present tree dir) {json : Except String Bytes}
    (unwritable : ConfigUnwritable tree (resolve [] dir) json) :
    ∃ failure, saveConfig tree dir json = (.error failure, tree) := by
  rw [saveConfig, present.creates (List.prefix_refl _)]
  cases json with
  | error reason => exact ⟨_, rfl⟩
  | ok json =>
      have taken := unwritable.resolve_left Bool.noConfusion
      dsimp only
      rw [present.writeAt_directory taken]
      exact ⟨_, rfl⟩

theorem saveConfig_writable (present : Present tree dir) {json : Except String Bytes}
    (writable : ¬ ConfigUnwritable tree (resolve [] dir) json) :
    ∃ bytes after, json = .ok bytes ∧ saveConfig tree dir json = (.ok (), after) ∧
      Present after dir ∧
      after.look (resolve [] dir ++ [ascii "share.json"]) = some (.file bytes) ∧
      ∀ path, path ≠ resolve [] dir ++ [ascii "share.json"] → after.look path = tree.look path := by
  obtain ⟨written, free⟩ := not_or.mp writable
  cases json with
  | error reason => exact absurd rfl written
  | ok json =>
  obtain ⟨after, wrote, look⟩ := present.writes (by decide) free json
  refine ⟨json, after, rfl, ?_, ?_, ?_, ?_⟩
  · rw [saveConfig, present.creates (List.prefix_refl _)]
    dsimp only
    rw [wrote]
  · exact present.mono fun _ found => directory_write (writeAt_ok wrote).2.2 found
  · rw [look, if_pos rfl]
  · intro path other
    rw [look, if_neg other]

theorem saveConfig_of_created {made : FileTree}
    (created : tree.createDirAllAt dir = (.ok (), made)) (json : Except String Bytes) :
    Present made dir ∧ saveConfig tree dir json = saveConfig made dir json := by
  obtain ⟨walked, directory⟩ := createDirAllAt_ok created
  have present : Present made dir := ⟨walked, directory⟩
  refine ⟨present, ?_⟩
  rw [saveConfig, saveConfig, created, present.creates (List.prefix_refl _)]

theorem saveFile_taken (name : Name) (present : Present tree dir)
    (taken : tree.look (resolve [] dir ++ [tmp]) = some .directory) (content : Bytes) :
    ∃ failure, saveFile tree dir tmp name content = (.error failure, tree) := by
  rw [saveFile, present.creates (List.rdropWhile_prefix isDot dir)]
  dsimp only
  rw [present.writeAt_directory taken]
  exact ⟨_, rfl⟩

/-- With a directory in the file's place, its temporary is all that is written. -/
theorem saveFile_blocked (tmp : Name) (present : Present tree dir) (apart : tmp ≠ name)
    (tmpLegal : legalName tmp = true)
    (blocked : tree.look (resolve [] dir ++ [name]) = some .directory) (content : Bytes) :
    ∃ failure after, saveFile tree dir tmp name content = (.error failure, after) ∧
      ∀ path, path ≠ resolve [] dir ++ [tmp] → after.look path = tree.look path := by
  by_cases taken : tree.look (resolve [] dir ++ [tmp]) = some .directory
  · obtain ⟨failure, refused⟩ := saveFile_taken name present taken content
    exact ⟨failure, tree, refused, fun _ _ => rfl⟩
  obtain ⟨temporary, wrote, look⟩ := present.writes tmpLegal taken content
  have onward : Present temporary dir :=
    present.mono fun _ found => directory_write (writeAt_ok wrote).2.2 found
  have held : temporary.look (resolve [] dir ++ [name]) = some .directory := by
    rw [look, if_neg (names_apart apart.symm), blocked]
  obtain ⟨error, refused⟩ : ∃ error, temporary.renameAt dir tmp name = .error error := by
    cases renamed : temporary.renameAt dir tmp name with
    | error error => exact ⟨error, rfl⟩
    | ok after =>
        rw [renameAt, onward.walked] at renamed
        exact absurd held (not_directory_of_rename renamed)
  obtain ⟨failure, saving⟩ : ∃ failure, saveFile tree dir tmp name content =
      (.error failure, temporary) := by
    rw [saveFile, present.creates (List.rdropWhile_prefix isDot dir)]
    dsimp only
    rw [wrote]
    dsimp only
    rw [refused]
    exact ⟨_, rfl⟩
  refine ⟨failure, temporary, saving, ?_⟩
  intro path other
  rw [look, if_neg other]

theorem saveFile_free (present : Present tree dir) (apart : tmp ≠ name)
    (tmpLegal : legalName tmp = true) (legal : legalName name = true)
    (tmpFree : tree.look (resolve [] dir ++ [tmp]) ≠ some .directory)
    (free : tree.look (resolve [] dir ++ [name]) ≠ some .directory) (content : Bytes) :
    ∃ after, saveFile tree dir tmp name content = (.ok (), after) ∧ Present after dir ∧
      after.look (resolve [] dir ++ [name]) = some (.file content) ∧
      ∀ path, path ≠ resolve [] dir ++ [tmp] → path ≠ resolve [] dir ++ [name] →
        after.look path = tree.look path := by
  obtain ⟨temporary, wrote, look⟩ := present.writes tmpLegal tmpFree content
  have distinct : resolve [] dir ++ [name] ≠ resolve [] dir ++ [tmp] := names_apart apart.symm
  have held : temporary.look (resolve [] dir ++ [tmp]) = some (.file content) := by
    rw [look, if_pos rfl]
  have onward : Present temporary dir :=
    present.mono fun _ found => directory_write (writeAt_ok wrote).2.2 found
  obtain ⟨after, renamed⟩ : ∃ after, temporary.renameAt dir tmp name = .ok after := by
    rw [renameAt, onward.walked]
    refine (rename_ok_iff distinct.symm held).mpr ⟨?_, ?_, present.child_legal legal⟩
    · rwa [look, if_neg distinct]
    · rw [List.dropLast_concat]
      exact onward.directory
  have saved : saveFile tree dir tmp name content = (.ok (), after) := by
    rw [saveFile, present.creates (List.rdropWhile_prefix isDot dir)]
    dsimp only
    rw [wrote]
    dsimp only
    rw [renamed]
  have moved := look_renameAt apart held renamed
  refine ⟨after, saved, present.mono (directories_of_saveFile saved).2, ?_, ?_⟩
  · rw [moved, if_neg distinct, if_pos rfl]
  · intro path notTmp notName
    rw [moved, if_neg notTmp, if_neg notName, look, if_neg notTmp]

/-- A log that replaces a file, or none, is saved unless a directory stands where it is
written first. -/
theorem saveAuth_cases (present : Present tree dir)
    (free : tree.look (resolve [] dir ++ [ascii "auth.log"]) ≠ some .directory)
    (ops : List SignedOp) :
    (tree.look (resolve [] dir ++ [ascii "auth.log.tmp"]) = some .directory ∧
      ∃ failure, saveAuth tree dir ops = (.error failure, tree)) ∨
    tree.look (resolve [] dir ++ [ascii "auth.log.tmp"]) ≠ some .directory ∧
      ∃ after, saveAuth tree dir ops = (.ok (), after) ∧ Present after dir ∧
        after.look (resolve [] dir ++ [ascii "auth.log"]) =
          some (.file ((Codec.seq signedOpCodec).encode ops)) ∧
        ∀ path, path ≠ resolve [] dir ++ [ascii "auth.log.tmp"] →
          path ≠ resolve [] dir ++ [ascii "auth.log"] → after.look path = tree.look path := by
  by_cases taken : tree.look (resolve [] dir ++ [ascii "auth.log.tmp"]) = some .directory
  · exact .inl ⟨taken, saveFile_taken (ascii "auth.log") present taken _⟩
  · exact .inr ⟨taken,
      saveFile_free present (by decide) (by decide) (by decide) taken free _⟩

theorem saveConfig_ok {json : Except String Bytes}
    (saved : saveConfig tree dir json = (.ok (), after)) :
    Present after dir ∧ ConfigStored after (resolve [] dir) json := by
  cases created : tree.createDirAllAt dir with
  | mk outcome made =>
  cases outcome with
  | error error =>
      rw [saveConfig, created] at saved
      cases saved
  | ok done =>
      obtain ⟨present, same⟩ := saveConfig_of_created created json
      rw [same] at saved
      by_cases unwritable : ConfigUnwritable made (resolve [] dir) json
      · obtain ⟨failure, refused⟩ := saveConfig_unwritable present unwritable
        cases refused.symm.trans saved
      · obtain ⟨bytes, written, known, saving, there, stored, _⟩ :=
          saveConfig_writable present unwritable
        cases saving.symm.trans saved
        exact ⟨there, bytes, known, stored⟩

/-- The temporary is gone after the save. -/
theorem tmp_of_saveFile (apart : tmp ≠ name)
    (saved : saveFile tree dir tmp name content = (.ok (), after)) :
    after.look (resolve [] dir ++ [tmp]) = none := by
  unfold saveFile at saved
  dsimp only at saved
  split at saved
  · cases saved
  split at saved
  · cases saved
  next temporary wrote =>
    split at saved
    · cases saved
    next renamed =>
      cases saved
      have held : temporary.look (resolve [] dir ++ [tmp]) = some (.file content) := by
        rw [look_write (writeAt_ok wrote).2.2, if_pos rfl]
      rw [look_renameAt apart held renamed, if_pos rfl]

theorem saveFile_ok (present : Present tree dir) (apart : tmp ≠ name)
    (tmpLegal : legalName tmp = true) (legal : legalName name = true)
    (saved : saveFile tree dir tmp name content = (.ok (), after)) :
    Present after dir ∧ after.look (resolve [] dir ++ [name]) = some (.file content) ∧
      ∀ path, path ≠ resolve [] dir ++ [tmp] → path ≠ resolve [] dir ++ [name] →
        after.look path = tree.look path := by
  by_cases taken : tree.look (resolve [] dir ++ [tmp]) = some .directory
  · obtain ⟨failure, refused⟩ := saveFile_taken name present taken content
    cases refused.symm.trans saved
  by_cases blocked : tree.look (resolve [] dir ++ [name]) = some .directory
  · obtain ⟨failure, left, refused, _⟩ :=
      saveFile_blocked tmp present apart tmpLegal blocked content
    cases refused.symm.trans saved
  obtain ⟨written, saving, there, stored, others⟩ :=
    saveFile_free present apart tmpLegal legal taken blocked content
  cases saving.symm.trans saved
  exact ⟨there, stored, others⟩

end Save

/-- Why a task cannot get its share's keyring. -/
def KeyringUnloadable (tree : FileTree) (dir : Path) : Prop :=
  match tree.look (dir ++ [ascii "keys.bin"]) with
  | some (.file raw) => ∃ failure, parseKeys raw = .error failure
  | some .directory => True
  | none => tree.look (dir ++ [ascii "keys.bin.tmp"]) = some .directory

theorem loadKeyring_unloadable (present : Present tree dir)
    (unloadable : KeyringUnloadable tree (resolve [] dir)) (created : Key) :
    ∃ failure, loadKeyring tree dir created = (.error failure, tree) := by
  unfold KeyringUnloadable at unloadable
  rw [loadKeyring, present.existsAt_eq (by decide), present.readAt_eq (by decide),
    FileTree.read]
  cases held : tree.look (resolve [] dir ++ [ascii "keys.bin"]) with
  | none =>
      rw [held] at unloadable
      obtain ⟨failure, saving⟩ := saveFile_taken (ascii "keys.bin") present unloadable
        (KeyRing.fileBytes ⟨[created], singleton_ne_nil created⟩)
      dsimp only [Option.isSome_none]
      rw [if_neg Bool.false_ne_true, saveKeyring, saving]
      exact ⟨failure, rfl⟩
  | some node =>
      cases node with
      | directory => exact ⟨_, rfl⟩
      | file raw =>
          rw [held] at unloadable
          obtain ⟨failure, refused⟩ := unloadable
          dsimp only [Option.isSome_some]
          rw [if_pos rfl, refused]
          exact ⟨_, rfl⟩

theorem loadKeyring_loadable (present : Present tree dir)
    (loadable : ¬ KeyringUnloadable tree (resolve [] dir)) (created : Key) :
    ∃ ring after, loadKeyring tree dir created = (.ok ring, after) ∧ Present after dir ∧
      ∀ path, path ≠ resolve [] dir ++ [ascii "keys.bin.tmp"] →
        path ≠ resolve [] dir ++ [ascii "keys.bin"] → after.look path = tree.look path := by
  unfold KeyringUnloadable at loadable
  rw [loadKeyring, present.existsAt_eq (by decide), present.readAt_eq (by decide),
    FileTree.read]
  cases held : tree.look (resolve [] dir ++ [ascii "keys.bin"]) with
  | none =>
      rw [held] at loadable
      have free : tree.look (resolve [] dir ++ [ascii "keys.bin"]) ≠ some .directory := by
        rw [held]
        simp
      obtain ⟨after, saving, onward, _, others⟩ := saveFile_free present (by decide) (by decide)
        (by decide) loadable free (KeyRing.fileBytes ⟨[created], singleton_ne_nil created⟩)
      dsimp only [Option.isSome_none]
      rw [if_neg Bool.false_ne_true, saveKeyring, saving]
      exact ⟨_, after, rfl, onward, others⟩
  | some node =>
      cases node with
      | directory =>
          rw [held] at loadable
          exact absurd trivial loadable
      | file raw =>
          rw [held] at loadable
          dsimp only [Option.isSome_some]
          rw [if_pos rfl]
          cases parsed : parseKeys raw with
          | error failure => exact absurd ⟨failure, parsed⟩ loadable
          | ok ring => exact ⟨ring, tree, rfl, present, fun _ _ _ => rfl⟩

/-- The identity that is found, or the fresh one where there is none. -/
def identityAt {crypto : Primitives} (keys : KeyBytes crypto) (tree : FileTree) (dataDir : Path)
    (fresh : crypto.PrivateKey) : Option crypto.PrivateKey :=
  match tree.look (dataDir ++ [ascii "identity.key"]) with
  | some (.file raw) => if raw.length = 32 then some (keys.fromBytes (.ofBytes 32 raw)) else none
  | some .directory => none
  | none => some fresh

theorem loadOrCreateIdentity_spec {crypto : Primitives} (keys : KeyBytes crypto)
    (present : Present tree dir) (fresh : crypto.PrivateKey) :
    match identityAt keys tree (resolve [] dir) fresh with
    | none => ∃ failure, loadOrCreateIdentity tree keys dir fresh = (.error failure, tree)
    | some identity => ∃ after, loadOrCreateIdentity tree keys dir fresh = (.ok identity, after) ∧
        (∀ path, tree.look path = some .directory → after.look path = some .directory) ∧
        ∀ path, path ≠ resolve [] dir ++ [ascii "identity.key"] → after.look path = tree.look path := by
  rw [loadOrCreateIdentity, identityAt, present.existsAt_eq (by decide), present.readAt_eq (by decide),
    FileTree.read]
  cases held : tree.look (resolve [] dir ++ [ascii "identity.key"]) with
  | none =>
      have free : tree.look (resolve [] dir ++ [ascii "identity.key"]) ≠ some .directory := by
        rw [held]
        simp
      obtain ⟨after, wrote, look⟩ := present.writes (by decide) free (keys.asBytes fresh).bytes
      dsimp only [Option.isSome_none]
      rw [if_neg Bool.false_ne_true, present.creates (List.rdropWhile_prefix isDot dir)]
      dsimp only
      rw [wrote]
      refine ⟨after, rfl, fun path => directory_write (writeAt_ok wrote).2.2, fun path other => ?_⟩
      rw [look, if_neg other]
  | some node =>
      cases node with
      | directory => exact ⟨_, rfl⟩
      | file raw =>
          dsimp only [Option.isSome_some]
          rw [if_pos rfl]
          by_cases whole : raw.length = 32
          · rw [if_pos whole, if_pos whole]
            exact ⟨tree, rfl, fun _ found => found, fun _ _ => rfl⟩
          · rw [if_neg whole, if_neg whole]
            exact ⟨_, rfl⟩

end Peerdup.Daemon.ShareFiles
