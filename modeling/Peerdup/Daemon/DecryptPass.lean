import Peerdup.Daemon.ShadowProperties

/-!
# A whole decryption pass

What a pass over a listing of ciphertext files needs of the disk, and what it leaves there.
-/

set_option autoImplicit false

namespace Peerdup.Daemon

open Foundation Crypto

variable {crypto : Primitives} {tree after : FileTree} {root rel path : Path} {key : KeyRing}
  {content : Bytes} {listing : List Path} {manifest manifestAfter : Manifest}

theorem directory_placeFile (root rel : Path) (content : Bytes) (found : tree.look path = some .directory) :
    (placeFile tree root rel content).2.look path = some .directory := by
  unfold placeFile
  dsimp only
  split
  · exact found
  next made created =>
    have kept := FileTree.directory_createDirAll created found
    split
    · exact kept
    next written wrote =>
      have keptAgain := FileTree.directory_write wrote kept
      split
      · exact keptAgain
      next moved renamed => exact FileTree.directory_rename renamed keptAgain

theorem directory_place (root : Path) (target : PlaintextRel) (content : Bytes)
    (found : tree.look path = some .directory) :
    (place tree root target content).2.look path = some .directory := by
  cases target with
  | file file => exact directory_placeFile root file content found
  | here dir ending =>
      unfold place placeHere
      dsimp only
      split
      · exact found
      next made created =>
        have kept := FileTree.directory_createDirAll created found
        split
        · exact kept
        split
        · exact kept
        next written wrote => exact FileTree.directory_write wrote kept
  | up dir =>
      unfold place placeUp
      dsimp only
      split
      · exact found
      next made created => exact FileTree.directory_createDirAll created found

theorem directory_decryptFile (crypto : Primitives) (root : Path) (key : KeyRing)
    (shadowRel : Path) (found : tree.look path = some .directory) :
    (decryptFile crypto tree root key shadowRel).2.look path = some .directory := by
  unfold decryptFile
  split
  · exact found
  next target named =>
    dsimp only
    split
    · exact found
    split
    · exact found
    next content opened =>
      have kept := directory_place root target content found
      split
      · next outcome =>
          rw [outcome] at kept
          exact kept
      · next outcome =>
          rw [outcome] at kept
          exact kept

theorem directory_decryptFiles (crypto : Primitives) (root : Path) (key : KeyRing)
    (listing : List Path) (manifest : Manifest) (found : tree.look path = some .directory) :
    (decryptFiles crypto root key listing manifest tree).2.look path = some .directory := by
  induction listing generalizing manifest tree with
  | nil => exact found
  | cons shadowRel listing ih =>
      have kept := directory_decryptFile crypto root key shadowRel found
      rw [decryptFiles]
      split
      · next outcome =>
          rw [outcome] at kept
          exact kept
      · next outcome =>
          rw [outcome] at kept
          exact ih manifest kept
      · next outcome =>
          rw [outcome] at kept
          exact ih _ kept

theorem decryptFiles_append (crypto : Primitives) (root : Path) (key : KeyRing)
    (front back : List Path) (manifest : Manifest) (tree : FileTree) :
    decryptFiles crypto root key (front ++ back) manifest tree =
      match decryptFiles crypto root key front manifest tree with
      | (.error failure, tree) => (.error failure, tree)
      | (.ok manifest, tree) => decryptFiles crypto root key back manifest tree := by
  induction front generalizing manifest tree with
  | nil => rfl
  | cons shadowRel front ih =>
      rw [List.cons_append, decryptFiles, decryptFiles]
      split
      · rfl
      · exact ih manifest _
      · exact ih _ _

theorem decryptFiles_split {front back : List Path}
    (ran : decryptFiles crypto root key (front ++ back) manifest tree = (.ok manifestAfter, after)) :
    ∃ between manifestBetween,
      decryptFiles crypto root key front manifest tree = (.ok manifestBetween, between) ∧
      decryptFiles crypto root key back manifestBetween between = (.ok manifestAfter, after) := by
  rw [decryptFiles_append] at ran
  split at ran
  · cases ran
  · next manifestBetween between first => exact ⟨between, manifestBetween, first, ran⟩

theorem decryptFiles_cons {shadowRel : Path}
    (ran : decryptFiles crypto root key (shadowRel :: listing) manifest tree =
      (.ok manifestAfter, after)) :
    (plaintextRelFromShadowRel shadowRel = none ∧
      decryptFiles crypto root key listing manifest tree = (.ok manifestAfter, after)) ∨
    ∃ dir name between, plaintextRelFromShadowRel shadowRel = some (.file (dir ++ [name])) ∧
      Decrypted crypto key root shadowRel dir name tree between ∧
      decryptFiles crypto root key listing (insertPath (dir ++ [name]) manifest) between =
        (.ok manifestAfter, after) := by
  rw [decryptFiles] at ran
  split at ran
  · cases ran
  · next outcome =>
      rcases decryptFile_ok outcome with ⟨_, skipped, rfl⟩ | ⟨dir, name, impossible, _⟩
      · exact .inl ⟨skipped, ran⟩
      · cases impossible
  · next outcome =>
      rcases decryptFile_ok outcome with ⟨impossible, _⟩ | ⟨dir, name, same, named, decrypted⟩
      · cases impossible
      · cases same
        exact .inr ⟨dir, name, _, named, decrypted, ran⟩

theorem mem_decryptFiles
    (ran : decryptFiles crypto root key listing manifest tree = (.ok manifestAfter, after)) :
    rel ∈ manifestAfter ↔ rel ∈ manifest ∨
      ∃ shadowRel ∈ listing, plaintextRelFromShadowRel shadowRel = some (.file rel) := by
  induction listing generalizing manifest tree with
  | nil =>
      cases ran
      simp
  | cons shadowRel listing ih =>
      rcases decryptFiles_cons ran with ⟨skipped, rest⟩ | ⟨dir, name, between, named, _, rest⟩
      · rw [ih rest]
        simp [skipped]
      · rw [ih rest, mem_insertPath]
        simp only [List.mem_cons, exists_eq_or_imp, named, Option.some.injEq, PlaintextRel.file.injEq]
        rw [@eq_comm _ (dir ++ [name]) rel]
        tauto

theorem file_decryptFiles {held : Bytes}
    (ran : decryptFiles crypto root key listing manifest tree = (.ok manifestAfter, after))
    (found : after.look path = some (.file held)) :
    tree.look path = some (.file held) ∨ ∃ shadowRel ∈ listing, ∃ rel,
      plaintextRelFromShadowRel shadowRel = some (.file rel) ∧ path = root ++ rel := by
  induction listing generalizing manifest tree with
  | nil =>
      cases ran
      exact .inl found
  | cons shadowRel listing ih =>
      rcases decryptFiles_cons ran with ⟨_, rest⟩ | ⟨dir, name, between, named, decrypted, rest⟩
      · rcases ih rest with before | ⟨later, member, placed⟩
        · exact .inl before
        · exact .inr ⟨later, List.mem_cons_of_mem _ member, placed⟩
      · rcases ih rest with before | ⟨later, member, placed⟩
        swap
        · exact .inr ⟨later, List.mem_cons_of_mem _ member, placed⟩
        obtain ⟨ciphertext, content, _, _, placed⟩ := decrypted.placed
        rw [look_placeFile placed] at before
        split at before
        · cases before
        split at before
        · next here =>
            refine .inr ⟨shadowRel, List.mem_cons_self, dir ++ [name], named, ?_⟩
            rw [here, List.append_assoc]
        split at before
        · cases before
        · exact .inl before

theorem kept_decryptFiles {held : Bytes}
    (ran : decryptFiles crypto root key listing manifest tree = (.ok manifestAfter, after))
    (found : tree.look path = some (.file held))
    (untouched : ∀ shadowRel ∈ listing, ∀ rel,
      plaintextRelFromShadowRel shadowRel = some (.file rel) →
        path ≠ root ++ rel ∧ path ≠ root ++ temporary rel) :
    after.look path = some (.file held) := by
  induction listing generalizing manifest tree with
  | nil =>
      cases ran
      exact found
  | cons shadowRel listing ih =>
      have others := fun later member => untouched later (List.mem_cons_of_mem _ member)
      rcases decryptFiles_cons ran with ⟨_, rest⟩ | ⟨dir, name, between, named, decrypted, rest⟩
      · exact ih rest found others
      · refine ih rest ?_ others
        obtain ⟨ciphertext, content, _, _, placed⟩ := decrypted.placed
        obtain ⟨target, tmp⟩ := untouched shadowRel List.mem_cons_self _ named
        rw [temporary, withSuffix_append] at tmp
        rw [← List.append_assoc] at target tmp
        have clear := (placeFile_ok_iff.mp ⟨between, placed⟩).clear path List.nil_prefix
        rw [look_placeFile placed, if_neg tmp, if_neg target, if_neg, found]
        intro above
        have file := clear above
        rw [FileTree.isFile, found] at file
        cases file

/-- A file that is decrypted could be placed when its turn came. -/
theorem placeable_decryptFiles {shadowRel : Path}
    (ran : decryptFiles crypto root key listing manifest tree = (.ok manifestAfter, after))
    (member : shadowRel ∈ listing)
    (named : plaintextRelFromShadowRel shadowRel = some (.file rel)) :
    ∃ dir name between, rel = dir ++ [name] ∧ Placeable between root dir name ∧
      ∀ {path}, tree.look path = some .directory → between.look path = some .directory := by
  obtain ⟨front, back, rfl⟩ := List.append_of_mem member
  obtain ⟨between, manifestBetween, first, second⟩ := decryptFiles_split ran
  have persists : ∀ {path}, tree.look path = some .directory → between.look path = some .directory := by
    intro path found
    have kept := directory_decryptFiles crypto root key front manifest found
    rwa [first] at kept
  rcases decryptFiles_cons second with ⟨skipped, _⟩ | ⟨dir, name, _, same, decrypted, _⟩
  · rw [skipped] at named
    cases named
  · rw [same] at named
    cases named
    obtain ⟨ciphertext, content, _, _, placed⟩ := decrypted.placed
    exact ⟨dir, name, between, rfl, placeFile_ok_iff.mp ⟨_, placed⟩, persists⟩

/-- Whatever is placed had no directory in its way when the pass began. -/
theorem free_decryptFiles {shadowRel : Path}
    (ran : decryptFiles crypto root key listing manifest tree = (.ok manifestAfter, after))
    (member : shadowRel ∈ listing)
    (named : plaintextRelFromShadowRel shadowRel = some (.file rel)) :
    tree.look (root ++ rel) ≠ some .directory ∧
      tree.look (root ++ temporary rel) ≠ some .directory := by
  obtain ⟨dir, name, between, rfl, placeable, persists⟩ := placeable_decryptFiles ran member named
  rw [temporary, withSuffix_append, ← List.append_assoc, ← List.append_assoc]
  exact ⟨fun found => placeable.targetFree (persists found),
    fun found => placeable.tmpFree (persists found)⟩

theorem nameFits_decryptFiles {shadowRel : Path}
    (ran : decryptFiles crypto root key listing manifest tree = (.ok manifestAfter, after))
    (member : shadowRel ∈ listing)
    (named : plaintextRelFromShadowRel shadowRel = some (.file rel)) : NameFits tmpSuffix rel := by
  obtain ⟨dir, name, between, rfl, placeable, _⟩ := placeable_decryptFiles ran member named
  exact placeable.short

theorem empty_decryptFiles {shadowRel : Path}
    (ran : decryptFiles crypto root key listing manifest tree = (.ok manifestAfter, after))
    (member : shadowRel ∈ listing) (named : plaintextRelFromShadowRel shadowRel = some (.file rel))
    (alone : ∀ other ∈ listing, plaintextRelFromShadowRel other ≠ some (.file (temporary rel))) :
    after.isFile (root ++ temporary rel) = false := by
  rw [← Bool.not_eq_true, FileTree.isFile_iff]
  intro ⟨held, found⟩
  obtain ⟨front, back, rfl⟩ := List.append_of_mem member
  obtain ⟨reached, manifestReached, _, here⟩ := decryptFiles_split ran
  rcases decryptFiles_cons here with ⟨skipped, _⟩ | ⟨dir, name, moved, same, decrypted, final⟩
  · rw [skipped] at named
    cases named
  rw [same] at named
  cases named
  obtain ⟨_, content, _, _, placed⟩ := decrypted.placed
  rcases file_decryptFiles final found with before | ⟨other, otherMember, again, otherNamed, samePath⟩
  · rw [look_placeFile placed, temporary, withSuffix_append, ← List.append_assoc, if_pos rfl] at before
    cases before
  · rw [← List.append_cancel_left samePath] at otherNamed
    exact alone other (by simp [otherMember]) otherNamed

/-- A file whose temporary path is, or is above, an earlier one takes that one away. -/
theorem ordered_decryptFiles (unique : listing.Nodup)
    (ran : decryptFiles crypto root key listing manifest tree = (.ok manifestAfter, after)) :
    listing.Pairwise fun earlier later => ∀ first second,
      plaintextRelFromShadowRel earlier = some (.file first) →
      plaintextRelFromShadowRel later = some (.file second) →
      temporary second <+: first → after.isFile (root ++ first) = false := by
  induction listing generalizing manifest tree with
  | nil => exact List.Pairwise.nil
  | cons shadowRel listing ih =>
      obtain ⟨fresh, others⟩ := List.nodup_cons.mp unique
      rcases decryptFiles_cons ran with ⟨skipped, rest⟩ | ⟨dir, name, between, named, decrypted, rest⟩
      · refine List.pairwise_cons.mpr ⟨?_, ih others rest⟩
        intro later _ first second impossible
        rw [skipped] at impossible
        cases impossible
      refine List.pairwise_cons.mpr ⟨?_, ih others rest⟩
      intro later member first second firstNamed secondNamed blocks
      rw [named] at firstNamed
      cases firstNamed
      obtain ⟨below, same⟩ := blocks
      by_cases here : below = []
      · rw [here, List.append_nil] at same
        rw [← same]
        refine empty_decryptFiles rest member secondNamed ?_
        intro other otherMember otherNamed
        obtain ⟨_, _, _, otherTwin, _⟩ := eq_twin_of_plaintextRel otherNamed
        rw [same, ← decrypted.twin] at otherTwin
        exact fresh (otherTwin ▸ otherMember)
      · -- The temporary path is a directory by now, so the later file is not placed.
        obtain ⟨ciphertext, content, _, _, placed⟩ := decrypted.placed
        have held : between.look (root ++ temporary second ++ below) = some (.file content) := by
          rw [List.append_assoc, same, look_placeFile placed, ← List.append_assoc,
            if_neg (tmp_ne_target _ _).symm, if_pos rfl]
        exact absurd (FileTree.look_above here held) (free_decryptFiles rest member secondNamed).2

end Peerdup.Daemon
