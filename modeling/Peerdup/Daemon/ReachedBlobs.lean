import Peerdup.Daemon.DecryptScope

/-!
# How far a decryption pass comes

The blobs that go through before one fails, and what they leave of the files that were there,
both told from the tree that the pass starts in.
-/

set_option autoImplicit false

namespace Peerdup.Daemon

open Foundation Crypto

section Definitions

variable (crypto : Primitives) (key : KeyRing) (tree : FileTree) (root : Path)

/-- The blob names a target and decrypts. -/
structure Opens (shadowRel : Path) (target : PlaintextRel) (content : Bytes) : Prop where
  named : plaintextRelFromShadowRel shadowRel = some target
  opened : ∃ ciphertext, tree.look (shadowRoot root ++ shadowRel) = some (.file ciphertext) ∧
    decrypt crypto key ciphertext = .ok content

/-- The files that blobs decrypt to, with their names. -/
def placings (blobs : List Path) : List (Path × Bytes) :=
  blobs.filterMap fun shadowRel =>
    match plaintextRelFromShadowRel shadowRel, tree.read (shadowRoot root ++ shadowRel) with
    | some (.file rel), .ok ciphertext => (decrypt crypto key ciphertext).toOption.map (rel, ·)
    | _, _ => none

/-- What stands at a path below the root once files have been placed in turn. -/
def standing (placed : List (Path × Bytes)) (path : Path) : Option Node :=
  placed.foldl (fun found placing =>
    if path = temporary placing.1 then none
    else if path = placing.1 then some (.file placing.2)
    else if path <+: placing.1.dropLast then some .directory
    else found) (tree.look (root ++ path))

/-- After the files placed there is room for the temporary file of another one. -/
structure TmpRoom (placed : List (Path × Bytes)) (rel : Path) : Prop where
  short : NameFits tmpSuffix rel
  clear : ∀ above, above <+: rel.dropLast → ∀ content,
    standing tree root placed above ≠ some (.file content)
  tmpFree : standing tree root placed (temporary rel) ≠ some .directory

structure Room (placed : List (Path × Bytes)) (rel : Path) : Prop extends
    TmpRoom tree root placed rel where
  targetFree : standing tree root placed rel ≠ some .directory

/-- After the blobs in front, this one is skipped, or decrypts to a file there is room for. -/
def GoesThrough (front : List Path) (shadowRel : Path) : Prop :=
  plaintextRelFromShadowRel shadowRel = none ∨
    ∃ rel content, Opens crypto key tree root shadowRel (.file rel) content ∧
      Room tree root (placings crypto key tree root front) rel

def Passed (front : List Path) : Prop :=
  ∀ before shadowRel after, front = before ++ shadowRel :: after →
    GoesThrough crypto key tree root before shadowRel

/-- The blob that the pass stops at is left under its temporary name. -/
def LeftOver (front back : List Path) (rel : Path) (content : Bytes) : Prop :=
  ∃ shadowRel rest target named, back = shadowRel :: rest ∧
    Opens crypto key tree root shadowRel target content ∧ target.components = some named ∧
    named ≠ [] ∧ TmpRoom tree root (placings crypto key tree root front) named ∧
    rel = temporary named

end Definitions

variable {crypto : Primitives} {key : KeyRing} {tree reached : FileTree}
  {root shadowRel rel path : Path} {target : PlaintextRel} {content : Bytes}
  {blobs front back : List Path} {placed : List (Path × Bytes)}

theorem standing_concat (placing : Path × Bytes) (path : Path) :
    standing tree root (placed ++ [placing]) path =
      if path = temporary placing.1 then none
      else if path = placing.1 then some (.file placing.2)
      else if path <+: placing.1.dropLast then some .directory
      else standing tree root placed path := by
  rw [standing, List.foldl_append]
  rfl

theorem standing_apart (apart : ∀ placing ∈ placed,
      path ≠ temporary placing.1 ∧ path ≠ placing.1 ∧ ¬ path <+: placing.1.dropLast) :
    standing tree root placed path = tree.look (root ++ path) := by
  induction placed using List.reverseRecOn with
  | nil => rfl
  | append_singleton placed placing ih =>
      obtain ⟨tmp, same, above⟩ := apart placing (by simp)
      rw [standing_concat, if_neg tmp, if_neg same, if_neg above]
      exact ih fun earlier member => apart earlier (List.mem_append_left _ member)

theorem Opens.unique {other : PlaintextRel} {otherContent : Bytes}
    (opens : Opens crypto key tree root shadowRel target content)
    (again : Opens crypto key tree root shadowRel other otherContent) :
    target = other ∧ content = otherContent := by
  obtain ⟨ciphertext, held, opened⟩ := opens.opened
  obtain ⟨sameText, heldAgain, openedAgain⟩ := again.opened
  cases held.symm.trans heldAgain
  exact ⟨Option.some.inj (opens.named.symm.trans again.named),
    Except.ok.inj (opened.symm.trans openedAgain)⟩

theorem placings_concat (front : List Path) (shadowRel : Path) :
    placings crypto key tree root (front ++ [shadowRel]) =
      placings crypto key tree root front ++ placings crypto key tree root [shadowRel] := by
  rw [placings, List.filterMap_append]
  rfl

theorem placings_skipped (skipped : plaintextRelFromShadowRel shadowRel = none) :
    placings crypto key tree root [shadowRel] = [] := by
  simp [placings, skipped]

theorem placings_opens (opens : Opens crypto key tree root shadowRel (.file rel) content) :
    placings crypto key tree root [shadowRel] = [(rel, content)] := by
  obtain ⟨ciphertext, held, opened⟩ := opens.opened
  simp [placings, opens.named, FileTree.read_ok_iff.mpr held, opened, Except.toOption]

theorem mem_placings {placing : Path × Bytes}
    (member : placing ∈ placings crypto key tree root front) :
    ∃ shadowRel ∈ front, Opens crypto key tree root shadowRel (.file placing.1) placing.2 := by
  obtain ⟨shadowRel, inside, found⟩ := List.mem_filterMap.mp member
  refine ⟨shadowRel, inside, ?_⟩
  split at found
  · next rel ciphertext named read =>
      cases opened : decrypt crypto key ciphertext with
      | error failure =>
          rw [opened] at found
          cases found
      | ok content =>
          rw [opened] at found
          cases found
          exact ⟨named, ciphertext, FileTree.read_ok_iff.mp read, opened⟩
  · cases found

theorem Passed.concat (passed : Passed crypto key tree root front)
    (through : GoesThrough crypto key tree root front shadowRel) :
    Passed crypto key tree root (front ++ [shadowRel]) := by
  intro before other after split
  rcases List.eq_nil_or_concat after with rfl | ⟨shorter, last, rfl⟩
  · obtain ⟨rfl, same⟩ := List.append_inj' split rfl
    cases same
    exact through
  · rw [List.concat_eq_append, ← List.cons_append, ← List.append_assoc] at split
    exact passed before other shorter (List.append_inj' split rfl).1

theorem Passed.of_concat (passed : Passed crypto key tree root (front ++ [shadowRel])) :
    Passed crypto key tree root front ∧ GoesThrough crypto key tree root front shadowRel := by
  refine ⟨fun before other after split => ?_, passed front shadowRel [] rfl⟩
  exact passed before other (after ++ [shadowRel]) (by simp [split])

theorem Passed.room (passed : Passed crypto key tree root front) (before : List (Path × Bytes))
    (placing : Path × Bytes) (after : List (Path × Bytes))
    (split : placings crypto key tree root front = before ++ placing :: after) :
    Room tree root before placing.1 := by
  induction front using List.reverseRecOn generalizing after with
  | nil => simp [placings] at split
  | append_singleton front shadowRel ih =>
      obtain ⟨earlier, through⟩ := passed.of_concat
      rw [placings_concat] at split
      rcases through with skipped | ⟨rel, content, opens, room⟩
      · rw [placings_skipped skipped, List.append_nil] at split
        exact ih earlier after split
      · rw [placings_opens opens] at split
        rcases List.eq_nil_or_concat after with rfl | ⟨shorter, last, rfl⟩
        · obtain ⟨same, named⟩ := List.append_inj' split rfl
          cases named
          rwa [same] at room
        · rw [List.concat_eq_append, ← List.cons_append, ← List.append_assoc] at split
          exact ih earlier shorter (List.append_inj' split rfl).1

/-- Below the root, a pass has come to what stands after the files placed. -/
def Stands (tree reached : FileTree) (root : Path) (placed : List (Path × Bytes)) : Prop :=
  ∀ path, reached.look (root ++ path) = standing tree root placed path

theorem blob_of_collected (collected : collectFiles tree (shadowRoot root) = .ok blobs)
    (member : shadowRel ∈ blobs) : shadowRel ≠ [] ∧ peerdupDirName ∉ shadowRel ∧
      tree.isFile (shadowRoot root ++ shadowRel) = true := by
  obtain ⟨paths, again, _, listed⟩ := collectFiles_ok (look_of_collectFiles collected)
  cases collected.symm.trans again
  exact plaintext_isSome_iff.mp ((listed shadowRel).mp member)

theorem rootDir_of_collected (collected : collectFiles tree (shadowRoot root) = .ok blobs) :
    tree.look root = some .directory :=
  FileTree.directory_above (look_of_collectFiles collected) (List.prefix_append _ _)

theorem placing_outside (collected : collectFiles tree (shadowRoot root) = .ok blobs)
    (within : front <+: blobs) {placing : Path × Bytes}
    (member : placing ∈ placings crypto key tree root front) :
    placing.1 ≠ [] ∧ peerdupDirName ∉ placing.1.dropLast := by
  obtain ⟨shadowRel, inside, opens⟩ := mem_placings member
  obtain ⟨dir, name, same, isTwin, _⟩ := eq_twin_of_plaintextRel opens.named
  have visible := (blob_of_collected collected (within.subset inside)).2.1
  rw [same, List.dropLast_concat]
  refine ⟨by simp, fun hidden => visible ?_⟩
  rw [isTwin, same, twin, withSuffix_append]
  exact List.mem_append_left _ hidden

/-- No blob is written over by what the pass places. -/
theorem Stands.blob (stands : Stands tree reached root (placings crypto key tree root front))
    (collected : collectFiles tree (shadowRoot root) = .ok blobs) (within : front <+: blobs)
    (member : shadowRel ∈ blobs) :
    reached.look (shadowRoot root ++ shadowRel) = tree.look (shadowRoot root ++ shadowRel) := by
  have nonempty := (blob_of_collected collected member).1
  have hidden : peerdupDirName ∈ ([peerdupDirName, ascii "encrypted"] ++ shadowRel).dropLast := by
    rw [List.dropLast_append_of_ne_nil nonempty]
    exact List.mem_append_left _ List.mem_cons_self
  have split : shadowRoot root ++ shadowRel =
      root ++ ([peerdupDirName, ascii "encrypted"] ++ shadowRel) := by
    rw [shadowRoot, List.append_assoc]
  rw [split, stands, standing_apart]
  intro placing inside
  obtain ⟨someName, outside⟩ := placing_outside collected within inside
  refine ⟨?_, ?_, fun above => ?_⟩
  · intro same
    rw [same, temporary, ← List.dropLast_append_getLast someName, withSuffix_append,
      List.dropLast_concat] at hidden
    exact outside hidden
  · intro same
    exact outside (same ▸ hidden)
  · exact outside (above.subset (List.mem_of_mem_dropLast hidden))

theorem Stands.rootDir (stands : Stands tree reached root (placings crypto key tree root front))
    (collected : collectFiles tree (shadowRoot root) = .ok blobs) (within : front <+: blobs) :
    reached.look root = some .directory := by
  have start := rootDir_of_collected collected
  have all : ∀ placed : List (Path × Bytes), (∀ placing ∈ placed, placing.1 ≠ []) →
      standing tree root placed [] = some .directory := by
    intro placed proper
    induction placed using List.reverseRecOn with
    | nil => simpa [standing] using start
    | append_singleton placed placing _ =>
        have nonempty := proper placing (by simp)
        have named : temporary placing.1 ≠ [] := by
          intro empty
          have length := congrArg List.length empty
          rw [temporary, length_withSuffix] at length
          exact nonempty (List.length_eq_zero_iff.mp length)
        rw [standing_concat, if_neg named.symm, if_neg nonempty.symm, if_pos List.nil_prefix]
  have here := stands []
  rw [List.append_nil] at here
  exact here.trans (all _ fun placing member => (placing_outside collected within member).1)

section Steps

variable {dir : Path} {name : Name}

theorem Stands.clear_iff (stands : Stands tree reached root placed)
    (rootDir : reached.look root = some .directory) : reached.Clear [] (root ++ dir) ↔
      ∀ above, above <+: dir → ∀ content, standing tree root placed above ≠ some (.file content) := by
  have file (above : Path) : reached.isFile (root ++ above) = false ↔
      ∀ content, standing tree root placed above ≠ some (.file content) := by
    rw [← Bool.not_eq_true, FileTree.isFile_iff, not_exists, stands]
  constructor
  · intro clear above inside
    exact (file above).mp (clear _ List.nil_prefix ((List.prefix_append_right_inj root).mpr inside))
  · intro none
    exact FileTree.clear_of_below rootDir fun inside _ above => (file inside).mpr (none inside above)

theorem Stands.room_iff (stands : Stands tree reached root placed)
    (rootDir : reached.look root = some .directory) (legal : (dir ++ [name]).all legalName = true) :
    Room tree root placed (dir ++ [name]) ↔ Placeable reached root dir name := by
  have wholeLegal : (root ++ dir ++ [name]).all legalName = true := by
    rw [List.append_assoc, List.all_append, FileTree.look_legal rootDir, legal]
    rfl
  have tmpPath : root ++ temporary (dir ++ [name]) = root ++ dir ++ [name ++ tmpSuffix] := by
    rw [temporary, withSuffix_append, List.append_assoc]
  constructor
  · intro room
    have clear := room.clear
    rw [List.dropLast_concat] at clear
    refine ⟨(stands.clear_iff rootDir).mpr clear, wholeLegal, room.short, ?_, ?_⟩
    · rw [← tmpPath, stands]
      exact room.tmpFree
    · rw [List.append_assoc, stands]
      exact room.targetFree
  · intro placeable
    have clear := (stands.clear_iff rootDir).mp placeable.clear
    rw [← @List.dropLast_concat _ dir name] at clear
    refine ⟨⟨placeable.short, clear, ?_⟩, ?_⟩
    · rw [← stands, tmpPath]
      exact placeable.tmpFree
    · rw [← stands, ← List.append_assoc]
      exact placeable.targetFree

/-- There is room for the temporary file exactly when it can be written. -/
theorem Stands.tmpRoom_iff (stands : Stands tree reached root placed)
    (rootDir : reached.look root = some .directory) (legal : (dir ++ [name]).all legalName = true) :
    TmpRoom tree root placed (dir ++ [name]) ↔
      ∃ made written, reached.createDirAll (root ++ dir) = .ok made ∧
        made.write (root ++ dir ++ [name ++ tmpSuffix]) content = .ok written := by
  obtain ⟨dirLegal, named⟩ : dir.all legalName = true ∧ legalName name = true := by
    simpa [List.all_append] using legal
  have above : (root ++ dir).all legalName = true := by
    rw [List.all_append, FileTree.look_legal rootDir, dirLegal]
    rfl
  have tmpPath : root ++ temporary (dir ++ [name]) = root ++ dir ++ [name ++ tmpSuffix] := by
    rw [temporary, withSuffix_append, List.append_assoc]
  have notAbove : ¬ root ++ dir ++ [name ++ tmpSuffix] <+: root ++ dir := by
    intro longer
    have length := longer.length_le
    rw [List.length_append, List.length_singleton] at length
    omega
  constructor
  · intro room
    have clear := room.clear
    rw [List.dropLast_concat] at clear
    obtain ⟨made, created⟩ :=
      FileTree.createDirAll_ok_iff.mpr ⟨(stands.clear_iff rootDir).mpr clear, above⟩
    obtain ⟨written, wrote⟩ : ∃ written,
        made.write (root ++ dir ++ [name ++ tmpSuffix]) content = .ok written := by
      refine FileTree.write_ok_iff.mpr ⟨?_, ?_, ?_⟩
      · rw [FileTree.look_createDirAll created, if_neg notAbove, ← tmpPath, stands]
        exact room.tmpFree
      · rw [List.dropLast_concat, FileTree.look_createDirAll created, if_pos (List.prefix_refl _)]
      · have short := legalName_append named (by decide : 1 < tmpSuffix.length) (by decide)
          (by decide) ((nameFits_append _ _ _).mp room.short)
        rw [List.all_append, above]
        simpa using short
    exact ⟨made, written, created, wrote⟩
  · rintro ⟨made, written, created, wrote⟩
    obtain ⟨free, _, legal⟩ := FileTree.write_ok_iff.mp ⟨written, wrote⟩
    rw [List.append_assoc, ← withSuffix_append, List.all_append, Bool.and_eq_true] at legal
    have clear := (stands.clear_iff rootDir).mp (FileTree.createDirAll_ok_iff.mp ⟨made, created⟩).1
    refine ⟨nameFits_of_legal (by simp) legal.2, ?_, ?_⟩
    · rwa [List.dropLast_concat]
    · rwa [FileTree.look_createDirAll created, if_neg notAbove, ← tmpPath, stands] at free

/-- The directory of a blob is a path, and so is the file it decrypts to. -/
theorem Opens.legal (opens : Opens crypto key tree root shadowRel target content) {named : Path}
    (components : target.components = some named) : named.all legalName = true := by
  obtain ⟨ciphertext, held, _⟩ := opens.opened
  obtain ⟨dir, stripped, split, targets⟩ := plaintextRel_cases opens.named
  have dirLegal : dir.all legalName = true := by
    have whole := FileTree.look_legal held
    rw [split, List.all_append, List.all_append, Bool.and_eq_true, Bool.and_eq_true] at whole
    exact whole.2.1
  rcases targets with rfl | (⟨rfl, _⟩ | ⟨rfl, _⟩) | rfl
  · cases components
    obtain ⟨_, _, same, legal⟩ := legal_of_plaintextRel held opens.named
    obtain ⟨_, last⟩ := List.append_inj' same rfl
    rw [(List.cons.inj last).1, List.all_append, dirLegal]
    simpa using legal
  · cases components
    exact dirLegal
  · cases components
    exact dirLegal
  · cases components

theorem Stands.through (stands : Stands tree reached root (placings crypto key tree root front))
    (collected : collectFiles tree (shadowRoot root) = .ok blobs) (within : front <+: blobs)
    (member : shadowRel ∈ blobs) (through : GoesThrough crypto key tree root front shadowRel) :
    ∃ outcome after, decryptFile crypto reached root key shadowRel = (.ok outcome, after) := by
  rcases through with skipped | ⟨rel, content, opens, room⟩
  · exact ⟨none, reached, by rw [decryptFile, skipped]⟩
  · obtain ⟨ciphertext, held, opened⟩ := opens.opened
    obtain ⟨dir, name, rfl, isTwin, valid⟩ := eq_twin_of_plaintextRel opens.named
    have placeable := (stands.room_iff (stands.rootDir collected within) (opens.legal rfl)).mp room
    rw [← stands.blob collected within member, isTwin] at held
    obtain ⟨after, _, ran⟩ := decryptFile_of_placeable held opened valid placeable
    exact ⟨_, after, isTwin ▸ ran⟩

theorem Stands.decryptFile (stands : Stands tree reached root (placings crypto key tree root front))
    (collected : collectFiles tree (shadowRoot root) = .ok blobs) (within : front <+: blobs)
    (member : shadowRel ∈ blobs) {outcome : Option Path} {after : FileTree}
    (ran : decryptFile crypto reached root key shadowRel = (.ok outcome, after)) :
    GoesThrough crypto key tree root front shadowRel ∧
      Stands tree after root (placings crypto key tree root (front ++ [shadowRel])) := by
  rcases decryptFile_ok ran with ⟨_, skipped, rfl⟩ | ⟨dir, name, _, named, decrypted⟩
  · refine ⟨.inl skipped, ?_⟩
    rwa [placings_concat, placings_skipped skipped, List.append_nil]
  · obtain ⟨ciphertext, content, held, opened, placed⟩ := decrypted.placed
    rw [stands.blob collected within member] at held
    have opens : Opens crypto key tree root shadowRel (.file (dir ++ [name])) content :=
      ⟨named, ciphertext, held, opened⟩
    have room := (stands.room_iff (stands.rootDir collected within) (opens.legal rfl)).mpr
      (placeFile_ok_iff.mp ⟨after, placed⟩)
    refine ⟨.inr ⟨_, content, opens, room⟩, ?_⟩
    intro path
    rw [placings_concat, placings_opens opens, standing_concat, look_placeFile_below placed,
      List.dropLast_concat, stands]

/-- How far a placing comes that writes its temporary file, if that, and renames nothing. -/
def TmpWritten (reached after : FileTree) (root dir : Path) (name : Name) (content : Bytes) : Prop :=
  (∃ error, reached.createDirAll (root ++ dir) = .error error ∧ after = reached) ∨
    ∃ made, reached.createDirAll (root ++ dir) = .ok made ∧
      ((∃ error, made.write (root ++ dir ++ [name ++ tmpSuffix]) content = .error error ∧
          after = made) ∨
        made.write (root ++ dir ++ [name ++ tmpSuffix]) content = .ok after)

theorem tmpWritten_placeFile {failure : SyncFailure} {after : FileTree}
    (ran : placeFile reached root (dir ++ [name]) content = (.error failure, after)) :
    TmpWritten reached after root dir name content := by
  unfold placeFile at ran
  dsimp only at ran
  rw [← List.append_assoc, List.dropLast_concat, withSuffix_append] at ran
  split at ran
  · next error refused =>
      cases ran
      exact .inl ⟨error, refused, rfl⟩
  next made created =>
    refine .inr ⟨made, created, ?_⟩
    split at ran
    · next error refused =>
        cases ran
        exact .inl ⟨error, refused, rfl⟩
    next written wrote =>
      split at ran
      · cases ran
        exact .inr wrote
      · cases ran

theorem tmpWritten_placeHere (ending : Ending) :
    TmpWritten reached (placeHere reached root (dir ++ [name]) ending content).2 root dir name
      content := by
  unfold placeHere
  dsimp only
  rw [← List.append_assoc, List.dropLast_concat, withSuffix_append]
  split
  · next error refused => exact .inl ⟨error, refused, rfl⟩
  next made created =>
    refine .inr ⟨made, created, ?_⟩
    rw [if_neg (by simp)]
    split
    · next error refused => exact .inl ⟨error, refused, rfl⟩
    · next written wrote => exact .inr wrote

/-- The temporary file is there if there is room for it, and the other files are as they were. -/
theorem TmpWritten.files {after : FileTree} (tmp : TmpWritten reached after root dir name content)
    (stands : Stands tree reached root placed) (rootDir : reached.look root = some .directory)
    (legal : (dir ++ [name]).all legalName = true) (rel : Path) (held : Bytes) :
    after.look (root ++ rel) = some (.file held) ↔
      TmpRoom tree root placed (dir ++ [name]) ∧ rel = temporary (dir ++ [name]) ∧ content = held ∨
        ¬ (TmpRoom tree root placed (dir ++ [name]) ∧ rel = temporary (dir ++ [name])) ∧
          reached.look (root ++ rel) = some (.file held) := by
  have room := @Stands.tmpRoom_iff tree reached root content placed dir name stands rootDir legal
  have tmpPath : root ++ dir ++ [name ++ tmpSuffix] = root ++ temporary (dir ++ [name]) := by
    rw [temporary, withSuffix_append, List.append_assoc]
  rcases tmp with ⟨error, refused, rfl⟩ | ⟨made, created, ⟨error, refused, rfl⟩ | wrote⟩
  · have none : ¬ TmpRoom tree root placed (dir ++ [name]) := by
      rw [room]
      rintro ⟨made, _, created, _⟩
      cases refused.symm.trans created
    simp [none]
  · have none : ¬ TmpRoom tree root placed (dir ++ [name]) := by
      rw [room]
      rintro ⟨again, written, createdAgain, wrote⟩
      cases created.symm.trans createdAgain
      cases refused.symm.trans wrote
    simp [none, FileTree.file_createDirAll created]
  · have fits := room.mpr ⟨made, after, created, wrote⟩
    rw [FileTree.look_write wrote, tmpPath]
    by_cases here : rel = temporary (dir ++ [name])
    · simp [fits, here]
    · rw [if_neg fun same => here (List.append_cancel_left same), FileTree.file_createDirAll created]
      simp [here]

theorem file_placeUp_iff {held : Bytes} :
    (placeUp reached root dir).2.look path = some (.file held) ↔
      reached.look path = some (.file held) := by
  unfold placeUp
  dsimp only
  split
  · rfl
  · next made created => exact FileTree.file_createDirAll created path

/-- A file that is written beside the root is none of the root's. -/
theorem file_placeHere_root (ending : Ending) (nonempty : rel ≠ []) {held : Bytes} :
    (placeHere reached root [] ending content).2.look (root ++ rel) = some (.file held) ↔
      reached.look (root ++ rel) = some (.file held) := by
  unfold placeHere
  dsimp only
  split
  · rfl
  next made created =>
    have kept := @FileTree.file_createDirAll _ _ _ held created (root ++ rel)
    split
    · exact kept
    split
    · exact kept
    next written wrote =>
      rw [FileTree.look_write wrote, if_neg, kept]
      intro same
      have longer := congrArg List.length same
      rw [length_withSuffix, List.append_nil, List.length_append] at longer
      have positive := List.length_pos_iff.mpr nonempty
      omega

theorem leftOver_iff (opens : Opens crypto key tree root shadowRel target content)
    (rest : List Path) (rel : Path) (left : Bytes) :
    LeftOver crypto key tree root front (shadowRel :: rest) rel left ↔
      ∃ named, target.components = some named ∧ named ≠ [] ∧
        TmpRoom tree root (placings crypto key tree root front) named ∧ rel = temporary named ∧
        content = left := by
  constructor
  · rintro ⟨_, _, other, named, same, otherOpens, components, nonempty, room, here⟩
    cases same
    obtain ⟨rfl, rfl⟩ := opens.unique otherOpens
    exact ⟨named, components, nonempty, room, here, rfl⟩
  · rintro ⟨named, components, nonempty, room, here, same⟩
    exact ⟨_, _, target, named, rfl, same ▸ opens, components, nonempty, room, here⟩

theorem LeftOver.unique {left other : Bytes}
    (remains : LeftOver crypto key tree root front back rel left)
    (again : LeftOver crypto key tree root front back rel other) : left = other := by
  obtain ⟨_, _, _, _, split, opens, _⟩ := remains
  obtain ⟨_, _, _, _, splitAgain, opensAgain, _⟩ := again
  cases split.symm.trans splitAgain
  exact (opens.unique opensAgain).2

theorem not_leftOver (sealed : ∀ target content, ¬ Opens crypto key tree root shadowRel target content)
    (rest : List Path) (rel : Path) (left : Bytes) :
    ¬ LeftOver crypto key tree root front (shadowRel :: rest) rel left := by
  rintro ⟨_, _, target, named, same, opens, _⟩
  cases same
  exact sealed target left opens

/-- Placing what the pass stops at leaves its temporary file, if there is room for that. -/
theorem Stands.place_stopped
    (stands : Stands tree reached root (placings crypto key tree root front))
    (rootDir : reached.look root = some .directory)
    (opens : Opens crypto key tree root shadowRel target content) {failure : SyncFailure}
    {after : FileTree} (ran : place reached root target content = (.error failure, after))
    (rest : List Path) (nonempty : rel ≠ []) (held : Bytes) :
    after.look (root ++ rel) = some (.file held) ↔
      LeftOver crypto key tree root front (shadowRel :: rest) rel held ∨
        (∀ left, ¬ LeftOver crypto key tree root front (shadowRel :: rest) rel left) ∧
          reached.look (root ++ rel) = some (.file held) := by
  simp only [leftOver_iff opens]
  have written {named : Path} (some_ : named ≠ []) (components : target.components = some named)
      (tmp : ∀ dir name, named = dir ++ [name] → TmpWritten reached after root dir name content) :
      after.look (root ++ rel) = some (.file held) ↔
        TmpRoom tree root (placings crypto key tree root front) named ∧ rel = temporary named ∧
            content = held ∨
          ¬ (TmpRoom tree root (placings crypto key tree root front) named ∧ rel = temporary named) ∧
            reached.look (root ++ rel) = some (.file held) := by
    have legal := opens.legal components
    have split := (List.dropLast_append_getLast some_).symm
    rw [split] at legal ⊢
    exact (tmp _ _ split).files stands rootDir legal rel held
  cases target with
  | file file =>
      obtain ⟨dir, name, rfl, _⟩ := eq_twin_of_plaintextRel opens.named
      rw [written (by simp) rfl fun _ _ same => ?_]
      · simp [PlaintextRel.components]
      · rw [place, same] at ran
        exact tmpWritten_placeFile ran
  | here dir ending =>
      rw [place] at ran
      by_cases whole : dir = []
      · have kept := @file_placeHere_root reached root rel content ending nonempty held
        rw [whole] at ran
        rw [ran] at kept
        simp [kept, PlaintextRel.components, whole]
      · rw [written whole rfl fun above name same => ?_]
        · simp [PlaintextRel.components, whole]
        · have tmp := @tmpWritten_placeHere reached root content above name ending
          rw [← same, ran] at tmp
          exact tmp
  | up dir =>
      have kept := @file_placeUp_iff reached root (root ++ rel) dir held
      rw [place] at ran
      rw [ran] at kept
      simp [kept, PlaintextRel.components]

/-- What the blob that the pass stops at does to the files below the root. -/
theorem Stands.stopped (stands : Stands tree reached root (placings crypto key tree root front))
    (collected : collectFiles tree (shadowRoot root) = .ok blobs) (within : front <+: blobs)
    (member : shadowRel ∈ blobs) (stops : ¬ GoesThrough crypto key tree root front shadowRel)
    (rest : List Path) : ∃ failure after,
      Daemon.decryptFile crypto reached root key shadowRel = (.error failure, after) ∧
      ∀ rel, rel ≠ [] → ∀ held, after.look (root ++ rel) = some (.file held) ↔
        LeftOver crypto key tree root front (shadowRel :: rest) rel held ∨
          (∀ left, ¬ LeftOver crypto key tree root front (shadowRel :: rest) rel left) ∧
            reached.look (root ++ rel) = some (.file held) := by
  have failed : ∃ failure after,
      Daemon.decryptFile crypto reached root key shadowRel = (.error failure, after) := by
    cases ran : Daemon.decryptFile crypto reached root key shadowRel with
    | mk outcome after =>
        cases outcome with
        | error failure => exact ⟨failure, after, rfl⟩
        | ok outcome => exact absurd (stands.decryptFile collected within member ran).1 stops
  obtain ⟨failure, after, ran⟩ := failed
  refine ⟨failure, after, ran, fun rel nonempty held => ?_⟩
  have blob := stands.blob collected within member
  unfold Daemon.decryptFile at ran
  split at ran
  · cases ran
  next target named =>
    dsimp only at ran
    split at ran
    · next unread =>
        obtain ⟨ciphertext, found⟩ :=
          FileTree.isFile_iff.mp (blob_of_collected collected member).2.2
        rw [FileTree.read_ok_iff.mpr (blob.trans found)] at unread
        cases unread
    next ciphertext read =>
      have found := blob.symm.trans (FileTree.read_ok_iff.mp read)
      split at ran
      · next wrong =>
          cases ran
          have sealed : ∀ target content, ¬ Opens crypto key tree root shadowRel target content := by
            intro _ content opens
            obtain ⟨_, again, opened⟩ := opens.opened
            cases found.symm.trans again
            cases wrong.symm.trans opened
          simp [not_leftOver sealed]
      next content opened =>
        split at ran
        · next placed =>
            cases ran
            exact stands.place_stopped (stands.rootDir collected within)
              ⟨named, ciphertext, found, opened⟩ placed rest nonempty held
        · cases ran

end Steps

end Peerdup.Daemon
