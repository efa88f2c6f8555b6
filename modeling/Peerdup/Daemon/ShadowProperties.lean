import Peerdup.Daemon.ContentProperties
import Peerdup.Daemon.Shadow

/-!
# What one decryption pass does to the disk

When a file can be placed beside its temporary twin, where it then lies, and what a pass
over a listing of ciphertext files leaves as it was.
-/

set_option autoImplicit false

namespace Peerdup.Daemon

open Foundation Crypto

@[simp] theorem withSuffix_append (dir : Path) (name suffix : Name) :
    withSuffix (dir ++ [name]) suffix = dir ++ [name ++ suffix] := by
  simp [withSuffix]

theorem withSuffix_below (root : Path) {rel : Path} (nonempty : rel ≠ []) (suffix : Name) :
    withSuffix (root ++ rel) suffix = root ++ withSuffix rel suffix := by
  rw [← List.dropLast_append_getLast nonempty, ← List.append_assoc, withSuffix_append,
    withSuffix_append, List.append_assoc]

/-- Where a version keeps the ciphertext of a file, below the shadow. -/
def twin (rel : Path) : Path := withSuffix rel binSuffix

/-- Where a file is written before it is renamed. -/
def temporary (rel : Path) : Path := withSuffix rel tmpSuffix

theorem withSuffix_injective {left right : Path} {suffix : Name} (leftNonempty : left ≠ [])
    (rightNonempty : right ≠ []) (same : withSuffix left suffix = withSuffix right suffix) :
    left = right := by
  rw [← List.dropLast_append_getLast leftNonempty, ← List.dropLast_append_getLast rightNonempty] at same ⊢
  rw [withSuffix_append, withSuffix_append] at same
  obtain ⟨dirs, names⟩ := List.append_inj' same rfl
  rw [dirs, List.append_cancel_right (List.cons.inj names).1]

theorem length_withSuffix (path : Path) (suffix : Name) :
    (withSuffix path suffix).length = path.length := by
  by_cases empty : path = []
  · rw [empty]
    rfl
  · rw [← List.dropLast_append_getLast empty, withSuffix_append]
    simp

theorem temporary_ne {rel : Path} (nonempty : rel ≠ []) : temporary rel ≠ rel := by
  rw [temporary, ← List.dropLast_append_getLast nonempty, withSuffix_append]
  intro same
  have names := (List.cons.inj (List.append_cancel_left same)).1
  exact absurd (List.append_right_eq_self.mp names) (by decide)

theorem validUtf8_binSuffix (name : Name) : validUtf8 (name ++ binSuffix) = validUtf8 name :=
  validUtf8_append (by decide +kernel) name

theorem validUtf8_tmpSuffix (name : Name) : validUtf8 (name ++ tmpSuffix) = validUtf8 name :=
  validUtf8_append (by decide +kernel) name

theorem plaintextRel_twin {dir : Path} {name : Name} (legal : legalName name = true) :
    plaintextRelFromShadowRel (twin (dir ++ [name])) =
      if validUtf8 name = true then some (.file (dir ++ [name])) else none := by
  obtain ⟨nonempty, dot, dots, _, _⟩ := (legalName_iff name).mp legal
  have suffixed : binSuffix.isSuffixOf (name ++ binSuffix) = true := by
    rw [List.isSuffixOf_iff_suffix]
    exact List.suffix_append _ _
  have stripped : (name ++ binSuffix).take ((name ++ binSuffix).length - binSuffix.length) = name := by
    rw [List.length_append, Nat.add_sub_cancel, List.take_left]
  rw [twin, withSuffix_append, plaintextRelFromShadowRel, List.getLast?_concat]
  dsimp only
  rw [validUtf8_binSuffix, suffixed, stripped, List.dropLast_concat]
  cases validUtf8 name with
  | false => rfl
  | true => simp [nonempty, dot, dots]

variable {tree after : FileTree} {root dir rel : Path} {name : Name} {content : Bytes}

/-- No name ends in `.peerdup-tmp` and is that of the daemon's directory. -/
theorem not_mem_temporary_child (outside : peerdupDirName ∉ dir) :
    peerdupDirName ∉ temporary (dir ++ [name]) := by
  rw [temporary, withSuffix_append, List.mem_append, not_or, List.mem_singleton]
  refine ⟨outside, ?_⟩
  intro same
  have length := congrArg List.length same
  rw [List.length_append] at length
  exact absurd (length.symm ▸ Nat.le_add_left _ _ : tmpSuffix.length ≤ peerdupDirName.length) (by decide)

theorem not_mem_temporary (outside : peerdupDirName ∉ rel) : peerdupDirName ∉ temporary rel := by
  by_cases empty : rel = []
  · rwa [empty] at outside ⊢
  rw [← List.dropLast_append_getLast empty] at outside ⊢
  exact not_mem_temporary_child fun inside => outside (List.mem_append_left _ inside)

theorem twin_ne_nil (nonempty : rel ≠ []) : twin rel ≠ [] := by
  intro empty
  have length := length_withSuffix rel binSuffix
  rw [← twin, empty, List.length_nil] at length
  exact nonempty (List.length_eq_zero_iff.mp length.symm)

theorem dropLast_twin (rel : Path) : (twin rel).dropLast = rel.dropLast := by
  by_cases empty : rel = []
  · rw [empty]
    rfl
  · rw [← List.dropLast_append_getLast empty, twin, withSuffix_append, List.dropLast_concat,
      List.dropLast_concat]

/-- With the suffix, the file's name is not too long. -/
def NameFits (suffix : Name) (rel : Path) : Prop := (rel.getLastD [] ++ suffix).length ≤ nameMax

instance (suffix : Name) (rel : Path) : Decidable (NameFits suffix rel) :=
  inferInstanceAs (Decidable ((rel.getLastD [] ++ suffix).length ≤ nameMax))

@[simp] theorem nameFits_append (suffix : Name) (dir : Path) (name : Name) :
    NameFits suffix (dir ++ [name]) ↔ (name ++ suffix).length ≤ nameMax := by
  simp [NameFits]

/-- A name with room for `.peerdup-tmp` has room for `.bin`. -/
theorem NameFits.bin (short : NameFits tmpSuffix rel) : NameFits binSuffix rel := by
  have shorter : binSuffix.length ≤ tmpSuffix.length := by decide
  unfold NameFits at short ⊢
  rw [List.length_append] at short ⊢
  omega

/-- A path is legal only where its last name is not too long. -/
theorem nameFits_of_legal {suffix : Name} (nonempty : rel ≠ [])
    (legal : (withSuffix rel suffix).all legalName = true) : NameFits suffix rel := by
  rw [← List.dropLast_append_getLast nonempty] at legal ⊢
  rw [withSuffix_append, List.all_append, Bool.and_eq_true] at legal
  have named : legalName (rel.getLast nonempty ++ suffix) = true := by simpa using legal.2
  exact (nameFits_append _ _ _).mpr ((legalName_iff _).mp named).2.2.2.2.2

theorem legal_twin (nonempty : rel ≠ []) (legal : rel.all legalName = true)
    (short : NameFits binSuffix rel) : (twin rel).all legalName = true := by
  rw [← List.dropLast_append_getLast nonempty] at legal short ⊢
  rw [List.all_append, Bool.and_eq_true] at legal
  have named : legalName (rel.getLast nonempty) = true := by simpa using legal.2
  have suffixed := legalName_append named (by decide : 1 < binSuffix.length) (by decide) (by decide)
    ((nameFits_append _ _ _).mp short)
  rw [twin, withSuffix_append, List.all_append, legal.1]
  simpa using suffixed

/-- No name ends in `.bin` and is that of the daemon's directory. -/
theorem not_mem_twin (outside : peerdupDirName ∉ rel) : peerdupDirName ∉ twin rel := by
  by_cases empty : rel = []
  · rwa [empty] at outside ⊢
  rw [← List.dropLast_append_getLast empty] at outside ⊢
  rw [twin, withSuffix_append, List.mem_append, not_or, List.mem_singleton]
  refine ⟨fun inside => outside (List.mem_append_left _ inside), ?_⟩
  intro same
  have suffix : binSuffix <:+ peerdupDirName := same ▸ List.suffix_append _ _
  exact absurd suffix (by decide)

/-- What has to hold of the disk for a file to be written beside its target and renamed. -/
structure Placeable (tree : FileTree) (root dir : Path) (name : Name) : Prop where
  clear : tree.Clear [] (root ++ dir)
  legal : (root ++ dir ++ [name]).all legalName = true
  short : NameFits tmpSuffix (dir ++ [name])
  tmpFree : tree.look (root ++ dir ++ [name ++ tmpSuffix]) ≠ some .directory
  targetFree : tree.look (root ++ dir ++ [name]) ≠ some .directory

private theorem not_child_prefix (base : Path) (name : Name) : ¬ base ++ [name] <+: base := by
  intro above
  have shorter := above.length_le
  rw [List.length_append, List.length_singleton] at shorter
  omega

theorem tmp_ne_target (base : Path) (name : Name) :
    base ++ [name ++ tmpSuffix] ≠ base ++ [name] := by
  have nonempty : base ++ [name] ≠ [] := by simp
  have apart := temporary_ne nonempty
  rwa [temporary, withSuffix_append] at apart

theorem placeFile_steps (placed : placeFile tree root (dir ++ [name]) content = (.ok rel, after)) :
    ∃ made written, tree.createDirAll (root ++ dir) = .ok made ∧
      made.write (root ++ dir ++ [name ++ tmpSuffix]) content = .ok written ∧
      written.rename (root ++ dir ++ [name ++ tmpSuffix]) (root ++ dir ++ [name]) = .ok after ∧
      rel = dir ++ [name] := by
  unfold placeFile at placed
  dsimp only at placed
  rw [← List.append_assoc, List.dropLast_concat, withSuffix_append] at placed
  split at placed
  · cases placed
  next made created =>
    split at placed
    · cases placed
    next written wrote =>
      split at placed
      · cases placed
      next renamed moved =>
        obtain ⟨same, last⟩ := Prod.mk.inj placed
        cases last
        exact ⟨made, written, created, wrote, moved, (Except.ok.inj same).symm⟩

theorem look_placeFile (placed : placeFile tree root (dir ++ [name]) content = (.ok rel, after))
    (other : Path) : after.look other =
      if other = root ++ dir ++ [name ++ tmpSuffix] then none
      else if other = root ++ dir ++ [name] then some (.file content)
      else if other <+: root ++ dir then some .directory
      else tree.look other := by
  obtain ⟨made, written, created, wrote, moved, _⟩ := placeFile_steps placed
  have held : written.look (root ++ dir ++ [name ++ tmpSuffix]) = some (.file content) := by
    rw [FileTree.look_write wrote, if_pos rfl]
  rw [FileTree.look_rename (tmp_ne_target _ _) held moved, FileTree.look_write wrote,
    FileTree.look_createDirAll created]
  by_cases tmp : other = root ++ dir ++ [name ++ tmpSuffix]
  · rw [if_pos tmp, if_pos tmp]
  · rw [if_neg tmp, if_neg tmp, if_neg tmp]

theorem look_placeFile_below
    (placed : placeFile tree root (dir ++ [name]) content = (.ok rel, after)) (other : Path) :
    after.look (root ++ other) =
      if other = temporary (dir ++ [name]) then none
      else if other = dir ++ [name] then some (.file content)
      else if other <+: dir then some .directory
      else tree.look (root ++ other) := by
  rw [look_placeFile placed, temporary, withSuffix_append]
  simp only [List.append_assoc, List.append_cancel_left_eq, List.prefix_append_right_inj]

theorem placeFile_ok_iff : (∃ after, placeFile tree root (dir ++ [name]) content =
    (.ok (dir ++ [name]), after)) ↔ Placeable tree root dir name := by
  have above : ∀ last, ¬ root ++ dir ++ [last] <+: root ++ dir := not_child_prefix (root ++ dir)
  have parent : ∀ {made}, tree.createDirAll (root ++ dir) = .ok made →
      ∀ last, made.look (root ++ dir ++ [last]).dropLast = some .directory := by
    intro made created last
    rw [List.dropLast_concat, FileTree.look_createDirAll created, if_pos (List.prefix_refl _)]
  constructor
  · intro ⟨after, placed⟩
    obtain ⟨made, written, created, wrote, moved, _⟩ := placeFile_steps placed
    have tmpOk := FileTree.write_ok_iff.mp ⟨written, wrote⟩
    have held : written.look (root ++ dir ++ [name ++ tmpSuffix]) = some (.file content) := by
      rw [FileTree.look_write wrote, if_pos rfl]
    have targetOk := (FileTree.rename_ok_iff (tmp_ne_target _ _) held).mp ⟨after, moved⟩
    rw [FileTree.look_write wrote, if_neg (tmp_ne_target _ _).symm,
      FileTree.look_createDirAll created, if_neg (above _)] at targetOk
    rw [FileTree.look_createDirAll created, if_neg (above _)] at tmpOk
    have short : NameFits tmpSuffix (dir ++ [name]) := by
      have tmpLegal := tmpOk.2.2
      rw [List.append_assoc, List.all_append, Bool.and_eq_true, ← withSuffix_append] at tmpLegal
      exact nameFits_of_legal (by simp) tmpLegal.2
    exact ⟨(FileTree.createDirAll_ok_iff.mp ⟨made, created⟩).1, targetOk.2.2, short, tmpOk.1,
      targetOk.1⟩
  · intro placeable
    have legal := placeable.legal
    rw [List.all_append, Bool.and_eq_true] at legal
    have named : legalName name = true := by simpa using legal.2
    have tmpLegal : (root ++ dir ++ [name ++ tmpSuffix]).all legalName = true := by
      rw [List.all_append, legal.1]
      have suffixed := legalName_append named (by decide : 1 < tmpSuffix.length) (by decide)
        (by decide) ((nameFits_append _ _ _).mp placeable.short)
      simpa using suffixed
    obtain ⟨made, created⟩ := FileTree.createDirAll_ok_iff.mpr ⟨placeable.clear, legal.1⟩
    have tmpFree : made.look (root ++ dir ++ [name ++ tmpSuffix]) ≠ some .directory := by
      rw [FileTree.look_createDirAll created, if_neg (above _)]
      exact placeable.tmpFree
    obtain ⟨written, wrote⟩ : ∃ written,
        made.write (root ++ dir ++ [name ++ tmpSuffix]) content = .ok written :=
      FileTree.write_ok_iff.mpr ⟨tmpFree, parent created _, tmpLegal⟩
    have held : written.look (root ++ dir ++ [name ++ tmpSuffix]) = some (.file content) := by
      rw [FileTree.look_write wrote, if_pos rfl]
    have targetFree : written.look (root ++ dir ++ [name]) ≠ some .directory := by
      rw [FileTree.look_write wrote, if_neg (tmp_ne_target _ _).symm,
        FileTree.look_createDirAll created, if_neg (above _)]
      exact placeable.targetFree
    have directory : written.look (root ++ dir ++ [name]).dropLast = some .directory := by
      rw [FileTree.look_write wrote, if_neg, parent created]
      intro same
      rw [List.dropLast_concat] at same
      exact above (name ++ tmpSuffix) (same ▸ List.prefix_refl _)
    obtain ⟨after, moved⟩ := (FileTree.rename_ok_iff (tmp_ne_target _ _) held).mpr
      ⟨targetFree, directory, placeable.legal⟩
    refine ⟨after, ?_⟩
    unfold placeFile
    dsimp only
    rw [← List.append_assoc, List.dropLast_concat, withSuffix_append, created]
    dsimp only
    rw [wrote]
    dsimp only
    rw [moved]

theorem eq_twin_of_plaintextRel {shadowRel : Path}
    (named : plaintextRelFromShadowRel shadowRel = some (.file rel)) :
    ∃ dir name, rel = dir ++ [name] ∧ shadowRel = twin rel ∧ validUtf8 name = true := by
  unfold plaintextRelFromShadowRel at named
  split at named
  · cases named
  next last isLast =>
    split at named
    · cases named
    next accepted =>
      obtain ⟨valid, suffixed⟩ : validUtf8 last = true ∧ binSuffix.isSuffixOf last = true := by
        simpa using accepted
      obtain ⟨stripped, whole⟩ := List.isSuffixOf_iff_suffix.mp suffixed
      subst whole
      dsimp only at named
      rw [List.length_append, Nat.add_sub_cancel, List.take_left] at named
      split at named
      · cases named
      split at named
      · cases named
      split at named
      · cases named
      cases named
      refine ⟨shadowRel.dropLast, stripped, rfl, ?_, by rwa [validUtf8_binSuffix] at valid⟩
      have rebuilt : shadowRel = shadowRel.dropLast ++ [stripped ++ binSuffix] :=
        (List.dropLast_append_getLast? _ isLast).symm
      rw [twin, withSuffix_append]
      exact rebuilt

/-- A name that is recovered from a ciphertext file on disk is a legal one. -/
theorem legal_of_plaintextRel {base shadowRel : Path} {node : Node}
    (found : tree.look (base ++ shadowRel) = some node)
    (named : plaintextRelFromShadowRel shadowRel = some (.file rel)) :
    ∃ dir name, rel = dir ++ [name] ∧ legalName name = true := by
  obtain ⟨dir, name, same, isTwin, _⟩ := eq_twin_of_plaintextRel named
  refine ⟨dir, name, same, ?_⟩
  rw [same, twin, withSuffix_append] at isTwin
  rw [isTwin, ← List.append_assoc] at found
  have legal := FileTree.look_legal found
  rw [List.all_append, Bool.and_eq_true] at legal
  obtain ⟨_, _, _, slash, null, short⟩ := (legalName_iff (name ++ binSuffix)).mp (by simpa using legal.2)
  rw [List.mem_append, not_or] at slash null
  rw [List.length_append] at short
  rw [isTwin, plaintextRelFromShadowRel, List.getLast?_concat] at named
  dsimp only at named
  rw [List.length_append, Nat.add_sub_cancel, List.take_left, List.dropLast_concat] at named
  split at named
  · cases named
  split at named
  · cases named
  next nonempty =>
    split at named
    · cases named
    next dot =>
      split at named
      · cases named
      next up =>
        exact (legalName_iff name).mpr ⟨nonempty, dot, up, slash.1, null.1, by omega⟩

theorem place_ok {target : PlaintextRel}
    (placed : place tree root target content = (.ok rel, after)) :
    ∃ file, target = .file file ∧ placeFile tree root file content = (.ok rel, after) := by
  cases target with
  | file file => exact ⟨file, rfl, placed⟩
  | here dir ending =>
      rw [place, placeHere] at placed
      dsimp only at placed
      split at placed
      · cases placed
      split at placed
      · cases placed
      split at placed
      · cases placed
      · cases placed
  | up dir =>
      rw [place, placeUp] at placed
      split at placed
      · cases placed
      · cases placed

variable {crypto : Primitives} {key : KeyRing} {shadowRel : Path} {listing : List Path}
  {manifest manifestAfter : Manifest}

/-- One file was decrypted and placed. -/
structure Decrypted (crypto : Primitives) (key : KeyRing) (root shadowRel dir : Path) (name : Name)
    (tree after : FileTree) : Prop where
  twin : shadowRel = twin (dir ++ [name])
  valid : validUtf8 name = true
  placed : ∃ ciphertext content, tree.look (shadowRoot root ++ shadowRel) = some (.file ciphertext) ∧
    decrypt crypto key ciphertext = .ok content ∧
    placeFile tree root (dir ++ [name]) content = (.ok (dir ++ [name]), after)

theorem decryptFile_ok {outcome : Option Path}
    (ran : decryptFile crypto tree root key shadowRel = (.ok outcome, after)) :
    (outcome = none ∧ plaintextRelFromShadowRel shadowRel = none ∧ after = tree) ∨
      ∃ dir name, outcome = some (dir ++ [name]) ∧
        plaintextRelFromShadowRel shadowRel = some (.file (dir ++ [name])) ∧
        Decrypted crypto key root shadowRel dir name tree after := by
  unfold decryptFile at ran
  split at ran
  · next skipped =>
      cases ran
      exact .inl ⟨rfl, skipped, rfl⟩
  next named =>
    dsimp only at ran
    split at ran
    · cases ran
    next ciphertext read =>
      split at ran
      · cases ran
      next content opened =>
        split at ran
        · cases ran
        next result placedAt placed =>
          obtain ⟨same, last⟩ := Prod.mk.inj ran
          cases last
          cases same
          obtain ⟨file, rfl, placed⟩ := place_ok placed
          obtain ⟨dir, name, rfl, isTwin, valid⟩ := eq_twin_of_plaintextRel named
          obtain ⟨_, _, _, _, _, rfl⟩ := placeFile_steps placed
          exact .inr ⟨dir, name, rfl, named, isTwin, valid, ciphertext, content,
            FileTree.read_ok_iff.mp read, opened, placed⟩

theorem decryptFile_of_placeable {ciphertext : Bytes}
    (held : tree.look (shadowRoot root ++ twin (dir ++ [name])) = some (.file ciphertext))
    (opened : decrypt crypto key ciphertext = .ok content) (valid : validUtf8 name = true)
    (placeable : Placeable tree root dir name) :
    ∃ after, placeFile tree root (dir ++ [name]) content = (.ok (dir ++ [name]), after) ∧
      decryptFile crypto tree root key (twin (dir ++ [name])) = (.ok (some (dir ++ [name])), after) := by
  obtain ⟨after, placed⟩ := placeFile_ok_iff.mpr placeable
  have legal : legalName name = true := by
    have all := placeable.legal
    rw [List.all_append, Bool.and_eq_true] at all
    simpa using all.2
  refine ⟨after, placed, ?_⟩
  rw [decryptFile, plaintextRel_twin legal, if_pos valid]
  dsimp only
  rw [FileTree.read_ok_iff.mpr held]
  dsimp only
  rw [opened]
  dsimp only
  rw [place, placed]

end Peerdup.Daemon
