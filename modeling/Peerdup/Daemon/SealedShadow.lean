import Peerdup.CryptoProperties
import Peerdup.Daemon.EncryptPass

/-!
# The shadow after an encryption pass

Which directories and files a pass over a manifest leaves in the shadow, when it goes
through, and which files the removal of orphans leaves.
-/

set_option autoImplicit false

namespace Peerdup.Daemon

open Foundation Crypto

section Paths

variable {rel : Path}

theorem dropLast_shadowFileFor (root : Path) (nonempty : rel ≠ []) :
    (shadowFileFor root rel).dropLast = shadowRoot root ++ rel.dropLast := by
  rw [shadowFileFor_eq root nonempty, List.dropLast_append_of_ne_nil (twin_ne_nil nonempty),
    dropLast_twin]

end Paths

variable {crypto : Primitives} {tree before between after : FileTree} {root rel path : Path}
  {key : KeyRing} {nonce : Nonce} {nonces : Nat → Nonce} {rels manifest : List Path}
  {content : Bytes}

/-- What encrypting some files may change, whether it succeeds or fails: the content of their
twins, and new directories above these. -/
structure Encrypts (root : Path) (rels : List Path) (before after : FileTree) : Prop where
  contents : ∀ path content, (∀ rel ∈ rels, path ≠ shadowFileFor root rel) →
    (after.look path = some (.file content) ↔ before.look path = some (.file content))
  files : ∀ path, before.isFile path = true → after.isFile path = true
  directories : ∀ path, before.look path = some .directory → after.look path = some .directory
  newDirectories : ∀ path, after.look path = some .directory →
    before.look path = some .directory ∨ ∃ rel ∈ rels, path <+: (shadowFileFor root rel).dropLast

theorem Encrypts.refl (root : Path) (rels : List Path) (tree : FileTree) :
    Encrypts root rels tree tree where
  contents _ _ _ := Iff.rfl
  files _ file := file
  directories _ found := found
  newDirectories _ found := .inl found

theorem Encrypts.trans (first : Encrypts root rels before between)
    (second : Encrypts root rels between after) : Encrypts root rels before after where
  contents path content apart :=
    (second.contents path content apart).trans (first.contents path content apart)
  files path file := second.files path (first.files path file)
  directories path found := second.directories path (first.directories path found)
  newDirectories path found := (second.newDirectories path found).elim (first.newDirectories path) .inr

theorem Encrypts.mono {more : List Path} (encrypts : Encrypts root rels before after)
    (within : ∀ rel ∈ rels, rel ∈ more) : Encrypts root more before after where
  contents path content apart :=
    encrypts.contents path content fun rel member => apart rel (within rel member)
  files := encrypts.files
  directories := encrypts.directories
  newDirectories := by
    intro path found
    refine (encrypts.newDirectories path found).imp_right ?_
    intro ⟨rel, member, above⟩
    exact ⟨rel, within rel member, above⟩

theorem Encrypts.file_or (encrypts : Encrypts root rels before after) (file : after.isFile path = true) :
    before.isFile path = true ∨ ∃ rel ∈ rels, path = shadowFileFor root rel := by
  by_cases twinned : ∃ rel ∈ rels, path = shadowFileFor root rel
  · exact .inr twinned
  · obtain ⟨content, found⟩ := FileTree.isFile_iff.mp file
    have apart : ∀ rel ∈ rels, path ≠ shadowFileFor root rel :=
      fun rel member same => twinned ⟨rel, member, same⟩
    exact .inl (FileTree.isFile_iff.mpr ⟨content, (encrypts.contents path content apart).mp found⟩)

theorem encrypts_createDirAll
    (made : tree.createDirAll (shadowFileFor root rel).dropLast = .ok after) :
    Encrypts root [rel] tree after where
  contents path _ _ := FileTree.file_createDirAll made path
  files path file := by
    obtain ⟨content, found⟩ := FileTree.isFile_iff.mp file
    exact FileTree.isFile_iff.mpr ⟨content, (FileTree.file_createDirAll made path).mpr found⟩
  directories path found := FileTree.directory_createDirAll made found
  newDirectories path found := by
    rw [FileTree.look_createDirAll made] at found
    split at found
    · next above => exact .inr ⟨rel, List.mem_singleton_self rel, above⟩
    · exact .inl found

theorem encrypts_write (wrote : tree.write (shadowFileFor root rel) content = .ok after) :
    Encrypts root [rel] tree after where
  contents path held apart := by
    rw [FileTree.look_write wrote, if_neg (apart rel (List.mem_singleton_self rel))]
  files path file := by
    rw [FileTree.isFile, FileTree.look_write wrote]
    by_cases here : path = shadowFileFor root rel
    · rw [if_pos here]
    · rw [if_neg here]
      exact file
  directories path found := FileTree.directory_write wrote found
  newDirectories path found := by
    rw [FileTree.look_write wrote] at found
    split at found
    · cases found
    · exact .inl found

theorem encrypts_encryptFile (crypto : Primitives) (tree : FileTree) (root : Path) (key : KeyRing)
    (nonce : Nonce) (rel : Path) :
    Encrypts root [rel] tree (encryptFile crypto tree root key nonce rel).2 := by
  unfold encryptFile
  dsimp only
  split
  · exact Encrypts.refl root [rel] tree
  next made created =>
    have directories := encrypts_createDirAll created
    split
    · exact directories
    split
    · exact directories
    split
    · exact directories
    · next wrote => exact directories.trans (encrypts_write wrote)

theorem encrypts_encryptFiles (crypto : Primitives) (root : Path) (key : KeyRing)
    (nonces : Nat → Nonce) (manifest : Manifest) (tree : FileTree) :
    Encrypts root manifest tree (encryptFiles crypto root key nonces manifest tree).2 := by
  induction manifest generalizing nonces tree with
  | nil => exact Encrypts.refl root [] tree
  | cons rel manifest ih =>
      have first := encrypts_encryptFile crypto tree root key (nonces 0) rel
      have here : ∀ other ∈ [rel], other ∈ rel :: manifest :=
        fun other member => List.mem_singleton.mp member ▸ List.mem_cons_self
      rw [encryptFiles]
      split
      · next outcome =>
          rw [outcome] at first
          exact first.mono here
      · next outcome =>
          rw [outcome] at first
          exact (first.mono here).trans ((ih _ _).mono fun _ member => List.mem_cons_of_mem _ member)

theorem encryptFile_steps
    (ran : encryptFile crypto tree root key nonce rel = (.ok (), after)) :
    ∃ made content ciphertext,
      tree.createDirAll (shadowFileFor root rel).dropLast = .ok made ∧
      made.read (root ++ rel) = .ok content ∧ encrypt crypto key nonce content = .ok ciphertext ∧
      made.write (shadowFileFor root rel) ciphertext = .ok after := by
  unfold encryptFile at ran
  dsimp only at ran
  split at ran
  · cases ran
  next made created =>
    split at ran
    · cases ran
    next content read =>
      split at ran
      · cases ran
      next ciphertext sealing =>
        split at ran
        · cases ran
        next wrote =>
          cases ran
          exact ⟨made, content, ciphertext, created, read, sealing, wrote⟩

theorem encryptFiles_cons
    (ran : encryptFiles crypto root key nonces (rel :: manifest) tree = (.ok (), after)) :
    ∃ between, encryptFile crypto tree root key (nonces 0) rel = (.ok (), between) ∧
      encryptFiles crypto root key (fun index => nonces (index + 1)) manifest between =
        (.ok (), after) := by
  rw [encryptFiles] at ran
  split at ran
  · cases ran
  · next between outcome => exact ⟨between, outcome, ran⟩

theorem encryptFiles_mem
    (ran : encryptFiles crypto root key nonces manifest tree = (.ok (), after))
    (member : rel ∈ manifest) :
    ∃ nonce reached next, encryptFile crypto reached root key nonce rel = (.ok (), next) ∧
      Encrypts root manifest tree reached ∧ Encrypts root manifest next after := by
  induction manifest generalizing nonces tree with
  | nil => cases member
  | cons head manifest ih =>
      obtain ⟨between, first, rest⟩ := encryptFiles_cons ran
      have later : ∀ other ∈ manifest, other ∈ head :: manifest :=
        fun _ listed => List.mem_cons_of_mem _ listed
      rcases List.mem_cons.mp member with same | listed
      · have onward := encrypts_encryptFiles crypto root key (fun index => nonces (index + 1))
          manifest between
        rw [rest] at onward
        subst same
        exact ⟨nonces 0, tree, between, first, Encrypts.refl root _ tree, onward.mono later⟩
      · obtain ⟨nonce, reached, next, here, front, back⟩ := ih rest listed
        have step := encrypts_encryptFile crypto tree root key (nonces 0) head
        rw [first] at step
        have head_ : ∀ other ∈ [head], other ∈ head :: manifest :=
          fun other listed => List.mem_singleton.mp listed ▸ List.mem_cons_self
        exact ⟨nonce, reached, next, here, (step.mono head_).trans (front.mono later), back.mono later⟩

/-- What has to hold of the shadow for the twins of a manifest to be written. -/
structure Sealable (tree : FileTree) (root : Path) (manifest : List Path) : Prop where
  clear : ∀ rel ∈ manifest, ∀ above, above <+: rel.dropLast →
    tree.isFile (shadowRoot root ++ above) = false
  free : ∀ rel ∈ manifest, tree.look (shadowRoot root ++ twin rel) ≠ some .directory
  apart : ∀ first ∈ manifest, ∀ second ∈ manifest, ¬ twin first <+: second.dropLast
  short : ∀ rel ∈ manifest, NameFits binSuffix rel

/-- The files of a manifest can be read and are not too long for the cipher. -/
structure Encryptable (crypto : Primitives) (key : KeyRing) (root : Path) (manifest : List Path)
    (tree : FileTree) : Prop where
  files : ∀ rel ∈ manifest, ∃ content, plaintext tree root rel = some content ∧
    ∀ nonce, (crypto.aeadEncrypt key.currentKey nonce content).isSome = true
  legal : ∀ rel ∈ manifest, rel.all legalName = true

theorem Sealable.step (sealable : Sealable tree root manifest) (listed : rel ∈ manifest)
    (nonempty : ∀ rel ∈ manifest, rel ≠ []) (encrypts : Encrypts root [rel] tree after) :
    Sealable after root manifest where
  clear := by
    intro other member above inside
    rw [← Bool.not_eq_true]
    intro file
    rcases encrypts.file_or file with before | ⟨written, single, same⟩
    · rw [sealable.clear other member above inside] at before
      cases before
    · rw [List.mem_singleton.mp single, shadowFileFor_eq root (nonempty rel listed)] at same
      exact sealable.apart rel listed other member (List.append_cancel_left same ▸ inside)
  free := by
    intro other member found
    rcases encrypts.newDirectories _ found with before | ⟨written, single, above⟩
    · exact sealable.free other member before
    · rw [List.mem_singleton.mp single, dropLast_shadowFileFor root (nonempty rel listed),
        List.prefix_append_right_inj] at above
      exact sealable.apart other member rel listed above
  apart := sealable.apart
  short := sealable.short

theorem Encryptable.step (encryptable : Encryptable crypto key root manifest tree)
    (keeps : KeepsFiles root tree after) : Encryptable crypto key root manifest after where
  files := by
    intro rel member
    rw [keeps.plaintext]
    exact encryptable.files rel member
  legal := encryptable.legal

theorem encryptFile_runs (nonce : Nonce) (shadowThere : tree.look (shadowRoot root) = some .directory)
    (sealable : Sealable tree root manifest) (encryptable : Encryptable crypto key root manifest tree)
    (listed : rel ∈ manifest) :
    ∃ after, encryptFile crypto tree root key nonce rel = (.ok (), after) := by
  obtain ⟨content, shown, seals⟩ := encryptable.files rel listed
  obtain ⟨nonempty, _, found⟩ := plaintext_eq_some_iff.mp shown
  have legal := encryptable.legal rel listed
  have shadowLegal := FileTree.look_legal shadowThere
  have dirLegal : rel.dropLast.all legalName = true := by
    rw [List.all_eq_true] at legal ⊢
    exact fun name member => legal name (List.dropLast_subset rel member)
  have clear : tree.Clear [] (shadowRoot root ++ rel.dropLast) :=
    FileTree.clear_of_below shadowThere fun above _ inside => sealable.clear rel listed above inside
  obtain ⟨made, created⟩ : ∃ made, tree.createDirAll (shadowFileFor root rel).dropLast = .ok made := by
    rw [dropLast_shadowFileFor root nonempty]
    refine FileTree.createDirAll_ok_iff.mpr ⟨clear, ?_⟩
    rw [List.all_append, shadowLegal, dirLegal]
    rfl
  have read : made.read (root ++ rel) = .ok content :=
    FileTree.read_ok_iff.mpr ((FileTree.file_createDirAll created _).mpr found)
  obtain ⟨sealed_, sealing⟩ := Option.isSome_iff_exists.mp (seals nonce)
  obtain ⟨after, wrote⟩ : ∃ after, made.write (shadowFileFor root rel)
      (Codec.littleEndian epochLen key.currentEpoch ++ nonce.bytes ++ sealed_) = .ok after := by
    have parent : made.look (shadowFileFor root rel).dropLast = some .directory := by
      rw [FileTree.look_createDirAll created, if_pos (List.prefix_refl _)]
    refine FileTree.write_ok_iff.mpr ⟨?_, parent, ?_⟩
    · intro there
      rcases (encrypts_createDirAll created).newDirectories _ there with before | ⟨other, single, above⟩
      · rw [shadowFileFor_eq root nonempty] at before
        exact sealable.free rel listed before
      · rw [List.mem_singleton.mp single, shadowFileFor_eq root nonempty,
          List.dropLast_append_of_ne_nil (twin_ne_nil nonempty), dropLast_twin,
          List.prefix_append_right_inj] at above
        exact sealable.apart rel listed rel listed above
    · rw [shadowFileFor_eq root nonempty, List.all_append, shadowLegal,
        legal_twin nonempty legal (sealable.short rel listed)]
      rfl
  refine ⟨after, ?_⟩
  unfold encryptFile
  dsimp only
  rw [created]
  dsimp only
  rw [read]
  dsimp only
  rw [encrypt, sealing]
  dsimp only
  rw [wrote]

theorem encryptFiles_runs (nonces : Nat → Nonce) {todo : List Path}
    (within : ∀ rel ∈ todo, rel ∈ manifest)
    (shadowThere : tree.look (shadowRoot root) = some .directory)
    (sealable : Sealable tree root manifest) (encryptable : Encryptable crypto key root manifest tree) :
    ∃ after, encryptFiles crypto root key nonces todo tree = (.ok (), after) := by
  induction todo generalizing tree nonces with
  | nil => exact ⟨tree, rfl⟩
  | cons rel todo ih =>
      obtain ⟨listed, later⟩ := List.forall_mem_cons.mp within
      obtain ⟨between, first⟩ := encryptFile_runs (nonces 0) shadowThere sealable encryptable listed
      have step := encrypts_encryptFile crypto tree root key (nonces 0) rel
      have keeps := keepsFiles_encryptFile crypto tree root key (nonces 0) rel
      rw [first] at step keeps
      have nonempty : ∀ rel ∈ manifest, rel ≠ [] := by
        intro other member
        obtain ⟨content, shown, _⟩ := encryptable.files other member
        exact (plaintext_eq_some_iff.mp shown).1
      obtain ⟨after, rest⟩ := ih (fun index => nonces (index + 1)) later
        (step.directories _ shadowThere) (sealable.step listed nonempty step) (encryptable.step keeps)
      refine ⟨after, ?_⟩
      rw [encryptFiles, first]
      exact rest

theorem sealable_of_encryptFiles (nonempty : ∀ rel ∈ manifest, rel ≠ [])
    (ran : encryptFiles crypto root key nonces manifest tree = (.ok (), after)) :
    Sealable tree root manifest := by
  have atEnd : ∀ rel ∈ manifest, after.isFile (shadowRoot root ++ twin rel) = true ∧
      after.look (shadowRoot root ++ rel.dropLast) = some .directory := by
    intro rel member
    obtain ⟨nonce, reached, next, here, _, back⟩ := encryptFiles_mem ran member
    obtain ⟨made, content, ciphertext, created, _, _, wrote⟩ := encryptFile_steps here
    rw [← shadowFileFor_eq root (nonempty rel member), ← dropLast_shadowFileFor root (nonempty rel member)]
    constructor
    · refine back.files _ (FileTree.isFile_iff.mpr ⟨ciphertext, ?_⟩)
      rw [FileTree.look_write wrote, if_pos rfl]
    · refine back.directories _ (FileTree.directory_write wrote ?_)
      rw [FileTree.look_createDirAll created, if_pos (List.prefix_refl _)]
  refine ⟨?_, ?_, ?_, ?_⟩
  · intro rel member above inside
    rw [← Bool.not_eq_true]
    intro file
    obtain ⟨nonce, reached, next, here, front, _⟩ := encryptFiles_mem ran member
    obtain ⟨made, _, _, created, _, _, _⟩ := encryptFile_steps here
    rw [dropLast_shadowFileFor root (nonempty rel member)] at created
    have clear := (FileTree.createDirAll_ok_iff.mp ⟨made, created⟩).1
    have blocked := clear (shadowRoot root ++ above) List.nil_prefix
      ((List.prefix_append_right_inj _).mpr inside)
    rw [front.files _ file] at blocked
    cases blocked
  · intro rel member found
    obtain ⟨nonce, reached, next, here, front, _⟩ := encryptFiles_mem ran member
    obtain ⟨made, _, ciphertext, created, _, _, wrote⟩ := encryptFile_steps here
    rw [← shadowFileFor_eq root (nonempty rel member)] at found
    have there := FileTree.directory_createDirAll created (front.directories _ found)
    exact (FileTree.write_ok_iff.mp ⟨next, wrote⟩).1 there
  · intro first firstMember second secondMember inside
    obtain ⟨content, file⟩ := FileTree.isFile_iff.mp (atEnd first firstMember).1
    have above := (List.prefix_append_right_inj (shadowRoot root)).mpr inside
    cases (FileTree.directory_above (atEnd second secondMember).2 above).symm.trans file
  · intro rel member
    obtain ⟨content, found⟩ := FileTree.isFile_iff.mp (atEnd rel member).1
    have legal := FileTree.look_legal found
    rw [List.all_append, Bool.and_eq_true] at legal
    exact nameFits_of_legal (nonempty rel member) legal.2

theorem sealed_encryptFiles (unique : manifest.Nodup) (nonempty : ∀ rel ∈ manifest, rel ≠ [])
    (ran : encryptFiles crypto root key nonces manifest tree = (.ok (), after))
    (member : rel ∈ manifest) (shown : plaintext tree root rel = some content) :
    ∃ nonce ciphertext, encrypt crypto key nonce content = .ok ciphertext ∧
      after.look (shadowRoot root ++ twin rel) = some (.file ciphertext) := by
  induction manifest generalizing nonces tree with
  | nil => cases member
  | cons head manifest ih =>
      obtain ⟨fresh, others⟩ := List.nodup_cons.mp unique
      obtain ⟨headNonempty, laterNonempty⟩ := List.forall_mem_cons.mp nonempty
      obtain ⟨between, first, rest⟩ := encryptFiles_cons ran
      rcases List.mem_cons.mp member with same | listed
      · subst same
        obtain ⟨made, held, ciphertext, created, read, sealing, wrote⟩ := encryptFile_steps first
        have found := (FileTree.file_createDirAll created _).mp (FileTree.read_ok_iff.mp read)
        cases (plaintext_eq_some_iff.mp shown).2.2.symm.trans found
        refine ⟨nonces 0, ciphertext, sealing, ?_⟩
        have onward := encrypts_encryptFiles crypto root key (fun index => nonces (index + 1))
          manifest between
        rw [rest] at onward
        rw [← shadowFileFor_eq root headNonempty]
        refine (onward.contents _ _ ?_).mpr ?_
        · intro other listed sameTwin
          rw [shadowFileFor_eq root headNonempty, shadowFileFor_eq root (laterNonempty other listed)]
            at sameTwin
          have equal := withSuffix_injective headNonempty (laterNonempty other listed)
            (List.append_cancel_left sameTwin)
          exact fresh (equal ▸ listed)
        · rw [FileTree.look_write wrote, if_pos rfl]
      · have keeps := keepsFiles_encryptFile crypto tree root key (nonces 0) head
        rw [first] at keeps
        exact ih others laterNonempty rest listed ((keeps.plaintext rel).trans shown)

/-- A shadow file whose plaintext the manifest does not list. -/
def isShadowOrphan (manifest : Manifest) (shadowRel : Path) : Bool :=
  match plaintextRelFromShadowRel shadowRel with
  | none => false
  | some rel => !rel.components.any (· ∈ manifest)

theorem dropShadowOrphan_eq (root : Path) (manifest : Manifest) (tree : FileTree) (shadowRel : Path) :
    dropShadowOrphan root manifest tree shadowRel =
      if isShadowOrphan manifest shadowRel = true then tryRemove tree (shadowRoot root ++ shadowRel)
      else tree := by
  rw [dropShadowOrphan, isShadowOrphan]
  cases plaintextRelFromShadowRel shadowRel with
  | none => rfl
  | some rel =>
      dsimp only
      by_cases listed : rel.components.any (· ∈ manifest) = true
      · have kept : ¬ (!rel.components.any (· ∈ manifest)) = true := by
          rw [listed]
          exact Bool.false_ne_true
        exact (if_pos listed).trans (if_neg kept).symm
      · have orphan : (!rel.components.any (· ∈ manifest)) = true := by
          rw [Bool.not_eq_true']
          exact Bool.eq_false_iff.mpr listed
        exact (if_neg listed).trans (if_pos orphan).symm

theorem look_dropShadowOrphans (root : Path) (manifest : Manifest) (listing : List Path)
    (tree : FileTree) (other : Path) :
    (listing.foldl (dropShadowOrphan root manifest) tree).look other =
      if (∃ shadowRel ∈ listing, isShadowOrphan manifest shadowRel = true ∧
          other = shadowRoot root ++ shadowRel) ∧ tree.isFile other = true then none
      else tree.look other := by
  have filtered : listing.foldl (dropShadowOrphan root manifest) tree =
      (listing.filter (isShadowOrphan manifest)).foldl
        (fun tree shadowRel => tryRemove tree (shadowRoot root ++ shadowRel)) tree := by
    rw [List.foldl_filter]
    congr 1
    funext tree shadowRel
    exact dropShadowOrphan_eq root manifest tree shadowRel
  rw [filtered, look_foldl_tryRemove]
  simp [List.mem_filter, and_assoc]

theorem not_isShadowOrphan_twin (nonempty : rel ≠ []) (legal : rel.all legalName = true)
    (listed : rel ∈ manifest) : isShadowOrphan manifest (twin rel) = false := by
  rw [← List.dropLast_append_getLast nonempty] at legal listed ⊢
  rw [List.all_append, Bool.and_eq_true] at legal
  have named : legalName (rel.getLast nonempty) = true := by simpa using legal.2
  rw [isShadowOrphan, plaintextRel_twin named]
  by_cases text : validUtf8 (rel.getLast nonempty) = true
  · rw [if_pos text]
    simpa [PlaintextRel.components] using listed
  · rw [if_neg text]

/-- A new file is the twin of a manifest entry, whatever a pass comes to. -/
theorem file_syncPlaintextToShadow (crypto : Primitives) (tree : FileTree) (root : Path)
    (key : KeyRing) (nonces : Nat → Nonce) (manifest : Manifest)
    (file : (syncPlaintextToShadow crypto tree root key nonces manifest).2.isFile path = true) :
    tree.isFile path = true ∨ ∃ rel ∈ manifest, path = shadowFileFor root rel := by
  unfold syncPlaintextToShadow at file
  dsimp only at file
  split at file
  · exact .inl file
  next made created =>
    have before : made.isFile path = true → tree.isFile path = true := by
      intro there
      obtain ⟨content, found⟩ := FileTree.isFile_iff.mp there
      exact FileTree.isFile_iff.mpr ⟨content, (FileTree.file_createDirAll created path).mp found⟩
    have encrypts := encrypts_encryptFiles crypto root key nonces manifest made
    split at file
    · next outcome =>
        rw [outcome] at encrypts
        exact (encrypts.file_or file).imp_left before
    next outcome =>
      rw [outcome] at encrypts
      split at file
      · exact (encrypts.file_or file).imp_left before
      · obtain ⟨content, found⟩ := FileTree.isFile_iff.mp file
        rw [look_dropShadowOrphans] at found
        split at found
        · cases found
        · exact (encrypts.file_or (FileTree.isFile_iff.mpr ⟨content, found⟩)).imp_left before

/-- The shadow that a pass leaves when it goes through: the twins of its manifest, and
leftovers that it does not take for orphans. -/
structure SealedShadow (crypto : Primitives) (key : KeyRing) (root : Path) (manifest : Manifest)
    (before after : FileTree) : Prop where
  shadowThere : after.look (shadowRoot root) = some .directory
  twins : ∀ rel ∈ manifest, ∀ content, plaintext before root rel = some content →
    ∃ nonce ciphertext, encrypt crypto key nonce content = .ok ciphertext ∧
      after.look (shadowRoot root ++ twin rel) = some (.file ciphertext)
  others : ∀ shadowRel, (plaintext after (shadowRoot root) shadowRel).isSome = true →
    (∃ rel ∈ manifest, shadowRel = twin rel) ∨
      before.isFile (shadowRoot root ++ shadowRel) = true ∧ isShadowOrphan manifest shadowRel = false

theorem sealable_createDirAll (nonempty : ∀ rel ∈ manifest, rel ≠ [])
    (made : tree.createDirAll (shadowRoot root) = .ok after) :
    Sealable after root manifest ↔ Sealable tree root manifest := by
  have sameFile : ∀ path, after.isFile path = tree.isFile path := by
    intro path
    rw [Bool.eq_iff_iff, FileTree.isFile_iff, FileTree.isFile_iff]
    exact exists_congr fun content => FileTree.file_createDirAll made path
  have sameTwin : ∀ rel ∈ manifest,
      after.look (shadowRoot root ++ twin rel) = tree.look (shadowRoot root ++ twin rel) := by
    intro rel member
    rw [FileTree.look_createDirAll made, if_neg]
    intro above
    have shorter := above.length_le
    have positive := List.length_pos_iff.mpr (twin_ne_nil (nonempty rel member))
    rw [List.length_append] at shorter
    omega
  constructor
  · intro sealable
    refine ⟨?_, ?_, sealable.apart, sealable.short⟩
    · exact fun rel member above inside => (sameFile _).symm.trans (sealable.clear rel member above inside)
    · exact fun rel member => sameTwin rel member ▸ sealable.free rel member
  · intro sealable
    refine ⟨?_, ?_, sealable.apart, sealable.short⟩
    · exact fun rel member above inside => (sameFile _).trans (sealable.clear rel member above inside)
    · exact fun rel member => (sameTwin rel member).symm ▸ sealable.free rel member

theorem syncPlaintextToShadow_runs (nonces : Nat → Nonce) (unique : manifest.Nodup)
    (creatable : ∃ made, tree.createDirAll (shadowRoot root) = .ok made)
    (sealable : Sealable tree root manifest) (encryptable : Encryptable crypto key root manifest tree) :
    ∃ after, syncPlaintextToShadow crypto tree root key nonces manifest = (.ok (), after) ∧
      SealedShadow crypto key root manifest tree after := by
  have nonempty : ∀ rel ∈ manifest, rel ≠ [] := by
    intro rel member
    obtain ⟨content, shown, _⟩ := encryptable.files rel member
    exact (plaintext_eq_some_iff.mp shown).1
  obtain ⟨made, created⟩ := creatable
  have keepsMade := keepsFiles_createDirAll root created
  have shadowMade : made.look (shadowRoot root) = some .directory := by
    rw [FileTree.look_createDirAll created, if_pos (List.prefix_refl _)]
  obtain ⟨full, ran⟩ := encryptFiles_runs nonces (fun _ member => member) shadowMade
    ((sealable_createDirAll nonempty created).mpr sealable) (encryptable.step keepsMade)
  have encrypts := encrypts_encryptFiles crypto root key nonces manifest made
  rw [ran] at encrypts
  have shadowFull := encrypts.directories _ shadowMade
  obtain ⟨listing, collected, _, listed⟩ := collectFiles_ok shadowFull
  refine ⟨listing.foldl (dropShadowOrphan root manifest) full, ?_, ?_, ?_, ?_⟩
  · unfold syncPlaintextToShadow
    dsimp only
    rw [created]
    dsimp only
    rw [ran]
    dsimp only
    rw [collected]
  · rw [look_dropShadowOrphans, if_neg, shadowFull]
    intro removed
    have file := removed.2
    rw [FileTree.isFile, shadowFull] at file
    cases file
  · intro rel member content shown
    have shownMade := (keepsMade.plaintext rel).trans shown
    obtain ⟨nonce, ciphertext, sealing, there⟩ :=
      sealed_encryptFiles unique nonempty ran member shownMade
    refine ⟨nonce, ciphertext, sealing, ?_⟩
    rw [look_dropShadowOrphans, if_neg, there]
    intro removed
    obtain ⟨⟨shadowRel, _, orphan, same⟩, _⟩ := removed
    rw [← List.append_cancel_left same,
      not_isShadowOrphan_twin (nonempty rel member) (encryptable.legal rel member) member] at orphan
    cases orphan
  · intro shadowRel shown
    obtain ⟨content, held⟩ := Option.isSome_iff_exists.mp shown
    obtain ⟨nonemptyRel, outside, found⟩ := plaintext_eq_some_iff.mp held
    rw [look_dropShadowOrphans] at found
    split at found
    · cases found
    next kept =>
      have file : full.isFile (shadowRoot root ++ shadowRel) = true :=
        FileTree.isFile_iff.mpr ⟨content, found⟩
      rcases encrypts.file_or file with before | ⟨rel, member, same⟩
      · refine .inr ⟨?_, ?_⟩
        · obtain ⟨other, foundBefore⟩ := FileTree.isFile_iff.mp before
          exact FileTree.isFile_iff.mpr ⟨other, (FileTree.file_createDirAll created _).mp foundBefore⟩
        · rw [← Bool.not_eq_true]
          intro orphan
          have inListing := (listed shadowRel).mpr
            (plaintext_isSome_iff.mpr ⟨nonemptyRel, outside, file⟩)
          exact kept ⟨⟨shadowRel, inListing, orphan, rfl⟩, file⟩
      · rw [shadowFileFor_eq root (nonempty rel member)] at same
        exact .inl ⟨rel, member, List.append_cancel_left same⟩

theorem sealable_of_syncPlaintextToShadow (nonempty : ∀ rel ∈ manifest, rel ≠ [])
    (ran : syncPlaintextToShadow crypto tree root key nonces manifest = (.ok (), after)) :
    Sealable tree root manifest := by
  unfold syncPlaintextToShadow at ran
  dsimp only at ran
  split at ran
  · cases ran
  next made created =>
    split at ran
    · cases ran
    · next outcome =>
        exact (sealable_createDirAll nonempty created).mp (sealable_of_encryptFiles nonempty outcome)

end Peerdup.Daemon
