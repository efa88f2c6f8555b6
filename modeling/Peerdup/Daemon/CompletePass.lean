import Peerdup.Daemon.DecryptPass

/-!
# A pass that completes a version

Versions as what a share root can hold, and the invariant under which a decryption pass
turns the ciphertext of one into the content of the root.
-/

set_option autoImplicit false

namespace Peerdup.Daemon

open Foundation Crypto

/-- What a share root can hold: files at legal paths outside `.peerdup`, none below another. -/
structure IsVersion (version : Path → Option Bytes) : Prop where
  nonempty : ∀ {rel}, (version rel).isSome = true → rel ≠ []
  outside : ∀ {rel}, (version rel).isSome = true → peerdupDirName ∉ rel
  legal : ∀ {rel}, (version rel).isSome = true → rel.all legalName = true
  apart : ∀ {above below}, (version above).isSome = true → (version below).isSome = true →
    above <+: below → above = below

theorem isVersion_plaintext (tree : FileTree) (root : Path) : IsVersion (plaintext tree root) where
  nonempty shown := (plaintext_isSome_iff.mp shown).1
  outside shown := (plaintext_isSome_iff.mp shown).2.1
  legal := by
    intro rel shown
    obtain ⟨content, found⟩ := FileTree.isFile_iff.mp (plaintext_isSome_iff.mp shown).2.2
    have legal := FileTree.look_legal found
    rw [List.all_append, Bool.and_eq_true] at legal
    exact legal.2
  apart := by
    intro above below aboveShown belowShown inside
    obtain ⟨more, rfl⟩ := inside
    obtain ⟨_, found⟩ := FileTree.isFile_iff.mp (plaintext_isSome_iff.mp aboveShown).2.2
    obtain ⟨_, foundBelow⟩ := FileTree.isFile_iff.mp (plaintext_isSome_iff.mp belowShown).2.2
    by_cases last : more = []
    · rw [last, List.append_nil]
    · rw [← List.append_assoc] at foundBelow
      cases (FileTree.look_above last foundBelow).symm.trans found

/-- A file of a version is below no other: not below one it shares a name with either. -/
theorem IsVersion.not_prefix_dir {version : Path → Option Bytes} (isVersion : IsVersion version)
    {above dir : Path} {name : Name} (aboveShown : (version above).isSome = true)
    (shown : (version (dir ++ [name])).isSome = true) : ¬ above <+: dir := by
  intro inside
  have same := isVersion.apart aboveShown shown (inside.trans (List.prefix_append _ _))
  have shorter := inside.length_le
  rw [same, List.length_append, List.length_singleton] at shorter
  omega

theorem IsVersion.plaintextRel_twin {version : Path → Option Bytes} {rel : Path}
    (isVersion : IsVersion version) (shown : (version rel).isSome = true) (text : validUtf8 (rel.getLastD []) = true) :
    plaintextRelFromShadowRel (twin rel) = some (.file rel) := by
  have legal := isVersion.legal shown
  have split := List.dropLast_append_getLast (isVersion.nonempty shown)
  generalize rel.dropLast = dir at split
  generalize rel.getLast _ = name at split
  subst split
  have valid : validUtf8 name = true := by simpa using text
  have named : legalName name = true := by
    rw [List.all_append, Bool.and_eq_true] at legal
    simpa using legal.2
  rw [Daemon.plaintextRel_twin named, if_pos valid]

section Pass

variable {crypto : Primitives} {version : Path → Option Bytes} {start tree : FileTree} {root : Path}
  {key : KeyRing}

/-- The shadow of `start` holds the version, under names that are text and not too long. -/
structure Holds (crypto : Primitives) (key : KeyRing) (root : Path) (version : Path → Option Bytes)
    (start : FileTree) : Prop where
  opens : ∀ rel content, version rel = some content → ∃ ciphertext,
    start.look (shadowRoot root ++ twin rel) = some (.file ciphertext) ∧
      decrypt crypto key ciphertext = .ok content
  text : ∀ rel, (version rel).isSome = true → validUtf8 (rel.getLastD []) = true
  short : ∀ rel, (version rel).isSome = true → NameFits tmpSuffix rel

/-- No later file's temporary path is an earlier file's path, or above it. -/
def Orderly (version : Path → Option Bytes) (listing : List Path) : Prop :=
  listing.Pairwise fun earlier later => ∀ first second, earlier = twin first → later = twin second →
    (version first).isSome = true → (version second).isSome = true → ¬ temporary second <+: first

/-- A pass on its way to a version, with the listed files still to come. -/
structure Pass (version : Path → Option Bytes) (root : Path) (start : FileTree) (todo : List Path)
    (tree : FileTree) : Prop where
  rootThere : tree.look root = some .directory
  shadow : ∀ path, tree.look (shadowRoot root ++ path) = start.look (shadowRoot root ++ path)
  within : ∀ rel, (plaintext tree root rel).isSome = true → (version rel).isSome = true
  targetFree : ∀ rel, (version rel).isSome = true → tree.look (root ++ rel) ≠ some .directory
  tmpFree : ∀ rel, (version rel).isSome = true → twin rel ∈ todo →
    tree.look (root ++ temporary rel) ≠ some .directory
  done : ∀ rel content, version rel = some content → twin rel ∉ todo →
    tree.look (root ++ rel) = some (.file content)
  ahead : ∀ first second, (version first).isSome = true → (version second).isSome = true →
    twin first ∉ todo → twin second ∈ todo → ¬ temporary second <+: first

theorem Pass.placeable {todo : List Path} {dir : Path} {name : Name} (isVersion : IsVersion version)
    (pass : Pass version root start (twin (dir ++ [name]) :: todo) tree)
    (shown : (version (dir ++ [name])).isSome = true) (short : NameFits tmpSuffix (dir ++ [name])) :
    Placeable tree root dir name where
  clear := by
    refine FileTree.clear_of_below pass.rootThere ?_
    intro rel here inDir
    rw [← Bool.not_eq_true]
    intro file
    have outside : peerdupDirName ∉ rel := fun inside =>
      isVersion.outside shown (List.mem_append_left _ (inDir.subset inside))
    have content := pass.within rel (plaintext_isSome_iff.mpr ⟨here, outside, file⟩)
    exact isVersion.not_prefix_dir content shown inDir
  legal := by
    have rootLegal := FileTree.look_legal pass.rootThere
    rw [List.append_assoc, List.all_append, rootLegal, isVersion.legal shown]
    rfl
  short := short
  tmpFree := by
    have free := pass.tmpFree _ shown List.mem_cons_self
    rwa [temporary, withSuffix_append, ← List.append_assoc] at free
  targetFree := by
    rw [List.append_assoc]
    exact pass.targetFree _ shown

theorem look_shadow_placeFile {after : FileTree} {dir rel : Path} {name : Name} {content : Bytes}
    (outside : peerdupDirName ∉ dir ++ [name])
    (placed : placeFile tree root (dir ++ [name]) content = (.ok rel, after)) (path : Path) :
    after.look (shadowRoot root ++ path) = tree.look (shadowRoot root ++ path) := by
  have inside : peerdupDirName ∈ [peerdupDirName, ascii "encrypted"] ++ path :=
    List.mem_append_left _ List.mem_cons_self
  rw [shadowRoot, List.append_assoc, look_placeFile_below placed, if_neg, if_neg, if_neg]
  · intro above
    exact outside (List.mem_append_left _ (above.subset inside))
  · intro same
    exact outside (same ▸ inside)
  · intro same
    exact not_mem_temporary outside (same ▸ inside)

theorem Pass.step {listing : List Path} {dir : Path} {name : Name} {after : FileTree} {content : Bytes}
    {rel : Path} (isVersion : IsVersion version)
    (pass : Pass version root start (twin (dir ++ [name]) :: listing) tree)
    (orderly : Orderly version (twin (dir ++ [name]) :: listing))
    (current : version (dir ++ [name]) = some content)
    (placed : placeFile tree root (dir ++ [name]) content = (.ok rel, after)) :
    Pass version root start listing after := by
  have shown : (version (dir ++ [name])).isSome = true := by rw [current]; rfl
  have look := look_placeFile_below placed
  have twins : ∀ {other}, (version other).isSome = true → other ≠ dir ++ [name] →
      twin other ∉ listing → twin other ∉ twin (dir ++ [name]) :: listing := by
    intro other otherShown differs notLater either
    rcases List.mem_cons.mp either with same | later
    · exact differs (withSuffix_injective (isVersion.nonempty otherShown) (by simp) same)
    · exact notLater later
  have first := (List.pairwise_cons.mp orderly).1
  refine ⟨?_, ?_, ?_, ?_, ?_, ?_, ?_⟩
  · have here := look []
    rwa [if_neg, if_neg (by simp), if_pos List.nil_prefix, List.append_nil] at here
    simp [temporary]
  · intro path
    rw [look_shadow_placeFile (isVersion.outside shown) placed, pass.shadow]
  · intro other otherShown
    obtain ⟨nonempty, outside, file⟩ := plaintext_isSome_iff.mp otherShown
    obtain ⟨held, found⟩ := FileTree.isFile_iff.mp file
    rw [look other] at found
    split at found
    · cases found
    split at found
    · next here =>
        rw [here]
        exact shown
    split at found
    · cases found
    · exact pass.within other
        (plaintext_isSome_iff.mpr ⟨nonempty, outside, FileTree.isFile_iff.mpr ⟨held, found⟩⟩)
  · intro other otherShown found
    rw [look other] at found
    split at found
    · cases found
    split at found
    · cases found
    split at found
    · next above => exact isVersion.not_prefix_dir otherShown shown above
    · exact pass.targetFree other otherShown found
  · intro other otherShown later found
    have order := first (twin other) later (dir ++ [name]) other rfl rfl shown otherShown
    rw [look (temporary other)] at found
    split at found
    · cases found
    split at found
    · cases found
    split at found
    · next above => exact order (above.trans (List.prefix_append _ _))
    · exact pass.tmpFree other otherShown (List.mem_cons_of_mem _ later) found
  · intro other held expected notLater
    have otherShown : (version other).isSome = true := by rw [expected]; rfl
    by_cases here : other = dir ++ [name]
    · rw [here, current] at expected
      cases expected
      rw [here, look, if_neg (temporary_ne (by simp)).symm, if_pos rfl]
    · have done := twins otherShown here notLater
      have order := pass.ahead other _ otherShown shown done List.mem_cons_self
      rw [look other, if_neg, if_neg here, if_neg (isVersion.not_prefix_dir otherShown shown)]
      · exact pass.done other held expected done
      · intro same
        exact order (same ▸ List.prefix_refl _)
  · intro other ready otherShown readyShown notLater later
    by_cases here : other = dir ++ [name]
    · rw [here]
      exact first (twin ready) later _ ready rfl rfl shown readyShown
    · exact pass.ahead other ready otherShown readyShown (twins otherShown here notLater)
        (List.mem_cons_of_mem _ later)

theorem Pass.skip {todo : List Path} {shadowRel : Path} (isVersion : IsVersion version)
    (holds : Holds crypto key root version start)
    (pass : Pass version root start (shadowRel :: todo) tree)
    (skipped : plaintextRelFromShadowRel shadowRel = none) : Pass version root start todo tree := by
  have apart : ∀ {rel}, (version rel).isSome = true → twin rel ∉ todo →
      twin rel ∉ shadowRel :: todo := by
    intro rel shown notLater either
    rcases List.mem_cons.mp either with same | later
    · rw [← same, isVersion.plaintextRel_twin shown (holds.text rel shown)] at skipped
      cases skipped
    · exact notLater later
  exact {
    rootThere := pass.rootThere
    shadow := pass.shadow
    within := pass.within
    targetFree := pass.targetFree
    tmpFree := fun rel shown later => pass.tmpFree rel shown (List.mem_cons_of_mem _ later)
    done := fun rel content current notLater =>
      pass.done rel content current (apart (current ▸ rfl) notLater)
    ahead := fun first second firstShown secondShown notLater later =>
      pass.ahead first second firstShown secondShown (apart firstShown notLater)
        (List.mem_cons_of_mem _ later) }

theorem Pass.run {listing : List Path} (manifest : Manifest) (isVersion : IsVersion version)
    (holds : Holds crypto key root version start) (pass : Pass version root start listing tree)
    (orderly : Orderly version listing)
    (listed : ∀ shadowRel ∈ listing, plaintextRelFromShadowRel shadowRel = none ∨
      ∃ rel, (version rel).isSome = true ∧ shadowRel = twin rel) :
    ∃ manifestAfter after, decryptFiles crypto root key listing manifest tree =
      (.ok manifestAfter, after) ∧ Pass version root start [] after := by
  induction listing generalizing manifest tree with
  | nil => exact ⟨manifest, tree, rfl, pass⟩
  | cons shadowRel listing ih =>
      obtain ⟨here, others⟩ := List.forall_mem_cons.mp listed
      have orderlyRest := (List.pairwise_cons.mp orderly).2
      rcases here with skipped | ⟨rel, shown, rfl⟩
      · obtain ⟨manifestAfter, final, rest, finished⟩ :=
          ih manifest (pass.skip isVersion holds skipped) orderlyRest others
        refine ⟨manifestAfter, final, ?_, finished⟩
        rw [decryptFiles, decryptFile, skipped]
        exact rest
      have split := List.dropLast_append_getLast (isVersion.nonempty shown)
      have text := holds.text rel shown
      have short := holds.short rel shown
      generalize rel.dropLast = dir at split
      generalize rel.getLast _ = name at split
      subst split
      obtain ⟨content, current⟩ := Option.isSome_iff_exists.mp shown
      obtain ⟨ciphertext, held, opened⟩ := holds.opens _ content current
      rw [← pass.shadow] at held
      have valid : validUtf8 name = true := by simpa using text
      obtain ⟨after, placed, ran⟩ :=
        decryptFile_of_placeable held opened valid (pass.placeable isVersion shown short)
      obtain ⟨manifestAfter, final, rest, finished⟩ :=
        ih _ (pass.step isVersion orderly current placed) orderlyRest others
      refine ⟨manifestAfter, final, ?_, finished⟩
      rw [decryptFiles, ran]
      exact rest

/-- A pass over all there is in a shadow ends with the version's files and with its paths. -/
theorem Pass.reaches {listing : List Path} (isVersion : IsVersion version)
    (shadowThere : start.look (shadowRoot root) = some .directory)
    (collected : collectFiles start (shadowRoot root) = .ok listing)
    (holds : Holds crypto key root version start) (pass : Pass version root start listing start)
    (orderly : Orderly version listing)
    (listed : ∀ shadowRel ∈ listing, plaintextRelFromShadowRel shadowRel = none ∨
      ∃ rel, (version rel).isSome = true ∧ shadowRel = twin rel)
    (all : ∀ rel, (version rel).isSome = true → twin rel ∈ listing) :
    ∃ manifest final, syncShadowToPlaintext crypto start root key = (.ok manifest, final) ∧
      final.look root = some .directory ∧ (∀ rel, plaintext final root rel = version rel) ∧
      ∀ rel, rel ∈ manifest ↔ (version rel).isSome = true := by
  obtain ⟨manifest, final, ran, finished⟩ := pass.run [] isVersion holds orderly listed
  refine ⟨manifest, final, ?_, finished.rootThere, ?_, ?_⟩
  · rw [syncShadowToPlaintext, if_neg (by rw [shadowThere]; simp), collected]
    exact ran
  · intro rel
    cases current : version rel with
    | some content =>
        have shown : (version rel).isSome = true := by rw [current]; rfl
        exact plaintext_eq_some_iff.mpr ⟨isVersion.nonempty shown, isVersion.outside shown,
          finished.done rel content current List.not_mem_nil⟩
    | none =>
        have hidden : ¬ (plaintext final root rel).isSome = true := by
          intro shown
          have there := finished.within rel shown
          rw [current] at there
          cases there
        exact Option.not_isSome_iff_eq_none.mp hidden
  · intro rel
    rw [mem_decryptFiles ran]
    constructor
    · intro either
      rcases either with impossible | ⟨shadowRel, member, named⟩
      · cases impossible
      rcases listed shadowRel member with skipped | ⟨other, shown, same⟩
      · rw [skipped] at named
        cases named
      · rw [same, isVersion.plaintextRel_twin shown (holds.text other shown)] at named
        cases named
        exact shown
    · intro shown
      exact .inr ⟨twin rel, all rel shown, isVersion.plaintextRel_twin shown (holds.text rel shown)⟩

end Pass

end Peerdup.Daemon
