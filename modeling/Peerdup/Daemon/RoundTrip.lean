import Mathlib.Data.List.Pairwise
import Peerdup.Daemon.Reproduction
import Peerdup.Daemon.SealedShadow
import Peerdup.Foundation.RawPathProperties

/-!
# From plaintext to the shadow and back

When a share's plaintext comes back from its shadow, copied into an empty root: which names
must not meet, among themselves and in the shadow that earlier versions have left.
-/

set_option autoImplicit false

namespace Peerdup.Daemon

open Foundation Crypto

/-- The disks on which nothing but encryption passes has written below `.peerdup`, whatever
happened to the plaintext in between. -/
inductive ShadowHistory (crypto : Primitives) (root : Path) : FileTree → Prop where
  | fresh {tree : FileTree} : tree.look (root ++ [peerdupDirName]) = none →
      ShadowHistory crypto root tree
  | edited {before after : FileTree} : ShadowHistory crypto root before →
      (∀ path, root ++ [peerdupDirName] <+: path → after.look path = before.look path) →
      ShadowHistory crypto root after
  | synced {before : FileTree} {versionHash : String} {manifest : Manifest} (key : KeyRing)
      (nonces : Nat → Nonce) : ShadowHistory crypto root before →
      snapshotContent crypto before root = .ok (versionHash, manifest) →
      ShadowHistory crypto root (syncPlaintextToShadow crypto before root key nonces manifest).2

/-- The shadow of one root in an otherwise empty one, listed in any order. -/
structure CopiesShadow (root : Path) (tree : FileTree) (copyRoot : Path) (copy : FileTree) :
    Prop where
  rootThere : copy.look copyRoot = some .directory
  empty : ∀ name rest, name ≠ peerdupDirName → copy.look (copyRoot ++ name :: rest) = none
  shadow : ∀ path, copy.look (shadowRoot copyRoot ++ path) = tree.look (shadowRoot root ++ path)

/-- The plaintext is encrypted, and comes back from every copy of the shadow. -/
def RoundTrips (crypto : Primitives) (key : KeyRing) (root : Path) (nonces : Nat → Nonce)
    (manifest : Manifest) (tree : FileTree) : Prop :=
  ∃ after, syncPlaintextToShadow crypto tree root key nonces manifest = (.ok (), after) ∧
    ∀ copyRoot copy, CopiesShadow root after copyRoot copy →
      ∃ copied final, syncShadowToPlaintext crypto copy copyRoot key = (.ok copied, final) ∧
        (∀ rel, plaintext final copyRoot rel = plaintext tree root rel) ∧
        ∀ rel, rel ∈ copied ↔ rel ∈ manifest

/-- File names are text and not too long with the temporary suffix, no file has its temporary
name at or above another file, and no twin meets a directory or a file above it, of this version
or left in the shadow. -/
structure ShadowFits (root : Path) (tree : FileTree) : Prop where
  text : ∀ rel, (plaintext tree root rel).isSome = true → validUtf8 (rel.getLastD []) = true
  short : ∀ rel, (plaintext tree root rel).isSome = true → NameFits tmpSuffix rel
  tmpApart : ∀ first second, (plaintext tree root first).isSome = true →
    (plaintext tree root second).isSome = true → ¬ temporary second <+: first
  twinApart : ∀ first second, (plaintext tree root first).isSome = true →
    (plaintext tree root second).isSome = true → ¬ twin first <+: second.dropLast
  clear : ∀ rel, (plaintext tree root rel).isSome = true → ∀ above, above <+: rel.dropLast →
    tree.isFile (shadowRoot root ++ above) = false
  free : ∀ rel, (plaintext tree root rel).isSome = true →
    tree.look (shadowRoot root ++ twin rel) ≠ some .directory

section OwnShadow

variable {crypto : Primitives} {root : Path} {tree : FileTree}

/-- Every shadow file is the twin of a path that a share can hold. -/
structure OwnShadow (root : Path) (tree : FileTree) : Prop where
  clear : ∀ path, root ++ [peerdupDirName] <+: path → path <+: shadowRoot root →
    tree.isFile path = false
  twins : ∀ path, path ≠ [] → tree.isFile (shadowRoot root ++ path) = true →
    ∃ rel, path = twin rel ∧ rel ≠ [] ∧ rel.all legalName = true

theorem ShadowHistory.ownShadow (history : ShadowHistory crypto root tree) : OwnShadow root tree := by
  induction history with
  | @fresh tree absent =>
      have none_ : ∀ path, root ++ [peerdupDirName] <+: path → tree.isFile path = false := by
        intro path ⟨rest, whole⟩
        rw [← whole, FileTree.isFile, FileTree.look_below_none absent]
      refine ⟨fun path below _ => none_ path below, ?_⟩
      intro path _ file
      rw [none_ _ (peerdup_prefix_shadow root path)] at file
      cases file
  | @edited before after _ same ih =>
      have sameFile : ∀ path, root ++ [peerdupDirName] <+: path →
          after.isFile path = before.isFile path := by
        intro path below
        rw [FileTree.isFile, same path below, ← FileTree.isFile]
      refine ⟨?_, ?_⟩
      · intro path below above
        rw [sameFile path below]
        exact ih.clear path below above
      · intro path nonempty file
        rw [sameFile _ (peerdup_prefix_shadow root path)] at file
        exact ih.twins path nonempty file
  | @synced before versionHash manifest key nonces _ snapshot ih =>
      have isVersion := isVersion_plaintext before root
      have shown : ∀ rel ∈ manifest, (plaintext before root rel).isSome = true := by
        obtain ⟨_, again, listed⟩ := snapshotContent_ok crypto (look_of_snapshotContent snapshot)
        cases snapshot.symm.trans again
        exact fun rel => (listed rel).mp
      refine ⟨?_, ?_⟩
      · intro path below above
        rw [← Bool.not_eq_true]
        intro file
        rcases file_syncPlaintextToShadow crypto before root key nonces manifest file with
          old | ⟨rel, member, same⟩
        · rw [ih.clear path below above] at old
          cases old
        · -- A twin is below the shadow's root.
          have nonempty := isVersion.nonempty (shown rel member)
          rw [same, shadowFileFor_eq root nonempty] at above
          have shorter := above.length_le
          have positive := List.length_pos_iff.mpr (twin_ne_nil nonempty)
          rw [List.length_append] at shorter
          omega
      · intro path nonempty file
        rcases file_syncPlaintextToShadow crypto before root key nonces manifest file with
          old | ⟨rel, member, same⟩
        · exact ih.twins path nonempty old
        · have relNonempty := isVersion.nonempty (shown rel member)
          rw [shadowFileFor_eq root relNonempty] at same
          exact ⟨rel, List.append_cancel_left same, relNonempty, isVersion.legal (shown rel member)⟩

theorem OwnShadow.creatable (own : OwnShadow root tree)
    (rootThere : tree.look root = some .directory) :
    ∃ made, tree.createDirAll (shadowRoot root) = .ok made := by
  have rootLegal := FileTree.look_legal rootThere
  refine FileTree.createDirAll_ok_iff.mpr ⟨?_, ?_⟩
  · intro path _ above
    have peerdupAbove : root ++ [peerdupDirName] <+: shadowRoot root := by
      have whole := peerdup_prefix_shadow root []
      rwa [List.append_nil] at whole
    rcases List.prefix_or_prefix_of_prefix above peerdupAbove with inside | below
    · rcases List.prefix_concat_iff.mp inside with here | atRoot
      · exact own.clear path (here ▸ List.prefix_refl _) above
      · rw [FileTree.isFile, FileTree.directory_above rootThere atRoot]
    · exact own.clear path below above
  · rw [shadowRoot, List.all_append, rootLegal]
    decide

end OwnShadow

section Copies

variable {root copyRoot path : Path} {tree copy : FileTree}

/-- Content of a root, outside the daemon's own directory. -/
def isBeside (root path : Path) : Bool :=
  match path.drop root.length with
  | [] => false
  | name :: _ => root.isPrefixOf path && name ≠ peerdupDirName

theorem isBeside_iff : isBeside root path = true ↔
    ∃ name rest, name ≠ peerdupDirName ∧ path = root ++ name :: rest := by
  unfold isBeside
  constructor
  · intro beside
    split at beside
    · cases beside
    next name rest dropped =>
      simp only [Bool.and_eq_true, List.isPrefixOf_iff_prefix, decide_eq_true_eq] at beside
      obtain ⟨⟨below, whole⟩, apart⟩ := beside
      rw [← whole, List.drop_left] at dropped
      exact ⟨name, rest, apart, by rw [← whole, dropped]⟩
  · intro ⟨name, rest, apart, whole⟩
    rw [whole, List.drop_left]
    simp [apart]

/-- The tree without the root's content. -/
def onlyShadow (tree : FileTree) (root : Path) : FileTree :=
  tree.prune (isBeside root) (by
    intro path name beside
    obtain ⟨first, rest, apart, whole⟩ := isBeside_iff.mp beside
    refine isBeside_iff.mpr ⟨first, rest ++ [name], apart, ?_⟩
    rw [whole, List.append_assoc, List.cons_append])

theorem look_onlyShadow (tree : FileTree) (root path : Path) :
    (onlyShadow tree root).look path =
      if path ≠ [] ∧ isBeside root path = true then none else tree.look path :=
  FileTree.look_prune _ _ path

theorem copiesShadow_onlyShadow (rootThere : tree.look root = some .directory) :
    CopiesShadow root tree root (onlyShadow tree root) := by
  refine ⟨?_, ?_, ?_⟩
  · rw [look_onlyShadow, if_neg, rootThere]
    intro ⟨_, beside⟩
    obtain ⟨name, rest, _, whole⟩ := isBeside_iff.mp beside
    have same := congrArg List.length whole
    rw [List.length_append, List.length_cons] at same
    omega
  · intro name rest apart
    rw [look_onlyShadow, if_pos]
    exact ⟨by simp, isBeside_iff.mpr ⟨name, rest, apart, rfl⟩⟩
  · intro path
    rw [look_onlyShadow, if_neg]
    intro ⟨_, beside⟩
    obtain ⟨name, rest, apart, whole⟩ := isBeside_iff.mp beside
    rw [shadowRoot, List.append_assoc] at whole
    have tails := List.append_cancel_left whole
    exact apart (List.cons.inj tails).1.symm

theorem CopiesShadow.reversed (copies : CopiesShadow root tree copyRoot copy) :
    CopiesShadow root tree copyRoot copy.reversed where
  rootThere := by rw [FileTree.look_reversed, copies.rootThere]
  empty name rest apart := by rw [FileTree.look_reversed, copies.empty name rest apart]
  shadow path := by rw [FileTree.look_reversed, copies.shadow path]

theorem CopiesShadow.look_eq_none (copies : CopiesShadow root tree copyRoot copy) {rel : Path}
    (nonempty : rel ≠ []) (outside : peerdupDirName ∉ rel) : copy.look (copyRoot ++ rel) = none := by
  cases rel with
  | nil => exact absurd rfl nonempty
  | cons name rest => exact copies.empty name rest fun same => outside (same ▸ List.mem_cons_self)

theorem CopiesShadow.plaintext_shadow (copies : CopiesShadow root tree copyRoot copy)
    (shadowRel : Path) :
    plaintext copy (shadowRoot copyRoot) shadowRel = plaintext tree (shadowRoot root) shadowRel := by
  unfold plaintext
  rw [copies.shadow]

theorem CopiesShadow.shadowThere (copies : CopiesShadow root tree copyRoot copy)
    (there : tree.look (shadowRoot root) = some .directory) :
    copy.look (shadowRoot copyRoot) = some .directory := by
  have same := copies.shadow []
  rwa [List.append_nil, List.append_nil, there] at same

end Copies

section RoundTrip

variable {crypto : Primitives} {key : KeyRing} {root copyRoot : Path} {nonces : Nat → Nonce}
  {manifest : Manifest} {tree after copy : FileTree}

theorem sealable_iff (listed : ∀ rel, rel ∈ manifest ↔ (plaintext tree root rel).isSome = true) :
    Sealable tree root manifest ↔
      (∀ rel, (plaintext tree root rel).isSome = true → ∀ above, above <+: rel.dropLast →
        tree.isFile (shadowRoot root ++ above) = false) ∧
      (∀ rel, (plaintext tree root rel).isSome = true →
        tree.look (shadowRoot root ++ twin rel) ≠ some .directory) ∧
      (∀ first second, (plaintext tree root first).isSome = true →
        (plaintext tree root second).isSome = true → ¬ twin first <+: second.dropLast) ∧
      ∀ rel, (plaintext tree root rel).isSome = true → NameFits binSuffix rel := by
  constructor
  · intro sealable
    refine ⟨?_, ?_, ?_, ?_⟩
    · exact fun rel shown => sealable.clear rel ((listed rel).mpr shown)
    · exact fun rel shown => sealable.free rel ((listed rel).mpr shown)
    · exact fun first second firstShown secondShown =>
        sealable.apart first ((listed first).mpr firstShown) second ((listed second).mpr secondShown)
    · exact fun rel shown => sealable.short rel ((listed rel).mpr shown)
  · intro ⟨clear, free, apart, short⟩
    refine ⟨?_, ?_, ?_, ?_⟩
    · exact fun rel member => clear rel ((listed rel).mp member)
    · exact fun rel member => free rel ((listed rel).mp member)
    · exact fun first firstMember second secondMember =>
        apart first second ((listed first).mp firstMember) ((listed second).mp secondMember)
    · exact fun rel member => short rel ((listed rel).mp member)

/-- A leftover that no pass takes for an orphan, and no manifest lists, is skipped. -/
theorem skipped_of_leftover {shadowRel : Path} (own : OwnShadow root tree)
    (nonempty : shadowRel ≠ []) (leftover : tree.isFile (shadowRoot root ++ shadowRel) = true)
    (kept : isShadowOrphan manifest shadowRel = false) :
    plaintextRelFromShadowRel shadowRel = none ∨ ∃ rel ∈ manifest, shadowRel = twin rel := by
  obtain ⟨rel, same, relNonempty, legal⟩ := own.twins shadowRel nonempty leftover
  have split := List.dropLast_append_getLast relNonempty
  generalize rel.dropLast = dir at split
  generalize rel.getLast _ = name at split
  subst split
  rw [List.all_append, Bool.and_eq_true] at legal
  have named : legalName name = true := by simpa using legal.2
  rw [same, isShadowOrphan, plaintextRel_twin named] at kept
  rw [same, plaintextRel_twin named]
  by_cases text : validUtf8 name = true
  · rw [if_pos text] at kept
    have member : dir ++ [name] ∈ manifest := by simpa [PlaintextRel.components] using kept
    exact .inr ⟨_, member, rfl⟩
  · rw [if_neg text]
    exact .inl rfl

theorem SealedShadow.reaches (lawful : crypto.Lawful) (small : key.currentEpoch < 2 ^ 64)
    (listed : ∀ rel, rel ∈ manifest ↔ (plaintext tree root rel).isSome = true)
    (own : OwnShadow root tree) (sealed_ : SealedShadow crypto key root manifest tree after)
    (fits : ShadowFits root tree) (copies : CopiesShadow root after copyRoot copy) :
    ∃ copied final, syncShadowToPlaintext crypto copy copyRoot key = (.ok copied, final) ∧
      (∀ rel, plaintext final copyRoot rel = plaintext tree root rel) ∧
      ∀ rel, rel ∈ copied ↔ rel ∈ manifest := by
  have isVersion := isVersion_plaintext tree root
  have shadowThere := copies.shadowThere sealed_.shadowThere
  obtain ⟨listing, collected, _, inListing⟩ := collectFiles_ok shadowThere
  have holds : Holds crypto key copyRoot (plaintext tree root) copy := by
    refine ⟨?_, fits.text, fits.short⟩
    intro rel content current
    obtain ⟨nonce, ciphertext, sealing, there⟩ :=
      sealed_.twins rel ((listed rel).mpr (current ▸ rfl)) content current
    exact ⟨ciphertext, (copies.shadow _).trans there,
      decrypt_encrypt lawful (List.prefix_refl _) small sealing⟩
  have all : ∀ rel, (plaintext tree root rel).isSome = true → twin rel ∈ listing := by
    intro rel shown
    obtain ⟨content, current⟩ := Option.isSome_iff_exists.mp shown
    obtain ⟨ciphertext, there, _⟩ := holds.opens rel content current
    exact (inListing _).mpr (plaintext_isSome_iff.mpr ⟨twin_ne_nil (isVersion.nonempty shown),
      not_mem_twin (isVersion.outside shown), FileTree.isFile_iff.mpr ⟨ciphertext, there⟩⟩)
  have start : Pass (plaintext tree root) copyRoot copy listing copy := by
    refine ⟨copies.rootThere, fun _ => rfl, ?_, ?_, ?_, ?_, ?_⟩
    · intro rel shown
      obtain ⟨nonempty, outside, file⟩ := plaintext_isSome_iff.mp shown
      rw [FileTree.isFile, copies.look_eq_none nonempty outside] at file
      cases file
    · intro rel shown
      rw [copies.look_eq_none (isVersion.nonempty shown) (isVersion.outside shown)]
      exact (Option.some_ne_none _).symm
    · intro rel shown _
      have nonempty : temporary rel ≠ [] := by
        intro empty
        have length := length_withSuffix rel tmpSuffix
        rw [← temporary, empty, List.length_nil] at length
        exact isVersion.nonempty shown (List.length_eq_zero_iff.mp length.symm)
      rw [copies.look_eq_none nonempty (not_mem_temporary (isVersion.outside shown))]
      exact (Option.some_ne_none _).symm
    · intro rel content current later
      exact absurd (all rel (current ▸ rfl)) later
    · intro first second shown _ later
      exact absurd (all first shown) later
  have orderly : Orderly (plaintext tree root) listing := by
    refine List.pairwise_of_forall ?_
    intro _ _ first second _ _ firstShown secondShown
    exact fits.tmpApart first second firstShown secondShown
  have known : ∀ shadowRel ∈ listing, plaintextRelFromShadowRel shadowRel = none ∨
      ∃ rel, (plaintext tree root rel).isSome = true ∧ shadowRel = twin rel := by
    intro shadowRel member
    have shown := (inListing shadowRel).mp member
    rw [copies.plaintext_shadow] at shown
    rcases sealed_.others shadowRel shown with ⟨rel, inManifest, same⟩ | ⟨leftover, kept⟩
    · exact .inr ⟨rel, (listed rel).mp inManifest, same⟩
    · have nonempty := (plaintext_isSome_iff.mp shown).1
      rcases skipped_of_leftover own nonempty leftover kept with skipped | ⟨rel, inManifest, same⟩
      · exact .inl skipped
      · exact .inr ⟨rel, (listed rel).mp inManifest, same⟩
  obtain ⟨copied, final, ran, _, same, inCopied⟩ :=
    start.reaches isVersion shadowThere collected holds orderly known all
  exact ⟨copied, final, ran, same, fun rel => (inCopied rel).trans (listed rel).symm⟩

/-- What comes back from a copy had names that are text and not too long, and no temporary name
took a file listed earlier. -/
theorem orderly_of_roundTrip {copied : Manifest} {final : FileTree} {listing : List Path}
    (listed : ∀ rel, rel ∈ manifest ↔ (plaintext tree root rel).isSome = true)
    (shadowThere : copy.look (shadowRoot copyRoot) = some .directory)
    (collected : collectFiles copy (shadowRoot copyRoot) = .ok listing)
    (decryption : syncShadowToPlaintext crypto copy copyRoot key = (.ok copied, final))
    (same : ∀ rel, plaintext final copyRoot rel = plaintext tree root rel)
    (inCopied : ∀ rel, rel ∈ copied ↔ rel ∈ manifest) :
    (∀ rel, (plaintext tree root rel).isSome = true → validUtf8 (rel.getLastD []) = true ∧
      NameFits tmpSuffix rel ∧ twin rel ∈ listing) ∧
      Orderly (plaintext tree root) listing := by
  obtain ⟨_, listedOk, unique, _⟩ := collectFiles_ok shadowThere
  cases listedOk.symm.trans collected
  have ran : decryptFiles crypto copyRoot key listing [] copy = (.ok copied, final) := by
    rw [syncShadowToPlaintext, if_neg (by rw [shadowThere]; simp), collected] at decryption
    exact decryption
  have placed : ∀ rel, (plaintext tree root rel).isSome = true →
      plaintextRelFromShadowRel (twin rel) = some (.file rel) ∧ twin rel ∈ listing := by
    intro rel shown
    rcases (mem_decryptFiles ran).mp ((inCopied rel).mpr ((listed rel).mpr shown)) with
      impossible | ⟨shadowRel, member, named⟩
    · cases impossible
    · cases (text_of_plaintextRel named).1
      exact ⟨named, member⟩
  constructor
  · intro rel shown
    obtain ⟨named, member⟩ := placed rel shown
    exact ⟨(text_of_plaintextRel named).2.1, nameFits_decryptFiles ran member named, member⟩
  · refine (ordered_decryptFiles unique ran).imp ?_
    intro earlier later takes first second firstTwin secondTwin firstShown secondShown above
    subst firstTwin secondTwin
    have gone := takes first second (placed first firstShown).1 (placed second secondShown).1 above
    have there : (plaintext final copyRoot first).isSome = true := by rw [same, firstShown]
    rw [(plaintext_isSome_iff.mp there).2.2] at gone
    cases gone

theorem temporary_ne_of_prefix {first second : Path} (nonempty : second ≠ [])
    (above : temporary second <+: first) : first ≠ second := by
  intro same
  rw [same] at above
  have length := length_withSuffix second tmpSuffix
  exact temporary_ne nonempty (above.eq_of_length length)

theorem Orderly.tmpApart {version : Path → Option Bytes} {listing : List Path} {first second : Path}
    (forward : Orderly version listing) (backward : Orderly version listing.reverse)
    (firstListed : twin first ∈ listing) (secondListed : twin second ∈ listing)
    (apart : twin first ≠ twin second) (firstShown : (version first).isSome = true)
    (secondShown : (version second).isSome = true) : ¬ temporary second <+: first := by
  have both := forward.and (List.pairwise_reverse.mp backward)
  have symmetric : Std.Symm fun earlier later : Path =>
      (∀ first second, earlier = twin first → later = twin second → (version first).isSome = true →
        (version second).isSome = true → ¬ temporary second <+: first) ∧
      ∀ first second, later = twin first → earlier = twin second → (version first).isSome = true →
        (version second).isSome = true → ¬ temporary second <+: first :=
    ⟨fun _ _ either => either.symm⟩
  exact (both.forall firstListed secondListed apart).1 first second rfl rfl firstShown secondShown

/-- A root comes back from every copy of its shadow exactly when its names and what is in its
shadow leave room. -/
theorem shadowRoundTrip_iff {versionHash : String} (lawful : crypto.Lawful)
    (small : key.currentEpoch < 2 ^ 64)
    (seals : ∀ rel content, plaintext tree root rel = some content →
      ∀ nonce, (crypto.aeadEncrypt key.currentKey nonce content).isSome = true)
    (history : ShadowHistory crypto root tree)
    (snapshot : snapshotContent crypto tree root = .ok (versionHash, manifest)) :
    RoundTrips crypto key root nonces manifest tree ↔ ShadowFits root tree := by
  have isVersion := isVersion_plaintext tree root
  have rootThere := look_of_snapshotContent snapshot
  have own := history.ownShadow
  obtain ⟨listed, unique⟩ : (∀ rel, rel ∈ manifest ↔ (plaintext tree root rel).isSome = true) ∧
      manifest.Nodup := by
    obtain ⟨_, again, listed⟩ := snapshotContent_ok crypto rootThere
    cases snapshot.symm.trans again
    exact ⟨listed, nodup_of_snapshotContent snapshot⟩
  have encryptable : Encryptable crypto key root manifest tree := by
    refine ⟨?_, fun rel member => isVersion.legal ((listed rel).mp member)⟩
    intro rel member
    obtain ⟨content, shown⟩ := Option.isSome_iff_exists.mp ((listed rel).mp member)
    exact ⟨content, shown, seals rel content shown⟩
  have runs : Sealable tree root manifest →
      ∃ after, syncPlaintextToShadow crypto tree root key nonces manifest = (.ok (), after) ∧
        SealedShadow crypto key root manifest tree after :=
    fun sealable => syncPlaintextToShadow_runs nonces unique (own.creatable rootThere) sealable encryptable
  constructor
  · intro ⟨after, ran, back⟩
    have sealable := sealable_of_syncPlaintextToShadow
      (fun rel member => isVersion.nonempty ((listed rel).mp member)) ran
    obtain ⟨clear, free, twinApart, _⟩ := (sealable_iff listed).mp sealable
    obtain ⟨_, again, sealed_⟩ := runs sealable
    cases ran.symm.trans again
    have rootAfter : after.look root = some .directory :=
      FileTree.look_above (by simp) sealed_.shadowThere
    have copies := copiesShadow_onlyShadow rootAfter
    -- The same copy is listed in both orders.
    have shadowThere := copies.shadowThere sealed_.shadowThere
    obtain ⟨listing, collected, _, _⟩ := collectFiles_ok shadowThere
    obtain ⟨copied, final, decryption, same, inCopied⟩ := back root _ copies
    obtain ⟨met, forward⟩ :=
      orderly_of_roundTrip listed shadowThere collected decryption same inCopied
    obtain ⟨copied, final, decryption, same, inCopied⟩ := back root _ copies.reversed
    obtain ⟨_, backward⟩ := orderly_of_roundTrip listed
      (copies.reversed.shadowThere sealed_.shadowThere) (collectFiles_reversed shadowThere collected)
      decryption same inCopied
    refine ⟨fun rel shown => (met rel shown).1, fun rel shown => (met rel shown).2.1, ?_, twinApart,
      clear, free⟩
    intro first second firstShown secondShown above
    have apart : twin first ≠ twin second := fun sameTwin =>
      temporary_ne_of_prefix (isVersion.nonempty secondShown) above
        (withSuffix_injective (isVersion.nonempty firstShown) (isVersion.nonempty secondShown) sameTwin)
    exact forward.tmpApart backward (met first firstShown).2.2 (met second secondShown).2.2 apart
      firstShown secondShown above
  · intro fits
    obtain ⟨after, ran, sealed_⟩ :=
      runs ((sealable_iff listed).mpr ⟨fits.clear, fits.free, fits.twinApart,
        fun rel shown => (fits.short rel shown).bin⟩)
    exact ⟨after, ran, fun copyRoot copy copies =>
      sealed_.reaches lawful small listed own fits copies⟩

theorem shadowFits_of_listing {listing : List Path} (rootThere : tree.look root = some .directory)
    (collected : collectFiles tree root = .ok listing)
    (text : ∀ rel ∈ listing, validUtf8 (rel.getLastD []) = true)
    (short : ∀ rel ∈ listing, NameFits tmpSuffix rel)
    (tmpApart : ∀ first ∈ listing, ∀ second ∈ listing, ¬ temporary second <+: first)
    (twinApart : ∀ first ∈ listing, ∀ second ∈ listing, ¬ twin first <+: second.dropLast)
    (clear : ∀ rel ∈ listing, ∀ above ∈ rel.dropLast.inits,
      tree.isFile (shadowRoot root ++ above) = false)
    (free : ∀ rel ∈ listing, tree.look (shadowRoot root ++ twin rel) ≠ some .directory) :
    ShadowFits root tree := by
  obtain ⟨_, again, _, listed⟩ := collectFiles_ok rootThere
  cases collected.symm.trans again
  refine ⟨?_, ?_, ?_, ?_, ?_, ?_⟩
  · exact fun rel shown => text rel ((listed rel).mpr shown)
  · exact fun rel shown => short rel ((listed rel).mpr shown)
  · exact fun first second firstShown secondShown =>
      tmpApart first ((listed first).mpr firstShown) second ((listed second).mpr secondShown)
  · exact fun first second firstShown secondShown =>
      twinApart first ((listed first).mpr firstShown) second ((listed second).mpr secondShown)
  · exact fun rel shown above inside =>
      clear rel ((listed rel).mpr shown) above ((List.mem_inits _ _).mpr inside)
  · exact fun rel shown => free rel ((listed rel).mpr shown)

end RoundTrip

section Samples

open Reference

def noNonces : Nat → Nonce := fun _ => .ofBytes 24 []

/-- A share with files of two versions: one that is kept and one that is to be deleted. -/
def firstVersion : FileTree :=
  .ofFiles [(share ++ [ascii "kept", ascii "a"], [1]), (share ++ [ascii "old"], [2])]

def firstManifest : Manifest := [[ascii "kept", ascii "a"], [ascii "old"]]

/-- The same share after a pass and a deletion. Its shadow has the twins of both files. -/
def secondVersion : FileTree :=
  tryRemove (syncPlaintextToShadow cleartext firstVersion share shareRing noNonces firstManifest).2
    (share ++ [ascii "old"])

def secondManifest : Manifest := [[ascii "kept", ascii "a"]]

theorem secondVersion_history : ShadowHistory cleartext share secondVersion := by
  have snapshot : snapshotContent cleartext firstVersion share =
      .ok (Rotation.toHex (cleartext.blake3 (snapshotFeed cleartext firstVersion share)),
        firstManifest) := by decide +kernel
  refine .edited (.synced shareRing noNonces (.fresh (by decide +kernel)) snapshot) ?_
  intro path below
  rw [secondVersion, look_tryRemove, if_neg]
  intro ⟨same, _⟩
  rw [same] at below
  exact absurd below (by decide)

/-- A share with an earlier version's shadow comes back. -/
theorem secondVersion_roundTrips :
    RoundTrips cleartext shareRing share noNonces secondManifest secondVersion := by
  have snapshot : snapshotContent cleartext secondVersion share =
      .ok (Rotation.toHex (cleartext.blake3 (snapshotFeed cleartext secondVersion share)),
        secondManifest) := by decide +kernel
  have fits : ShadowFits share secondVersion :=
    shadowFits_of_listing (by decide +kernel)
      (by decide +kernel : collectFiles secondVersion share = .ok secondManifest)
      (by decide +kernel) (by decide +kernel) (by decide +kernel) (by decide +kernel)
      (by decide +kernel) (by decide +kernel)
  exact (shadowRoundTrip_iff cleartext_lawful (by decide) (fun _ _ _ _ => rfl)
    secondVersion_history snapshot).mpr fits

/-- A file whose twin has the name of a directory beside it. -/
def meetingNames : FileTree :=
  .ofFiles [(share ++ [ascii "a"], [1]), (share ++ [ascii "a.bin", ascii "x"], [2])]

/-- Such a share is never encrypted. -/
theorem meetingNames_refused :
    ShadowHistory cleartext share meetingNames ∧
      ∃ versionHash manifest,
        snapshotContent cleartext meetingNames share = .ok (versionHash, manifest) ∧
        ¬ RoundTrips cleartext shareRing share noNonces manifest meetingNames := by
  have snapshot : snapshotContent cleartext meetingNames share =
      .ok (Rotation.toHex (cleartext.blake3 (snapshotFeed cleartext meetingNames share)),
        [[ascii "a"], [ascii "a.bin", ascii "x"]]) := by decide +kernel
  refine ⟨.fresh (by decide +kernel), _, _, snapshot, ?_⟩
  intro ⟨after, ran, _⟩
  have refused : (syncPlaintextToShadow cleartext meetingNames share shareRing noNonces
      [[ascii "a"], [ascii "a.bin", ascii "x"]]).1.isOk = false := by decide +kernel
  rw [ran] at refused
  cases refused

end Samples

end Peerdup.Daemon
