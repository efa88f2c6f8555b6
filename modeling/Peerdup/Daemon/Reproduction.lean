import Peerdup.Daemon.ApplyRemote
import Peerdup.Daemon.CompletePass
import Peerdup.Reference
import Peerdup.RotationProperties

/-!
# Applying a remote version

When `apply_remote_sync` turns the content of a share root into the announced version.
-/

set_option autoImplicit false

namespace Peerdup.Daemon

open Foundation Crypto

/-- A local version in sync on disk: its files, and their ciphertext alone in the shadow. -/
structure InSync (crypto : Primitives) (key : KeyRing) (root : Path) (manifest : Manifest)
    (tree : FileTree) : Prop where
  rootThere : tree.look root = some .directory
  shadowThere : tree.look (shadowRoot root) = some .directory
  twins : ∀ rel ∈ manifest, ∃ content ciphertext, plaintext tree root rel = some content ∧
    plaintext tree (shadowRoot root) (twin rel) = some ciphertext ∧
      decrypt crypto key ciphertext = .ok content
  noOthers : ∀ shadowRel, (plaintext tree (shadowRoot root) shadowRel).isSome = true →
    ∃ rel ∈ manifest, shadowRel = twin rel

/-- librqbit has written the ciphertext of a version, and left all else as it was. -/
structure Delivered (crypto : Primitives) (key : KeyRing) (root : Path)
    (version : Path → Option Bytes) (before fetched : FileTree) : Prop where
  shadowThere : fetched.look (shadowRoot root) = some .directory
  outside : ∀ path, ¬ shadowRoot root <+: path → fetched.look path = before.look path
  written : ∀ rel content, version rel = some content → ∃ ciphertext,
    plaintext fetched (shadowRoot root) (twin rel) = some ciphertext ∧
      decrypt crypto key ciphertext = .ok content
  alone : ∀ shadowRel, (∀ rel, (version rel).isSome = true → shadowRel ≠ twin rel) →
    plaintext fetched (shadowRoot root) shadowRel = plaintext before (shadowRoot root) shadowRel

/-- The old and the new version's paths hold the new version, and the user's files are kept. -/
structure Reproduced (version : Path → Option Bytes) (root : Path) (old new : Manifest)
    (before after : FileTree) : Prop where
  content : ∀ rel, rel ∈ old ∨ (version rel).isSome = true → plaintext after root rel = version rel
  manifest : ∀ rel, rel ∈ new ↔ (version rel).isSome = true
  others : ∀ rel content, rel ∉ old → version rel = none →
    plaintext before root rel = some content → plaintext after root rel = some content

/-- The version drops no file of the root, its names are text and leave room for the temporary
suffix, and nothing is in the way of its files. -/
structure Reproducible (version : Path → Option Bytes) (root : Path) (before fetched : FileTree) :
    Prop where
  covers : ∀ rel, (plaintext before root rel).isSome = true → (version rel).isSome = true
  text : ∀ rel, (version rel).isSome = true → validUtf8 (rel.getLastD []) = true
  short : ∀ rel, (version rel).isSome = true → NameFits tmpSuffix rel
  targetFree : ∀ rel, (version rel).isSome = true → before.look (root ++ rel) ≠ some .directory
  tmpFree : ∀ rel, (version rel).isSome = true →
    before.look (root ++ temporary rel) ≠ some .directory
  orderly : ∀ listing, collectFiles fetched (shadowRoot root) = .ok listing →
    Orderly version listing

section Paths

variable {root rel : Path}

theorem not_shadow_prefix_root (root : Path) : ¬ shadowRoot root <+: root := by
  intro above
  have longer := above.length_le
  simp only [shadowRoot, List.length_append, List.length_cons, List.length_nil] at longer
  omega

theorem not_shadow_prefix_of_outside (root : Path) (outside : peerdupDirName ∉ rel) :
    ¬ shadowRoot root <+: root ++ rel := by
  rw [shadowRoot, List.prefix_append_right_inj]
  intro above
  exact outside (above.subset List.mem_cons_self)

theorem text_of_plaintextRel {shadowRel : Path}
    (named : plaintextRelFromShadowRel shadowRel = some (.file rel)) :
    shadowRel = twin rel ∧ validUtf8 (rel.getLastD []) = true ∧
      validUtf8 ((temporary rel).getLastD []) = true := by
  obtain ⟨dir, name, rfl, isTwin, valid⟩ := eq_twin_of_plaintextRel named
  refine ⟨isTwin, by simpa using valid, ?_⟩
  rw [temporary, withSuffix_append, List.getLastD_concat, validUtf8_tmpSuffix]
  exact valid

end Paths

section Apply

variable {crypto : Primitives} {device after : Device} {root : Path} {remote : RemoteVersion}
  {key : KeyRing} {fetch : FileTree → Fetch} {state applied : ShareState} {torrentId : Nat}

/-- How a fetched version is applied: decrypt, check the hash, remove orphans. -/
theorem applyRemoteSync_of_ok (shadowThere : device.tree.look (shadowRoot root) = some .directory)
    (ran : applyRemoteSync crypto device root remote key fetch (some state) = (.ok applied, after)) :
    ∃ decrypted manifest, syncShadowToPlaintext crypto (fetch device.tree).tree root key =
        (.ok applied.manifest, decrypted) ∧
      snapshotContent crypto decrypted root = .ok (remote.versionHash, manifest) ∧
      after.tree = deleteOrphans decrypted root state.manifest applied.manifest := by
  unfold applyRemoteSync at ran
  split at ran
  · cases ran
  dsimp only at ran
  have made : (device.deleteCurrent (some state)).tree.createDirAll (shadowRoot root) =
      .ok device.tree := FileTree.createDirAll_of_directory shadowThere
  rw [made] at ran
  dsimp only at ran
  split at ran
  · cases ran
  · cases ran
  split at ran
  · cases ran
  split at ran
  · cases ran
  next newManifest decrypted decryption =>
    split at ran
    · cases ran
    next computed manifest snapshot =>
      split at ran
      · cases ran
      next agreed =>
        obtain ⟨same, last⟩ := Prod.mk.inj ran
        cases same
        cases last
        exact ⟨decrypted, manifest, decryption, not_not.mp agreed ▸ snapshot, rfl⟩

theorem applyRemoteSync_goes_through (state : ShareState)
    (shadowThere : device.tree.look (shadowRoot root) = some .directory)
    (peers : (usablePeers remote.btEndpoints).isEmpty = false)
    (added : (fetch device.tree).added = .ok (some torrentId))
    (completed : (fetch device.tree).completed = .ok ()) {newManifest manifest : Manifest}
    {decrypted : FileTree}
    (decryption : syncShadowToPlaintext crypto (fetch device.tree).tree root key =
      (.ok newManifest, decrypted))
    (snapshot : snapshotContent crypto decrypted root = .ok (remote.versionHash, manifest)) :
    ∃ after, applyRemoteSync crypto device root remote key fetch (some state) =
        (.ok (appliedState (some state) remote torrentId newManifest), after) ∧
      after.tree = deleteOrphans decrypted root state.manifest newManifest := by
  have made : (device.deleteCurrent (some state)).tree.createDirAll (shadowRoot root) =
      .ok device.tree := FileTree.createDirAll_of_directory shadowThere
  unfold applyRemoteSync
  rw [peers, if_neg Bool.false_ne_true]
  dsimp only
  rw [made]
  dsimp only
  rw [added]
  dsimp only
  rw [completed]
  dsimp only [Device.withTree, Device.addTorrent]
  rw [decryption]
  dsimp only
  rw [snapshot]
  dsimp only
  rw [if_neg (not_not.mpr rfl)]
  exact ⟨_, rfl, rfl⟩

variable {version : Path → Option Bytes} {fetched : FileTree} {manifest : Manifest}

theorem plaintext_eq_of_outside {before : FileTree} (outside : ∀ path, ¬ shadowRoot root <+: path →
    fetched.look path = before.look path) (rel : Path) :
    plaintext fetched root rel = plaintext before root rel := by
  unfold plaintext
  by_cases hidden : rel = [] ∨ peerdupDirName ∈ rel
  · rw [if_pos hidden, if_pos hidden]
  · rw [if_neg hidden, if_neg hidden, outside _ (not_shadow_prefix_of_outside root (not_or.mp hidden).2)]

theorem mem_listing {listing : List Path} {tree : FileTree}
    (inSync : InSync crypto key root manifest tree)
    (delivered : Delivered crypto key root version tree fetched)
    (collected : collectFiles fetched (shadowRoot root) = .ok listing) {rel : Path}
    (held : rel ∈ manifest ∨ (version rel).isSome = true) : twin rel ∈ listing := by
  obtain ⟨_, listedOk, _, listed⟩ := collectFiles_ok delivered.shadowThere
  cases listedOk.symm.trans collected
  rw [listed]
  by_cases announced : ∃ other, (version other).isSome = true ∧ twin rel = twin other
  · obtain ⟨other, shown, same⟩ := announced
    obtain ⟨content, current⟩ := Option.isSome_iff_exists.mp shown
    obtain ⟨ciphertext, written, _⟩ := delivered.written other content current
    rw [same, written]
    rfl
  · have stale : ∀ other, (version other).isSome = true → twin rel ≠ twin other :=
      fun other shown same => announced ⟨other, shown, same⟩
    rcases held with old | shown
    · obtain ⟨_, ciphertext, _, kept, _⟩ := inSync.twins rel old
      rw [delivered.alone _ stale, kept]
      rfl
    · exact absurd rfl (stale rel shown)

theorem listing_mem {listing : List Path} {tree : FileTree}
    (inSync : InSync crypto key root manifest tree)
    (delivered : Delivered crypto key root version tree fetched)
    (collected : collectFiles fetched (shadowRoot root) = .ok listing) {shadowRel : Path}
    (member : shadowRel ∈ listing) :
    ∃ rel, (rel ∈ manifest ∨ (version rel).isSome = true) ∧ shadowRel = twin rel := by
  obtain ⟨_, listedOk, _, listed⟩ := collectFiles_ok delivered.shadowThere
  cases listedOk.symm.trans collected
  by_cases announced : ∃ rel, (version rel).isSome = true ∧ shadowRel = twin rel
  · obtain ⟨rel, shown, same⟩ := announced
    exact ⟨rel, .inr shown, same⟩
  · have shown := (listed shadowRel).mp member
    rw [delivered.alone shadowRel fun rel shown same => announced ⟨rel, shown, same⟩] at shown
    obtain ⟨rel, old, same⟩ := inSync.noOthers shadowRel shown
    exact ⟨rel, .inl old, same⟩

theorem syncShadowToPlaintext_reaches {tree : FileTree} (isVersion : IsVersion version)
    (inSync : InSync crypto key root manifest tree)
    (delivered : Delivered crypto key root version tree fetched)
    (reproducible : Reproducible version root tree fetched) :
    ∃ newManifest decrypted, syncShadowToPlaintext crypto fetched root key =
        (.ok newManifest, decrypted) ∧
      decrypted.look root = some .directory ∧
      (∀ rel, plaintext decrypted root rel = version rel) ∧
      ∀ rel, rel ∈ newManifest ↔ (version rel).isSome = true := by
  obtain ⟨listing, collected, _, _⟩ := collectFiles_ok delivered.shadowThere
  have held : ∀ shadowRel ∈ listing, ∃ rel, (version rel).isSome = true ∧ shadowRel = twin rel := by
    intro shadowRel member
    obtain ⟨rel, old | shown, same⟩ := listing_mem inSync delivered collected member
    · obtain ⟨content, _, there, _⟩ := inSync.twins rel old
      exact ⟨rel, reproducible.covers rel (there ▸ rfl), same⟩
    · exact ⟨rel, shown, same⟩
  have all : ∀ {rel}, (version rel).isSome = true → twin rel ∈ listing :=
    fun shown => mem_listing inSync delivered collected (.inr shown)
  have start : Pass version root fetched listing fetched := by
    refine ⟨?_, fun _ => rfl, ?_, ?_, ?_, ?_, ?_⟩
    · rw [delivered.outside root (not_shadow_prefix_root root)]
      exact inSync.rootThere
    · intro rel shown
      rw [plaintext_eq_of_outside delivered.outside] at shown
      exact reproducible.covers rel shown
    · intro rel shown
      rw [delivered.outside _ (not_shadow_prefix_of_outside root (isVersion.outside shown))]
      exact reproducible.targetFree rel shown
    · intro rel shown _
      have outside := not_mem_temporary (isVersion.outside shown)
      rw [delivered.outside _ (not_shadow_prefix_of_outside root outside)]
      exact reproducible.tmpFree rel shown
    · intro rel content current later
      exact absurd (all (current ▸ rfl)) later
    · intro first second shown _ later
      exact absurd (all shown) later
  have holds : Holds crypto key root version fetched := by
    refine ⟨?_, reproducible.text, reproducible.short⟩
    intro rel content current
    obtain ⟨ciphertext, written, opened⟩ := delivered.written rel content current
    exact ⟨ciphertext, (plaintext_eq_some_iff.mp written).2.2, opened⟩
  exact start.reaches isVersion delivered.shadowThere collected holds
    (reproducible.orderly listing collected) (fun shadowRel member => .inr (held shadowRel member))
    fun _ shown => all shown

/-- Removing orphans creates nothing. -/
theorem plaintext_of_deleteOrphans {tree : FileTree} {old new : Manifest} {rel : Path} {content : Bytes}
    (shown : plaintext (deleteOrphans tree root old new) root rel = some content) :
    plaintext tree root rel = some content := by
  obtain ⟨nonempty, outside, found⟩ := plaintext_eq_some_iff.mp shown
  rw [look_deleteOrphans] at found
  split at found
  · cases found
  · exact plaintext_eq_some_iff.mpr ⟨nonempty, outside, found⟩

/-- Where the decrypted root has no file that the version lacks, nothing was dropped. -/
theorem covers_of_reproduced {tree decrypted : FileTree} {newManifest : Manifest} {listing : List Path}
    (inSync : InSync crypto key root manifest tree)
    (delivered : Delivered crypto key root version tree fetched)
    (collected : collectFiles fetched (shadowRoot root) = .ok listing)
    (ran : decryptFiles crypto root key listing [] fetched = (.ok newManifest, decrypted))
    (reproduced : Reproduced version root manifest newManifest tree
      (deleteOrphans decrypted root manifest newManifest))
    (noExtra : ∀ {rel content}, plaintext decrypted root rel = some content → version rel ≠ none)
    {rel : Path} (before : (plaintext tree root rel).isSome = true) : (version rel).isSome = true := by
  rw [← Option.ne_none_iff_isSome]
  intro dropped
  obtain ⟨content, there⟩ := Option.isSome_iff_exists.mp before
  by_cases old : rel ∈ manifest
  swap
  · have stays := reproduced.others rel content old dropped there
    exact noExtra (plaintext_of_deleteOrphans stays) dropped
  by_cases text : validUtf8 (rel.getLastD []) = true
  · -- Its stale ciphertext was decrypted, so the returned manifest lists it.
    have listed := mem_listing inSync delivered collected (.inl old)
    have named := (isVersion_plaintext tree root).plaintextRel_twin before text
    have kept := (reproduced.manifest rel).mp ((mem_decryptFiles ran).mpr (.inr ⟨_, listed, named⟩))
    rw [dropped] at kept
    cases kept
  · -- It was not decrypted, so it still lies in the root.
    obtain ⟨nonempty, outside, found⟩ := plaintext_eq_some_iff.mp there
    rw [← delivered.outside _ (not_shadow_prefix_of_outside root outside)] at found
    have stays := kept_decryptFiles ran found (by
      intro shadowRel _ other named
      obtain ⟨_, otherText, tmpText⟩ := text_of_plaintextRel named
      constructor
      · intro same
        exact text (List.append_cancel_left same ▸ otherText)
      · intro same
        exact text (List.append_cancel_left same ▸ tmpText))
    exact noExtra (plaintext_eq_some_iff.mpr ⟨nonempty, outside, stays⟩) dropped

/-- What a successful application tells about the version and the disk before it. -/
theorem reproducible_of_reproduced {tree remoteTree decrypted : FileTree} {remoteRoot : Path}
    {newManifest : Manifest} (inSync : InSync crypto key root manifest tree)
    (delivered : Delivered crypto key root (plaintext remoteTree remoteRoot) tree fetched)
    (remoteThere : remoteTree.look remoteRoot = some .directory)
    (rootThere : decrypted.look root = some .directory)
    (decryption : syncShadowToPlaintext crypto fetched root key = (.ok newManifest, decrypted))
    (sameFeed : snapshotFeed crypto decrypted root = snapshotFeed crypto remoteTree remoteRoot)
    (reproduced : Reproduced (plaintext remoteTree remoteRoot) root manifest newManifest tree
      (deleteOrphans decrypted root manifest newManifest)) :
    Reproducible (plaintext remoteTree remoteRoot) root tree fetched := by
  have isVersion := isVersion_plaintext remoteTree remoteRoot
  obtain ⟨listing, collected, unique, _⟩ := collectFiles_ok delivered.shadowThere
  have ran : decryptFiles crypto root key listing [] fetched = (.ok newManifest, decrypted) := by
    rw [syncShadowToPlaintext, if_neg (by rw [delivered.shadowThere]; simp), collected] at decryption
    exact decryption
  have current : ∀ {rel content}, plaintext remoteTree remoteRoot rel = some content →
      plaintext decrypted root rel = some content := by
    intro rel content announced
    have shown := reproduced.content rel (.inr (announced ▸ rfl))
    exact plaintext_of_deleteOrphans (shown.trans announced)
  -- The hash leaves no room for a file that the version lacks.
  have noExtra : ∀ {rel content}, plaintext decrypted root rel = some content →
      plaintext remoteTree remoteRoot rel ≠ none := by
    intro rel content shown fresh
    have longer := snapshotFeed_lt crypto remoteThere rootThere (fun other there => by
      obtain ⟨held, announced⟩ := Option.isSome_iff_exists.mp there
      rw [announced, current announced]) fresh (shown ▸ rfl)
    rw [sameFeed] at longer
    omega
  have placed : ∀ {rel}, (plaintext remoteTree remoteRoot rel).isSome = true →
      plaintextRelFromShadowRel (twin rel) = some (.file rel) ∧ twin rel ∈ listing := by
    intro rel shown
    rcases (mem_decryptFiles ran).mp ((reproduced.manifest rel).mpr shown) with
      impossible | ⟨shadowRel, member, named⟩
    · cases impossible
    · cases (text_of_plaintextRel named).1
      exact ⟨named, member⟩
  refine ⟨?_, ?_, ?_, ?_, ?_, ?_⟩
  · intro rel before
    exact covers_of_reproduced inSync delivered collected ran reproduced noExtra before
  · intro rel shown
    exact (text_of_plaintextRel (placed shown).1).2.1
  · intro rel shown
    exact nameFits_decryptFiles ran (placed shown).2 (placed shown).1
  · intro rel shown
    have free := (free_decryptFiles ran (placed shown).2 (placed shown).1).1
    rwa [delivered.outside _ (not_shadow_prefix_of_outside root (isVersion.outside shown))] at free
  · intro rel shown
    have outside := not_mem_temporary (isVersion.outside shown)
    have free := (free_decryptFiles ran (placed shown).2 (placed shown).1).2
    rwa [delivered.outside _ (not_shadow_prefix_of_outside root outside)] at free
  · intro other otherCollected
    cases collected.symm.trans otherCollected
    refine (ordered_decryptFiles unique ran).imp ?_
    intro earlier later takes first second firstTwin secondTwin firstShown secondShown above
    subst firstTwin secondTwin
    have gone := takes first second (placed firstShown).1 (placed secondShown).1 above
    obtain ⟨content, announced⟩ := Option.isSome_iff_exists.mp firstShown
    rw [FileTree.isFile, (plaintext_eq_some_iff.mp (current announced)).2.2] at gone
    cases gone

/-- Applying a remote version reproduces it exactly when the version drops no file of the
root, and its files have names that can be written and nothing in their way. -/
theorem applyRemoteSync_reproduces_iff {remoteTree : FileTree} {remoteRoot : Path}
    {remoteManifest : Manifest}
    (inSync : InSync crypto key root state.manifest device.tree)
    (announced : snapshotContent crypto remoteTree remoteRoot =
      .ok (remote.versionHash, remoteManifest))
    (peers : (usablePeers remote.btEndpoints).isEmpty = false)
    (delivered : Delivered crypto key root (plaintext remoteTree remoteRoot) device.tree
      (fetch device.tree).tree)
    (added : (fetch device.tree).added = .ok (some torrentId))
    (completed : (fetch device.tree).completed = .ok ())
    (collisionFree : ∀ newManifest decrypted,
      syncShadowToPlaintext crypto (fetch device.tree).tree root key = (.ok newManifest, decrypted) →
      crypto.blake3 (snapshotFeed crypto decrypted root) =
        crypto.blake3 (snapshotFeed crypto remoteTree remoteRoot) →
      snapshotFeed crypto decrypted root = snapshotFeed crypto remoteTree remoteRoot) :
    (∃ applied after, applyRemoteSync crypto device root remote key fetch (some state) =
        (.ok applied, after) ∧
      Reproduced (plaintext remoteTree remoteRoot) root state.manifest applied.manifest device.tree
        after.tree) ↔
      Reproducible (plaintext remoteTree remoteRoot) root device.tree (fetch device.tree).tree := by
  have remoteThere := look_of_snapshotContent announced
  obtain ⟨_, remoteSnapshot, _⟩ := snapshotContent_ok crypto remoteThere
  have remoteHash := (Prod.mk.inj (Except.ok.inj (remoteSnapshot.symm.trans announced))).1
  constructor
  · intro ⟨applied, after, ran, reproduced⟩
    obtain ⟨decrypted, _, decryption, snapshot, last⟩ :=
      applyRemoteSync_of_ok inSync.shadowThere ran
    have rootThere := look_of_snapshotContent snapshot
    obtain ⟨_, ownSnapshot, _⟩ := snapshotContent_ok crypto rootThere
    have ownHash := (Prod.mk.inj (Except.ok.inj (ownSnapshot.symm.trans snapshot))).1
    have sameFeed := collisionFree _ _ decryption
      (Rotation.toHex_injective (ownHash.trans remoteHash.symm))
    rw [last] at reproduced
    exact reproducible_of_reproduced inSync delivered remoteThere rootThere decryption sameFeed reproduced
  · intro reproducible
    obtain ⟨newManifest, decrypted, decryption, rootThere, same, listed⟩ :=
      syncShadowToPlaintext_reaches (isVersion_plaintext remoteTree remoteRoot) inSync delivered
        reproducible
    obtain ⟨taken, snapshot, _⟩ := snapshotContent_ok crypto rootThere
    rw [snapshotFeed_congr crypto rootThere remoteThere same, remoteHash] at snapshot
    obtain ⟨after, ran, last⟩ := applyRemoteSync_goes_through state inSync.shadowThere
      peers added completed decryption snapshot
    -- No file of the old version is an orphan.
    have noOrphan : ∀ path, (deleteOrphans decrypted root state.manifest newManifest).look path =
        decrypted.look path := by
      intro path
      rw [look_deleteOrphans, if_neg]
      intro ⟨⟨rel, old, gone, _⟩, _⟩
      obtain ⟨content, _, there, _⟩ := inSync.twins rel old
      exact gone ((listed rel).mpr (reproducible.covers rel (there ▸ rfl)))
    have final : ∀ rel, plaintext after.tree root rel = plaintext remoteTree remoteRoot rel := by
      intro rel
      rw [← same rel, last]
      unfold plaintext
      rw [noOrphan]
    refine ⟨_, after, ran, fun rel _ => final rel, listed, ?_⟩
    intro rel content _ dropped there
    have covered := reproducible.covers rel (there ▸ rfl)
    rw [dropped] at covered
    cases covered

end Apply

theorem delivered_of_write {crypto : Primitives} {key : KeyRing} {root rel : Path}
    {version : Path → Option Bytes} {before fetched : FileTree} {content ciphertext : Bytes}
    (shadowThere : before.look (shadowRoot root) = some .directory) (nonempty : rel ≠ [])
    (visible : peerdupDirName ∉ twin rel)
    (wrote : before.write (shadowRoot root ++ twin rel) ciphertext = .ok fetched)
    (opened : decrypt crypto key ciphertext = .ok content)
    (only : ∀ other, version other = if other = rel then some content else none) :
    Delivered crypto key root version before fetched := by
  refine ⟨?_, ?_, ?_, ?_⟩
  · exact FileTree.directory_write wrote shadowThere
  · intro path outside
    rw [FileTree.look_write wrote, if_neg]
    intro same
    exact outside (same ▸ List.prefix_append _ _)
  · intro other held current
    rw [only] at current
    split at current
    · next same =>
        cases current
        refine ⟨ciphertext, plaintext_eq_some_iff.mpr ⟨same ▸ twin_ne_nil nonempty, same ▸ visible, ?_⟩, opened⟩
        rw [same, FileTree.look_write wrote, if_pos rfl]
    · cases current
  · intro shadowRel stale
    have apart : shadowRel ≠ twin rel := by
      refine stale rel ?_
      rw [only, if_pos rfl]
      rfl
    unfold plaintext
    rw [FileTree.look_write wrote, if_neg fun same => apart (List.append_cancel_left same)]

theorem inSync_of_listing {crypto : Primitives} {key : KeyRing} {root : Path} {manifest : Manifest}
    {tree : FileTree} (listing : List Path) (rootThere : tree.look root = some .directory)
    (shadowThere : tree.look (shadowRoot root) = some .directory)
    (collected : collectFiles tree (shadowRoot root) = .ok listing)
    (twinned : ∀ shadowRel ∈ listing, shadowRel ∈ manifest.map twin)
    (present : ∀ rel ∈ manifest, (plaintext tree root rel).isSome = true)
    (opened : ∀ rel ∈ manifest, (plaintext tree (shadowRoot root) (twin rel)).map (decrypt crypto key) =
      (plaintext tree root rel).map .ok) :
    InSync crypto key root manifest tree := by
  refine ⟨rootThere, shadowThere, ?_, ?_⟩
  · intro rel member
    obtain ⟨content, there⟩ := Option.isSome_iff_exists.mp (present rel member)
    have opens := opened rel member
    rw [there, Option.map_some, Option.map_eq_some_iff] at opens
    obtain ⟨ciphertext, kept, decrypted⟩ := opens
    exact ⟨content, ciphertext, there, kept, decrypted⟩
  · intro shadowRel shown
    obtain ⟨_, listedOk, _, listed⟩ := collectFiles_ok shadowThere
    cases listedOk.symm.trans collected
    obtain ⟨rel, member, same⟩ := List.mem_map.mp (twinned shadowRel ((listed shadowRel).mpr shown))
    exact ⟨rel, member, same.symm⟩

section Samples

open Reference

def share : Path := [ascii "share"]

def shareRing : KeyRing := ⟨[.ofBytes 32 [7]], by simp⟩

def sealedBytes (content : Bytes) : Bytes :=
  match encrypt cleartext shareRing (.ofBytes 24 []) content with
  | .ok ciphertext => ciphertext
  | .error _ => []

/-- A share in sync, with one byte in every file. -/
def syncedShare (names : List String) : FileTree :=
  .ofFiles (names.flatMap fun name =>
    [(share ++ [ascii name], [1]), (shadowRoot share ++ twin [ascii name], sealedBytes [1])])

def syncedManifest (names : List String) : Manifest := names.map fun name => [ascii name]

def syncedState (names : List String) : ShareState where
  versionHash := Rotation.toHex (cleartext.blake3 (snapshotFeed cleartext (syncedShare names) share))
  infoHash := "local"
  torrentId := 0
  clock := .new
  timestamp := 0
  manifest := syncedManifest names

/-- A peer's root that holds one renewed file. -/
def renewedShare : FileTree := .ofFiles [([ascii "peer", ascii "a"], [2])]

def renewed : RemoteVersion where
  infoHash := "remote"
  btEndpoints := [("127.0.0.1", 4240)]
  versionHash := Rotation.toHex (cleartext.blake3 (snapshotFeed cleartext renewedShare [ascii "peer"]))
  clock := .new
  timestamp := 1

def syncedDevice (names : List String) : Device := ⟨syncedShare names, [0], none⟩

def fetchRenewed (tree : FileTree) : Fetch where
  added := .ok (some 1)
  tree := tree.place (shadowRoot share ++ twin [ascii "a"]) (sealedBytes [2])
  completed := .ok ()

theorem soloShare_inSync :
    InSync cleartext shareRing share (syncedState ["a"]).manifest (syncedShare ["a"]) :=
  inSync_of_listing [[ascii "a.bin"]] (by decide +kernel) (by decide +kernel)
    (by decide +kernel) (by decide +kernel) (by decide +kernel) (by decide +kernel)

theorem pairShare_inSync :
    InSync cleartext shareRing share (syncedState ["a", "b"]).manifest (syncedShare ["a", "b"]) :=
  inSync_of_listing [[ascii "a.bin"], [ascii "b.bin"]] (by decide +kernel) (by decide +kernel)
    (by decide +kernel) (by decide +kernel) (by decide +kernel) (by decide +kernel)

theorem renewedShare_content (rel : Path) :
    plaintext renewedShare [ascii "peer"] rel = if rel = [ascii "a"] then some [2] else none := by
  by_cases here : rel = [ascii "a"]
  · rw [if_pos here, here]
    decide +kernel
  · rw [if_neg here]
    have there : renewedShare.look [ascii "peer"] = some .directory := by decide +kernel
    have walked : collectFiles renewedShare [ascii "peer"] = .ok [[ascii "a"]] := by decide +kernel
    obtain ⟨_, collected, _, listed⟩ := collectFiles_ok there
    cases collected.symm.trans walked
    have absent := mt (listed rel).mpr (by simpa using here)
    exact Option.not_isSome_iff_eq_none.mp absent

theorem renewed_announced : ∃ manifest, snapshotContent cleartext renewedShare [ascii "peer"] =
    .ok (renewed.versionHash, manifest) := by
  have there : renewedShare.look [ascii "peer"] = some .directory := by decide +kernel
  obtain ⟨manifest, snapshot, _⟩ := snapshotContent_ok cleartext there
  exact ⟨manifest, snapshot⟩

theorem fetchRenewed_delivers {tree : FileTree}
    (shadowThere : tree.look (shadowRoot share) = some .directory)
    (free : tree.look (shadowRoot share ++ twin [ascii "a"]) ≠ some .directory) :
    Delivered cleartext shareRing share (plaintext renewedShare [ascii "peer"]) tree
      (fetchRenewed tree).tree := by
  have parent : (shadowRoot share ++ twin [ascii "a"]).dropLast = shadowRoot share := by decide +kernel
  have legal : (shadowRoot share ++ twin [ascii "a"]).all legalName = true := by decide +kernel
  obtain ⟨written, wrote⟩ : ∃ written,
      tree.write (shadowRoot share ++ twin [ascii "a"]) (sealedBytes [2]) = .ok written :=
    FileTree.write_ok_iff.mpr ⟨free, by rw [parent, shadowThere], legal⟩
  have same : (fetchRenewed tree).tree = written := by
    rw [fetchRenewed, FileTree.place, parent, FileTree.createDirAll_of_directory shadowThere]
    dsimp only
    rw [wrote]
  rw [same]
  exact delivered_of_write shadowThere (by simp) (by decide +kernel) wrote (by decide +kernel)
    renewedShare_content

theorem soloShare_fetched : Delivered cleartext shareRing share
    (plaintext renewedShare [ascii "peer"]) (syncedShare ["a"]) (fetchRenewed (syncedShare ["a"])).tree :=
  fetchRenewed_delivers (by decide +kernel) (by decide +kernel)

theorem soloShare_reproducible : Reproducible (plaintext renewedShare [ascii "peer"]) share
    (syncedShare ["a"]) (fetchRenewed (syncedShare ["a"])).tree := by
  have only : ∀ {rel}, (plaintext renewedShare [ascii "peer"] rel).isSome = true → rel = [ascii "a"] := by
    intro rel shown
    by_contra apart
    rw [renewedShare_content, if_neg apart] at shown
    cases shown
  refine ⟨?_, ?_, ?_, ?_, ?_, ?_⟩
  · intro rel shown
    have there : (syncedShare ["a"]).look share = some .directory := by decide +kernel
    have walked : collectFiles (syncedShare ["a"]) share = .ok [[ascii "a"]] := by decide +kernel
    obtain ⟨_, collected, _, listed⟩ := collectFiles_ok there
    cases collected.symm.trans walked
    rw [List.mem_singleton.mp ((listed rel).mpr shown), renewedShare_content, if_pos rfl]
    rfl
  · intro rel shown
    rw [only shown]
    decide +kernel
  · intro rel shown
    rw [only shown]
    decide
  · intro rel shown
    rw [only shown]
    decide +kernel
  · intro rel shown
    rw [only shown]
    decide +kernel
  · intro listing collected
    have walked : collectFiles (fetchRenewed (syncedShare ["a"])).tree (shadowRoot share) =
        .ok [[ascii "a.bin"]] := by decide +kernel
    cases walked.symm.trans collected
    exact List.pairwise_singleton _ _

/-- A renewed file is applied: the theorem's assumptions can be met. -/
theorem soloShare_reproduced : ∃ applied after,
    applyRemoteSync cleartext (syncedDevice ["a"]) share renewed shareRing fetchRenewed
        (some (syncedState ["a"])) = (.ok applied, after) ∧
      Reproduced (plaintext renewedShare [ascii "peer"]) share (syncedState ["a"]).manifest
        applied.manifest (syncedShare ["a"]) after.tree := by
  obtain ⟨manifest, announced⟩ := renewed_announced
  have inSync : InSync cleartext shareRing share (syncedState ["a"]).manifest
      (syncedDevice ["a"]).tree := soloShare_inSync
  refine (applyRemoteSync_reproduces_iff inSync announced (by decide +kernel) soloShare_fetched
    rfl rfl ?_).mpr soloShare_reproducible
  intro newManifest decrypted decryption _
  have last := congrArg Prod.snd decryption
  dsimp only at last
  rw [← last]
  decide +kernel

/-- A dropped file is decrypted again from its stale ciphertext, and the hash differs. -/
theorem pairShare_refused :
    InSync cleartext shareRing share (syncedState ["a", "b"]).manifest (syncedShare ["a", "b"]) ∧
      (∃ manifest, snapshotContent cleartext renewedShare [ascii "peer"] =
        .ok (renewed.versionHash, manifest)) ∧
      (usablePeers renewed.btEndpoints).isEmpty = false ∧
      Delivered cleartext shareRing share (plaintext renewedShare [ascii "peer"])
        (syncedShare ["a", "b"]) (fetchRenewed (syncedShare ["a", "b"])).tree ∧
      (fetchRenewed (syncedShare ["a", "b"])).added = .ok (some 1) ∧
      (fetchRenewed (syncedShare ["a", "b"])).completed = .ok () ∧
      ¬ ∃ applied after,
        applyRemoteSync cleartext (syncedDevice ["a", "b"]) share renewed shareRing
            fetchRenewed (some (syncedState ["a", "b"])) = (.ok applied, after) ∧
          Reproduced (plaintext renewedShare [ascii "peer"]) share
            (syncedState ["a", "b"]).manifest applied.manifest (syncedShare ["a", "b"])
            after.tree := by
  refine ⟨pairShare_inSync, renewed_announced, by decide +kernel,
    fetchRenewed_delivers (by decide +kernel) (by decide +kernel), rfl, rfl, ?_⟩
  intro ⟨applied, after, ran, _⟩
  have refused : (applyRemoteSync cleartext (syncedDevice ["a", "b"]) share renewed
      shareRing fetchRenewed (some (syncedState ["a", "b"]))).1.isOk = false := by decide +kernel
  rw [ran] at refused
  cases refused

end Samples

end Peerdup.Daemon
