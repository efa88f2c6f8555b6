import Peerdup.Daemon.ShadowProperties

/-!
# A whole encryption pass

What a pass over a manifest leaves of the plaintext, and what it leaves in the shadow.
-/

set_option autoImplicit false

namespace Peerdup.Daemon

open Foundation Crypto

/-- Outside the daemon's own directory the same files hold the same content. -/
def KeepsFiles (root : Path) (before after : FileTree) : Prop :=
  ∀ path content, ¬ root ++ [peerdupDirName] <+: path →
    (after.look path = some (.file content) ↔ before.look path = some (.file content))

variable {tree after : FileTree} {root rel path : Path}

theorem KeepsFiles.refl (root : Path) (tree : FileTree) : KeepsFiles root tree tree :=
  fun _ _ _ => Iff.rfl

theorem KeepsFiles.trans {first second third : FileTree} (front : KeepsFiles root first second)
    (back : KeepsFiles root second third) : KeepsFiles root first third :=
  fun path content outside => (back path content outside).trans (front path content outside)

theorem keepsFiles_createDirAll (root : Path) (made : tree.createDirAll path = .ok after) :
    KeepsFiles root tree after :=
  fun other _ _ => FileTree.file_createDirAll made other

theorem keepsFiles_write {content : Bytes} (inside : root ++ [peerdupDirName] <+: path)
    (wrote : tree.write path content = .ok after) : KeepsFiles root tree after := by
  intro other held outside
  rw [FileTree.look_write wrote, if_neg]
  intro same
  exact outside (same ▸ inside)

theorem keepsFiles_removeFile (inside : root ++ [peerdupDirName] <+: path)
    (removed : tree.removeFile path = .ok after) : KeepsFiles root tree after := by
  intro other held outside
  rw [FileTree.look_removeFile removed, if_neg]
  intro same
  exact outside (same ▸ inside)

/-- Plaintext lies outside the daemon's own directory. -/
theorem KeepsFiles.plaintext (keeps : KeepsFiles root tree after) (rel : Path) :
    plaintext after root rel = plaintext tree root rel := by
  refine Option.ext ?_
  intro content
  rw [plaintext_eq_some_iff, plaintext_eq_some_iff]
  refine and_congr_right fun _ => and_congr_right fun outside => keeps _ _ ?_
  rw [List.prefix_append_right_inj]
  intro above
  exact outside (above.subset List.mem_cons_self)

theorem peerdup_prefix_shadow (root path : Path) :
    root ++ [peerdupDirName] <+: shadowRoot root ++ path :=
  ⟨[ascii "encrypted"] ++ path, by simp [shadowRoot]⟩

theorem shadowFileFor_eq (root : Path) (nonempty : rel ≠ []) :
    shadowFileFor root rel = shadowRoot root ++ twin rel :=
  withSuffix_below (shadowRoot root) nonempty binSuffix

theorem peerdup_prefix_shadowFileFor (root rel : Path) :
    root ++ [peerdupDirName] <+: shadowFileFor root rel := by
  by_cases empty : rel = []
  · refine ⟨[ascii "encrypted" ++ binSuffix], ?_⟩
    have whole : shadowRoot root ++ rel = root ++ [peerdupDirName] ++ [ascii "encrypted"] := by
      simp [shadowRoot, empty]
    rw [shadowFileFor, whole, withSuffix_append]
  · rw [shadowFileFor_eq root empty]
    exact peerdup_prefix_shadow root _

variable {crypto : Primitives} {key : KeyRing} {manifest : Manifest}

theorem keepsFiles_encryptFile (crypto : Primitives) (tree : FileTree) (root : Path) (key : KeyRing)
    (nonce : Nonce) (rel : Path) :
    KeepsFiles root tree (encryptFile crypto tree root key nonce rel).2 := by
  unfold encryptFile
  dsimp only
  split
  · exact KeepsFiles.refl root tree
  next made created =>
    have kept := keepsFiles_createDirAll root created
    split
    · exact kept
    split
    · exact kept
    split
    · exact kept
    next written wrote =>
      exact kept.trans (keepsFiles_write (peerdup_prefix_shadowFileFor root rel) wrote)

theorem keepsFiles_encryptFiles (crypto : Primitives) (root : Path) (key : KeyRing)
    (nonces : Nat → Nonce) (manifest : Manifest) (tree : FileTree) :
    KeepsFiles root tree (encryptFiles crypto root key nonces manifest tree).2 := by
  induction manifest generalizing nonces tree with
  | nil => exact KeepsFiles.refl root tree
  | cons rel manifest ih =>
      have kept := keepsFiles_encryptFile crypto tree root key (nonces 0) rel
      rw [encryptFiles]
      split
      · next outcome =>
          rw [outcome] at kept
          exact kept
      · next outcome =>
          rw [outcome] at kept
          exact kept.trans (ih _ _)

theorem keepsFiles_dropShadowOrphan (root : Path) (manifest : Manifest) (tree : FileTree)
    (shadowRel : Path) : KeepsFiles root tree (dropShadowOrphan root manifest tree shadowRel) := by
  unfold dropShadowOrphan
  split
  · exact KeepsFiles.refl root tree
  split
  · exact KeepsFiles.refl root tree
  split
  · next removed => exact keepsFiles_removeFile (peerdup_prefix_shadow root shadowRel) removed
  · exact KeepsFiles.refl root tree

theorem keepsFiles_dropShadowOrphans (root : Path) (manifest : Manifest) (listing : List Path)
    (tree : FileTree) :
    KeepsFiles root tree (listing.foldl (dropShadowOrphan root manifest) tree) := by
  induction listing generalizing tree with
  | nil => exact KeepsFiles.refl root tree
  | cons shadowRel listing ih =>
      exact (keepsFiles_dropShadowOrphan root manifest tree shadowRel).trans (ih _)

theorem keepsFiles_syncPlaintextToShadow (crypto : Primitives) (tree : FileTree) (root : Path)
    (key : KeyRing) (nonces : Nat → Nonce) (manifest : Manifest) :
    KeepsFiles root tree (syncPlaintextToShadow crypto tree root key nonces manifest).2 := by
  unfold syncPlaintextToShadow
  dsimp only
  split
  · exact KeepsFiles.refl root tree
  next made created =>
    have kept := (keepsFiles_createDirAll root created).trans
      (keepsFiles_encryptFiles crypto root key nonces manifest made)
    split
    · next outcome =>
        rw [outcome] at kept
        exact kept
    next outcome =>
      rw [outcome] at kept
      split
      · exact kept
      · exact kept.trans (keepsFiles_dropShadowOrphans root manifest _ _)

end Peerdup.Daemon
