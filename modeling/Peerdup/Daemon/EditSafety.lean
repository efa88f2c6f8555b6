import Peerdup.Daemon.FailedSync
import Peerdup.Daemon.LiveSync

/-!
# Edits that no version records yet

An apply touches the plaintext only where it places a decrypted file and where it deletes an
orphan. Each step is judged exactly, and a run spares an edit when all its steps do.
-/

set_option autoImplicit false

namespace Peerdup.Daemon

open Foundation Crypto LiveSync

variable {crypto : Primitives} {tree after : FileTree} {root rel path dir : Path} {key : KeyRing}
  {peerIdHex : String} {content placed : Bytes} {name : Name}

theorem keepsFiles_placeInShadow (tree : FileTree) (root shadowRel : Path) (ciphertext : Bytes) :
    KeepsFiles root tree (tree.place (shadowRoot root ++ shadowRel) ciphertext) := by
  unfold FileTree.place
  split
  · exact KeepsFiles.refl root tree
  next made created =>
    split
    · exact KeepsFiles.refl root tree
    next written wrote =>
      have kept := keepsFiles_createDirAll root created
      exact kept.trans (keepsFiles_write (peerdup_prefix_shadow root shadowRel) wrote)

variable {device next : Device} {inputs : LocalInputs} {current : Option ShareState}

theorem tree_persist (device : Device) (saved : Except SyncFailure Unit) (state : ShareState) :
    (persist device saved state).2.tree = device.tree := by
  unfold persist
  split
  · rfl
  · rfl

theorem keepsFiles_handleLocalChange (crypto : Primitives) (device : Device) (root : Path)
    (peerIdHex : String) (key : KeyRing) (inputs : LocalInputs) (current : Option ShareState) :
    KeepsFiles root device.tree
      (handleLocalChange crypto device root peerIdHex key inputs current).2.tree := by
  have shadow (manifest : Manifest) := keepsFiles_syncPlaintextToShadow crypto device.tree root key
    inputs.nonces manifest
  unfold handleLocalChange
  split
  · exact KeepsFiles.refl root _
  · exact KeepsFiles.refl root _
  split
  · exact KeepsFiles.refl root _
  next newVhash manifest snapshot =>
    split
    · exact KeepsFiles.refl root _
    dsimp only
    rw [deleteCurrent_tree]
    have kept := shadow manifest
    split
    · next outcome =>
        rw [outcome] at kept
        exact kept
    next tree outcome =>
      rw [outcome] at kept
      have seeded := (createAndAddShadowTorrent_frame ((device.deleteCurrent current).withTree tree)
        (inputs.seed tree)).1
      split
      · next torrent =>
          rw [torrent] at seeded
          exact seeded ▸ kept
      next infoHash torrentId seededDevice torrent =>
        rw [torrent] at seeded
        have persisted := tree_persist seededDevice inputs.saved
          (changedState peerIdHex current newVhash infoHash torrentId inputs.now manifest)
        have same := persisted.trans seeded
        split
        · next saving =>
            rw [saving] at same
            exact same ▸ kept
        · next saving =>
            rw [saving] at same
            exact same ▸ kept

theorem keepsFiles_seedContent (crypto : Primitives) (root : Path) (key : KeyRing) (device : Device)
    (inputs : LocalInputs) (manifest : Manifest) :
    KeepsFiles root device.tree
      (seedContent crypto root key device inputs manifest).2.tree := by
  have kept := keepsFiles_syncPlaintextToShadow crypto device.tree root key inputs.nonces manifest
  unfold seedContent
  split
  · next outcome =>
      rw [outcome] at kept
      exact kept
  · next tree outcome =>
      rw [outcome] at kept
      rw [(createAndAddShadowTorrent_frame _ _).1]
      exact kept

theorem keepsFiles_reconcileOnStart (crypto : Primitives) (root : Path) (peerIdHex : String)
    (key : KeyRing) (device : Device) (inputs : LocalInputs) :
    KeepsFiles root device.tree
      (reconcileOnStart crypto root peerIdHex key device inputs).2.tree := by
  unfold reconcileOnStart
  split
  · exact KeepsFiles.refl root _
  · exact KeepsFiles.refl root _
  split
  · exact KeepsFiles.refl root _
  next diskVh manifest snapshot =>
    have kept := keepsFiles_seedContent crypto root key device inputs manifest
    split
    · next torrent =>
        rw [torrent] at kept
        exact kept
    next infoHash torrentId seededDevice torrent =>
      rw [torrent] at kept
      have adopted (state : ShareState) {result : Except SyncFailure Unit} {after : Device}
          (saving : persist seededDevice inputs.saved state = (result, after)) :
          KeepsFiles root device.tree after.tree := by
        have same := tree_persist seededDevice inputs.saved state
        rw [saving] at same
        exact same ▸ kept
      dsimp only
      split
      · split
        · next saving => exact adopted _ saving
        · next saving => exact adopted _ saving
      · split
        · exact kept
        · split
          · next saving => exact adopted _ saving
          · next saving => exact adopted _ saving

namespace LiveSync

variable {sync next : LiveSync} {event : LiveEvent}

theorem keepsFiles_startLoop (crypto : Primitives) (root : Path) (peerIdHex : String) (key : KeyRing)
    (sync : LiveSync) (inputs : LocalInputs) :
    KeepsFiles root sync.device.tree
      (sync.startLoop crypto root peerIdHex key inputs).device.tree := by
  unfold startLoop
  split
  · exact KeepsFiles.refl root _
  next tree made =>
    have kept := (keepsFiles_createDirAll root made).trans (keepsFiles_reconcileOnStart crypto root
      peerIdHex key { sync.device with tree, managed := [] } inputs)
    dsimp only
    split
    · next outcome =>
        rw [outcome] at kept
        exact kept
    · next outcome =>
        rw [outcome] at kept
        exact kept
    · next outcome =>
        rw [outcome] at kept
        exact kept

theorem keepsFiles_changeLocally (crypto : Primitives) (root : Path) (peerIdHex : String)
    (key : KeyRing) (sync : LiveSync) (current : Option ShareState) (inputs : LocalInputs) :
    KeepsFiles root sync.device.tree
      (sync.changeLocally crypto root peerIdHex key current inputs).device.tree := by
  have kept := keepsFiles_handleLocalChange crypto sync.device root peerIdHex key inputs current
  unfold changeLocally
  split
  · next outcome =>
      rw [outcome] at kept
      exact kept
  · next outcome =>
      rw [outcome] at kept
      exact kept
  · next outcome =>
      rw [outcome] at kept
      exact kept

theorem keepsFiles_receive (root : Path) (sync : LiveSync) (current : Option ShareState)
    (announce : Announce) (saved : Except SyncFailure Unit) :
    KeepsFiles root sync.device.tree (sync.receive root current announce saved).device.tree := by
  unfold receive
  split
  · exact KeepsFiles.refl root _
  · dsimp only
    rw [tree_persist]
    exact KeepsFiles.refl root _
  · split
    · exact KeepsFiles.refl root _
    dsimp only
    rw [deleteCurrent_tree]
    split
    · dsimp only
      rw [deleteCurrent_tree]
      exact KeepsFiles.refl root _
    · next made => exact keepsFiles_createDirAll root made

theorem tree_fetched (root : Path) (sync : LiveSync) (current : Option ShareState)
    (remote : RemoteVersion) (added : Added) (completed : Except SyncFailure Unit) :
    (sync.fetched root current remote added completed).device.tree = sync.device.tree := by
  unfold fetched
  split
  · rfl
  · rfl
  dsimp only
  split
  · rfl
  split
  · rfl
  split
  · rfl
  · rfl

/-- A step is the user's, one of an apply, or leaves the plaintext alone. -/
theorem step_cases (stepped : (machine crypto root peerIdHex key).step sync event = some next) :
    (∃ tree, event = .userEdits tree ∧ next.device.tree = tree) ∨
      (∃ saved current phase, event = .proceed saved ∧ sync.loop = .applying current phase ∧
        next = sync.proceed crypto root key current saved phase) ∨
      KeepsFiles root sync.device.tree next.device.tree ∧
        ∀ rel content, sync.overwrites crypto root key event rel content = false := by
  unfold machine at stepped
  dsimp only at stepped
  split at stepped
  · cases stepped
    exact .inl ⟨_, rfl, rfl⟩
  · cases stepped
    exact .inr (.inr ⟨keepsFiles_startLoop crypto root peerIdHex key sync _, fun _ _ => rfl⟩)
  · cases stepped
    exact .inr (.inr ⟨KeepsFiles.refl root _, fun _ _ => rfl⟩)
  · cases stepped
    exact .inr (.inr ⟨keepsFiles_changeLocally crypto root peerIdHex key sync _ _, fun _ _ => rfl⟩)
  · cases stepped
    exact .inr (.inr ⟨keepsFiles_receive root sync _ _ _, fun _ _ => rfl⟩)
  · cases stepped
    exact .inr (.inr ⟨keepsFiles_placeInShadow _ root _ _, fun _ _ => rfl⟩)
  · next current remote _ =>
      cases stepped
      refine .inr (.inr ⟨?_, fun _ _ => rfl⟩)
      rw [tree_fetched]
      exact KeepsFiles.refl root _
  · next saved current phase applying =>
      cases stepped
      exact .inr (.inl ⟨saved, current, phase, rfl, applying, rfl⟩)
  · next notApplying =>
      cases stepped
      refine .inr (.inr ⟨KeepsFiles.refl root _, fun rel content => ?_⟩)
      unfold overwrites
      split
      · exact (notApplying _ _ _ rfl ‹_›).elim
      · rfl

section Samples

open Reference

end Samples

end LiveSync

end Peerdup.Daemon
