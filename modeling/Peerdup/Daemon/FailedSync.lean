import Peerdup.Daemon.EncryptPass
import Peerdup.Daemon.ReachedBlobs
import Peerdup.Daemon.Reproduction

/-!
# What a failed sync step leaves behind

The user's files, the torrent the loop still seeds, and whether the watcher's next call
finds nothing to publish.
-/

set_option autoImplicit false

namespace Peerdup.Daemon

open Foundation Crypto

variable {crypto : Primitives} {device after : Device} {root : Path} {remote : RemoteVersion}
  {key : KeyRing} {fetch : FileTree → Fetch} {current : Option ShareState} {failure : SyncFailure}
  {inputs : LocalInputs} {peerIdHex : String}

@[simp] theorem deleteCurrent_tree (device : Device) (current : Option ShareState) :
    (device.deleteCurrent current).tree = device.tree := by
  cases current <;> rfl

theorem createAndAddShadowTorrent_frame (device : Device) (seed : Seed) :
    (createAndAddShadowTorrent device seed).2.tree = device.tree ∧
      ∀ id ∈ (createAndAddShadowTorrent device seed).2.managed,
        id ∈ device.managed ∨ seed.added = .ok (some id) := by
  unfold createAndAddShadowTorrent
  split
  · exact ⟨rfl, fun id => .inl⟩
  split
  · exact ⟨rfl, fun id => .inl⟩
  · exact ⟨rfl, fun id => .inl⟩
  next torrentId added =>
    refine ⟨rfl, ?_⟩
    intro id member
    rcases List.mem_append.mp member with old | new
    · exact .inl old
    · rw [List.mem_singleton.mp new]
      exact .inr added

variable {tree : FileTree}

section Samples

open Reference

def sampleInputs : LocalInputs where
  nonces _ := .ofBytes 24 []
  seed _ := ⟨.ok "seed", .ok (some 2)⟩
  now := 2
  saved := .ok ()

def noFetch (tree : FileTree) : Fetch := ⟨.error [], tree, .ok ()⟩

end Samples

end Peerdup.Daemon
