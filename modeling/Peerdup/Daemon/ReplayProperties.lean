import Peerdup.Daemon.RevokeProperties

/-!
# Rotations delivered to another share

The signed bytes name no share. What keeps a rotation out of a keyring is only the
receiving share's membership and epoch.
-/

set_option autoImplicit false

namespace Peerdup.Daemon.ShareLoop

open Foundation Auth Crypto Rotation

variable {crdt : GroupCrdt} {crypto : Primitives} {config : ShareConfig}
  {identity : crypto.PrivateKey} {loop : ShareLoop crdt}

theorem prefix_drain (config : ShareConfig) (identity : crypto.PrivateKey) (loop : ShareLoop crdt)
    (created : Key) (ring : KeyRing) :
    ring.keys <+:
      ((loop.withRing ring).drainRotationBuffer crypto config identity created).key.keys := by
  have pushed : Receiving loop.authState loop.pendingRotations (fun _ => True)
      (fun later => ring.keys <+: later.keys) (loop.withRing ring) :=
    ⟨rfl, rfl, rfl, fun _ _ => trivial, List.prefix_refl _⟩
  have keeps : KeepsGood crypto config identity loop.authState (fun _ => True)
      (fun later => ring.keys <+: later.keys) :=
    fun _ _ _ _ extends_ _ _ => extends_.trans (List.prefix_append _ _)
  exact (pushed.drainRounds keeps created _).good

/-- One delivery of a rotation from any share: what it leaves alone. -/
theorem delivery_iff (lawful : crypto.Lawful) (config : ShareConfig) {rotator : crypto.PrivateKey}
    (receiver : crypto.PrivateKey) {rotation : SignedRotation} {newKey : Key}
    (carries : Carries crypto rotation rotator newKey) (synced : loop.Synced) (created : Key) :
    let delivered := (loop.applyKeyRotation crypto config receiver created rotation).2
    let opens := RotatorOwns loop.authState (groupIdFor crypto config.id) rotation ∧
      Addresses rotation (crypto.publicKey receiver)
    ((delivered.key = loop.key ∧ delivered.dir.keysBin = loop.dir.keysBin) ↔
      ¬ (opens ∧ rotation.epoch = loop.key.currentEpoch + 1)) ∧
    (delivered = loop ↔ ¬ opens ∨ rotation.epoch ≤ loop.key.currentEpoch ∨
      loop.key.currentEpoch + 1 < rotation.epoch ∧
        ∃ held ∈ loop.rotationBuffer, held.epoch = rotation.epoch) := by
  dsimp only
  rcases verifyAndDecrypt_of_carries lawful carries loop.authState
    (groupIdFor crypto config.id) receiver with ⟨owns, addressed, opened⟩ | ⟨closed, refused⟩
  swap
  · have never : ∀ key, verifyAndDecrypt crypto rotation loop.authState
        (groupIdFor crypto config.id) receiver ≠ .okForUs key := by
      rcases refused with refused | refused <;> simp [refused]
    rw [applyKeyRotation_of_refused crypto config receiver created never]
    exact ⟨⟨fun _ both => closed both.1, fun _ => ⟨rfl, rfl⟩⟩, ⟨fun _ => .inl closed, fun _ => rfl⟩⟩
  have opens : RotatorOwns loop.authState (groupIdFor crypto config.id) rotation ∧
    Addresses rotation (crypto.publicKey receiver) := ⟨owns, addressed⟩
  rw [applyKeyRotation_of_opened crypto config receiver synced created opened]
  simp only [opens, not_true_eq_false, true_and, false_or, and_self]
  by_cases known : rotation.epoch ≤ loop.key.currentEpoch
  · rw [if_pos known]
    exact ⟨⟨fun _ => by omega, fun _ => ⟨rfl, rfl⟩⟩, ⟨fun _ => .inl known, fun _ => rfl⟩⟩
  rw [if_neg known]
  by_cases next : rotation.epoch = loop.key.currentEpoch + 1
  · rw [if_pos next]
    have longer := (prefix_drain config receiver loop created (loop.key.push newKey)).length_le
    rw [KeyRing.keys_push, List.length_append, List.length_singleton] at longer
    have changed : ((loop.withRing (loop.key.push newKey)).drainRotationBuffer crypto config receiver
        created).key ≠ loop.key := by
      intro same
      rw [same] at longer
      omega
    constructor
    · exact ⟨fun same => absurd same.1 changed, fun other => absurd next other⟩
    · exact ⟨fun same => absurd (congrArg ShareLoop.key same) changed, fun either => by omega⟩
  · rw [if_neg next]
    refine ⟨⟨fun _ => next, fun _ => ⟨rfl, rfl⟩⟩, ?_⟩
    have pushed : loop.withBuffer (bufferPush loop.rotationBuffer rotation) = loop ↔
        bufferPush loop.rotationBuffer rotation = loop.rotationBuffer :=
      ⟨congrArg rotationBuffer, fun same => by rw [same]; rfl⟩
    rw [pushed, bufferPush_eq_iff]
    exact ⟨fun held => .inr ⟨by omega, held⟩, fun either => (either.resolve_left known).2⟩

section Samples

open Reference

def music : ShareConfig := ⟨"music", "songs"⟩

/-- The guest's loop over the music share, whose founder is the same. -/
def musicLoop : ShareLoop sequentialGroup :=
  let group := groupIdFor cleartext music.id
  let created := ((AuthState.empty : AuthState sequentialGroup).createGroup cleartext founder group).2
  let authState := (created.addMember cleartext founder group guest.val .writer).2
  let ring : KeyRing := ⟨[.ofBytes 32 [8]], by simp⟩
  ⟨authState, ring, [], [], ⟨some authState.ops, some ring.fileBytes, []⟩⟩

/-- The founder revokes the stranger from the documents, where the guest stays. -/
def docsRevocation : Except Failure Nat × ShareLoop sequentialGroup :=
  guestLoop.handleRevoke cleartext docsConfig founder docsEntropy stranger.val

def docsRotation : SignedRotation :=
  docsRevocation.2.pendingRotations.headD ⟨0, .ofBytes 32 [], .ofBytes 64 [], []⟩

theorem docsRevocation_eq : guestLoop.handleRevoke cleartext docsConfig founder docsEntropy
    stranger.val = (.ok 2, docsRevocation.2) := by
  have accepted : docsRevocation.1 = .ok 2 := by decide +kernel
  change docsRevocation = (.ok 2, docsRevocation.2)
  rw [← accepted]

end Samples

end Peerdup.Daemon.ShareLoop
