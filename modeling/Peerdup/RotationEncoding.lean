import Peerdup.AuthEncoding
import Peerdup.Rotation

/-!
# Which rotations survive encoding

All of them whose epoch and whose sequences' lengths are machine words.
-/

set_option autoImplicit false

namespace Peerdup.Rotation

open Foundation Codec Auth

def SignedRotation.Holdable (rotation : SignedRotation) : Prop :=
  rotation.epoch < 2 ^ 64 ∧ rotation.envelopes.length < 2 ^ 64 ∧
    ∀ envelope ∈ rotation.envelopes, envelope.ciphertext.length < 2 ^ 64

instance (rotation : SignedRotation) : Decidable rotation.Holdable :=
  inferInstanceAs (Decidable (_ ∧ _ ∧ _))

theorem keyEnvelopeCodec_fits {envelope : KeyEnvelope}
    (holdable : envelope.ciphertext.length < 2 ^ 64) : keyEnvelopeCodec.Fits envelope :=
  ⟨⟨trivial, trivial, trivial, holdable, fun _ _ => trivial⟩, rfl⟩

theorem canonicalCodec_fits {rotation : SignedRotation} (holdable : rotation.Holdable) :
    canonicalCodec.Fits (rotation.epoch, rotation.rotatorPubkey, rotation.envelopes) := by
  obtain ⟨epoch, count, ciphertexts⟩ := holdable
  refine ⟨epoch, trivial, count, ?_⟩
  exact fun envelope member => keyEnvelopeCodec_fits (ciphertexts envelope member)

theorem signedRotationCodec_fits {rotation : SignedRotation} (holdable : rotation.Holdable) :
    signedRotationCodec.Fits rotation := by
  obtain ⟨epoch, trivial, envelopes⟩ := canonicalCodec_fits holdable
  exact ⟨⟨epoch, trivial, signatureCodec_fits rotation.signature, envelopes⟩, rfl⟩

end Peerdup.Rotation
