import Peerdup.Reference
import Peerdup.RotationProperties

/-!
# Built rotations and their receivers

A rotation has one envelope for each distinct recipient, in the order of their keys, and
every receiver comes to the outcome that its auth state and the recipients call for.
-/

set_option autoImplicit false

namespace Peerdup.Rotation

open Foundation Auth

theorem key_injective {size : Nat} : Function.Injective (Octets.key : Octets size → List Nat) := by
  intro left right same
  exact Octets.ext (List.map_injective_iff.mpr (fun _ _ => UInt8.toNat_inj.mp) same)

theorem pairwise_sortIds (ids : List MemberId) :
    (sortIds ids).Pairwise fun left right => left.key ≤ right.key :=
  List.pairwise_insertionSort _ ids

/-- Equal neighbours are all the duplicates that a sorted list has. -/
theorem pairwise_dedup {ids : List MemberId}
    (sorted : ids.Pairwise fun left right => left.key ≤ right.key) :
    (dedup ids).Pairwise fun left right => left.key < right.key := by
  induction ids using dedup.induct with
  | case1 => exact .nil
  | case2 last => exact List.pairwise_singleton _ _
  | case3 second rest ih =>
      rw [dedup, if_pos rfl]
      exact ih (List.pairwise_cons.mp sorted).2
  | case4 first second rest apart ih =>
      obtain ⟨least, later⟩ := List.pairwise_cons.mp sorted
      obtain ⟨next, _⟩ := List.pairwise_cons.mp later
      rw [dedup, if_neg apart]
      refine List.pairwise_cons.mpr ⟨?_, ih later⟩
      intro id member
      have ahead : first.key < second.key :=
        lt_of_le_of_ne (least second List.mem_cons_self) fun same => apart (key_injective same)
      rcases List.mem_cons.mp ((mem_dedup id _).mp member) with rfl | further
      · exact ahead
      · exact ahead.trans_le (next id further)

variable {crypto : Primitives}

/-- One envelope for each distinct recipient, in ascending order. -/
theorem recipients_of_buildSignedRotation {rotator : crypto.PrivateKey}
    {entropy : Nat → EnvelopeEntropy} {epoch : Nat} {key : Key} {recipients : List MemberId}
    {rotation : SignedRotation}
    (built : buildSignedRotation crypto rotator entropy epoch key recipients = .ok rotation) :
    rotation.envelopes.map KeyEnvelope.recipientPubkey = dedup (sortIds recipients) := by
  unfold buildSignedRotation at built
  dsimp only at built
  split at built
  · cases built
  · next envelopes sealing =>
      cases built
      exact (sealed_of_sealEnvelopes sealing).1

/-- What building a rotation and opening it come to, for every receiver. -/
structure Agrees (crypto : Primitives) (rotator : crypto.PrivateKey) (epoch : Nat) (key : Key)
    (recipients : List MemberId) (rotation : SignedRotation) : Prop where
  epoch_eq : rotation.epoch = epoch
  ascending : (rotation.envelopes.map KeyEnvelope.recipientPubkey).Pairwise
    fun left right => left.key < right.key
  addressed : ∀ member, member ∈ rotation.envelopes.map KeyEnvelope.recipientPubkey ↔
    member ∈ recipients
  opened : ∀ {crdt : GroupCrdt} (authState : AuthState crdt) (groupId : MemberId)
    (identity : crypto.PrivateKey),
      verifyAndDecrypt crypto rotation authState groupId identity =
        if (crypto.publicKey rotator, AuthRole.owner) ∉ authState.members groupId then .notAManager
        else if crypto.publicKey identity ∈ recipients then .okForUs key
        else .notForUs

/-- Building succeeds for every list of curve points, and what is built agrees with what is
opened. -/
theorem buildAndOpen_agree (lawful : crypto.Lawful) (rotator : crypto.PrivateKey)
    (entropy : Nat → EnvelopeEntropy) (epoch : Nat) (key : Key) {recipients : List MemberId}
    (points : ∀ recipient ∈ recipients, crypto.isPoint recipient = true) :
    ∃ rotation, buildSignedRotation crypto rotator entropy epoch key recipients = .ok rotation ∧
      Agrees crypto rotator epoch key recipients rotation := by
  obtain ⟨rotation, built⟩ :=
    (buildSignedRotation_ok_iff lawful rotator entropy epoch key recipients).mpr points
  obtain ⟨sameEpoch, carries, addresses⟩ := carries_of_buildSignedRotation built
  refine ⟨rotation, built, sameEpoch, ?_, addresses, ?_⟩
  · rw [recipients_of_buildSignedRotation built]
    exact pairwise_dedup (pairwise_sortIds recipients)
  · intro crdt authState groupId identity
    by_cases owns : RotatorOwns authState groupId rotation
    swap
    · rw [verifyAndDecrypt_stranger lawful carries identity owns, if_pos]
      rw [← carries.rotatorPubkey]
      exact owns
    have listed : ¬ (crypto.publicKey rotator, AuthRole.owner) ∉ authState.members groupId := by
      rw [← carries.rotatorPubkey]
      exact not_not.mpr owns
    rw [if_neg listed]
    rcases verifyAndDecrypt_owner lawful carries identity owns with
      ⟨addressed, opened⟩ | ⟨apart, passed⟩
    · rw [opened, if_pos ((addresses _).mp addressed)]
    · rw [passed, if_neg fun member => apart ((addresses _).mpr member)]

section Sample

open Reference

/-- Two members in the wrong order, one of them listed twice. -/
theorem repeatedGuest_agrees :
    ∃ rotation,
      buildSignedRotation cleartext founder
          (fun index => ⟨.ofBytes 32 [.ofNat index], .ofBytes 24 [7]⟩) 3 (.ofBytes 32 [9])
          [guest.val, founder.val, guest.val] = .ok rotation ∧
        Agrees cleartext founder 3 (.ofBytes 32 [9]) [guest.val, founder.val, guest.val] rotation :=
  buildAndOpen_agree cleartext_lawful founder _ 3 _ (by decide)

end Sample

end Peerdup.Rotation
