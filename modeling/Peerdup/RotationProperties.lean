import Peerdup.Rotation

/-!
# What a rotation carries

A built rotation seals its key once to every distinct recipient, so a receiver that
accepts it learns that key and no other.
-/

set_option autoImplicit false

namespace Peerdup.Rotation

open Foundation Auth

private theorem hexDigits_injective : ∀ left right : UInt8,
    [Nat.digitChar (left.toNat / 16), Nat.digitChar (left.toNat % 16)] =
      [Nat.digitChar (right.toNat / 16), Nat.digitChar (right.toNat % 16)] → left = right := by
  intro left right same
  have digits : ∀ low high : Fin 16, Nat.digitChar low = Nat.digitChar high → low = high := by decide
  have leftSmall := left.toNat_lt
  have rightSmall := right.toNat_lt
  obtain ⟨highs, tail⟩ := List.cons.inj same
  have high := digits ⟨left.toNat / 16, by omega⟩ ⟨right.toNat / 16, by omega⟩ highs
  have low := digits ⟨left.toNat % 16, by omega⟩ ⟨right.toNat % 16, by omega⟩ (List.cons.inj tail).1
  have highSame : left.toNat / 16 = right.toNat / 16 := Fin.mk.inj_iff.mp high
  have lowSame : left.toNat % 16 = right.toNat % 16 := Fin.mk.inj_iff.mp low
  refine UInt8.toNat_inj.mp ?_
  omega

theorem toHex_injective : Function.Injective toHex := by
  intro left right same
  refine Octets.ext ?_
  have letters := String.ofList_injective same
  generalize left.bytes = leftBytes at letters
  generalize right.bytes = rightBytes at letters
  induction leftBytes generalizing rightBytes with
  | nil =>
      cases rightBytes with
      | nil => rfl
      | cons byte bytes => simp at letters
  | cons leftByte leftBytes ih =>
      cases rightBytes with
      | nil => simp at letters
      | cons rightByte rightBytes =>
          rw [List.flatMap_cons, List.flatMap_cons] at letters
          obtain ⟨heads, tails⟩ := List.append_inj letters rfl
          rw [hexDigits_injective _ _ heads, ih _ tails]

theorem mem_dedup (id : MemberId) (ids : List MemberId) : id ∈ dedup ids ↔ id ∈ ids := by
  induction ids using dedup.induct with
  | case1 => rfl
  | case2 last => rfl
  | case3 second rest ih => simp [dedup, ih]
  | case4 first second rest apart ih =>
      rw [dedup, if_neg apart, List.mem_cons, ih, ← List.mem_cons]

theorem mem_sortIds (id : MemberId) (ids : List MemberId) : id ∈ sortIds ids ↔ id ∈ ids :=
  List.mem_insertionSort _

variable {crypto : Primitives}

/-- The envelope's ciphertext is the key under its recipient's box key. -/
def Sealed (crypto : Primitives) (key : Key) (envelope : KeyEnvelope) : Prop :=
  ∃ ephemeralSecret, envelope.ephemeralPubkey = crypto.boxPublic ephemeralSecret ∧
    crypto.boxEncrypt (crypto.toMontgomery envelope.recipientPubkey) ephemeralSecret envelope.nonce
      key.bytes = some envelope.ciphertext

theorem openEnvelope_of_sealed (lawful : crypto.Lawful) {identity : crypto.PrivateKey} {key : Key}
    {envelope : KeyEnvelope} (sealing : Sealed crypto key envelope)
    (addressed : envelope.recipientPubkey = crypto.publicKey identity) :
    openEnvelope crypto identity envelope = .okForUs key := by
  obtain ⟨ephemeralSecret, ephemeral, encrypted⟩ := sealing
  rw [addressed] at encrypted
  have opens := lawful.boxDecrypt_boxEncrypt identity ephemeralSecret _ _ _ encrypted
  have length : key.bytes.length = Crypto.keyLen := key.length_bytes
  rw [openEnvelope, ephemeral, opens]
  simp only [length, ne_eq, not_true_eq_false, if_false]
  exact congrArg VerifyOutcome.okForUs (Octets.ofBytes_bytes key)

theorem sealEnvelope_ok_iff (lawful : crypto.Lawful) (key : Key) (entropy : EnvelopeEntropy)
    (recipient : MemberId) :
    (∃ envelope, sealEnvelope crypto key entropy recipient = .ok envelope) ↔
      crypto.isPoint recipient = true := by
  unfold sealEnvelope ed25519PubToBoxPub
  by_cases point : crypto.isPoint recipient = true
  · have total := lawful.boxEncrypt_isSome (crypto.toMontgomery recipient) entropy.ephemeralSecret
      entropy.nonce key.bytes
    obtain ⟨ciphertext, encrypted⟩ := Option.isSome_iff_exists.mp total
    simp [point, encrypted]
  · simp [point]

theorem sealed_of_sealEnvelope {key : Key} {entropy : EnvelopeEntropy} {recipient : MemberId}
    {envelope : KeyEnvelope} (built : sealEnvelope crypto key entropy recipient = .ok envelope) :
    envelope.recipientPubkey = recipient ∧ Sealed crypto key envelope := by
  unfold sealEnvelope ed25519PubToBoxPub at built
  split at built
  · cases built
  · next converted =>
      split at converted
      · cases converted
        split at built
        · cases built
        · next encrypted =>
            cases built
            exact ⟨rfl, entropy.ephemeralSecret, rfl, encrypted⟩
      · cases converted

theorem sealEnvelopes_ok_iff (lawful : crypto.Lawful) (key : Key) (entropy : Nat → EnvelopeEntropy)
    (recipients : List MemberId) :
    (∃ envelopes, sealEnvelopes crypto key entropy recipients = .ok envelopes) ↔
      ∀ recipient ∈ recipients, crypto.isPoint recipient = true := by
  induction recipients generalizing entropy with
  | nil => exact ⟨fun _ _ member => absurd member List.not_mem_nil, fun _ => ⟨[], rfl⟩⟩
  | cons recipient recipients ih =>
      have first := sealEnvelope_ok_iff lawful key (entropy 0) recipient
      have others := ih fun index => entropy (index + 1)
      rw [List.forall_mem_cons, ← first, ← others, sealEnvelopes]
      cases sealEnvelope crypto key (entropy 0) recipient with
      | error failure => simp
      | ok envelope =>
          cases sealEnvelopes crypto key (fun index => entropy (index + 1)) recipients <;> simp

theorem sealed_of_sealEnvelopes {key : Key} {entropy : Nat → EnvelopeEntropy}
    {recipients : List MemberId} {envelopes : List KeyEnvelope}
    (built : sealEnvelopes crypto key entropy recipients = .ok envelopes) :
    envelopes.map KeyEnvelope.recipientPubkey = recipients ∧
      ∀ envelope ∈ envelopes, Sealed crypto key envelope := by
  induction recipients generalizing entropy envelopes with
  | nil =>
      cases built
      exact ⟨rfl, fun _ member => absurd member List.not_mem_nil⟩
  | cons recipient recipients ih =>
      rw [sealEnvelopes] at built
      split at built
      · cases built
      · next envelope first =>
          split at built
          · cases built
          · next rest others =>
              cases built
              obtain ⟨addressed, sealing⟩ := sealed_of_sealEnvelope first
              obtain ⟨recipientsSame, sealings⟩ := ih others
              refine ⟨by rw [List.map_cons, addressed, recipientsSame], ?_⟩
              exact List.forall_mem_cons.mpr ⟨sealing, sealings⟩

/-- The rotator signed this epoch, and every envelope carries this key. -/
structure Carries (crypto : Primitives) (rotation : SignedRotation) (rotator : crypto.PrivateKey)
    (key : Key) : Prop where
  rotatorPubkey : rotation.rotatorPubkey = crypto.publicKey rotator
  signature : rotation.signature = crypto.sign rotator
    (canonicalBytes rotation.epoch rotation.rotatorPubkey rotation.envelopes)
  sealing : ∀ envelope ∈ rotation.envelopes, Sealed crypto key envelope

/-- Some envelope is addressed to the member. -/
def Addresses (rotation : SignedRotation) (member : MemberId) : Prop :=
  member ∈ rotation.envelopes.map KeyEnvelope.recipientPubkey

/-- Building fails exactly when some recipient is no curve point. -/
theorem buildSignedRotation_ok_iff (lawful : crypto.Lawful) (rotator : crypto.PrivateKey)
    (entropy : Nat → EnvelopeEntropy) (epoch : Nat) (key : Key) (recipients : List MemberId) :
    (∃ rotation, buildSignedRotation crypto rotator entropy epoch key recipients = .ok rotation) ↔
      ∀ recipient ∈ recipients, crypto.isPoint recipient = true := by
  have sealing := sealEnvelopes_ok_iff lawful key entropy (dedup (sortIds recipients))
  simp only [mem_dedup, mem_sortIds] at sealing
  rw [← sealing, buildSignedRotation]
  cases sealEnvelopes crypto key entropy (dedup (sortIds recipients)) <;> simp

theorem carries_of_buildSignedRotation {rotator : crypto.PrivateKey}
    {entropy : Nat → EnvelopeEntropy} {epoch : Nat} {key : Key} {recipients : List MemberId}
    {rotation : SignedRotation}
    (built : buildSignedRotation crypto rotator entropy epoch key recipients = .ok rotation) :
    rotation.epoch = epoch ∧ Carries crypto rotation rotator key ∧
      ∀ member, Addresses rotation member ↔ member ∈ recipients := by
  unfold buildSignedRotation at built
  dsimp only at built
  split at built
  · cases built
  · next envelopes sealing =>
      cases built
      obtain ⟨recipientsSame, sealings⟩ := sealed_of_sealEnvelopes sealing
      refine ⟨rfl, ⟨rfl, rfl, sealings⟩, ?_⟩
      intro member
      rw [Addresses, recipientsSame, mem_dedup, mem_sortIds]

variable {crdt : GroupCrdt}

/-- The receiver's auth state lists the rotator as Owner. -/
def RotatorOwns (authState : AuthState crdt) (groupId : MemberId) (rotation : SignedRotation) : Prop :=
  (rotation.rotatorPubkey, AuthRole.owner) ∈ authState.members groupId

private theorem any_owner_iff (authState : AuthState crdt) (groupId : MemberId)
    (rotation : SignedRotation) :
    ((authState.members groupId).any fun (member, role) =>
      member = rotation.rotatorPubkey && role = .owner) = true ↔
      RotatorOwns authState groupId rotation := by
  simp [List.any_eq_true, RotatorOwns]

/-- An authentic rotation passes its signature check. -/
theorem verify_of_carries (lawful : crypto.Lawful) {rotator : crypto.PrivateKey}
    {rotation : SignedRotation} {key : Key} (carries : Carries crypto rotation rotator key) :
    crypto.isPoint rotation.rotatorPubkey = true ∧
      crypto.verify rotation.rotatorPubkey
        (canonicalBytes rotation.epoch rotation.rotatorPubkey rotation.envelopes)
        rotation.signature = true := by
  rw [carries.signature, carries.rotatorPubkey]
  exact ⟨lawful.isPoint_publicKey rotator, lawful.verify_sign rotator _⟩

theorem verifyAndDecrypt_stranger (lawful : crypto.Lawful) {rotator : crypto.PrivateKey}
    {rotation : SignedRotation} {key : Key} (carries : Carries crypto rotation rotator key)
    {authState : AuthState crdt} {groupId : MemberId} (identity : crypto.PrivateKey)
    (stranger : ¬ RotatorOwns authState groupId rotation) :
    verifyAndDecrypt crypto rotation authState groupId identity = .notAManager := by
  obtain ⟨point, signed⟩ := verify_of_carries lawful carries
  have unlisted := Bool.eq_false_iff.mpr (mt (any_owner_iff authState groupId rotation).mp stranger)
  simp only [verifyAndDecrypt, point, signed, unlisted, Bool.not_true, Bool.not_false,
    Bool.false_eq_true, if_false, if_true]

theorem verifyAndDecrypt_owner (lawful : crypto.Lawful) {rotator : crypto.PrivateKey}
    {rotation : SignedRotation} {key : Key} (carries : Carries crypto rotation rotator key)
    {authState : AuthState crdt} {groupId : MemberId} (identity : crypto.PrivateKey)
    (owns : RotatorOwns authState groupId rotation) :
    (Addresses rotation (crypto.publicKey identity) ∧
      verifyAndDecrypt crypto rotation authState groupId identity = .okForUs key) ∨
    (¬ Addresses rotation (crypto.publicKey identity) ∧
      verifyAndDecrypt crypto rotation authState groupId identity = .notForUs) := by
  obtain ⟨point, signed⟩ := verify_of_carries lawful carries
  have listed := (any_owner_iff authState groupId rotation).mpr owns
  simp only [verifyAndDecrypt, point, signed, listed, Bool.not_true, Bool.false_eq_true, if_false]
  cases found : rotation.envelopes.find? (·.recipientPubkey = crypto.publicKey identity) with
  | none =>
      refine .inr ⟨fun addressed => ?_, rfl⟩
      obtain ⟨envelope, member, same⟩ := List.mem_map.mp addressed
      have missed := List.find?_eq_none.mp found envelope member
      simp [same] at missed
  | some envelope =>
      have member := List.mem_of_find?_eq_some found
      have addressed : envelope.recipientPubkey = crypto.publicKey identity := by
        simpa using List.find?_some found
      refine .inl ⟨List.mem_map.mpr ⟨envelope, member, addressed⟩, ?_⟩
      exact openEnvelope_of_sealed lawful (carries.sealing envelope member) addressed

/-- An authentic rotation gives its key to an addressed receiver that knows the Owner,
and nothing to anyone else. -/
theorem verifyAndDecrypt_of_carries (lawful : crypto.Lawful) {rotator : crypto.PrivateKey}
    {rotation : SignedRotation} {key : Key} (carries : Carries crypto rotation rotator key)
    (authState : AuthState crdt) (groupId : MemberId) (identity : crypto.PrivateKey) :
    (RotatorOwns authState groupId rotation ∧ Addresses rotation (crypto.publicKey identity) ∧
      verifyAndDecrypt crypto rotation authState groupId identity = .okForUs key) ∨
    (¬ (RotatorOwns authState groupId rotation ∧ Addresses rotation (crypto.publicKey identity)) ∧
      (verifyAndDecrypt crypto rotation authState groupId identity = .notAManager ∨
        verifyAndDecrypt crypto rotation authState groupId identity = .notForUs)) := by
  by_cases owns : RotatorOwns authState groupId rotation
  swap
  · have refused := verifyAndDecrypt_stranger lawful carries identity owns
    exact .inr ⟨fun both => owns both.1, .inl refused⟩
  rcases verifyAndDecrypt_owner lawful carries identity owns with
    ⟨addressed, opened⟩ | ⟨apart, passed⟩
  · exact .inl ⟨owns, addressed, opened⟩
  · exact .inr ⟨fun both => apart both.2, .inr passed⟩

end Peerdup.Rotation
