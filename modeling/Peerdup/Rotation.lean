import Peerdup.Auth
import Peerdup.Crypto
import Mathlib.Data.List.Lex
import Mathlib.Data.List.Sort

/-!
# Key rotations

A fresh epoch key sealed once per remaining member and signed by the rotator.
-/

set_option autoImplicit false

namespace Peerdup.Rotation

open Foundation Auth

structure KeyEnvelope where
  recipientPubkey : MemberId
  ephemeralPubkey : Octets 32
  nonce : Nonce
  ciphertext : Bytes
deriving DecidableEq

structure SignedRotation where
  epoch : Nat
  rotatorPubkey : MemberId
  signature : Octets 64
  envelopes : List KeyEnvelope
deriving DecidableEq

inductive VerifyOutcome where
  | okForUs (key : Key)
  | notForUs
  | notAManager
  | badSignature
  | decryptFailed
deriving DecidableEq

section Encoding

open Codec

def keyEnvelopeCodec : Codec KeyEnvelope :=
  ((octets 32).pair ((octets 32).pair ((octets 24).pair byte.seq))).via
    (fun envelope =>
      (envelope.recipientPubkey, envelope.ephemeralPubkey, envelope.nonce, envelope.ciphertext))
    fun (recipientPubkey, ephemeralPubkey, nonce, ciphertext) =>
      some ⟨recipientPubkey, ephemeralPubkey, nonce, ciphertext⟩

/-- The signature stands before the envelopes. -/
def signedRotationCodec : Codec SignedRotation :=
  (varint.pair ((octets 32).pair (signatureCodec.pair keyEnvelopeCodec.seq))).via
    (fun rotation =>
      (rotation.epoch, rotation.rotatorPubkey, rotation.signature, rotation.envelopes))
    fun (epoch, rotatorPubkey, signature, envelopes) =>
      some ⟨epoch, rotatorPubkey, signature, envelopes⟩

/-- What the rotator signs. -/
def canonicalCodec : Codec (Nat × MemberId × List KeyEnvelope) :=
  varint.pair ((octets 32).pair keyEnvelopeCodec.seq)

end Encoding

def canonicalBytes (epoch : Nat) (rotatorPubkey : MemberId) (envelopes : List KeyEnvelope) : Bytes :=
  canonicalCodec.encode (epoch, rotatorPubkey, envelopes)

/-- The randomness of one envelope: an ephemeral box secret and a nonce. -/
structure EnvelopeEntropy where
  ephemeralSecret : Octets 32
  nonce : Nonce

variable (crypto : Primitives)

def ed25519PubToBoxPub (raw : Octets 32) : Except Failure (Octets 32) :=
  if crypto.isPoint raw then .ok (crypto.toMontgomery raw) else .error ["invalid Ed25519 pubkey"]

def toHex (id : MemberId) : String :=
  String.ofList (id.bytes.flatMap fun byte =>
    [Nat.digitChar (byte.toNat / 16), Nat.digitChar (byte.toNat % 16)])

/-- `dedup_by_key`: the first of every run of equal neighbours. -/
def dedup : List MemberId → List MemberId
  | [] => []
  | [last] => [last]
  | first :: second :: rest =>
      if first = second then dedup (second :: rest) else first :: dedup (second :: rest)

def sortIds (ids : List MemberId) : List MemberId :=
  ids.insertionSort fun left right => left.key ≤ right.key

def sealEnvelope (newKey : Key) (entropy : EnvelopeEntropy) (recipient : MemberId) :
    Except Failure KeyEnvelope :=
  match ed25519PubToBoxPub crypto recipient with
  | .error failure => .error (("deriving X25519 pubkey for recipient " ++ toHex recipient) :: failure)
  | .ok recipientBoxPub =>
      match crypto.boxEncrypt recipientBoxPub entropy.ephemeralSecret entropy.nonce newKey.bytes with
      | none => .error ["crypto_box encrypt failed"]
      | some ciphertext =>
          .ok ⟨recipient, crypto.boxPublic entropy.ephemeralSecret, entropy.nonce, ciphertext⟩

/-- The loop over the sorted recipients. Each takes the next entropy. -/
def sealEnvelopes (newKey : Key) (entropy : Nat → EnvelopeEntropy) :
    List MemberId → Except Failure (List KeyEnvelope)
  | [] => .ok []
  | recipient :: recipients =>
      match sealEnvelope crypto newKey (entropy 0) recipient with
      | .error failure => .error failure
      | .ok envelope =>
          match sealEnvelopes newKey (fun index => entropy (index + 1)) recipients with
          | .error failure => .error failure
          | .ok envelopes => .ok (envelope :: envelopes)

def buildSignedRotation (rotator : crypto.PrivateKey) (entropy : Nat → EnvelopeEntropy)
    (epoch : Nat) (newKey : Key) (recipients : List MemberId) : Except Failure SignedRotation :=
  let sorted := dedup (sortIds recipients)
  let rotatorPubkey := crypto.publicKey rotator
  match sealEnvelopes crypto newKey entropy sorted with
  | .error failure => .error failure
  | .ok envelopes =>
      let canonical := canonicalBytes epoch rotatorPubkey envelopes
      .ok ⟨epoch, rotatorPubkey, crypto.sign rotator canonical, envelopes⟩

/-- Open the envelope with our static secret. The payload must be one key. -/
def openEnvelope (identity : crypto.PrivateKey) (envelope : KeyEnvelope) : VerifyOutcome :=
  match crypto.boxDecrypt envelope.ephemeralPubkey (crypto.toScalarBytes identity) envelope.nonce
      envelope.ciphertext with
  | none => .decryptFailed
  | some plaintext =>
      if plaintext.length ≠ Crypto.keyLen then .decryptFailed
      else .okForUs (.ofBytes Crypto.keyLen plaintext)

def verifyAndDecrypt {crdt : GroupCrdt} (rotation : SignedRotation) (authState : AuthState crdt)
    (groupId : MemberId) (identity : crypto.PrivateKey) : VerifyOutcome :=
  let canonical := canonicalBytes rotation.epoch rotation.rotatorPubkey rotation.envelopes
  if !crypto.isPoint rotation.rotatorPubkey then .badSignature
  else if !crypto.verify rotation.rotatorPubkey canonical rotation.signature then .badSignature
  else if !((authState.members groupId).any fun (member, role) =>
      member = rotation.rotatorPubkey && role = .owner) then .notAManager
  else
    match rotation.envelopes.find? (·.recipientPubkey = crypto.publicKey identity) with
    | none => .notForUs
    | some envelope => openEnvelope crypto identity envelope

/-- The pending directory, one file per epoch: a save replaces the file of its epoch. -/
def savePending (pending : List SignedRotation) (rotation : SignedRotation) : List SignedRotation :=
  pending.filter (·.epoch ≠ rotation.epoch) ++ [rotation]

def sortByEpoch (rotations : List SignedRotation) : List SignedRotation :=
  rotations.insertionSort fun left right => left.epoch ≤ right.epoch

def loadPending (pending : List SignedRotation) : List SignedRotation := sortByEpoch pending

end Peerdup.Rotation
