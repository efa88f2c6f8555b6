import Peerdup.Foundation.Bytes

/-!
# Cryptographic primitives

The libraries behind identities, signatures, hashes and ciphers, as parameters.
`Lawful` is what their documentation promises of keys used as intended.
-/

set_option autoImplicit false

namespace Peerdup

open Foundation

abbrev Key := Octets 32

abbrev Nonce := Octets 24

/-- A chain of error contexts, outermost first. -/
abbrev Failure := List String

structure Primitives where
  PrivateKey : Type
  publicKey : PrivateKey → Octets 32
  /-- Whether 32 bytes decompress to an Ed25519 point, as `from_bytes` checks. -/
  isPoint : Octets 32 → Bool
  sign : PrivateKey → Bytes → Octets 64
  verify : Octets 32 → Bytes → Octets 64 → Bool
  blake3 : Bytes → Octets 32
  /-- `to_montgomery` of a valid Ed25519 public key. -/
  toMontgomery : Octets 32 → Octets 32
  /-- `to_scalar_bytes` of an Ed25519 secret key. -/
  toScalarBytes : PrivateKey → Octets 32
  /-- The X25519 public key of a box secret. -/
  boxPublic : Octets 32 → Octets 32
  /-- `SalsaBox::new(theirPublic, mySecret).encrypt(nonce, plaintext)`. -/
  boxEncrypt : Octets 32 → Octets 32 → Nonce → Bytes → Option Bytes
  boxDecrypt : Octets 32 → Octets 32 → Nonce → Bytes → Option Bytes
  aeadEncrypt : Key → Nonce → Bytes → Option Bytes
  aeadDecrypt : Key → Nonce → Bytes → Option Bytes

namespace Primitives

/-- Signing and verifying, and sealing and opening, are inverse under matching keys. -/
structure Lawful (crypto : Primitives) : Prop where
  isPoint_publicKey : ∀ identity, crypto.isPoint (crypto.publicKey identity) = true
  verify_sign : ∀ identity message,
    crypto.verify (crypto.publicKey identity) message (crypto.sign identity message) = true
  boxEncrypt_isSome : ∀ theirs mine nonce plaintext,
    (crypto.boxEncrypt theirs mine nonce plaintext).isSome = true
  boxDecrypt_boxEncrypt : ∀ identity ephemeral nonce plaintext ciphertext,
    crypto.boxEncrypt (crypto.toMontgomery (crypto.publicKey identity)) ephemeral nonce plaintext =
      some ciphertext →
    crypto.boxDecrypt (crypto.boxPublic ephemeral) (crypto.toScalarBytes identity) nonce ciphertext =
      some plaintext
  aeadDecrypt_aeadEncrypt : ∀ key nonce plaintext ciphertext,
    crypto.aeadEncrypt key nonce plaintext = some ciphertext →
    crypto.aeadDecrypt key nonce ciphertext = some plaintext
  /-- A ciphertext ends with its 16-byte tag. -/
  tag_le_length : ∀ key nonce plaintext ciphertext,
    crypto.aeadEncrypt key nonce plaintext = some ciphertext → 16 ≤ ciphertext.length

end Primitives

end Peerdup
