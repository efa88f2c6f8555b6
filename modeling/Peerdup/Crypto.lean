import Peerdup.Foundation.Codec
import Peerdup.Primitives

/-!
# The per-share keyring

`keys.bin` holds one 32-byte key per epoch, epochs numbered from one. Functions that
write it take the file as it is (`none` when absent) and return the file as they leave
it. Randomness is an argument.
-/

set_option autoImplicit false

namespace Peerdup.Crypto

open Foundation

abbrev keyLen : Nat := 32

abbrev nonceLen : Nat := 24

def tagLen : Nat := 16

def epochLen : Nat := 8

def headerLen : Nat := epochLen + nonceLen

/-- One key per epoch. The current key is always last. -/
structure KeyRing where
  keys : List Key
  keys_ne_nil : keys ≠ []
deriving DecidableEq

namespace KeyRing

def currentEpoch (ring : KeyRing) : Nat := ring.keys.length

def currentKey (ring : KeyRing) : Key := ring.keys.getLast ring.keys_ne_nil

def keyForEpoch (ring : KeyRing) (epoch : Nat) : Option Key :=
  if epoch = 0 then none else ring.keys[epoch - 1]?

def exportKeys (ring : KeyRing) : List Key := ring.keys

def push (ring : KeyRing) (key : Key) : KeyRing := ⟨ring.keys ++ [key], by simp⟩

/-- The contents `save_keyring` writes. -/
def fileBytes (ring : KeyRing) : Bytes := ring.keys.flatMap Octets.bytes

end KeyRing

/-- `chunks_exact`, for a known number of chunks. -/
def readKeys : Nat → Bytes → List Key
  | 0, _ => []
  | count + 1, raw => .ofBytes keyLen raw :: readKeys count (raw.drop keyLen)

@[simp] theorem length_readKeys (count : Nat) (raw : Bytes) :
    (readKeys count raw).length = count := by
  induction count generalizing raw with
  | zero => rfl
  | succ count ih => rw [readKeys, List.length_cons, ih]

def parseKeys (raw : Bytes) : Except Failure KeyRing :=
  if invalid : raw.isEmpty || raw.length % keyLen != 0 then
    .error ["keys.bin has invalid length: " ++ toString raw.length ++
      " (must be a positive multiple of " ++ toString keyLen ++ ")"]
  else
    .ok ⟨readKeys (raw.length / keyLen) raw, by
      rw [← List.length_pos_iff_ne_nil, length_readKeys]
      cases raw with
      | nil => simp at invalid
      | cons byte raw =>
          simp only [List.isEmpty_cons, Bool.false_or, bne_iff_ne, ne_eq, Decidable.not_not] at invalid
          exact Nat.div_pos (Nat.le_of_dvd (by simp) (Nat.dvd_of_mod_eq_zero invalid)) (by decide)⟩

theorem singleton_ne_nil (key : Key) : [key] ≠ [] := List.cons_ne_nil key []

def loadOrCreateKeyring (created : Key) (keysBin : Option Bytes) :
    Except Failure KeyRing × Option Bytes :=
  match keysBin with
  | some raw => (parseKeys raw, some raw)
  | none =>
      let ring : KeyRing := ⟨[created], by simp⟩
      (.ok ring, some ring.fileBytes)

def installKeyring (keysBin : Option Bytes) (keys : List Key) :
    Except Failure Unit × Option Bytes :=
  match keysBin with
  | some raw => (.error ["keys.bin already exists; refusing to overwrite"], some raw)
  | none =>
      if empty : keys = [] then (.error ["cannot install an empty keyring"], none)
      else (.ok (), some (KeyRing.fileBytes ⟨keys, empty⟩))

/-- Appends a fresh key and returns its epoch. -/
def rotateKeyring (created fresh : Key) (keysBin : Option Bytes) :
    Except Failure Nat × Option Bytes :=
  match loadOrCreateKeyring created keysBin with
  | (.error failure, keysBin) => (.error failure, keysBin)
  | (.ok ring, _) =>
      let ring := ring.push fresh
      (.ok ring.currentEpoch, some ring.fileBytes)

inductive InstallOutcome where
  | installed
  | idempotent
  | stale
  | gap (have_ got : Nat)
deriving DecidableEq

def installEpochKey (created : Key) (keysBin : Option Bytes) (epoch : Nat) (key : Key) :
    Except Failure InstallOutcome × Option Bytes :=
  match loadOrCreateKeyring created keysBin with
  | (.error failure, keysBin) => (.error failure, keysBin)
  | (.ok ring, keysBin) =>
      let current := ring.currentEpoch
      if epoch = current then
        if ring.currentKey = key then (.ok .idempotent, keysBin)
        else (.error ["epoch " ++ toString epoch ++ " already populated with a different key"],
          keysBin)
      else if epoch < current then (.ok .stale, keysBin)
      else if epoch > current + 1 then (.ok (.gap current epoch), keysBin)
      else (.ok .installed, some (ring.push key).fileBytes)

/-- `epoch(8 LE) ‖ nonce(24) ‖ ct ‖ tag(16)`, under the current key. -/
def encrypt (crypto : Primitives) (ring : KeyRing) (nonce : Nonce) (plaintext : Bytes) :
    Except Failure Bytes :=
  match crypto.aeadEncrypt ring.currentKey nonce plaintext with
  | none => .error ["encryption failed"]
  | some ct => .ok (Codec.littleEndian epochLen ring.currentEpoch ++ nonce.bytes ++ ct)

def decrypt (crypto : Primitives) (ring : KeyRing) (blob : Bytes) : Except Failure Bytes :=
  if blob.length < headerLen + tagLen then
    .error ["blob too short (" ++ toString blob.length ++ " bytes); need at least " ++
      toString (headerLen + tagLen)]
  else
    let epoch := Codec.ofLittleEndian (blob.take epochLen)
    match ring.keyForEpoch epoch with
    | none =>
        .error ["no key for epoch " ++ toString epoch ++ " (keyring has " ++
          toString ring.currentEpoch ++ " epoch" ++
          (if ring.currentEpoch = 1 then "" else "s") ++ ")"]
    | some key =>
        let nonce : Nonce := .ofBytes nonceLen (blob.drop epochLen)
        match crypto.aeadDecrypt key nonce (blob.drop headerLen) with
        | none => .error ["AEAD authentication failed (tampered or wrong key for epoch)"]
        | some plaintext => .ok plaintext

end Peerdup.Crypto
