import Peerdup.Crypto

/-! What `keys.bin` says after a write, and when it can be read. -/

set_option autoImplicit false

namespace Peerdup.Crypto

open Foundation

theorem KeyRing.ext {left right : KeyRing} (same : left.keys = right.keys) : left = right := by
  cases left
  cases right
  cases same
  rfl

@[simp] theorem KeyRing.keys_push (ring : KeyRing) (key : Key) :
    (ring.push key).keys = ring.keys ++ [key] := rfl

@[simp] theorem KeyRing.currentEpoch_push (ring : KeyRing) (key : Key) :
    (ring.push key).currentEpoch = ring.currentEpoch + 1 := by
  simp [currentEpoch]

theorem KeyRing.currentEpoch_pos (ring : KeyRing) : 0 < ring.currentEpoch :=
  List.length_pos_iff_ne_nil.mpr ring.keys_ne_nil

@[simp] theorem KeyRing.currentKey_push (ring : KeyRing) (key : Key) :
    (ring.push key).currentKey = key := by
  simp [currentKey]

theorem KeyRing.keyForEpoch_push_current (ring : KeyRing) (key : Key) :
    (ring.push key).keyForEpoch (ring.currentEpoch + 1) = some key := by
  simp [keyForEpoch, currentEpoch]

theorem KeyRing.le_of_keyForEpoch {ring : KeyRing} {epoch : Nat} {key : Key}
    (found : ring.keyForEpoch epoch = some key) : 0 < epoch ∧ epoch ≤ ring.currentEpoch := by
  unfold keyForEpoch at found
  split at found
  · cases found
  · obtain ⟨below, _⟩ := List.getElem?_eq_some_iff.mp found
    rw [currentEpoch]
    omega

theorem KeyRing.keyForEpoch_of_prefix {ring longer : KeyRing} (extends_ : ring.keys <+: longer.keys)
    {epoch : Nat} {key : Key} (found : ring.keyForEpoch epoch = some key) :
    longer.keyForEpoch epoch = some key := by
  unfold keyForEpoch at found ⊢
  split at found
  · cases found
  · next positive =>
      rw [if_neg positive]
      obtain ⟨rest, whole⟩ := extends_
      obtain ⟨below, _⟩ := List.getElem?_eq_some_iff.mp found
      rw [← whole, List.getElem?_append_left below, found]

/-- The key of the next epoch extends a prefix of the ring. -/
theorem KeyRing.prefix_push {ring : KeyRing} {keys : List Key} {key : Key}
    (shorter : keys <+: ring.keys) (found : ring.keyForEpoch (keys.length + 1) = some key) :
    keys ++ [key] <+: ring.keys := by
  obtain ⟨rest, whole⟩ := shorter
  unfold keyForEpoch at found
  rw [if_neg (Nat.succ_ne_zero _), Nat.add_sub_cancel, ← whole,
    List.getElem?_append_right (Nat.le_refl _), Nat.sub_self] at found
  cases rest with
  | nil => cases found
  | cons next rest =>
      cases found
      exact ⟨rest, by rw [← whole, List.append_assoc]; rfl⟩

theorem length_fileBytes (keys : List Key) :
    (keys.flatMap Octets.bytes).length = keys.length * keyLen := by
  induction keys with
  | nil => rfl
  | cons key keys ih =>
      rw [List.flatMap_cons, List.length_append, ih, key.length_bytes, List.length_cons,
        Nat.succ_mul, Nat.add_comm]

theorem readKeys_fileBytes (keys : List Key) (rest : Bytes) :
    readKeys keys.length (keys.flatMap Octets.bytes ++ rest) = keys := by
  induction keys with
  | nil => rfl
  | cons key keys ih =>
      have first : Octets.ofBytes keyLen (key.bytes ++ (keys.flatMap Octets.bytes ++ rest)) = key := by
        apply Octets.ext
        simp [Octets.ofBytes, ← key.length_bytes]
      have others : (key.bytes ++ (keys.flatMap Octets.bytes ++ rest)).drop keyLen =
          keys.flatMap Octets.bytes ++ rest := by
        exact List.drop_left' key.length_bytes
      rw [List.flatMap_cons, List.append_assoc, List.length_cons, readKeys, first, others, ih]

/-- The lengths `keys.bin` may have. -/
def WellFormed (raw : Bytes) : Prop := raw ≠ [] ∧ raw.length % keyLen = 0

theorem parseKeys_ok_iff (raw : Bytes) : (∃ ring, parseKeys raw = .ok ring) ↔ WellFormed raw := by
  unfold parseKeys WellFormed
  split
  · next invalid =>
      simp only [reduceCtorEq, exists_false, false_iff]
      intro formed
      simp [formed.1, formed.2] at invalid
  · next valid =>
      simp only [Except.ok.injEq, exists_eq', true_iff]
      simpa using valid

@[simp] theorem parseKeys_fileBytes (ring : KeyRing) : parseKeys ring.fileBytes = .ok ring := by
  have length : ring.fileBytes.length = ring.keys.length * keyLen := length_fileBytes ring.keys
  have count : ring.fileBytes.length / keyLen = ring.keys.length := by
    rw [length]
    exact Nat.mul_div_cancel _ (by decide)
  have formed : WellFormed ring.fileBytes := by
    refine ⟨?_, by rw [length]; exact Nat.mul_mod_left _ _⟩
    rw [← List.length_pos_iff_ne_nil, length]
    exact Nat.mul_pos ring.currentEpoch_pos (by decide)
  obtain ⟨parsed, read⟩ := (parseKeys_ok_iff _).mpr formed
  rw [read]
  have keys : parsed.keys = readKeys (ring.fileBytes.length / keyLen) ring.fileBytes := by
    unfold parseKeys at read
    split at read
    · cases read
    · cases read
      rfl
  have same := readKeys_fileBytes ring.keys []
  rw [List.append_nil] at same
  rw [count] at keys
  exact congrArg _ (KeyRing.ext (keys.trans same))

@[simp] theorem loadOrCreateKeyring_fileBytes (created : Key) (ring : KeyRing) :
    loadOrCreateKeyring created (some ring.fileBytes) = (.ok ring, some ring.fileBytes) := by
  rw [loadOrCreateKeyring, parseKeys_fileBytes]

/-- An absent or well-formed `keys.bin`. -/
def Readable (keysBin : Option Bytes) : Prop := ∀ raw ∈ keysBin, WellFormed raw

theorem loadOrCreateKeyring_ok_iff (created : Key) (keysBin : Option Bytes) :
    (∃ ring file, loadOrCreateKeyring created keysBin = (.ok ring, file)) ↔ Readable keysBin := by
  cases keysBin with
  | none => simp [loadOrCreateKeyring, Readable]
  | some raw =>
      have parsed := parseKeys_ok_iff raw
      simp only [loadOrCreateKeyring, Prod.mk.injEq, exists_and_left, exists_eq', and_true, parsed,
        Readable, Option.mem_def, Option.some.injEq, forall_eq']

theorem rotateKeyring_of_load {created fresh : Key} {keysBin file : Option Bytes} {ring : KeyRing}
    (loaded : loadOrCreateKeyring created keysBin = (.ok ring, file)) :
    rotateKeyring created fresh keysBin =
      (.ok (ring.currentEpoch + 1), some (ring.push fresh).fileBytes) := by
  rw [rotateKeyring, loaded]
  simp

/-- Every outcome of an install onto a saved ring, with the file it leaves. -/
theorem installEpochKey_fileBytes (created : Key) (ring : KeyRing) (epoch : Nat) (key : Key) :
    installEpochKey created (some ring.fileBytes) epoch key =
      if epoch = ring.currentEpoch then
        if ring.currentKey = key then (.ok .idempotent, some ring.fileBytes)
        else (.error ["epoch " ++ toString epoch ++ " already populated with a different key"],
          some ring.fileBytes)
      else if epoch < ring.currentEpoch then (.ok .stale, some ring.fileBytes)
      else if epoch > ring.currentEpoch + 1 then
        (.ok (.gap ring.currentEpoch epoch), some ring.fileBytes)
      else (.ok .installed, some (ring.push key).fileBytes) := by
  rw [installEpochKey, loadOrCreateKeyring_fileBytes]

theorem KeyRing.keyForEpoch_current (ring : KeyRing) :
    ring.keyForEpoch ring.currentEpoch = some ring.currentKey := by
  rw [keyForEpoch, if_neg (Nat.pos_iff_ne_zero.mp ring.currentEpoch_pos), currentEpoch, currentKey,
    List.getLast_eq_getElem]
  exact List.getElem?_eq_getElem _

/-- What a ring encrypts, every ring that extends it decrypts. -/
theorem decrypt_encrypt {crypto : Primitives} (lawful : crypto.Lawful) {ring longer : KeyRing}
    (extends_ : ring.keys <+: longer.keys) (small : ring.currentEpoch < 2 ^ 64) {nonce : Nonce}
    {plaintext blob : Bytes} (encrypted : encrypt crypto ring nonce plaintext = .ok blob) :
    decrypt crypto longer blob = .ok plaintext := by
  unfold encrypt at encrypted
  cases sealing : crypto.aeadEncrypt ring.currentKey nonce plaintext with
  | none =>
      rw [sealing] at encrypted
      cases encrypted
  | some ciphertext =>
      rw [sealing] at encrypted
      have whole := Except.ok.inj encrypted
      have tagged := lawful.tag_le_length _ _ _ _ sealing
      have opens := lawful.aeadDecrypt_aeadEncrypt _ _ _ _ sealing
      have header : (Codec.littleEndian epochLen ring.currentEpoch).length = epochLen :=
        Codec.length_littleEndian _ _
      have nonceLength : nonce.bytes.length = nonceLen := nonce.length_bytes
      have front : blob.take epochLen = Codec.littleEndian epochLen ring.currentEpoch := by
        rw [← whole, List.append_assoc]
        exact List.take_left' header
      have behind : blob.drop epochLen = nonce.bytes ++ ciphertext := by
        rw [← whole, List.append_assoc]
        exact List.drop_left' header
      have back : blob.drop headerLen = ciphertext := by
        rw [headerLen, ← List.drop_drop, behind]
        exact List.drop_left' nonceLength
      have long : ¬ blob.length < headerLen + tagLen := by
        rw [← whole, List.length_append, List.length_append, header, nonceLength, headerLen, tagLen]
        omega
      have sameNonce : Octets.ofBytes nonceLen (nonce.bytes ++ ciphertext) = nonce := by
        apply Octets.ext
        simp [Octets.ofBytes, ← nonceLength]
      have epoch : Codec.ofLittleEndian (Codec.littleEndian epochLen ring.currentEpoch) =
          ring.currentEpoch := Codec.ofLittleEndian_littleEndian small
      have held := KeyRing.keyForEpoch_of_prefix extends_ ring.keyForEpoch_current
      rw [decrypt, if_neg long, front, behind, back, epoch]
      dsimp only
      rw [held]
      dsimp only
      rw [sameNonce, opens]

end Peerdup.Crypto
