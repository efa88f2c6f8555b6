import Mathlib.Data.Set.Insert
import Peerdup.Reference
import Peerdup.RotationEncoding

/-!
# What signatures bind

The bytes that are signed determine every field they are made from, so a signature that is
not forged fits no other fields.
-/

set_option autoImplicit false

namespace Peerdup

open Foundation

/-- What a signature check is given. -/
@[ext]
structure Signing where
  publicKey : Octets 32
  message : Bytes
  signature : Octets 64

namespace Signing

variable (crypto : Primitives)

def passes (signing : Signing) : Bool :=
  crypto.verify signing.publicKey signing.message signing.signature

/-- What the holder of a private key hands out. -/
def issue (identity : crypto.PrivateKey) (message : Bytes) : Signing :=
  ⟨crypto.publicKey identity, message, crypto.sign identity message⟩

/-- Whatever passes among what is presented was handed out by a holder of its key. Signing is
deterministic, and no two messages or keys got one signature. -/
structure Unforgeable (calls : Set (crypto.PrivateKey × Bytes)) (presented : Set Signing) : Prop where
  issued : ∀ signing ∈ presented, signing.passes crypto = true →
    ∃ call ∈ calls, signing = issue crypto call.1 call.2
  distinct : ∀ call ∈ calls, ∀ other ∈ calls,
    crypto.sign call.1 call.2 = crypto.sign other.1 other.2 ↔
      crypto.publicKey call.1 = crypto.publicKey other.1 ∧ call.2 = other.2

variable {crypto} {calls : Set (crypto.PrivateKey × Bytes)} {presented : Set Signing}
  {accepted changed : Signing}

/-- Of two that pass, the signatures are equal exactly when the keys and messages are. -/
theorem Unforgeable.signature_eq_iff (unforgeable : Unforgeable crypto calls presented)
    (known : accepted ∈ presented) (shown : changed ∈ presented)
    (passed : accepted.passes crypto = true) (passes : changed.passes crypto = true) :
    changed.signature = accepted.signature ↔
      changed.publicKey = accepted.publicKey ∧ changed.message = accepted.message := by
  obtain ⟨call, made, rfl⟩ := unforgeable.issued accepted known passed
  obtain ⟨other, madeToo, rfl⟩ := unforgeable.issued changed shown passes
  exact unforgeable.distinct other madeToo call made

theorem Unforgeable.refused (unforgeable : Unforgeable crypto calls presented)
    (known : accepted ∈ presented) (shown : changed ∈ presented)
    (passed : accepted.passes crypto = true) (apart : changed ≠ accepted)
    (kept : changed.signature = accepted.signature ∨
      changed.publicKey = accepted.publicKey ∧ changed.message = accepted.message) :
    changed.passes crypto = false := by
  by_contra passes
  have exactly := unforgeable.signature_eq_iff known shown passed (Bool.eq_true_of_not_eq_false passes)
  apply apart
  rcases kept with signature | ⟨publicKey, message⟩
  · obtain ⟨publicKey, message⟩ := exactly.mp signature
    exact Signing.ext publicKey message signature
  · exact Signing.ext publicKey message (exactly.mpr ⟨publicKey, message⟩)

end Signing

namespace Auth

variable {crypto : Primitives}

theorem SignedOp.canonicalBytes_inj {op other : SignedOp} (opHoldable : op.Holdable)
    (otherHoldable : other.Holdable) (same : op.canonicalBytes = other.canonicalBytes) :
    op.author = other.author ∧ op.deps = other.deps ∧ op.payload = other.payload := by
  have fields := canonicalCodec.encode_inj (canonicalCodec_fits opHoldable)
    (canonicalCodec_fits otherHoldable) same
  obtain ⟨author, others⟩ := Prod.mk.inj fields
  exact ⟨author, Prod.mk.inj others⟩

def SignedOp.signing (op : SignedOp) : Signing := ⟨op.author, op.canonicalBytes, op.signature⟩

theorem SignedOp.signing_inj {op other : SignedOp} (opHoldable : op.Holdable)
    (otherHoldable : other.Holdable) (same : op.signing = other.signing) : op = other := by
  have bytes : op.canonicalBytes = other.canonicalBytes := congrArg Signing.message same
  have signature : op.signature = other.signature := congrArg Signing.signature same
  obtain ⟨author, deps, payload⟩ := canonicalBytes_inj opHoldable otherHoldable bytes
  cases op
  cases other
  cases author
  cases deps
  cases payload
  cases signature
  rfl

theorem SignedOp.passes_of_verify {op : SignedOp} (verified : op.verify crypto = .ok ()) :
    op.signing.passes crypto = true := by
  unfold verify at verified
  split at verified
  · cases verified
  · split at verified
    · cases verified
    · next passes =>
        rw [Bool.not_eq_true', Bool.not_eq_false] at passes
        exact passes

/-- The author signs the bytes that the others check. -/
theorem AuthState.signing_of_author {crdt : GroupCrdt} {state : AuthState crdt}
    {myKey : crypto.PrivateKey} {groupId : MemberId} {action : GroupAction} {op : SignedOp}
    (authored : (state.author crypto myKey groupId action).1 = .ok op) :
    op.signing = .issue crypto myKey op.canonicalBytes := by
  unfold author at authored
  dsimp only at authored
  split at authored
  · cases authored
  · cases authored
    rfl

end Auth

namespace Rotation

open Auth

variable {crypto : Primitives}

theorem canonicalBytes_inj {rotation other : SignedRotation} (holdable : rotation.Holdable)
    (otherHoldable : other.Holdable)
    (same : canonicalBytes rotation.epoch rotation.rotatorPubkey rotation.envelopes =
      canonicalBytes other.epoch other.rotatorPubkey other.envelopes) :
    rotation.epoch = other.epoch ∧ rotation.rotatorPubkey = other.rotatorPubkey ∧
      rotation.envelopes = other.envelopes := by
  have fields := canonicalCodec.encode_inj (canonicalCodec_fits holdable)
    (canonicalCodec_fits otherHoldable) same
  obtain ⟨epoch, others⟩ := Prod.mk.inj fields
  exact ⟨epoch, Prod.mk.inj others⟩

def SignedRotation.signing (rotation : SignedRotation) : Signing :=
  ⟨rotation.rotatorPubkey,
    canonicalBytes rotation.epoch rotation.rotatorPubkey rotation.envelopes, rotation.signature⟩

theorem SignedRotation.signing_inj {rotation other : SignedRotation}
    (holdable : rotation.Holdable) (otherHoldable : other.Holdable)
    (same : rotation.signing = other.signing) : rotation = other := by
  have signature : rotation.signature = other.signature := congrArg Signing.signature same
  obtain ⟨epoch, rotatorPubkey, envelopes⟩ :=
    canonicalBytes_inj holdable otherHoldable (congrArg Signing.message same)
  cases rotation
  cases other
  cases epoch
  cases rotatorPubkey
  cases envelopes
  cases signature
  rfl

theorem openEnvelope_ne_badSignature (identity : crypto.PrivateKey) (envelope : KeyEnvelope) :
    openEnvelope crypto identity envelope ≠ .badSignature := by
  unfold openEnvelope
  split
  · exact nofun
  · split
    · exact nofun
    · exact nofun

/-- The signature is checked before anything else, and nothing else fails in its name. -/
theorem verifyAndDecrypt_eq_badSignature_iff {crdt : GroupCrdt} (rotation : SignedRotation)
    (authState : AuthState crdt) (groupId : MemberId) (identity : crypto.PrivateKey) :
    verifyAndDecrypt crypto rotation authState groupId identity = .badSignature ↔
      crypto.isPoint rotation.rotatorPubkey = false ∨ rotation.signing.passes crypto = false := by
  have passes : rotation.signing.passes crypto = crypto.verify rotation.rotatorPubkey
      (canonicalBytes rotation.epoch rotation.rotatorPubkey rotation.envelopes)
      rotation.signature := rfl
  rw [passes]
  unfold verifyAndDecrypt
  dsimp only
  cases crypto.isPoint rotation.rotatorPubkey with
  | false => exact iff_of_true rfl (.inl rfl)
  | true =>
      cases crypto.verify rotation.rotatorPubkey
          (canonicalBytes rotation.epoch rotation.rotatorPubkey rotation.envelopes)
          rotation.signature with
      | false => exact iff_of_true rfl (.inr rfl)
      | true =>
          refine iff_of_false ?_ (by simp)
          simp only [Bool.not_true, Bool.false_eq_true, if_false]
          split_ifs
          · exact nofun
          · split
            · exact nofun
            · exact openEnvelope_ne_badSignature identity _

end Rotation

section Binding

open Auth Rotation

variable (crypto : Primitives) (calls : Set (crypto.PrivateKey × Bytes)) (presented : Set Signing)

/-- A changed operation is refused if its signature or all else is kept. In any other case
its author has signed the change. -/
structure OpsBound : Prop where
  refused : ∀ op changed : SignedOp, op.Holdable → changed.Holdable →
    op.signing ∈ presented → changed.signing ∈ presented →
    op.verify crypto = .ok () → changed ≠ op →
    changed.signature = op.signature ∨
      changed.author = op.author ∧ changed.deps = op.deps ∧ changed.payload = op.payload →
    changed.verify crypto ≠ .ok ()
  genuine : ∀ op : SignedOp, op.signing ∈ presented → op.verify crypto = .ok () →
    ∃ call ∈ calls, op.signing = .issue crypto call.1 call.2

/-- The same of a rotation, whatever the receiver knows and whoever it is. -/
structure RotationsBound : Prop where
  refused : ∀ rotation changed : SignedRotation, rotation.Holdable → changed.Holdable →
    rotation.signing ∈ presented → changed.signing ∈ presented →
    ∀ {crdt other : GroupCrdt} (authState : AuthState crdt) (groupId : MemberId)
      (identity : crypto.PrivateKey) (otherState : AuthState other) (otherGroup : MemberId)
      (receiver : crypto.PrivateKey),
    verifyAndDecrypt crypto rotation authState groupId identity ≠ .badSignature →
    changed ≠ rotation →
    changed.signature = rotation.signature ∨
      changed.epoch = rotation.epoch ∧ changed.rotatorPubkey = rotation.rotatorPubkey ∧
        changed.envelopes = rotation.envelopes →
    verifyAndDecrypt crypto changed otherState otherGroup receiver = .badSignature
  genuine : ∀ rotation : SignedRotation, rotation.signing ∈ presented →
    ∀ {crdt : GroupCrdt} (authState : AuthState crdt) (groupId : MemberId)
      (identity : crypto.PrivateKey),
    verifyAndDecrypt crypto rotation authState groupId identity ≠ .badSignature →
    ∃ call ∈ calls, rotation.signing = .issue crypto call.1 call.2

variable {crypto calls presented}

theorem opsBound (unforgeable : Signing.Unforgeable crypto calls presented) :
    OpsBound crypto calls presented where
  refused := by
    intro op changed holdable changedHoldable known shown verified apart kept passes
    have refused := unforgeable.refused known shown (SignedOp.passes_of_verify verified)
      (fun same => apart (SignedOp.signing_inj changedHoldable holdable same)) (kept.imp id ?_)
    · rw [SignedOp.passes_of_verify passes] at refused
      cases refused
    · rintro ⟨author, deps, payload⟩
      refine ⟨author, ?_⟩
      change changed.canonicalBytes = op.canonicalBytes
      rw [SignedOp.canonicalBytes, author, deps, payload, SignedOp.canonicalBytes]
  genuine op known verified := unforgeable.issued op.signing known (SignedOp.passes_of_verify verified)

theorem rotationsBound (unforgeable : Signing.Unforgeable crypto calls presented) :
    RotationsBound crypto calls presented where
  refused := by
    intro rotation changed holdable changedHoldable known shown crdt other authState groupId
      identity otherState otherGroup receiver accepted apart kept
    rw [Ne, verifyAndDecrypt_eq_badSignature_iff, not_or, Bool.not_eq_false, Bool.not_eq_false]
      at accepted
    refine (verifyAndDecrypt_eq_badSignature_iff _ _ _ _).mpr (.inr ?_)
    refine unforgeable.refused known shown accepted.2
      (fun same => apart (SignedRotation.signing_inj changedHoldable holdable same)) (kept.imp id ?_)
    rintro ⟨epoch, rotatorPubkey, envelopes⟩
    refine ⟨rotatorPubkey, ?_⟩
    change canonicalBytes changed.epoch changed.rotatorPubkey changed.envelopes =
      canonicalBytes rotation.epoch rotation.rotatorPubkey rotation.envelopes
    rw [epoch, rotatorPubkey, envelopes]
  genuine := by
    intro rotation known crdt authState groupId identity accepted
    rw [Ne, verifyAndDecrypt_eq_badSignature_iff, not_or, Bool.not_eq_false, Bool.not_eq_false]
      at accepted
    exact unforgeable.issued rotation.signing known accepted.2

/-- Signed bytes determine the fields, an author signs what others check, and signatures that
nobody forges hold every field in place. -/
theorem signedBytes_bind (crypto : Primitives) :
    (∀ op other : SignedOp, op.Holdable → other.Holdable →
      op.canonicalBytes = other.canonicalBytes →
      op.author = other.author ∧ op.deps = other.deps ∧ op.payload = other.payload) ∧
    (∀ rotation other : SignedRotation, rotation.Holdable → other.Holdable →
      canonicalBytes rotation.epoch rotation.rotatorPubkey rotation.envelopes =
        canonicalBytes other.epoch other.rotatorPubkey other.envelopes →
      rotation.epoch = other.epoch ∧ rotation.rotatorPubkey = other.rotatorPubkey ∧
        rotation.envelopes = other.envelopes) ∧
    (∀ {crdt : GroupCrdt} (state : AuthState crdt) (myKey : crypto.PrivateKey)
      (groupId : MemberId) (action : GroupAction) (op : SignedOp),
      (state.author crypto myKey groupId action).1 = .ok op →
      op.signing = .issue crypto myKey op.canonicalBytes) ∧
    ∀ (calls : Set (crypto.PrivateKey × Bytes)) (presented : Set Signing),
      Signing.Unforgeable crypto calls presented →
      OpsBound crypto calls presented ∧ RotationsBound crypto calls presented := by
  refine ⟨?_, ?_, ?_, ?_⟩
  · exact fun op other => SignedOp.canonicalBytes_inj
  · exact fun rotation other => canonicalBytes_inj
  · exact fun state myKey groupId action op => AuthState.signing_of_author
  · exact fun calls presented unforgeable => ⟨opsBound unforgeable, rotationsBound unforgeable⟩

end Binding

section Sample

open Auth Reference

def foundingOp : SignedOp :=
  (AuthState.empty : AuthState sequentialGroup).authored cleartext founder docs
    (AuthState.createAction founder.val)

/-- Somebody puts the guest into the founder's place. -/
def usurpedOp : SignedOp :=
  { foundingOp with payload := ⟨docs, AuthState.createAction guest.val⟩ }

theorem usurpedOp_refused : usurpedOp.verify cleartext ≠ .ok () := by
  have unforgeable : Signing.Unforgeable cleartext {(founder, foundingOp.canonicalBytes)}
      {foundingOp.signing, usurpedOp.signing} := by
    constructor
    · rintro signing (rfl | rfl) passes
      · exact ⟨_, rfl, rfl⟩
      · exact absurd passes (by decide +kernel)
    · rintro call rfl other rfl
      simp
  have bound := ((signedBytes_bind cleartext).2.2.2 _ _ unforgeable).1
  exact bound.refused foundingOp usurpedOp (by decide +kernel) (by decide +kernel) (.inl rfl)
    (.inr rfl) (by decide +kernel) (by decide +kernel) (.inl rfl)

end Sample

end Peerdup
