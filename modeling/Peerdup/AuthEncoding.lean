import Peerdup.Auth

/-!
# Which operations survive encoding

All of them whose sequences have lengths that a machine can hold.
-/

set_option autoImplicit false

namespace Peerdup.Auth

open Foundation Codec

/-- The lengths of an operation's sequences are machine words. -/
def SignedOp.Holdable (op : SignedOp) : Prop :=
  op.deps.length < 2 ^ 64 ∧ op.payload.action.initialMembers.length < 2 ^ 64

instance (op : SignedOp) : Decidable op.Holdable := inferInstanceAs (Decidable (_ ∧ _))

theorem accessLevelCodec_fits (level : AccessLevel) : accessLevelCodec.Fits level := by
  cases level with
  | pull => exact fits_variants 0 (by decide) rfl rfl ⟨trivial, rfl⟩
  | read => exact fits_variants 1 (by decide) rfl rfl ⟨trivial, rfl⟩
  | write => exact fits_variants 2 (by decide) rfl rfl ⟨trivial, rfl⟩
  | manage => exact fits_variants 3 (by decide) rfl rfl ⟨trivial, rfl⟩

theorem accessCodec_fits (access : Access) : accessCodec.Fits access :=
  ⟨⟨fun _ _ => trivial, accessLevelCodec_fits access.level⟩, rfl⟩

theorem groupMemberCodec_fits (member : GroupMember) : groupMemberCodec.Fits member := by
  cases member with
  | individual id => exact fits_variants 0 (by decide) rfl rfl ⟨trivial, rfl⟩
  | group id => exact fits_variants 1 (by decide) rfl rfl ⟨trivial, rfl⟩

theorem groupActionCodec_fits {action : GroupAction}
    (holdable : action.initialMembers.length < 2 ^ 64) : groupActionCodec.Fits action := by
  have change : ∀ given : GroupMember × Access, (groupMemberCodec.pair accessCodec).Fits given :=
    fun given => ⟨groupMemberCodec_fits given.1, accessCodec_fits given.2⟩
  rw [groupActionCodec]
  cases action with
  | create initialMembers =>
      exact fits_variants 0 (by decide) rfl rfl ⟨⟨holdable, fun given _ => change given⟩, rfl⟩
  | add member access => exact fits_variants 1 (by decide) rfl rfl ⟨change _, rfl⟩
  | remove member => exact fits_variants 2 (by decide) rfl rfl ⟨groupMemberCodec_fits _, rfl⟩
  | promote member access => exact fits_variants 3 (by decide) rfl rfl ⟨change _, rfl⟩
  | demote member access => exact fits_variants 4 (by decide) rfl rfl ⟨change _, rfl⟩

theorem signatureCodec_fits (signature : Octets 64) : signatureCodec.Fits signature := by
  have small : signature.bytes.length < 2 ^ 64 := by
    rw [signature.length_bytes]
    decide
  refine ⟨⟨small, fun _ _ => trivial⟩, ?_⟩
  dsimp only
  rw [if_pos signature.length_bytes, Octets.ofBytes_bytes]

theorem canonicalCodec_fits {op : SignedOp} (holdable : op.Holdable) :
    canonicalCodec.Fits (op.author, op.deps, op.payload) := by
  obtain ⟨deps, members⟩ := holdable
  refine ⟨trivial, ⟨deps, fun _ _ => trivial⟩, ?_⟩
  exact ⟨⟨trivial, groupActionCodec_fits members⟩, rfl⟩

theorem signedOpCodec_fits {op : SignedOp} (holdable : op.Holdable) : signedOpCodec.Fits op :=
  ⟨⟨canonicalCodec_fits holdable, signatureCodec_fits op.signature⟩, rfl⟩

/-- A log that fits into memory is read back as it was written. -/
theorem decode_log {ops : List SignedOp} (short : ops.length < 2 ^ 64)
    (holdable : ∀ op ∈ ops, op.Holdable) (rest : Bytes) :
    (Codec.seq signedOpCodec).decode ((Codec.seq signedOpCodec).encode ops ++ rest) =
      some (ops, rest) :=
  (Codec.seq signedOpCodec).decode_encode rest
    ⟨short, fun op member => signedOpCodec_fits (holdable op member)⟩

end Peerdup.Auth
