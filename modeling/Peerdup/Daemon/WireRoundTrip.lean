import Peerdup.Daemon.PendingFiles
import Peerdup.SignedBytes

/-!
# Operations, tickets and rotations that were written and are read

Decoding gives back what was encoded. A ticket also has to be usable, and of the pending
rotations the latest of each epoch is left.
-/

set_option autoImplicit false

namespace Peerdup.Daemon.ShareFiles

open Foundation Auth Codec FileTree
open Rotation (SignedRotation)

theorem decode_encode_op {op : SignedOp} (holdable : op.Holdable) :
    SignedOp.decode op.encode = some op := by
  rw [SignedOp.decode, SignedOp.encode, signedOpCodec.decode_encode_nil (signedOpCodec_fits holdable)]
  rfl

/-- A signature of another length is refused. -/
theorem decode_signature_of_length {bytes : Bytes} (small : bytes.length < 2 ^ 64)
    (other : bytes.length ≠ 64) (rest : Bytes) :
    signatureCodec.decode (byte.seq.encode bytes ++ rest) = none := by
  have fits : byte.seq.Fits bytes := ⟨small, fun _ _ => trivial⟩
  have read := byte.seq.decode_encode rest fits
  simp [signatureCodec, via, read, other]

/-- Operations and tickets survive their encoding, and a pending directory keeps the latest
rotation of each epoch. -/
theorem codecs_roundTrip (crypto : Primitives) :
    (∀ op : SignedOp, op.Holdable → ∃ back, SignedOp.decode op.encode = some back ∧ back = op ∧
      back.computeId crypto = op.computeId crypto ∧ back.verify crypto = op.verify crypto) ∧
    (∀ bytes rest : Bytes, bytes.length < 2 ^ 64 → bytes.length ≠ 64 →
      signatureCodec.decode (byte.seq.encode bytes ++ rest) = none) ∧
    (∀ (ticket : Ticket) (front back : String), ticket.Holdable →
      (∀ char ∈ front.toList, isWhiteSpace char = true) →
      (∀ char ∈ back.toList, isWhiteSpace char = true) →
        ticket.Usable ∧ Ticket.decode (front ++ ticket.encode ++ back) = .ok ticket ∨
        ¬ ticket.Usable ∧
          ∃ failure, Ticket.decode (front ++ ticket.encode ++ back) = .error failure) ∧
    ∀ (tree : FileTree) (dataDir : RawPath) (id : String), NoPending tree dataDir id →
      ∀ rotations : List SignedRotation, (∀ rotation ∈ rotations, rotation.Holdable) →
        (Unobstructed tree dataDir id → (savePendings dataDir id tree rotations).1 = rotations) ∧
        ∃ loaded, loadPending (savePendings dataDir id tree rotations).2 dataDir id = .ok loaded ∧
          LoadsLatest (savePendings dataDir id tree rotations).1 loaded := by
  refine ⟨?_, ?_, ?_, ?_⟩
  · exact fun op holdable => ⟨op, decode_encode_op holdable, rfl, rfl, rfl⟩
  · exact fun bytes rest small other => decode_signature_of_length small other rest
  · exact fun ticket front back holdable before after =>
      Ticket.decode_surrounded holdable before after
  · intro tree dataDir id unused rotations holdable
    exact ⟨fun unobstructed =>
        unobstructed.saves unused.files fun rotation member => (holdable rotation member).1,
      loadPending_latest unused holdable⟩

section Sample

open Reference

private def sampleRotation (epoch : Nat) (nonce : UInt8) : SignedRotation :=
  ⟨epoch, founder.val, .ofBytes 64 [1],
    [⟨guest.val, .ofBytes 32 [2], .ofBytes 24 [nonce], [7, 7]⟩]⟩

/-- An epoch is saved twice, with another one in between. -/
theorem savedTwice_roundTrips :
    SignedOp.decode foundingOp.encode = some foundingOp ∧
    Ticket.decode ("\t" ++ docsTicket.encode ++ " \n") = .ok docsTicket ∧
    ∃ loaded, loadPending (savePendings sampleDataDir "docs" FileTree.empty
        [sampleRotation 10 1, sampleRotation 9 1, sampleRotation 10 2]).2 sampleDataDir "docs" =
          .ok loaded ∧
      LoadsLatest (savePendings sampleDataDir "docs" FileTree.empty
        [sampleRotation 10 1, sampleRotation 9 1, sampleRotation 10 2]).1 loaded := by
  obtain ⟨ops, _, tickets, pending⟩ := codecs_roundTrip cleartext
  refine ⟨?_, ?_, ?_⟩
  · obtain ⟨back, decoded, rfl, _⟩ := ops foundingOp (by decide +kernel)
    exact decoded
  · have holdable : docsTicket.Holdable :=
      ⟨by decide +kernel, by decide +kernel, by decide +kernel, by decide +kernel,
        by decide +kernel⟩
    rcases tickets docsTicket "\t" " \n" holdable (List.all_eq_true.mp (by decide +kernel))
        (List.all_eq_true.mp (by decide +kernel)) with ⟨_, decoded⟩ | ⟨unusable, _⟩
    · exact decoded
    · exact absurd ⟨by decide +kernel, by decide +kernel, by decide +kernel⟩ unusable
  · have unused : NoPending FileTree.empty sampleDataDir "docs" := by
      have straight : ∀ name ∈ pendingDir sampleDataDir "docs", RawPath.isUp name = false := by
        decide +kernel
      refine ⟨.inr straight, ?_, ?_⟩
      · intro content
        simp [show FileTree.empty.look (RawPath.resolve [] (pendingDir sampleDataDir "docs")) = none
          by decide +kernel]
      · intro name _
        simp [look, FileTree.empty]
    exact (pending _ _ _ unused _ (by decide +kernel)).2

end Sample

end Peerdup.Daemon.ShareFiles
