import Peerdup.AuthEncoding
import Peerdup.Crypto
import Peerdup.Foundation.Text

/-! Share invitations, and the text they travel as. -/

set_option autoImplicit false

namespace Peerdup

open Foundation Auth

inductive ShareRole where
  | seed
  | leech
  | sync
deriving DecidableEq

def ticketVersion : UInt8 := 2

structure Ticket where
  version : UInt8
  shareId : String
  topic : String
  keys : List Key
  authLog : List SignedOp
  inviteePubkey : MemberId
  role : ShareRole
deriving DecidableEq

section Encoding

open Codec

def shareRoleCodec : Codec ShareRole :=
  variants
    (fun
      | .seed => 0
      | .leech => 1
      | .sync => 2)
    (fun
      | 0 => some (unit.via (fun _ => ()) fun _ => some .seed)
      | 1 => some (unit.via (fun _ => ()) fun _ => some .leech)
      | 2 => some (unit.via (fun _ => ()) fun _ => some .sync)
      | _ => none)

def ticketCodec : Codec Ticket :=
  (byte.pair (text.pair (text.pair ((octets Crypto.keyLen).seq.pair (signedOpCodec.seq.pair
      ((octets 32).pair shareRoleCodec)))))).via
    (fun ticket => (ticket.version, ticket.shareId, ticket.topic, ticket.keys, ticket.authLog,
      ticket.inviteePubkey, ticket.role))
    fun (version, shareId, topic, keys, authLog, inviteePubkey, role) =>
      some ⟨version, shareId, topic, keys, authLog, inviteePubkey, role⟩

theorem shareRoleCodec_fits (role : ShareRole) : shareRoleCodec.Fits role := by
  cases role with
  | seed => exact fits_variants 0 (by decide) rfl rfl ⟨trivial, rfl⟩
  | leech => exact fits_variants 1 (by decide) rfl rfl ⟨trivial, rfl⟩
  | sync => exact fits_variants 2 (by decide) rfl rfl ⟨trivial, rfl⟩

end Encoding

namespace Ticket

def encode (ticket : Ticket) : String := String.ofList (Base64.encode (ticketCodec.encode ticket))

def decode (text : String) : Except Failure Ticket :=
  match Base64.decode (trim text.toList) with
  | none => .error ["ticket is not valid base64"]
  | some bytes =>
      match ticketCodec.decode bytes with
      | none => .error ["ticket payload is malformed"]
      | some (ticket, _) =>
          if ticket.version ≠ ticketVersion then
            .error ["unsupported ticket version: " ++ toString ticket.version.toNat ++
              " (this build expects v" ++ toString ticketVersion.toNat ++ ")"]
          else if ticket.keys = [] then .error ["ticket has no keys"]
          else if ticket.authLog = [] then .error ["ticket has no auth log"]
          else .ok ticket

/-- All lengths in the ticket are machine words. -/
structure Holdable (ticket : Ticket) : Prop where
  shareId : ticket.shareId.utf8ByteSize < 2 ^ 64
  topic : ticket.topic.utf8ByteSize < 2 ^ 64
  keys : ticket.keys.length < 2 ^ 64
  authLog : ticket.authLog.length < 2 ^ 64
  ops : ∀ op ∈ ticket.authLog, op.Holdable

theorem ticketCodec_fits {ticket : Ticket} (holdable : ticket.Holdable) :
    ticketCodec.Fits ticket := by
  have ops : ∀ op ∈ ticket.authLog, signedOpCodec.Fits op := fun op member =>
    signedOpCodec_fits (holdable.ops op member)
  refine ⟨⟨trivial, Codec.text_fits holdable.shareId, Codec.text_fits holdable.topic, ?_⟩, rfl⟩
  exact ⟨⟨holdable.keys, fun _ _ => trivial⟩, ⟨holdable.authLog, ops⟩, trivial,
    shareRoleCodec_fits ticket.role⟩

/-- What this build accepts of a ticket it can read. -/
structure Usable (ticket : Ticket) : Prop where
  current : ticket.version = ticketVersion
  keys : ticket.keys ≠ []
  authLog : ticket.authLog ≠ []

/-- A usable ticket is read back, whatever white space is around it, and no other ticket is. -/
theorem decode_surrounded {ticket : Ticket} (holdable : ticket.Holdable) {front back : String}
    (before : ∀ char ∈ front.toList, isWhiteSpace char = true)
    (after : ∀ char ∈ back.toList, isWhiteSpace char = true) :
    ticket.Usable ∧ decode (front ++ ticket.encode ++ back) = .ok ticket ∨
      ¬ ticket.Usable ∧ ∃ failure, decode (front ++ ticket.encode ++ back) = .error failure := by
  have inside : ∀ char ∈ ticket.encode.toList, isWhiteSpace char = false := by
    rw [encode, String.toList_ofList]
    exact Base64.isWhiteSpace_encode _
  have trimmed : trim (front ++ ticket.encode ++ back).toList =
      Base64.encode (ticketCodec.encode ticket) := by
    rw [String.toList_append, String.toList_append, trim_surrounded before inside after, encode,
      String.toList_ofList]
  have read := ticketCodec.decode_encode_nil (ticketCodec_fits holdable)
  unfold decode
  rw [trimmed, Base64.decode_encode]
  dsimp only
  rw [read]
  dsimp only
  by_cases current : ticket.version = ticketVersion
  swap
  · rw [if_pos current]
    exact .inr ⟨fun usable => current usable.current, _, rfl⟩
  rw [if_neg (not_not.mpr current)]
  by_cases keys : ticket.keys = []
  · rw [if_pos keys]
    exact .inr ⟨fun usable => usable.keys keys, _, rfl⟩
  rw [if_neg keys]
  by_cases authLog : ticket.authLog = []
  · rw [if_pos authLog]
    exact .inr ⟨fun usable => usable.authLog authLog, _, rfl⟩
  rw [if_neg authLog]
  exact .inl ⟨⟨current, keys, authLog⟩, rfl⟩

theorem decode_encode {ticket : Ticket} (holdable : ticket.Holdable)
    (current : ticket.version = ticketVersion) (keys : ticket.keys ≠ [])
    (authLog : ticket.authLog ≠ []) : decode ticket.encode = .ok ticket := by
  have nothing : ∀ char ∈ ("" : String).toList, isWhiteSpace char = true := by simp
  have bare : "" ++ ticket.encode ++ "" = ticket.encode := by simp
  have cases_ := decode_surrounded holdable nothing nothing
  rw [bare] at cases_
  rcases cases_ with ⟨_, decoded⟩ | ⟨unusable, _⟩
  · exact decoded
  · exact absurd ⟨current, keys, authLog⟩ unusable

end Ticket

end Peerdup
