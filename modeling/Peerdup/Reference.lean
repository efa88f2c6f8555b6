import Peerdup.AuthProperties

/-!
# Reference instances

Cleartext primitives and a group whose operations arrive in causal order. They meet
the assumptions made of the libraries, so results that assume them are not vacuous.
-/

set_option autoImplicit false

namespace Peerdup.Reference

open Foundation Auth

/-- The encoding of `y = 2`, which is not the `y` of any curve point. -/
def offCurve : Octets 32 := .ofBytes 32 [2]

/-- A checksum that tells short byte strings apart. -/
def digest (bytes : Bytes) : Octets 32 :=
  ⟨Codec.littleEndian 32 (Codec.ofLittleEndian (bytes ++ [1]) % (2 ^ 256 - 189)), by simp⟩

private def signature (publicKey : Octets 32) (message : Bytes) : Octets 64 :=
  ⟨publicKey.bytes ++ (digest message).bytes, by simp [Octets.length_bytes]⟩

private def sealed (theirs mine : Octets 32) (nonce : Nonce) : Bytes :=
  theirs.bytes ++ mine.bytes ++ nonce.bytes

private def opened (header ciphertext : Bytes) : Option Bytes :=
  if ciphertext.take header.length = header then some (ciphertext.drop header.length) else none

@[simp] private theorem opened_append (header plaintext : Bytes) :
    opened header (header ++ plaintext) = some plaintext := by
  simp [opened]

/-- Keys are their own public halves, and ciphers label the plaintext with their keys. -/
def cleartext : Primitives where
  PrivateKey := { seed : Octets 32 // seed ≠ offCurve }
  publicKey identity := identity.val
  isPoint raw := decide (raw ≠ offCurve)
  sign identity message := signature identity.val message
  verify publicKey message claimed := decide (claimed = signature publicKey message)
  blake3 := digest
  toMontgomery publicKey := publicKey
  toScalarBytes identity := identity.val
  boxPublic secret := secret
  boxEncrypt theirs mine nonce plaintext := some (sealed theirs mine nonce ++ plaintext)
  boxDecrypt theirs mine nonce ciphertext := opened (sealed mine theirs nonce) ciphertext
  aeadEncrypt key nonce plaintext := some (key.bytes ++ nonce.bytes ++ plaintext)
  aeadDecrypt key nonce ciphertext := opened (key.bytes ++ nonce.bytes) ciphertext

theorem cleartext_lawful : cleartext.Lawful where
  isPoint_publicKey identity := decide_eq_true identity.property
  verify_sign _ _ := decide_eq_true rfl
  boxEncrypt_isSome _ _ _ _ := rfl
  boxDecrypt_boxEncrypt := by
    intro identity ephemeral nonce plaintext ciphertext sealing
    cases sealing
    exact opened_append _ _
  aeadDecrypt_aeadEncrypt := by
    intro key nonce plaintext ciphertext sealing
    cases sealing
    exact opened_append _ _
  tag_le_length := by
    intro key nonce plaintext ciphertext sealing
    cases sealing
    simp only [List.length_append, key.length_bytes, nonce.length_bytes]
    omega

/-- Processed operations with their deps, and who has which access in which group. -/
structure Sequential where
  processed : List (OpId × List OpId)
  access : List (MemberId × MemberId × Access)

namespace Sequential

def inGroup (state : Sequential) (groupId : MemberId) : List (MemberId × Access) :=
  state.access.filterMap fun (group, member, access) =>
    if group = groupId then some (member, access) else none

def manages (state : Sequential) (groupId member : MemberId) : Bool :=
  (state.inGroup groupId).any fun (id, access) => id = member && access.level = .manage

def present (state : Sequential) (groupId member : MemberId) : Bool :=
  (state.inGroup groupId).any fun (id, _) => id = member

def without (state : Sequential) (groupId member : MemberId) : List (MemberId × MemberId × Access) :=
  state.access.filter fun (group, id, _) => !(group = groupId && id = member)

/-- The access table after an action, or why the group refuses it. -/
def act (state : Sequential) (author groupId : MemberId) :
    GroupAction → Except String (List (MemberId × MemberId × Access))
  | .create initialMembers =>
      if !(state.inGroup groupId).isEmpty then .error "group exists"
      else .ok (state.access ++ initialMembers.map fun (member, access) =>
        (groupId, member.id, access))
  | .add member access =>
      if !state.manages groupId author then .error "author is no manager"
      else if state.present groupId member.id then .error "already a member"
      else .ok (state.access ++ [(groupId, member.id, access)])
  | .remove member =>
      if !state.manages groupId author then .error "author is no manager"
      else if !state.present groupId member.id then .error "not a member"
      else .ok (state.without groupId member.id)
  | .promote member access | .demote member access =>
      if !state.manages groupId author then .error "author is no manager"
      else if !state.present groupId member.id then .error "not a member"
      else .ok (state.without groupId member.id ++ [(groupId, member.id, access)])

def process (crypto : Primitives) (state : Sequential) (op : SignedOp) :
    Except String Sequential :=
  let id := op.computeId crypto
  let known := state.processed.map Prod.fst
  if id ∈ known then .error "already processed"
  else if !op.deps.all (· ∈ known) then .error "missing dependency"
  else match state.act op.author op.payload.groupId op.payload.action with
    | .error cause => .error cause
    | .ok access => .ok ⟨state.processed ++ [(id, op.deps)], access⟩

/-- The processed operations no other one depends on. -/
def heads (state : Sequential) : List OpId :=
  (state.processed.map Prod.fst).filter fun id =>
    !state.processed.any fun (_, deps) => id ∈ deps

theorem mem_inGroup_iff (state : Sequential) (groupId id : MemberId) :
    id ∈ (state.inGroup groupId).map Prod.fst ↔
      ∃ access, (groupId, id, access) ∈ state.access := by
  simp only [inGroup, List.mem_map, List.mem_filterMap, Prod.exists]
  constructor
  · rintro ⟨member, access, ⟨group, other, held, listed, same⟩, rfl⟩
    split at same
    · next equal =>
        cases same
        exact ⟨access, equal ▸ listed⟩
    · cases same
  · rintro ⟨access, listed⟩
    exact ⟨id, access, ⟨groupId, id, access, listed, if_pos rfl⟩, rfl⟩

theorem process_ok {crypto : Primitives} {state next : Sequential} {op : SignedOp}
    (accepted : state.process crypto op = .ok next) :
    state.act op.author op.payload.groupId op.payload.action = .ok next.access := by
  unfold process at accepted
  dsimp only at accepted
  split at accepted
  · cases accepted
  split at accepted
  · cases accepted
  split at accepted
  · cases accepted
  · next access acted =>
      cases accepted
      exact acted

theorem inGroup_add {crypto : Primitives} {state next : Sequential} {op : SignedOp}
    {groupId member : MemberId} {access : Access}
    (payload : op.payload = ⟨groupId, .add (.individual member) access⟩)
    (accepted : state.process crypto op = .ok next) (id : MemberId) :
    id ∈ (next.inGroup groupId).map Prod.fst ↔
      id = member ∨ id ∈ (state.inGroup groupId).map Prod.fst := by
  have acted := process_ok accepted
  rw [payload] at acted
  simp only [act] at acted
  split at acted
  · cases acted
  split at acted
  · cases acted
  have added : state.access ++ [(groupId, member, access)] = next.access := Except.ok.inj acted
  rw [mem_inGroup_iff, mem_inGroup_iff, ← added]
  simp [exists_or, or_comm]

theorem inGroup_remove {crypto : Primitives} {state next : Sequential} {op : SignedOp}
    {groupId member : MemberId} (payload : op.payload = ⟨groupId, .remove (.individual member)⟩)
    (accepted : state.process crypto op = .ok next) (id : MemberId) :
    id ∈ (next.inGroup groupId).map Prod.fst ↔
      id ≠ member ∧ id ∈ (state.inGroup groupId).map Prod.fst := by
  have acted := process_ok accepted
  rw [payload] at acted
  simp only [act] at acted
  split at acted
  · cases acted
  split at acted
  · cases acted
  have removed : state.without groupId member = next.access := Except.ok.inj acted
  rw [mem_inGroup_iff, mem_inGroup_iff, ← removed]
  simp [without, and_comm]

end Sequential

def sequentialGroup : GroupCrdt where
  State := Sequential
  new := ⟨[], []⟩
  process := Sequential.process cleartext
  heads := Sequential.heads
  members := Sequential.inGroup

theorem sequentialGroup_lawful : sequentialGroup.Lawful where
  members_new _ := rfl
  members_add _ payload accepted := Sequential.inGroup_add payload accepted
  members_remove _ payload accepted id apart :=
    (Sequential.inGroup_remove payload accepted id).trans (and_iff_right apart)
  removed_of_flat _ _ payload accepted listed :=
    ((Sequential.inGroup_remove payload accepted _).mp listed).1 rfl

def founder : cleartext.PrivateKey := ⟨.ofBytes 32 [4], by decide⟩

def guest : cleartext.PrivateKey := ⟨.ofBytes 32 [5], by decide⟩

def stranger : cleartext.PrivateKey := ⟨.ofBytes 32 [6], by decide⟩

def docs : MemberId := groupIdFor cleartext "docs"

/-- The group its founder has just created. -/
def founded : AuthState sequentialGroup := (AuthState.empty.createGroup cleartext founder docs).2

theorem founded_flat : sequentialGroup.Flat founded.crdt := by
  have addsNoGroup : (AuthState.createAction founder.val).AddsNoGroup := by
    intro entry member
    rw [List.mem_singleton.mp member]
    exact ⟨founder.val, rfl⟩
  have empty : sequentialGroup.Flat (AuthState.empty : AuthState sequentialGroup).crdt := .new
  exact AuthState.flat_author empty addsNoGroup founder

/-- The group with more members, added by the founder in this order. -/
def grown (members : List (MemberId × AuthRole)) : AuthState sequentialGroup :=
  members.foldl (fun state (member, role) => (state.addMember cleartext founder docs member role).2)
    founded

end Peerdup.Reference
