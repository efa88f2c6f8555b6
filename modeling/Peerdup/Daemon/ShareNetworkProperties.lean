import Peerdup.Daemon.RevokeProperties
import Peerdup.Daemon.ShareNetwork

/-!
# What one event does to keys and rotations

A loop's custody is its keyring, its queue and its buffer. Only a revocation, a key
rotation or a delivery changes it.
-/

set_option autoImplicit false

namespace Peerdup.Daemon

open Foundation Auth Crypto Rotation

variable {crdt : GroupCrdt} {crypto : Primitives}

namespace ShareLoop

variable {config : ShareConfig} {identity : crypto.PrivateKey} {loop : ShareLoop crdt}

structure SameCustody (before after : ShareLoop crdt) : Prop where
  key : after.key = before.key
  keysBin : after.dir.keysBin = before.dir.keysBin
  pendingRotations : after.pendingRotations = before.pendingRotations
  rotationBuffer : after.rotationBuffer = before.rotationBuffer

theorem SameCustody.synced {before after : ShareLoop crdt} (same : SameCustody before after)
    (synced : before.Synced) : after.Synced := by
  rw [Synced, same.keysBin, same.key]
  exact synced

variable (config identity) in
theorem handleInvite_custody (loop : ShareLoop crdt) (invitee : MemberId) (authRole : AuthRole)
    (suggestedRole : ShareRole) :
    let outcome := loop.handleInvite crypto config identity invitee authRole suggestedRole
    SameCustody loop outcome.2 ∧
      ∀ ticket, outcome.1 = .ok ticket →
        ticket.keys = loop.key.keys ∧ ticket.inviteePubkey = invitee := by
  dsimp only
  rw [handleInvite_eq]
  by_cases empty : loop.authState.isEmpty = true
  · rw [if_pos empty]
    exact ⟨⟨rfl, rfl, rfl, rfl⟩, fun _ made => by cases made⟩
  rw [if_neg empty]
  by_cases present : loop.authState.isMember (groupIdFor crypto config.id) invitee = true
  · rw [if_pos present]
    exact ⟨⟨rfl, rfl, rfl, rfl⟩, fun _ made => by cases made⟩
  rw [if_neg present]
  dsimp only
  cases crdt.process loop.authState.crdt (loop.addition crypto config identity invitee authRole) with
  | error cause => exact ⟨⟨rfl, rfl, rfl, rfl⟩, fun _ made => by cases made⟩
  | ok next =>
      refine ⟨⟨rfl, rfl, rfl, rfl⟩, ?_⟩
      intro ticket made
      cases made
      exact ⟨rfl, rfl⟩

variable (config identity) in
theorem handleRevoke_custody (synced : loop.Synced) (entropy : Entropy) (target : MemberId) :
    let after := (loop.handleRevoke crypto config identity entropy target).2
    SameCustody loop after ∨
    (after.Synced ∧ after.key = loop.key.push entropy.newKey ∧
      after.rotationBuffer = loop.rotationBuffer ∧
      (after.pendingRotations = loop.pendingRotations ∨
        ∃ rotation, after.pendingRotations = loop.pendingRotations ++ [rotation] ∧
          rotation.epoch = loop.key.currentEpoch + 1 ∧
          Carries crypto rotation identity entropy.newKey ∧
          ∀ member, Addresses rotation member → member ≠ target ∧
            after.authState.isMember (groupIdFor crypto config.id) member = true)) := by
  dsimp only
  have loaded := loadOrCreateKeyring_fileBytes entropy.created loop.key
  rw [← synced] at loaded
  rcases handleRevoke_cases crypto config identity loop entropy target with
    ⟨_, done⟩ | ⟨_, done⟩ | ⟨next, _, ⟨_, _, failed, _⟩ | ⟨ring, _, same, ending⟩⟩
  · rw [done]
    exact .inl ⟨rfl, rfl, rfl, rfl⟩
  · rw [done]
    exact .inl ⟨rfl, rfl, rfl, rfl⟩
  · cases failed.symm.trans loaded
  cases same.symm.trans loaded
  rcases ending with ⟨_, done⟩ | ⟨rotation, epoch, carries, addresses, done⟩
  · rw [done]
    exact .inr ⟨rfl, rfl, rfl, .inl rfl⟩
  · rw [done]
    refine .inr ⟨rfl, rfl, rfl, .inr ⟨rotation, rfl, epoch, carries, ?_⟩⟩
    intro member addressed
    exact (mem_remaining_iff ..).mp ((addresses member).mp addressed)

theorem isMember_wiped (group : crdt.Lawful) (groupId member : MemberId) :
    (loop.withAuth loop.authState.wiped).authState.isMember groupId member = false := by
  have none := group.members_new groupId
  simp [withAuth, AuthState.wiped, AuthState.isMember, none]

/-- A revocation adds no member, and once it has changed the keyring its target is out. -/
theorem isMember_handleRevoke (group : crdt.Lawful) (loop : ShareLoop crdt) (entropy : Entropy)
    {target member : MemberId} (out : loop.TakesOut crypto config identity target) :
    let after := (loop.handleRevoke crypto config identity entropy target).2
    after.authState.isMember (groupIdFor crypto config.id) member = true →
      loop.authState.isMember (groupIdFor crypto config.id) member = true ∧
        (after.key ≠ loop.key → member ≠ target) := by
  dsimp only
  intro listed
  rcases handleRevoke_cases crypto config identity loop entropy target with
    ⟨_, done⟩ | ⟨_, done⟩ | ⟨next, accepted, ending⟩
  · rw [done] at listed ⊢
    exact ⟨listed, fun changed => absurd rfl changed⟩
  · rw [done] at listed
    rw [isMember_wiped group] at listed
    cases listed
  have removed := isMember_removed group out accepted member
  have kept : (loop.handleRevoke crypto config identity entropy target).2.authState =
      (loop.afterOp next (loop.removal crypto config identity target)).authState := by
    rcases ending with ⟨_, _, _, done⟩ | ⟨_, _, _, ⟨_, done⟩ | ⟨_, _, _, _, done⟩⟩ <;>
      rw [done] <;> rfl
  rw [kept, removed] at listed
  exact ⟨listed.2, fun _ => listed.1⟩

variable (config identity) in
/-- Commands make no group a member. -/
theorem flat_handleRevoke {loop : ShareLoop crdt} (flat : crdt.Flat loop.authState.crdt)
    (entropy : Entropy) (target : MemberId) :
    crdt.Flat (loop.handleRevoke crypto config identity entropy target).2.authState.crdt := by
  rcases handleRevoke_cases crypto config identity loop entropy target with
    ⟨_, done⟩ | ⟨_, done⟩ | ⟨next, accepted, ending⟩
  · rw [done]
    exact flat
  · rw [done]
    exact .new
  have addsNoGroup : (loop.removal crypto config identity target).payload.action.AddsNoGroup :=
    trivial
  have removed : crdt.Flat next := flat.process addsNoGroup accepted
  rcases ending with ⟨_, _, _, done⟩ | ⟨_, _, _, ⟨_, done⟩ | ⟨_, _, _, _, done⟩⟩ <;>
  · rw [done]
    exact removed

variable (config identity) in
theorem flat_handleInvite {loop : ShareLoop crdt} (flat : crdt.Flat loop.authState.crdt)
    (invitee : MemberId) (authRole : AuthRole) (suggestedRole : ShareRole) :
    crdt.Flat (loop.handleInvite crypto config identity invitee authRole
      suggestedRole).2.authState.crdt := by
  rw [handleInvite_eq]
  split
  · exact flat
  split
  · exact flat
  dsimp only
  split
  · exact .new
  next accepted =>
    have addsNoGroup :
        (loop.addition crypto config identity invitee authRole).payload.action.AddsNoGroup :=
      ⟨invitee, rfl⟩
    exact flat.process addsNoGroup accepted

theorem isMember_handleInvite (group : crdt.Lawful) (loop : ShareLoop crdt)
    {invitee member : MemberId} {authRole : AuthRole} {suggestedRole : ShareRole} :
    let after := (loop.handleInvite crypto config identity invitee authRole suggestedRole).2
    after.authState.isMember (groupIdFor crypto config.id) member = true →
      member = invitee ∨
        loop.authState.isMember (groupIdFor crypto config.id) member = true := by
  dsimp only
  intro listed
  rw [handleInvite_eq] at listed
  by_cases empty : loop.authState.isEmpty = true
  · rw [if_pos empty] at listed
    exact .inr listed
  rw [if_neg empty] at listed
  by_cases present : loop.authState.isMember (groupIdFor crypto config.id) invitee = true
  · rw [if_pos present] at listed
    exact .inr listed
  rw [if_neg present] at listed
  dsimp only at listed
  cases accepted : crdt.process loop.authState.crdt
      (loop.addition crypto config identity invitee authRole) with
  | error cause =>
      rw [accepted] at listed
      dsimp only at listed
      rw [isMember_wiped group] at listed
      cases listed
  | ok next =>
      rw [accepted] at listed
      rw [AuthState.isMember_iff, AuthState.map_fst_members] at listed ⊢
      exact (group.members_add rfl rfl accepted member).mp listed

theorem shareJoin_custody {created : Key} {ticket : Ticket}
    (joined : shareJoin crypto identity created ticket = .ok loop) :
    ticket.inviteePubkey = crypto.publicKey identity ∧ loop.Synced ∧
      loop.key.keys = ticket.keys ∧ loop.pendingRotations = [] ∧ loop.rotationBuffer = [] := by
  unfold shareJoin at joined
  dsimp only at joined
  split at joined
  · cases joined
  next same =>
    replace same := Decidable.not_not.mp same
    unfold installKeyring at joined
    dsimp only at joined
    by_cases empty : ticket.keys = []
    · rw [dif_pos empty] at joined
      cases joined
    rw [dif_neg empty] at joined
    dsimp only at joined
    split at joined
    · cases joined
    split at joined
    · cases joined
    unfold spawnShareTask at joined
    dsimp only at joined
    rw [loadOrCreateKeyring_fileBytes] at joined
    dsimp only at joined
    split at joined
    · cases joined
    · cases joined
      exact ⟨same, rfl, rfl, rfl, rfl⟩

end ShareLoop

namespace ShareNetwork

theorem receiveAuthOps_custody (loop : ShareLoop crdt) (payload : List Bytes) :
    ShareLoop.SameCustody loop (receiveAuthOps crypto loop payload) :=
  ⟨rfl, rfl, rfl, rfl⟩

variable {Peer : Type}

theorem loops_setLoop [DecidableEq Peer] (network : ShareNetwork crdt Peer) (peer other : Peer)
    (loop : ShareLoop crdt) :
    (network.setLoop peer loop).loops other =
      if other = peer then some loop else network.loops other := rfl

@[simp] theorem loops_mint (network : ShareNetwork crdt Peer) (before after : KeyRing) :
    (network.mint before after).loops = network.loops := by
  unfold mint
  split <;> rfl

@[simp] theorem tickets_mint (network : ShareNetwork crdt Peer) (before after : KeyRing) :
    (network.mint before after).tickets = network.tickets := by
  unfold mint
  split <;> rfl

@[simp] theorem published_mint (network : ShareNetwork crdt Peer) (before after : KeyRing) :
    (network.mint before after).published = network.published := by
  unfold mint
  split <;> rfl

end ShareNetwork

end Peerdup.Daemon
