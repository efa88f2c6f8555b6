import Peerdup.Daemon.ReplayProperties
import Peerdup.Daemon.ShareNetworkProperties

/-!
# Revocation secrecy under one Owner

Every keyring in the network is a prefix of the Owner's, and a member that is barred
from an epoch never gets that far. Revoking a member bars it from the new epoch on.
-/

set_option autoImplicit false

namespace Peerdup.Daemon.ShareNetwork

open Foundation Auth Crypto Rotation ShareLoop

variable {crdt : GroupCrdt} {crypto : Primitives} {config : ShareConfig}
  {Peer : Type} {identityOf : Peer → crypto.PrivateKey} {owner : Peer}

/-- Which epochs are withheld from which members. -/
abbrev Bar := MemberId → Nat → Prop

/-- The Owner's own rotation, carrying its key of that epoch past the bar. -/
structure Trusted (ownerIdentity : crypto.PrivateKey) (ring : KeyRing) (barred : Bar)
    (rotation : SignedRotation) : Prop where
  authentic : ∃ key, ring.keyForEpoch rotation.epoch = some key ∧
    Carries crypto rotation ownerIdentity key
  unaddressed : ∀ member, barred member rotation.epoch → ¬ Addresses rotation member

/-- Keys a member may hold: a prefix of the Owner's ring that stops short of the bar. -/
structure Held (ring : KeyRing) (barred : Bar) (member : MemberId) (keys : List Key) : Prop where
  shorter : keys <+: ring.keys
  short : ∀ epoch, barred member epoch → keys.length < epoch

theorem Trusted.extend {ownerIdentity : crypto.PrivateKey} {ring longer : KeyRing} {barred : Bar}
    {rotation : SignedRotation} (trusted : Trusted ownerIdentity ring barred rotation)
    (extends_ : ring.keys <+: longer.keys) : Trusted ownerIdentity longer barred rotation := by
  obtain ⟨key, found, carries⟩ := trusted.authentic
  exact ⟨⟨key, KeyRing.keyForEpoch_of_prefix extends_ found, carries⟩, trusted.unaddressed⟩

theorem Held.extend {ring longer : KeyRing} {barred : Bar} {member : MemberId} {keys : List Key}
    (held : Held ring barred member keys) (extends_ : ring.keys <+: longer.keys) :
    Held longer barred member keys :=
  ⟨held.shorter.trans extends_, held.short⟩

/-- A peer that only receives. -/
abbrev Receiver (ownerIdentity : crypto.PrivateKey) (ring : KeyRing) (barred : Bar)
    (member : MemberId) (loop : ShareLoop crdt) : Prop :=
  Receiving loop.authState [] (Trusted ownerIdentity ring barred)
    (fun own => Held ring barred member own.keys) loop

structure Custody (config : ShareConfig) (identityOf : Peer → crypto.PrivateKey) (owner : Peer)
    (barred : Bar) (network : ShareNetwork crdt Peer) (ownerLoop : ShareLoop crdt) : Prop where
  found : network.loops owner = some ownerLoop
  synced : ownerLoop.Synced
  flat : crdt.Flat ownerLoop.authState.crdt
  outsiders : ∀ member epoch, barred member epoch →
    ¬ ownerLoop.authState.isMember (groupIdFor crypto config.id) member = true
  queued : ∀ rotation ∈ ownerLoop.pendingRotations,
    Trusted (identityOf owner) ownerLoop.key barred rotation
  published : ∀ rotation ∈ network.published,
    Trusted (identityOf owner) ownerLoop.key barred rotation
  tickets : ∀ ticket ∈ network.tickets,
    Held ownerLoop.key barred ticket.inviteePubkey ticket.keys
  receivers : ∀ peer loop, peer ≠ owner → network.loops peer = some loop →
    Receiver (identityOf owner) ownerLoop.key barred (crypto.publicKey (identityOf peer)) loop

variable [DecidableEq Peer] {network : ShareNetwork crdt Peer} {ownerLoop : ShareLoop crdt}
  {barred : Bar}

theorem Custody.setReceiver (custody : Custody config identityOf owner barred network ownerLoop)
    {peer : Peer} {loop : ShareLoop crdt} (other : peer ≠ owner)
    (receiver : Receiver (identityOf owner) ownerLoop.key barred
      (crypto.publicKey (identityOf peer)) loop) :
    Custody config identityOf owner barred (network.setLoop peer loop) ownerLoop := by
  refine ⟨?_, custody.synced, custody.flat, custody.outsiders, custody.queued, custody.published,
    custody.tickets, ?_⟩
  · rw [loops_setLoop, if_neg other.symm]
    exact custody.found
  · intro holder held apart found
    rw [loops_setLoop] at found
    split at found
    · next same =>
        cases found
        exact same ▸ receiver
    · exact custody.receivers holder held apart found

/-- The Owner's loop may grow its ring, given that its new queue is in order. -/
theorem Custody.setOwner (custody : Custody config identityOf owner barred network ownerLoop)
    {after : ShareLoop crdt} (synced : after.Synced) (flat : crdt.Flat after.authState.crdt)
    (extends_ : ownerLoop.key.keys <+: after.key.keys)
    (outsiders : ∀ member epoch, barred member epoch →
      ¬ after.authState.isMember (groupIdFor crypto config.id) member = true)
    (queued : ∀ rotation ∈ after.pendingRotations,
      Trusted (identityOf owner) after.key barred rotation) :
    Custody config identityOf owner barred (network.setLoop owner after) after := by
  refine ⟨if_pos rfl, synced, flat, outsiders, queued, ?_, ?_, ?_⟩
  · exact fun rotation member => (custody.published rotation member).extend extends_
  · exact fun ticket member => (custody.tickets ticket member).extend extends_
  · intro peer loop apart found
    rw [loops_setLoop, if_neg apart] at found
    have before := custody.receivers peer loop apart found
    exact ⟨before.synced, before.authState_eq, before.pending_eq,
      fun rotation member => (before.trusted rotation member).extend extends_,
      before.good.extend extends_⟩

omit [DecidableEq Peer] in
theorem Custody.mint (custody : Custody config identityOf owner barred network ownerLoop)
    (before after : KeyRing) :
    Custody config identityOf owner barred (network.mint before after) ownerLoop := by
  refine ⟨?_, custody.synced, custody.flat, custody.outsiders, custody.queued, ?_, ?_, ?_⟩
  · rw [loops_mint]
    exact custody.found
  · rw [published_mint]
    exact custody.published
  · rw [tickets_mint]
    exact custody.tickets
  · rw [loops_mint]
    exact custody.receivers

variable (config) in
/-- A receiver's ring takes the Owner's next key or stays, and stops short of the bar. -/
theorem keepsGood (lawful : crypto.Lawful) (authState : AuthState crdt)
    (ownerIdentity receiver : crypto.PrivateKey) (ring : KeyRing) (barred : Bar) :
    KeepsGood crypto config receiver authState (Trusted ownerIdentity ring barred)
      (fun own => Held ring barred (crypto.publicKey receiver) own.keys) := by
  intro rotation own newKey trusted held opened next
  obtain ⟨key, found, carries⟩ := trusted.authentic
  rcases verifyAndDecrypt_of_carries lawful carries authState (groupIdFor crypto config.id)
    receiver with ⟨_, addressed, opens⟩ | ⟨_, refused⟩
  swap
  · rcases refused with refused | refused <;> cases refused.symm.trans opened
  cases opens.symm.trans opened
  rw [next] at found
  refine ⟨KeyRing.prefix_push held.shorter found, ?_⟩
  intro epoch bar
  have below := held.short epoch bar
  have missed : epoch ≠ rotation.epoch := by
    intro same
    exact trusted.unaddressed _ (same ▸ bar) addressed
  have length : own.keys.length + 1 = rotation.epoch := next.symm
  rw [KeyRing.keys_push, List.length_append, List.length_singleton]
  omega

variable (owner) in
/-- Only the Owner issues commands and nobody else's ticket starts it again. It already
holds every operation that gossip can bring it. -/
def OnlyOwner (network : ShareNetwork crdt Peer) : ShareEvent Peer → Prop
  | .invite peer _ _ _ => peer = owner
  | .revoke peer _ _ => peer = owner
  | .rotateKey peer _ => peer = owner
  | .join peer _ _ => peer ≠ owner
  | .gossip peer payload => peer = owner → ∀ loop, network.loops owner = some loop →
      ∀ raw ∈ payload, ∃ op ∈ loop.authState.ops, SignedOp.decode raw = some op
  | .announceTick _ => True
  | .deliver _ _ _ => True

/-- No barred member is invited. -/
def RespectsBar (barred : Bar) : ShareEvent Peer → Prop
  | .invite _ invitee _ _ => ∀ epoch, ¬ barred invitee epoch
  | _ => True

omit [DecidableEq Peer] in
theorem applyPayload_of_known {applied : Nat} {state : AuthState crdt} {payload : List Bytes}
    (known : ∀ raw ∈ payload, ∃ op ∈ state.ops, SignedOp.decode raw = some op) :
    applyPayload crypto applied state payload = (applied, state) := by
  induction payload with
  | nil => rfl
  | cons raw payload ih =>
      obtain ⟨here, later⟩ := List.forall_mem_cons.mp known
      obtain ⟨op, held, decoded⟩ := here
      have skipped : applyRaw crypto applied state raw = (applied, state) := by
        rw [applyRaw, decoded]
        dsimp only
        unfold AuthState.applyRemote
        cases op.verify crypto with
        | error failure => rfl
        | ok _ =>
            have duplicate : (state.ops.any fun other =>
                other.computeId crypto = op.computeId crypto) = true :=
              List.any_eq_true.mpr ⟨op, held, decide_eq_true rfl⟩
            simp [duplicate]
      rw [applyPayload, skipped]
      exact ih later

omit [DecidableEq Peer] in
theorem Custody.deliver_owner (lawful : crypto.Lawful)
    (custody : Custody config identityOf owner barred network ownerLoop) (created : Key)
    {rotation : SignedRotation} (member : rotation ∈ network.published) :
    (ownerLoop.applyKeyRotation crypto config (identityOf owner) created rotation).2 = ownerLoop := by
  obtain ⟨key, found, carries⟩ := (custody.published rotation member).authentic
  have delivered := delivery_iff lawful config (identityOf owner) carries custody.synced created
  exact delivered.2.mpr (.inr (.inl (KeyRing.le_of_keyForEpoch found).2))

theorem Custody.invite (group : crdt.Lawful)
    (custody : Custody config identityOf owner barred network ownerLoop) {invitee : MemberId}
    (allowed : ∀ epoch, ¬ barred invitee epoch) (authRole : AuthRole) (suggestedRole : ShareRole) :
    let outcome := ownerLoop.handleInvite crypto config (identityOf owner) invitee authRole
      suggestedRole
    Custody config identityOf owner barred ((network.setLoop owner outcome.2).issue outcome.1)
      outcome.2 := by
  dsimp only
  obtain ⟨same, issued⟩ := handleInvite_custody config (identityOf owner) ownerLoop invitee authRole suggestedRole
  have outsiders : ∀ member epoch, barred member epoch →
      ¬ (ownerLoop.handleInvite crypto config (identityOf owner) invitee authRole
        suggestedRole).2.authState.isMember (groupIdFor crypto config.id) member = true := by
    intro member epoch bar listed
    rcases isMember_handleInvite group ownerLoop listed with rfl | before
    · exact allowed epoch bar
    · exact custody.outsiders member epoch bar before
  have flat := flat_handleInvite config (identityOf owner) custody.flat invitee authRole suggestedRole
  revert same issued outsiders flat
  rcases ownerLoop.handleInvite crypto config (identityOf owner) invitee authRole suggestedRole with
    ⟨result, after⟩
  intro same issued outsiders flat
  have kept : ownerLoop.key.keys <+: after.key.keys := same.key ▸ List.prefix_refl _
  have queued : ∀ rotation ∈ after.pendingRotations,
      Trusted (identityOf owner) after.key barred rotation := by
    intro rotation member
    rw [same.pendingRotations] at member
    exact (custody.queued rotation member).extend kept
  have next := custody.setOwner (same.synced custody.synced) flat kept outsiders queued
  cases result with
  | error failure => exact next
  | ok ticket =>
      obtain ⟨keys, addressee⟩ := issued ticket rfl
      refine ⟨next.found, next.synced, next.flat, next.outsiders, next.queued, next.published, ?_,
        next.receivers⟩
      intro other member
      rcases List.mem_append.mp member with earlier | latest
      · exact next.tickets other earlier
      · cases List.mem_singleton.mp latest
        refine ⟨keys ▸ kept, ?_⟩
        intro epoch bar
        exact absurd (addressee ▸ bar) (allowed epoch)

theorem Custody.revoke (group : crdt.Lawful)
    (custody : Custody config identityOf owner barred network ownerLoop) (entropy : Entropy)
    (target : MemberId) :
    let after := (ownerLoop.handleRevoke crypto config (identityOf owner) entropy target).2
    Custody config identityOf owner barred
      ((network.setLoop owner after).mint ownerLoop.key after.key) after := by
  dsimp only
  apply Custody.mint
  have outsiders : ∀ member epoch, barred member epoch →
      ¬ (ownerLoop.handleRevoke crypto config (identityOf owner) entropy
        target).2.authState.isMember (groupIdFor crypto config.id) member = true := by
    intro member epoch bar listed
    exact custody.outsiders member epoch bar
      (isMember_handleRevoke group ownerLoop entropy (takesOut_of_flat group custody.flat target)
        listed).1
  have flat := flat_handleRevoke config (identityOf owner) custody.flat entropy target
  have exits := handleRevoke_custody config (identityOf owner) custody.synced entropy target
  revert outsiders flat exits
  generalize (ownerLoop.handleRevoke crypto config (identityOf owner) entropy target).2 = after
  intro outsiders flat exits
  rcases exits with same | ⟨synced, key, _, queue⟩
  · have kept : ownerLoop.key.keys <+: after.key.keys := same.key ▸ List.prefix_refl _
    refine custody.setOwner (same.synced custody.synced) flat kept outsiders ?_
    intro rotation member
    rw [same.pendingRotations] at member
    exact (custody.queued rotation member).extend kept
  · have kept : ownerLoop.key.keys <+: after.key.keys := by
      rw [key, KeyRing.keys_push]
      exact List.prefix_append _ _
    refine custody.setOwner synced flat kept outsiders ?_
    intro rotation member
    rcases queue with unqueued | ⟨built, queued, epoch, carries, addresses⟩
    · rw [unqueued] at member
      exact (custody.queued rotation member).extend kept
    · rw [queued] at member
      rcases List.mem_append.mp member with earlier | latest
      · exact (custody.queued rotation earlier).extend kept
      · cases List.mem_singleton.mp latest
        refine ⟨⟨entropy.newKey, ?_, carries⟩, ?_⟩
        · rw [epoch, key]
          exact KeyRing.keyForEpoch_push_current _ _
        · intro other bar addressed
          exact outsiders other _ bar (addresses other addressed).2

theorem Custody.rotateKey (custody : Custody config identityOf owner barred network ownerLoop)
    (entropy : Entropy) :
    let after := (ownerLoop.handleRotateKey entropy).2
    Custody config identityOf owner barred
      ((network.setLoop owner after).mint ownerLoop.key after.key) after := by
  dsimp only
  apply Custody.mint
  rw [handleRotateKey_synced custody.synced]
  have kept : ownerLoop.key.keys <+: (ownerLoop.key.push entropy.newKey).keys :=
    List.prefix_append _ _
  exact custody.setOwner rfl custody.flat kept custody.outsiders
    fun rotation member => (custody.queued rotation member).extend kept

theorem Custody.announceTick (custody : Custody config identityOf owner barred network ownerLoop)
    {peer : Peer} {loop : ShareLoop crdt} (found : network.loops peer = some loop) :
    Custody config identityOf owner barred
      { network with published := network.published ++ loop.pendingRotations } ownerLoop := by
  refine ⟨custody.found, custody.synced, custody.flat, custody.outsiders, custody.queued, ?_,
    custody.tickets,
    custody.receivers⟩
  intro rotation member
  rcases List.mem_append.mp member with earlier | latest
  · exact custody.published rotation earlier
  · by_cases own : peer = owner
    · subst own
      cases custody.found.symm.trans found
      exact custody.queued rotation latest
    · rw [(custody.receivers peer loop own found).pending_eq] at latest
      cases latest

theorem Custody.join (custody : Custody config identityOf owner barred network ownerLoop)
    {peer : Peer} (other : peer ≠ owner) {created : Key} {ticket : Ticket}
    (member : ticket ∈ network.tickets) {loop : ShareLoop crdt}
    (joined : shareJoin crypto (identityOf peer) created ticket = .ok loop) :
    Custody config identityOf owner barred (network.setLoop peer loop) ownerLoop := by
  obtain ⟨addressee, synced, keys, pending, buffer⟩ := shareJoin_custody joined
  have held := custody.tickets ticket member
  rw [addressee, ← keys] at held
  refine custody.setReceiver other ⟨synced, rfl, pending, ?_, held⟩
  intro rotation buffered
  rw [buffer] at buffered
  cases buffered

theorem Custody.gossip (custody : Custody config identityOf owner barred network ownerLoop)
    {peer : Peer} {payload : List Bytes}
    (met : network.OnlyOwner owner (.gossip peer payload))
    {loop : ShareLoop crdt} (found : network.loops peer = some loop) :
    Custody config identityOf owner barred
      (network.setLoop peer (receiveAuthOps crypto loop payload)) ownerLoop := by
  by_cases own : peer = owner
  · subst own
    cases custody.found.symm.trans found
    have known : applyPayload crypto 0 ownerLoop.authState payload = (0, ownerLoop.authState) :=
      applyPayload_of_known (met rfl ownerLoop custody.found)
    have same : receiveAuthOps crypto ownerLoop payload = ownerLoop := by
      rw [receiveAuthOps, applyAuthOps, known]
      rfl
    rw [same]
    exact custody.setOwner custody.synced custody.flat (List.prefix_refl _) custody.outsiders
      custody.queued
  · have before := custody.receivers peer loop own found
    exact custody.setReceiver own
      ⟨before.synced, rfl, before.pending_eq, before.trusted, before.good⟩

theorem step_custody (lawful : crypto.Lawful) (group : crdt.Lawful)
    (custody : ∃ ownerLoop, Custody config identityOf owner barred network ownerLoop)
    {event : ShareEvent Peer} {next : ShareNetwork crdt Peer}
    (met : network.OnlyOwner owner event) (respects : RespectsBar barred event)
    (stepped : (machine crypto config identityOf).step network event = some next) :
    ∃ ownerLoop, Custody config identityOf owner barred next ownerLoop := by
  obtain ⟨ownerLoop, custody⟩ := custody
  cases event with
  | invite peer invitee authRole suggestedRole =>
      obtain ⟨loop, found, rfl⟩ := Option.map_eq_some_iff.mp stepped
      cases met
      cases custody.found.symm.trans found
      exact ⟨_, custody.invite group respects authRole suggestedRole⟩
  | revoke peer entropy target =>
      obtain ⟨loop, found, rfl⟩ := Option.map_eq_some_iff.mp stepped
      cases met
      cases custody.found.symm.trans found
      exact ⟨_, custody.revoke group entropy target⟩
  | rotateKey peer entropy =>
      obtain ⟨loop, found, rfl⟩ := Option.map_eq_some_iff.mp stepped
      cases met
      cases custody.found.symm.trans found
      exact ⟨_, custody.rotateKey entropy⟩
  | join peer created index =>
      obtain ⟨ticket, found, rfl⟩ := Option.map_eq_some_iff.mp stepped
      cases joined : shareJoin crypto (identityOf peer) created ticket with
      | error failure => exact ⟨ownerLoop, custody⟩
      | ok loop => exact ⟨ownerLoop, custody.join met (List.mem_of_getElem? found) joined⟩
  | announceTick peer =>
      obtain ⟨loop, found, rfl⟩ := Option.map_eq_some_iff.mp stepped
      exact ⟨ownerLoop, custody.announceTick found⟩
  | deliver peer created index =>
      obtain ⟨loop, found, delivered⟩ := Option.bind_eq_some_iff.mp stepped
      obtain ⟨rotation, listed, same⟩ := Option.bind_eq_some_iff.mp delivered
      cases same
      have member := List.mem_of_getElem? listed
      by_cases own : peer = owner
      · subst own
        cases custody.found.symm.trans found
        rw [custody.deliver_owner lawful created member]
        exact ⟨ownerLoop, custody.setOwner custody.synced custody.flat (List.prefix_refl _)
          custody.outsiders custody.queued⟩
      · have before := custody.receivers peer loop own found
        have after := before.applyKeyRotation (keepsGood config lawful _ _ _ _ _) created
          (custody.published rotation member)
        refine ⟨ownerLoop, custody.setReceiver own ?_⟩
        exact ⟨after.synced, rfl, after.pending_eq, after.trusted, after.good⟩
  | gossip peer payload =>
      obtain ⟨loop, found, rfl⟩ := Option.map_eq_some_iff.mp stepped
      exact ⟨ownerLoop, custody.gossip met found⟩

/-- The share as its Owner's loop starts it: nobody else runs, nothing is issued or sent, and all
members are individuals. -/
structure Founded (network : ShareNetwork crdt Peer) (owner : Peer) (ownerLoop : ShareLoop crdt) :
    Prop where
  found : network.loops owner = some ownerLoop
  alone : ∀ peer, peer ≠ owner → network.loops peer = none
  synced : ownerLoop.Synced
  flat : crdt.Flat ownerLoop.authState.crdt
  pendingRotations : ownerLoop.pendingRotations = []
  tickets : network.tickets = []
  published : network.published = []

omit [DecidableEq Peer] in
theorem Founded.custody (founded : network.Founded owner ownerLoop) :
    Custody config identityOf owner (fun _ _ => False) network ownerLoop := by
  refine ⟨founded.found, founded.synced, founded.flat, fun _ _ bar => bar.elim, ?_, ?_, ?_, ?_⟩
  · simp [founded.pendingRotations]
  · simp [founded.published]
  · simp [founded.tickets]
  · intro peer loop apart found
    rw [founded.alone peer apart] at found
    cases found

/-- In the run, the Owner's revocation of `target` made `epoch` its current one, and
nobody invites `target` after it. -/
structure RevokedAt (crypto : Primitives) (config : ShareConfig)
    (identityOf : Peer → crypto.PrivateKey) (owner : Peer) (start : ShareNetwork crdt Peer)
    (events : List (ShareEvent Peer)) (target : MemberId) (epoch : Nat) : Prop where
  split : ∃ front entropy back before beforeLoop after afterLoop,
    events = front ++ .revoke owner entropy target :: back ∧
    (machine crypto config identityOf).run start front = some before ∧
    before.loops owner = some beforeLoop ∧
    (machine crypto config identityOf).step before (.revoke owner entropy target) = some after ∧
    after.loops owner = some afterLoop ∧
    beforeLoop.key.currentEpoch < afterLoop.key.currentEpoch ∧
    afterLoop.key.currentEpoch = epoch ∧
    ∀ peer authRole suggestedRole, .invite peer target authRole suggestedRole ∉ back

section Bar

variable {ownerIdentity : crypto.PrivateKey} {ring longer : KeyRing} {target : MemberId}

/-- Rotations of earlier epochs need no bar of their own. -/
theorem Trusted.bar {rotation : SignedRotation} (rotated : ring.currentEpoch < longer.currentEpoch)
    (before : Trusted ownerIdentity ring (fun _ _ => False) rotation)
    (trusted : Trusted ownerIdentity longer (fun _ _ => False) rotation) :
    Trusted ownerIdentity longer (fun member epoch => member = target ∧ longer.currentEpoch ≤ epoch)
      rotation where
  authentic := trusted.authentic
  unaddressed := by
    intro member bar _
    obtain ⟨key, found, _⟩ := before.authentic
    have older := (KeyRing.le_of_keyForEpoch found).2.trans_lt rotated
    exact absurd bar.2 (Nat.not_le.mpr older)

theorem Held.bar {member : MemberId} {keys : List Key}
    (rotated : ring.currentEpoch < longer.currentEpoch)
    (before : Held ring (fun _ _ => False) member keys)
    (held : Held longer (fun _ _ => False) member keys) :
    Held longer (fun member epoch => member = target ∧ longer.currentEpoch ≤ epoch) member keys where
  shorter := held.shorter
  short := by
    intro epoch bar
    exact before.shorter.length_le.trans_lt (rotated.trans_le bar.2)

end Bar

/-- Right after the revocation, everything in the network stops short of its epoch. -/
theorem Custody.bar (group : crdt.Lawful)
    (custody : Custody config identityOf owner (fun _ _ => False) network ownerLoop)
    (entropy : Entropy) (target : MemberId)
    (rotated : ownerLoop.key.currentEpoch <
      (ownerLoop.handleRevoke crypto config (identityOf owner) entropy target).2.key.currentEpoch) :
    let after := (ownerLoop.handleRevoke crypto config (identityOf owner) entropy target).2
    Custody config identityOf owner
      (fun member epoch => member = target ∧ after.key.currentEpoch ≤ epoch)
      ((network.setLoop owner after).mint ownerLoop.key after.key) after := by
  dsimp only
  have unbarred := custody.revoke group entropy target
  have exits := handleRevoke_custody config (identityOf owner) custody.synced entropy target
  have members : ∀ member, (ownerLoop.handleRevoke crypto config (identityOf owner) entropy
      target).2.authState.isMember (groupIdFor crypto config.id) member = true →
        ((ownerLoop.handleRevoke crypto config (identityOf owner) entropy target).2.key ≠
          ownerLoop.key → member ≠ target) :=
    fun member listed => (isMember_handleRevoke group ownerLoop entropy
      (takesOut_of_flat group custody.flat target) listed).2
  revert rotated unbarred exits members
  dsimp only
  generalize (ownerLoop.handleRevoke crypto config (identityOf owner) entropy target).2 = after
  intro rotated unbarred exits members
  have changed : after.key ≠ ownerLoop.key := by
    intro same
    rw [same] at rotated
    exact Nat.lt_irrefl _ rotated
  refine ⟨unbarred.found, unbarred.synced, unbarred.flat, ?_, ?_, ?_, ?_, ?_⟩
  · intro member epoch bar listed
    exact members member listed changed bar.1
  · intro rotation member
    have trusted := unbarred.queued rotation member
    rcases exits with same | ⟨_, _, _, queue⟩
    · exact absurd same.key changed
    · rcases queue with unqueued | ⟨built, queued, _, _, addresses⟩
      · rw [unqueued] at member
        exact (custody.queued rotation member).bar rotated trusted
      · rw [queued] at member
        rcases List.mem_append.mp member with earlier | latest
        · exact (custody.queued rotation earlier).bar rotated trusted
        · cases List.mem_singleton.mp latest
          refine ⟨trusted.authentic, ?_⟩
          intro other bar addressed
          exact (addresses other addressed).1 bar.1
  · intro rotation member
    have before := member
    rw [published_mint] at before
    exact (custody.published rotation before).bar rotated (unbarred.published rotation member)
  · intro ticket member
    have before := member
    rw [tickets_mint] at before
    exact (custody.tickets ticket before).bar rotated (unbarred.tickets ticket member)
  · intro peer loop apart found
    have receiver := unbarred.receivers peer loop apart found
    rw [loops_mint, loops_setLoop, if_neg apart] at found
    have before := custody.receivers peer loop apart found
    exact ⟨receiver.synced, rfl, receiver.pending_eq,
      fun rotation member => (before.trusted rotation member).bar rotated
        (receiver.trusted rotation member),
      before.good.bar rotated receiver.good⟩

theorem run_custody (lawful : crypto.Lawful) (group : crdt.Lawful) {final : ShareNetwork crdt Peer}
    {events : List (ShareEvent Peer)}
    (custody : ∃ ownerLoop, Custody config identityOf owner barred network ownerLoop)
    (met : (machine crypto config identityOf).Along (OnlyOwner owner) network events)
    (respects : ∀ event ∈ events, RespectsBar barred event)
    (ran : (machine crypto config identityOf).run network events = some final) :
    ∃ ownerLoop, Custody config identityOf owner barred final ownerLoop := by
  have both := Machine.along_and _ met (Machine.along_of_mem _ respects network)
  exact Machine.run_along_invariant _
    (fun _ _ _ custody met stepped => step_custody lawful group custody met.1 met.2 stepped)
    custody both ran

/-- The bar that a revocation sets up holds to the end of the run. -/
theorem custody_of_revokedAt (lawful : crypto.Lawful) (group : crdt.Lawful)
    {final : ShareNetwork crdt Peer} (founded : network.Founded owner ownerLoop)
    {events : List (ShareEvent Peer)}
    (met : (machine crypto config identityOf).Along (OnlyOwner owner) network events)
    (ran : (machine crypto config identityOf).run network events = some final)
    {target : MemberId} {epoch : Nat}
    (revoked : RevokedAt crypto config identityOf owner network events target epoch) :
    ∃ finalLoop, Custody config identityOf owner
      (fun member late => member = target ∧ epoch ≤ late) final finalLoop := by
  obtain ⟨front, entropy, back, before, beforeLoop, after, afterLoop, rfl, ranFront, beforeFound,
    stepped, afterFound, grew, rfl, uninvited⟩ := revoked.split
  obtain ⟨frontMet, laterMet⟩ := (Machine.along_append_iff _).mp met
  have backMet := (laterMet before ranFront).2 after stepped
  obtain ⟨middle, sameFront, ranLater⟩ := (Machine.run_append_iff _).mp ran
  cases ranFront.symm.trans sameFront
  obtain ⟨next, sameStep, ranBack⟩ := (Machine.run_cons_iff _).mp ranLater
  cases stepped.symm.trans sameStep
  have unbarred : ∀ event ∈ front, RespectsBar (fun _ _ => False) event := by
    intro event _
    cases event <;> simp [RespectsBar]
  obtain ⟨held, custody⟩ := run_custody lawful group ⟨ownerLoop, founded.custody⟩ frontMet unbarred
    ranFront
  cases custody.found.symm.trans beforeFound
  obtain ⟨loop, found, rfl⟩ := Option.map_eq_some_iff.mp stepped
  cases custody.found.symm.trans found
  rw [loops_mint, loops_setLoop, if_pos rfl] at afterFound
  cases afterFound
  have barred := custody.bar group entropy target grew
  refine run_custody lawful group ⟨_, barred⟩ backMet ?_ ranBack
  intro event member
  cases event with
  | invite peer invitee authRole suggestedRole =>
      intro late bar
      exact uninvited peer authRole suggestedRole (bar.1 ▸ member)
  | _ => trivial

/-- Every keyring is a prefix of the Owner's, and a revoked member that is not invited
again is addressed for no epoch from the revocation's on and stays short of it. -/
theorem revocation_secrecy (crypto : Primitives) (lawful : crypto.Lawful) (crdt : GroupCrdt)
    (group : crdt.Lawful) (config : ShareConfig) (identityOf : Peer → crypto.PrivateKey)
    (owner : Peer) (start final : ShareNetwork crdt Peer) (startLoop : ShareLoop crdt)
    (founded : start.Founded owner startLoop) (events : List (ShareEvent Peer))
    (met : (machine crypto config identityOf).Along (OnlyOwner owner) start events)
    (ran : (machine crypto config identityOf).run start events = some final) :
    ∃ ownerLoop, final.loops owner = some ownerLoop ∧
      (∀ peer loop, final.loops peer = some loop → loop.key.keys <+: ownerLoop.key.keys) ∧
      ∀ target epoch, RevokedAt crypto config identityOf owner start events target epoch →
        (∀ rotation ∈ final.published ++ ownerLoop.pendingRotations, epoch ≤ rotation.epoch →
          ¬ Addresses rotation target) ∧
        ∀ peer loop, peer ≠ owner → crypto.publicKey (identityOf peer) = target →
          final.loops peer = some loop → loop.key.currentEpoch < epoch := by
  have unbarred : ∀ event ∈ events, RespectsBar (fun _ _ => False) event := by
    intro event _
    cases event <;> simp [RespectsBar]
  obtain ⟨ownerLoop, custody⟩ := run_custody lawful group ⟨startLoop, founded.custody⟩ met unbarred ran
  refine ⟨ownerLoop, custody.found, ?_, ?_⟩
  · intro peer loop found
    by_cases own : peer = owner
    · subst own
      cases custody.found.symm.trans found
      exact List.prefix_refl _
    · exact (custody.receivers peer loop own found).good.shorter
  intro target epoch revoked
  obtain ⟨barredLoop, barred⟩ := custody_of_revokedAt lawful group founded met ran revoked
  cases custody.found.symm.trans barred.found
  constructor
  · intro rotation member late
    rcases List.mem_append.mp member with sent | queued
    · exact (barred.published rotation sent).unaddressed target ⟨rfl, late⟩
    · exact (barred.queued rotation queued).unaddressed target ⟨rfl, late⟩
  · intro peer loop apart same found
    exact (barred.receivers peer loop apart found).good.short epoch ⟨same, Nat.le_refl _⟩

section Samples

open Reference

def pairIdentity : Bool → cleartext.PrivateKey
  | true => founder
  | false => guest

def pairStart : ShareNetwork sequentialGroup Bool where
  loops peer := if peer then some (docsLoop founded) else none
  tickets := []
  published := []
  minted := []

theorem pairStart_founded : pairStart.Founded true (docsLoop founded) where
  found := rfl
  alone peer apart := by
    cases peer with
    | true => exact absurd rfl apart
    | false => rfl
  synced := rfl
  flat := founded_flat
  pendingRotations := rfl
  tickets := rfl
  published := rfl

/-- The guest joins, is revoked, and is sent the rotation all the same. -/
def inviteAndRevoke : List (ShareEvent Bool) := [
  .invite true guest.val .writer .sync,
  .join false (.ofBytes 32 [9]) 0,
  .revoke true docsEntropy guest.val,
  .announceTick true,
  .deliver false (.ofBytes 32 [9]) 0]

def pairMachine : Machine (ShareNetwork sequentialGroup Bool) (ShareEvent Bool) :=
  machine cleartext docsConfig pairIdentity

theorem inviteAndRevoke_onlyOwner : pairMachine.Along (OnlyOwner true) pairStart inviteAndRevoke :=
  ⟨rfl, fun _ _ => ⟨Bool.false_ne_true, fun _ _ => ⟨rfl, fun _ _ => ⟨trivial, fun _ _ => ⟨trivial,
    fun _ _ => trivial⟩⟩⟩⟩⟩

def beforeRevoke : ShareNetwork sequentialGroup Bool :=
  (pairMachine.run pairStart (inviteAndRevoke.take 2)).getD pairStart

def afterRevoke : ShareNetwork sequentialGroup Bool :=
  (pairMachine.step beforeRevoke (.revoke true docsEntropy guest.val)).getD pairStart

def pairFinal : ShareNetwork sequentialGroup Bool :=
  (pairMachine.run pairStart inviteAndRevoke).getD pairStart

private theorem eq_some_getD {Value : Type} {value : Option Value} {fallback : Value}
    (present : value.isSome = true) : value = some (value.getD fallback) := by
  cases value with
  | none => cases present
  | some value => rfl

theorem inviteAndRevoke_revokedAt : RevokedAt cleartext docsConfig pairIdentity true pairStart
    inviteAndRevoke guest.val 2 where
  split := by
    refine ⟨inviteAndRevoke.take 2, docsEntropy, inviteAndRevoke.drop 3, beforeRevoke,
      (beforeRevoke.loops true).getD (docsLoop founded), afterRevoke,
      (afterRevoke.loops true).getD (docsLoop founded), rfl, ?_, ?_, ?_, ?_, ?_, ?_, ?_⟩
    · exact eq_some_getD (by decide +kernel)
    · exact eq_some_getD (by decide +kernel)
    · exact eq_some_getD (by decide +kernel)
    · exact eq_some_getD (by decide +kernel)
    · decide +kernel
    · decide +kernel
    · intro peer authRole suggestedRole member
      simp [inviteAndRevoke] at member

theorem inviteAndRevoke_secrecy :
    ∃ ownerLoop, pairFinal.loops true = some ownerLoop ∧
      (∀ rotation ∈ pairFinal.published ++ ownerLoop.pendingRotations, 2 ≤ rotation.epoch →
        ¬ Addresses rotation guest.val) ∧
      ∀ peer loop, peer ≠ true → cleartext.publicKey (pairIdentity peer) = guest.val →
        pairFinal.loops peer = some loop → loop.key.currentEpoch < 2 := by
  obtain ⟨ownerLoop, found, _, secret⟩ := revocation_secrecy cleartext cleartext_lawful
    sequentialGroup sequentialGroup_lawful docsConfig pairIdentity true pairStart pairFinal
    (docsLoop founded) pairStart_founded inviteAndRevoke inviteAndRevoke_onlyOwner
    (eq_some_getD (by decide +kernel))
  exact ⟨ownerLoop, found, secret guest.val 2 inviteAndRevoke_revokedAt⟩

end Samples

end Peerdup.Daemon.ShareNetwork
