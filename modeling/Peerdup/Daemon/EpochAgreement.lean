import Peerdup.Daemon.ShareNetworkProperties

/-!
# Agreement on epoch keys under many Owners

Epochs are numbered locally, so two commands may create the same one. Every key that a
peer holds past the common ring was minted by some command, and an epoch minted once has
one key.
-/

set_option autoImplicit false

namespace Peerdup.Daemon.ShareNetwork

open Foundation Auth Crypto Rotation ShareLoop

variable {crdt : GroupCrdt} {crypto : Primitives} {config : ShareConfig} {Peer : Type}
  {identityOf : Peer → crypto.PrivateKey} {base keys : List Key} {minted more : List (Nat × Key)}

/-- The key at an index is the common one, or was minted past the common ring. -/
def Known (base : List Key) (minted : List (Nat × Key)) (index : Nat) (key : Key) : Prop :=
  base[index]? = some key ∨ base.length ≤ index ∧ (index + 1, key) ∈ minted

structure Grown (base : List Key) (minted : List (Nat × Key)) (keys : List Key) : Prop where
  common : base <+: keys
  known : ∀ index key, keys[index]? = some key → Known base minted index key

/-- A rotation some peer built for a known key. -/
def Sourced (crypto : Primitives) (base : List Key) (minted : List (Nat × Key))
    (rotation : SignedRotation) : Prop :=
  ∃ rotator key index, rotation.epoch = index + 1 ∧ Carries crypto rotation rotator key ∧
    Known base minted index key

theorem Known.mono {index : Nat} {key : Key} (known : Known base minted index key)
    (subset : minted ⊆ more) : Known base more index key :=
  known.imp_right fun ⟨past, member⟩ => ⟨past, subset member⟩

theorem Grown.mono (grown : Grown base minted keys) (subset : minted ⊆ more) :
    Grown base more keys :=
  ⟨grown.common, fun index key found => (grown.known index key found).mono subset⟩

theorem Sourced.mono {rotation : SignedRotation} (sourced : Sourced crypto base minted rotation)
    (subset : minted ⊆ more) : Sourced crypto base more rotation := by
  obtain ⟨rotator, key, index, epoch, carries, known⟩ := sourced
  exact ⟨rotator, key, index, epoch, carries, known.mono subset⟩

theorem Grown.push (grown : Grown base minted keys) {key : Key}
    (known : Known base minted keys.length key) : Grown base minted (keys ++ [key]) := by
  refine ⟨grown.common.trans (List.prefix_append _ _), ?_⟩
  intro index other found
  by_cases old : index < keys.length
  · rw [List.getElem?_append_left old] at found
    exact grown.known index other found
  · rw [List.getElem?_append_right (by omega)] at found
    obtain ⟨below, _⟩ := List.getElem?_eq_some_iff.mp found
    have last : index = keys.length := by
      rw [List.length_singleton] at below
      omega
    subst last
    rw [Nat.sub_self] at found
    cases found
    exact known

/-- Keys and rotations of one loop all come from the common ring or from minting. -/
structure Provenance (crypto : Primitives) (base : List Key) (minted : List (Nat × Key))
    (loop : ShareLoop crdt) : Prop where
  receiving : Receiving loop.authState loop.pendingRotations (Sourced crypto base minted)
    (fun ring => Grown base minted ring.keys) loop
  queued : ∀ rotation ∈ loop.pendingRotations, Sourced crypto base minted rotation

theorem Provenance.mono {loop : ShareLoop crdt} (provenance : Provenance crypto base minted loop)
    (subset : minted ⊆ more) : Provenance crypto base more loop :=
  ⟨⟨provenance.receiving.synced, rfl, rfl,
      fun rotation member => (provenance.receiving.trusted rotation member).mono subset,
      provenance.receiving.good.mono subset⟩,
    fun rotation member => (provenance.queued rotation member).mono subset⟩

theorem Provenance.sameCustody {before after : ShareLoop crdt}
    (provenance : Provenance crypto base minted before) (same : SameCustody before after) :
    Provenance crypto base minted after := by
  refine ⟨⟨same.synced provenance.receiving.synced, rfl, rfl, ?_, ?_⟩, ?_⟩
  · rw [same.rotationBuffer]
    exact provenance.receiving.trusted
  · rw [same.key]
    exact provenance.receiving.good
  · rw [same.pendingRotations]
    exact provenance.queued

variable (config) in
/-- An opened rotation gives the next key that was minted for its epoch. -/
theorem keepsGrown (lawful : crypto.Lawful) (authState : AuthState crdt)
    (receiver : crypto.PrivateKey) (base : List Key) (minted : List (Nat × Key)) :
    KeepsGood crypto config receiver authState (Sourced crypto base minted)
      (fun ring => Grown base minted ring.keys) := by
  intro rotation ring newKey sourced grown opened next
  obtain ⟨rotator, key, index, epoch, carries, known⟩ := sourced
  rcases verifyAndDecrypt_of_carries lawful carries authState (groupIdFor crypto config.id)
    receiver with ⟨_, _, opens⟩ | ⟨_, refused⟩
  swap
  · rcases refused with refused | refused <;> cases refused.symm.trans opened
  cases opens.symm.trans opened
  have length : ring.keys.length + 1 = rotation.epoch := next.symm
  have last : index = ring.keys.length := by omega
  exact grown.push (last ▸ known)

structure Agreement (crypto : Primitives) (base : List Key) (network : ShareNetwork crdt Peer) :
    Prop where
  loops : ∀ peer loop, network.loops peer = some loop →
    Provenance crypto base network.minted loop
  tickets : ∀ ticket ∈ network.tickets, Grown base network.minted ticket.keys
  published : ∀ rotation ∈ network.published, Sourced crypto base network.minted rotation

variable {network : ShareNetwork crdt Peer} [DecidableEq Peer]

theorem Agreement.setLoop (agreement : Agreement crypto base network) (peer : Peer)
    {loop : ShareLoop crdt} (provenance : Provenance crypto base network.minted loop) :
    Agreement crypto base (network.setLoop peer loop) := by
  refine ⟨?_, agreement.tickets, agreement.published⟩
  intro holder held found
  rw [loops_setLoop] at found
  split at found
  · cases found
    exact provenance
  · exact agreement.loops holder held found

theorem Agreement.mintPush (agreement : Agreement crypto base network) (peer : Peer)
    {loop after : ShareLoop crdt} (found : network.loops peer = some loop) {newKey : Key}
    (synced : after.Synced) (key : after.key = loop.key.push newKey)
    (buffer : after.rotationBuffer = loop.rotationBuffer)
    (queue : ∀ rotation ∈ after.pendingRotations, rotation ∈ loop.pendingRotations ∨
      rotation.epoch = loop.key.currentEpoch + 1 ∧ ∃ rotator, Carries crypto rotation rotator newKey) :
    Agreement crypto base ((network.setLoop peer after).mint loop.key after.key) := by
  have provenance := agreement.loops peer loop found
  have grown := provenance.receiving.good
  have recorded : (network.setLoop peer after).mint loop.key after.key =
      { network.setLoop peer after with
        minted := network.minted ++ [(loop.key.keys.length + 1, newKey)] } := by
    have fresh : loop.key.currentEpoch < after.key.currentEpoch := by
      rw [key, KeyRing.currentEpoch_push]
      exact Nat.lt_succ_self _
    rw [ShareNetwork.mint, if_pos fresh, key, KeyRing.currentEpoch_push, KeyRing.currentKey_push]
    rfl
  have subset : network.minted ⊆ network.minted ++ [(loop.key.keys.length + 1, newKey)] :=
    List.subset_append_left _ _
  have known : Known base (network.minted ++ [(loop.key.keys.length + 1, newKey)])
      loop.key.keys.length newKey :=
    .inr ⟨grown.common.length_le, List.mem_append_right _ List.mem_cons_self⟩
  rw [recorded]
  refine ⟨?_, ?_, ?_⟩
  · intro holder held foundHeld
    dsimp only at foundHeld
    rw [loops_setLoop] at foundHeld
    split at foundHeld
    · cases foundHeld
      refine ⟨⟨synced, rfl, rfl, ?_, ?_⟩, ?_⟩
      · intro rotation member
        rw [buffer] at member
        exact (provenance.receiving.trusted rotation member).mono subset
      · rw [key, KeyRing.keys_push]
        exact (grown.mono subset).push known
      · intro rotation member
        rcases queue rotation member with earlier | ⟨epoch, rotator, carries⟩
        · exact (provenance.queued rotation earlier).mono subset
        · exact ⟨rotator, newKey, loop.key.keys.length, epoch, carries, known⟩
    · exact (agreement.loops holder held foundHeld).mono subset
  · exact fun ticket member => (agreement.tickets ticket member).mono subset
  · exact fun rotation member => (agreement.published rotation member).mono subset

theorem Agreement.revoke (agreement : Agreement crypto base network) {peer : Peer}
    {loop : ShareLoop crdt} (found : network.loops peer = some loop) (entropy : Entropy)
    (target : MemberId) :
    let after := (loop.handleRevoke crypto config (identityOf peer) entropy target).2
    Agreement crypto base ((network.setLoop peer after).mint loop.key after.key) := by
  dsimp only
  have provenance := agreement.loops peer loop found
  rcases handleRevoke_custody config (identityOf peer) provenance.receiving.synced entropy target with
    same | ⟨synced, key, buffer, queue⟩
  · have unminted : ¬ loop.key.currentEpoch <
        (loop.handleRevoke crypto config (identityOf peer) entropy target).2.key.currentEpoch := by
      rw [same.key]
      exact Nat.lt_irrefl _
    rw [ShareNetwork.mint, if_neg unminted]
    exact agreement.setLoop peer (provenance.sameCustody same)
  · refine agreement.mintPush peer found synced key buffer ?_
    intro rotation member
    rcases queue with unqueued | ⟨built, queued, epoch, carries, _⟩
    · exact .inl (unqueued ▸ member)
    · rw [queued] at member
      rcases List.mem_append.mp member with earlier | latest
      · exact .inl earlier
      · cases List.mem_singleton.mp latest
        exact .inr ⟨epoch, identityOf peer, carries⟩

theorem step_agreement (lawful : crypto.Lawful) (agreement : Agreement crypto base network)
    {event : ShareEvent Peer} {next : ShareNetwork crdt Peer}
    (stepped : (machine crypto config identityOf).step network event = some next) :
    Agreement crypto base next := by
  cases event with
  | invite peer invitee authRole suggestedRole =>
      obtain ⟨loop, found, rfl⟩ := Option.map_eq_some_iff.mp stepped
      have provenance := agreement.loops peer loop found
      obtain ⟨same, issued⟩ := handleInvite_custody config (identityOf peer) loop invitee authRole
        suggestedRole
      have later := agreement.setLoop peer (provenance.sameCustody same)
      dsimp only
      cases made : (loop.handleInvite crypto config (identityOf peer) invitee authRole
          suggestedRole).1 with
      | error failure => exact later
      | ok ticket =>
          refine ⟨later.loops, ?_, later.published⟩
          intro other member
          rcases List.mem_append.mp member with earlier | latest
          · exact later.tickets other earlier
          · cases List.mem_singleton.mp latest
            rw [(issued ticket made).1]
            exact provenance.receiving.good
  | revoke peer entropy target =>
      obtain ⟨loop, found, rfl⟩ := Option.map_eq_some_iff.mp stepped
      exact agreement.revoke found entropy target
  | rotateKey peer entropy =>
      obtain ⟨loop, found, rfl⟩ := Option.map_eq_some_iff.mp stepped
      have provenance := agreement.loops peer loop found
      dsimp only
      rw [handleRotateKey_synced provenance.receiving.synced]
      exact agreement.mintPush peer found rfl rfl rfl fun rotation member => .inl member
  | join peer created index =>
      obtain ⟨ticket, found, rfl⟩ := Option.map_eq_some_iff.mp stepped
      cases joined : shareJoin crypto (identityOf peer) created ticket with
      | error failure => exact agreement
      | ok loop =>
          obtain ⟨_, synced, keys, pending, buffer⟩ := shareJoin_custody joined
          refine agreement.setLoop peer ⟨⟨synced, rfl, rfl, ?_, ?_⟩, ?_⟩
          · simp [buffer]
          · rw [keys]
            exact agreement.tickets ticket (List.mem_of_getElem? found)
          · simp [pending]
  | announceTick peer =>
      obtain ⟨loop, found, rfl⟩ := Option.map_eq_some_iff.mp stepped
      refine ⟨agreement.loops, agreement.tickets, ?_⟩
      intro rotation member
      rcases List.mem_append.mp member with earlier | latest
      · exact agreement.published rotation earlier
      · exact (agreement.loops peer loop found).queued rotation latest
  | deliver peer created index =>
      obtain ⟨loop, found, delivered⟩ := Option.bind_eq_some_iff.mp stepped
      obtain ⟨rotation, listed, same⟩ := Option.bind_eq_some_iff.mp delivered
      cases same
      have provenance := agreement.loops peer loop found
      have after := provenance.receiving.applyKeyRotation (keepsGrown config lawful loop.authState
        (identityOf peer) base network.minted) created
        (agreement.published rotation (List.mem_of_getElem? listed))
      refine agreement.setLoop peer ⟨⟨after.synced, rfl, rfl, after.trusted, after.good⟩, ?_⟩
      rw [after.pending_eq]
      exact provenance.queued
  | gossip peer payload =>
      obtain ⟨loop, found, rfl⟩ := Option.map_eq_some_iff.mp stepped
      exact agreement.setLoop peer
        ((agreement.loops peer loop found).sameCustody (receiveAuthOps_custody loop payload))

/-- Every running peer has imported the same ring, and nothing has been issued or sent. -/
structure Imported (network : ShareNetwork crdt Peer) (ring : KeyRing) : Prop where
  loops : ∀ peer loop, network.loops peer = some loop → loop.Synced ∧ loop.key = ring ∧
    loop.pendingRotations = [] ∧ loop.rotationBuffer = []
  tickets : network.tickets = []
  published : network.published = []
  minted : network.minted = []

omit [DecidableEq Peer] in
theorem Imported.agreement {ring : KeyRing} (imported : network.Imported ring) :
    Agreement crypto ring.keys network := by
  refine ⟨?_, ?_, ?_⟩
  · intro peer loop found
    obtain ⟨synced, same, pending, buffer⟩ := imported.loops peer loop found
    refine ⟨⟨synced, rfl, rfl, ?_, ?_⟩, ?_⟩
    · simp [buffer]
    · rw [same]
      exact ⟨List.prefix_refl _, fun index key found => .inl found⟩
    · simp [pending]
  · simp [imported.tickets]
  · simp [imported.published]

theorem Known.unique {index : Nat} {left right : Key} (first : Known base minted index left)
    (second : Known base minted index right)
    (once : (minted.filter fun entry => entry.1 = index + 1).length ≤ 1) : left = right := by
  rcases first with shared | ⟨past, leftMinted⟩
  · rcases second with same | ⟨past, _⟩
    · exact Option.some.inj (shared.symm.trans same)
    · obtain ⟨below, _⟩ := List.getElem?_eq_some_iff.mp shared
      omega
  · rcases second with shared | ⟨_, rightMinted⟩
    · obtain ⟨below, _⟩ := List.getElem?_eq_some_iff.mp shared
      omega
    · have leftListed : (index + 1, left) ∈ minted.filter fun entry => entry.1 = index + 1 :=
        List.mem_filter.mpr ⟨leftMinted, decide_eq_true rfl⟩
      have rightListed : (index + 1, right) ∈ minted.filter fun entry => entry.1 = index + 1 :=
        List.mem_filter.mpr ⟨rightMinted, decide_eq_true rfl⟩
      match listed : minted.filter fun entry => entry.1 = index + 1 with
      | [] =>
          rw [listed] at leftListed
          cases leftListed
      | [only] =>
          rw [listed, List.mem_singleton] at leftListed rightListed
          exact congrArg Prod.snd (leftListed.trans rightListed.symm)
      | _ :: _ :: _ =>
          rw [listed] at once
          simp at once

/-- Peers that both hold an epoch agree on its key, when at most one command created it. -/
theorem epoch_agreement (crypto : Primitives) (lawful : crypto.Lawful) (crdt : GroupCrdt)
    (config : ShareConfig) (identityOf : Peer → crypto.PrivateKey) (ring : KeyRing)
    (start final : ShareNetwork crdt Peer) (imported : start.Imported ring)
    (events : List (ShareEvent Peer))
    (ran : (machine crypto config identityOf).run start events = some final)
    (left right : Peer) (leftLoop rightLoop : ShareLoop crdt)
    (leftFound : final.loops left = some leftLoop) (rightFound : final.loops right = some rightLoop)
    (epoch : Nat) (leftKey rightKey : Key)
    (leftHeld : leftLoop.key.keyForEpoch epoch = some leftKey)
    (rightHeld : rightLoop.key.keyForEpoch epoch = some rightKey)
    (once : (final.minted.filter fun entry => entry.1 = epoch).length ≤ 1) : leftKey = rightKey := by
  have preserved : ∀ (network : ShareNetwork crdt Peer) event next,
      Agreement crypto ring.keys network →
      (machine crypto config identityOf).step network event = some next →
      Agreement crypto ring.keys next :=
    fun _ _ _ agreement stepped => step_agreement lawful agreement stepped
  have agreement := Machine.run_invariant _ preserved imported.agreement ran
  obtain ⟨positive, _⟩ := KeyRing.le_of_keyForEpoch leftHeld
  obtain ⟨index, rfl⟩ : ∃ index, epoch = index + 1 := ⟨epoch - 1, by omega⟩
  rw [KeyRing.keyForEpoch, if_neg (Nat.succ_ne_zero _), Nat.add_sub_cancel] at leftHeld rightHeld
  have leftKnown := (agreement.loops left leftLoop leftFound).receiving.good.known index _ leftHeld
  have rightKnown := (agreement.loops right rightLoop rightFound).receiving.good.known index _
    rightHeld
  exact leftKnown.unique rightKnown once

section Samples

open Reference

def ownerIdentity : Bool → cleartext.PrivateKey
  | true => founder
  | false => guest

/-- Two Owners and a reader, with the same ring at both Owners. -/
def twoOwners : ShareLoop sequentialGroup :=
  docsLoop (grown [(guest.val, .owner), (stranger.val, .reader)])

def ownersStart : ShareNetwork sequentialGroup Bool := ⟨fun _ => some twoOwners, [], [], []⟩

def ownersMachine : Machine (ShareNetwork sequentialGroup Bool) (ShareEvent Bool) :=
  machine cleartext docsConfig ownerIdentity

def otherEntropy : Entropy :=
  ⟨.ofBytes 32 [50], .ofBytes 32 [51], fun _ => ⟨.ofBytes 32 [52], .ofBytes 24 [53]⟩⟩

/-- One Owner revokes and the other receives. -/
def revokeAndDeliver : List (ShareEvent Bool) := [
  .revoke true docsEntropy stranger.val,
  .announceTick true,
  .deliver false (.ofBytes 32 [9]) 0]

/-- Both Owners revoke the same reader before they hear of each other. -/
def bothRevoke : List (ShareEvent Bool) := [
  .revoke true docsEntropy stranger.val,
  .revoke false otherEntropy stranger.val]

/-- The keys that the two peers hold for an epoch, and how often it was created. -/
def heldKeys (events : List (ShareEvent Bool)) (epoch : Nat) :
    Option (Option Key × Option Key × Nat) := do
  let final ← ownersMachine.run ownersStart events
  let left ← final.loops true
  let right ← final.loops false
  return (left.key.keyForEpoch epoch, right.key.keyForEpoch epoch,
    (final.minted.filter fun entry => entry.1 = epoch).length)

theorem ownersStart_imported : ownersStart.Imported twoOwners.key where
  loops peer loop found := by
    have same : twoOwners = loop := Option.some.inj found
    subst same
    exact ⟨docsLoop_synced _, rfl, rfl, rfl⟩
  tickets := rfl
  published := rfl
  minted := rfl

theorem revokeAndDeliver_agrees :
    ∃ leftKey rightKey, heldKeys revokeAndDeliver 2 = some (some leftKey, some rightKey, 1) ∧
      leftKey = rightKey := by
  have held : heldKeys revokeAndDeliver 2 =
      some (some docsEntropy.newKey, some docsEntropy.newKey, 1) := by decide +kernel
  refine ⟨_, _, held, ?_⟩
  unfold heldKeys at held
  obtain ⟨final, ran, rest⟩ := Option.bind_eq_some_iff.mp held
  obtain ⟨left, leftFound, rest⟩ := Option.bind_eq_some_iff.mp rest
  obtain ⟨right, rightFound, same⟩ := Option.bind_eq_some_iff.mp rest
  obtain ⟨leftHeld, others⟩ := Prod.mk.inj (Option.some.inj same)
  obtain ⟨rightHeld, count⟩ := Prod.mk.inj others
  exact epoch_agreement cleartext cleartext_lawful sequentialGroup docsConfig ownerIdentity
    twoOwners.key ownersStart final ownersStart_imported revokeAndDeliver ran true false left right
    leftFound rightFound 2 _ _ leftHeld rightHeld count.le

/-- Whether both peers list both Owners as members. -/
def ownersRemain (events : List (ShareEvent Bool)) : Option Bool := do
  let final ← ownersMachine.run ownersStart events
  let left ← final.loops true
  let right ← final.loops false
  return [left, right].all fun loop =>
    loop.authState.isMember docs founder.val && loop.authState.isMember docs guest.val

theorem bothRevoke_disagree :
    heldKeys bothRevoke 2 = some (some docsEntropy.newKey, some otherEntropy.newKey, 2) ∧
      docsEntropy.newKey ≠ otherEntropy.newKey ∧ ownersRemain bothRevoke = some true := by
  decide +kernel

end Samples

end Peerdup.Daemon.ShareNetwork
