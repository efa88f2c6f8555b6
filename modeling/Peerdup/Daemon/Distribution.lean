import Peerdup.Daemon.DeliveryOrder
import Peerdup.Daemon.ReplayProperties
import Mathlib.Data.List.TakeWhile

/-!
# What an Owner's queue gives a member

A revocation queues its epoch's key for everyone it keeps. A manual key rotation queues
nothing, and the updated keys reach members outside the protocol.
-/

set_option autoImplicit false

namespace Peerdup.Daemon

open Foundation Auth Crypto Rotation

inductive OwnerCommand where
  | revoke (entropy : Entropy) (target : MemberId)
  | rotateKey (entropy : Entropy)

namespace OwnerCommand

def isRevoke : OwnerCommand → Bool
  | .revoke _ _ => true
  | .rotateKey _ => false

def Revokes (member : MemberId) : OwnerCommand → Prop
  | .revoke _ target => target = member
  | .rotateKey _ => False

end OwnerCommand

namespace ShareLoop

variable {crdt : GroupCrdt}

/-- An Owner's loop taking commands that succeed. -/
def commander (crypto : Primitives) (config : ShareConfig) (identity : crypto.PrivateKey) :
    Machine (ShareLoop crdt) OwnerCommand where
  step loop
    | .revoke entropy target =>
        match loop.handleRevoke crypto config identity entropy target with
        | (.ok _, after) => some after
        | (.error _, _) => none
    | .rotateKey entropy =>
        match loop.handleRotateKey entropy with
        | (.ok _, after) => some after
        | (.error _, _) => none

/-- The rotation brings the member the ring's key of its epoch. -/
def Offers (crypto : Primitives) (owner member : crypto.PrivateKey) (ring : KeyRing)
    (rotation : SignedRotation) : Prop :=
  ∃ key, ring.keyForEpoch rotation.epoch = some key ∧ Carries crypto rotation owner key ∧
    Addresses rotation (crypto.publicKey member)

/-- The epochs queued since the start are those its revocations have created. -/
structure Distributing (crypto : Primitives) (config : ShareConfig)
    (owner member : crypto.PrivateKey) (start : ShareLoop crdt) (taken : List OwnerCommand)
    (loop : ShareLoop crdt) : Prop where
  synced : loop.Synced
  present : loop.authState.isMember (groupIdFor crypto config.id) (crypto.publicKey member) = true
  epoch : loop.key.currentEpoch = start.key.currentEpoch + taken.length
  extends_ : start.key.keys <+: loop.key.keys
  offers : ∀ rotation ∈ loop.pendingRotations, rotation.epoch ≤ start.key.currentEpoch ∨
    Offers crypto owner member loop.key rotation
  queued : ∀ epoch, start.key.currentEpoch < epoch →
    ((∃ rotation ∈ loop.pendingRotations, rotation.epoch = epoch) ↔
      epoch ∈ InOrder.marked OwnerCommand.isRevoke start.key.currentEpoch taken)

variable {crypto : Primitives} {config : ShareConfig} {owner member : crypto.PrivateKey}
  {start loop : ShareLoop crdt} {taken : List OwnerCommand}

theorem Offers.extend {ring longer : KeyRing} {rotation : SignedRotation}
    (extends_ : ring.keys <+: longer.keys) (offers : Offers crypto owner member ring rotation) :
    Offers crypto owner member longer rotation := by
  obtain ⟨key, held, rest⟩ := offers
  exact ⟨key, KeyRing.keyForEpoch_of_prefix extends_ held, rest⟩

theorem Distributing.rotateKey
    (distributing : Distributing crypto config owner member start taken loop) (entropy : Entropy) :
    Distributing crypto config owner member start (taken ++ [.rotateKey entropy])
      (loop.withRing (loop.key.push entropy.newKey)) where
  synced := rfl
  present := distributing.present
  epoch := by
    change (loop.key.push entropy.newKey).currentEpoch = _
    rw [KeyRing.currentEpoch_push, distributing.epoch, List.length_append]
    rfl
  extends_ := distributing.extends_.trans (List.prefix_append _ _)
  offers rotation member :=
    (distributing.offers rotation member).imp_right (.extend (List.prefix_append _ _))
  queued epoch after := by
    rw [InOrder.mem_marked_concat]
    exact (distributing.queued epoch after).trans
      ⟨.inl, fun either => either.resolve_right fun both => Bool.false_ne_true both.1⟩

theorem Distributing.revoke (group : crdt.Lawful) {after : ShareLoop crdt} {entropy : Entropy}
    {target : MemberId} {epoch : Nat}
    (distributing : Distributing crypto config owner member start taken loop)
    (kept : target ≠ crypto.publicKey member)
    (revoked : loop.handleRevoke crypto config owner entropy target = (.ok epoch, after)) :
    Distributing crypto config owner member start (taken ++ [.revoke entropy target]) after := by
  have loaded := loadOrCreateKeyring_fileBytes entropy.created loop.key
  rw [← distributing.synced] at loaded
  rcases handleRevoke_cases crypto config owner loop entropy target with
    ⟨_, done⟩ | ⟨_, done⟩ | ⟨next, accepted, ⟨_, _, _, done⟩ | ⟨ring, _, same, ending⟩⟩
  · cases done.symm.trans revoked
  · cases done.symm.trans revoked
  · cases done.symm.trans revoked
  cases same.symm.trans loaded
  rcases ending with ⟨_, done⟩ | ⟨rotation, rotationEpoch, carries, addresses, done⟩
  · cases done.symm.trans revoked
  cases done.symm.trans revoked
  have stays := (isMember_removed_other group accepted kept.symm).mpr distributing.present
  have extended : loop.key.keys <+: (loop.key.push entropy.newKey).keys := List.prefix_append _ _
  have offered : Offers crypto owner member (loop.key.push entropy.newKey) rotation := by
    refine ⟨entropy.newKey, ?_, carries, ?_⟩
    · rw [rotationEpoch]
      exact KeyRing.keyForEpoch_push_current loop.key entropy.newKey
    · rw [addresses, mem_remaining_iff]
      exact ⟨kept.symm, stays⟩
  refine ⟨rfl, stays, ?_, distributing.extends_.trans extended, ?_, ?_⟩
  · change (loop.key.push entropy.newKey).currentEpoch = _
    rw [KeyRing.currentEpoch_push, distributing.epoch, List.length_append]
    rfl
  · intro other listed
    rcases List.mem_append.mp listed with earlier | last
    · exact (distributing.offers other earlier).imp_right (.extend extended)
    · rw [List.mem_singleton.mp last]
      exact .inr offered
  · intro number above
    rw [InOrder.mem_marked_concat, ← distributing.queued number above, ← distributing.epoch]
    constructor
    · intro ⟨other, listed, same⟩
      rcases List.mem_append.mp listed with earlier | last
      · exact .inl ⟨other, earlier, same⟩
      · rw [List.mem_singleton.mp last] at same
        exact .inr ⟨rfl, same.symm.trans rotationEpoch⟩
    · intro either
      rcases either with ⟨other, earlier, same⟩ | ⟨_, same⟩
      · exact ⟨other, List.mem_append_left _ earlier, same⟩
      · exact ⟨rotation, List.mem_append_right _ List.mem_cons_self, rotationEpoch.trans same.symm⟩

theorem distributing_of_run (group : crdt.Lawful) {final : ShareLoop crdt} (synced : start.Synced)
    (old : ∀ rotation ∈ start.pendingRotations, rotation.epoch ≤ start.key.currentEpoch)
    (present : start.authState.isMember (groupIdFor crypto config.id) (crypto.publicKey member) = true)
    {commands : List OwnerCommand}
    (kept : ∀ command ∈ commands, ¬ command.Revokes (crypto.publicKey member))
    (ran : (commander crypto config owner).run start commands = some final) :
    Distributing crypto config owner member start commands final := by
  have preserved : ∀ (taken : List OwnerCommand) (loop : ShareLoop crdt) command next,
      Distributing crypto config owner member start taken loop →
      ¬ command.Revokes (crypto.publicKey member) →
      (commander crypto config owner).step loop command = some next →
      Distributing crypto config owner member start (taken ++ [command]) next := by
    intro taken loop command next distributing spared stepped
    unfold commander at stepped
    cases command with
    | revoke entropy target =>
        dsimp only at stepped
        split at stepped
        · next revoked =>
            cases stepped
            exact distributing.revoke group spared revoked
        · cases stepped
    | rotateKey entropy =>
        dsimp only at stepped
        rw [handleRotateKey_synced distributing.synced] at stepped
        cases stepped
        exact distributing.rotateKey entropy
  refine Machine.run_history _ preserved ?_ (Machine.along_of_mem _ kept start) ran
  refine ⟨synced, present, rfl, List.prefix_refl _, fun rotation listed => .inl (old rotation listed),
    ?_⟩
  intro epoch after
  constructor
  · intro ⟨rotation, listed, same⟩
    have below := old rotation listed
    omega
  · exact fun marked => absurd marked (InOrder.mem_marked_nil _ _ _)

theorem extendRing_prefix {ring longer : KeyRing} {epochKey : Nat → Key}
    (extends_ : ring.keys <+: longer.keys)
    (same : ∀ epoch key, longer.keyForEpoch epoch = some key → epochKey epoch = key) {count : Nat}
    (within : ring.currentEpoch + count ≤ longer.currentEpoch) :
    (extendRing ring epochKey count).keys <+: longer.keys := by
  induction count with
  | zero => exact extends_
  | succ count ih =>
      have shorter := ih (by omega)
      have length : (extendRing ring epochKey count).keys.length = ring.currentEpoch + count :=
        currentEpoch_extendRing ring epochKey count
      have below : ring.currentEpoch + count < longer.keys.length := by
        rw [KeyRing.currentEpoch] at within ⊢
        rw [KeyRing.currentEpoch] at within
        omega
      have held : longer.keyForEpoch (ring.currentEpoch + count + 1) =
          some longer.keys[ring.currentEpoch + count] := by
        rw [KeyRing.keyForEpoch, if_neg (Nat.succ_ne_zero _), Nat.add_sub_cancel]
        exact List.getElem?_eq_getElem below
      rw [extendRing, KeyRing.keys_push, same _ _ held]
      refine KeyRing.prefix_push shorter ?_
      rw [length]
      exact held

theorem Offers.opens (lawful : crypto.Lawful) {authState : AuthState crdt} {ring : KeyRing}
    {rotation : SignedRotation} {epochKey : Nat → Key}
    (offers : Offers crypto owner member ring rotation)
    (recognised : (crypto.publicKey owner, AuthRole.owner) ∈
      authState.members (groupIdFor crypto config.id))
    (same : ∀ epoch key, ring.keyForEpoch epoch = some key → epochKey epoch = key) :
    Opens crypto config member authState epochKey rotation := by
  obtain ⟨key, held, carries, addressed⟩ := offers
  have owns : RotatorOwns authState (groupIdFor crypto config.id) rotation := by
    rw [RotatorOwns, carries.rotatorPubkey]
    exact recognised
  rcases verifyAndDecrypt_of_carries lawful carries authState (groupIdFor crypto config.id) member
    with ⟨_, _, opened⟩ | ⟨closed, _⟩
  · rw [Opens, same _ _ held]
    exact opened
  · exact absurd ⟨owns, addressed⟩ closed

/-- The epochs that arrive from the queue are those the revocations created. -/
theorem Distributing.arrives (lawful : crypto.Lawful) {commands : List OwnerCommand}
    {authState : AuthState crdt} {epochKey : Nat → Key} {deliveries : List (Key × SignedRotation)}
    (distributing : Distributing crypto config owner member start commands loop)
    (recognised : (crypto.publicKey owner, AuthRole.owner) ∈
      authState.members (groupIdFor crypto config.id))
    (same : ∀ epoch key, loop.key.keyForEpoch epoch = some key → epochKey epoch = key)
    (sources : ∀ delivery ∈ deliveries, delivery.2 ∈ loop.pendingRotations ∨
      Refused crypto config member authState delivery.2)
    (all : ∀ rotation ∈ loop.pendingRotations, ∃ delivery ∈ deliveries, delivery.2 = rotation)
    {epoch : Nat} (after : start.key.currentEpoch < epoch) :
    epoch ∈ deliveredEpochs crypto config member authState epochKey deliveries ↔
      epoch ∈ InOrder.marked OwnerCommand.isRevoke start.key.currentEpoch commands := by
  rw [← distributing.queued epoch after]
  constructor
  · intro ⟨delivery, listed, number, opened⟩
    rcases sources delivery listed with queued | refused
    · exact ⟨delivery.2, queued, number⟩
    · exact absurd opened (refused _)
  · intro ⟨rotation, queued, number⟩
    obtain ⟨delivery, listed, rfl⟩ := all rotation queued
    have offers := (distributing.offers delivery.2 queued).resolve_left (by omega)
    exact ⟨delivery, listed, number, offers.opens lawful recognised same⟩

/-- Each delivery from the queue opens, or is refused, or is of an epoch already held. -/
theorem Distributing.opens (lawful : crypto.Lawful) {commands : List OwnerCommand}
    {authState : AuthState crdt} {epochKey : Nat → Key} {deliveries : List (Key × SignedRotation)}
    (distributing : Distributing crypto config owner member start commands loop)
    (recognised : (crypto.publicKey owner, AuthRole.owner) ∈
      authState.members (groupIdFor crypto config.id))
    (same : ∀ epoch key, loop.key.keyForEpoch epoch = some key → epochKey epoch = key)
    (sources : ∀ delivery ∈ deliveries, delivery.2 ∈ loop.pendingRotations ∨
      Refused crypto config member authState delivery.2) :
    ∀ delivery ∈ deliveries, Opens crypto config member authState epochKey delivery.2 ∨
      Refused crypto config member authState delivery.2 ∨
      delivery.2.epoch ≤ start.key.currentEpoch := by
  intro delivery listed
  rcases sources delivery listed with queued | refused
  · rcases distributing.offers delivery.2 queued with below | offers
    · exact .inr (.inr below)
    · exact .inl (offers.opens lawful recognised same)
  · exact .inr (.inl refused)

/-- A member that has received the Owner's queue, in any order, has the Owner's keyring up
to the first epoch that a manual rotation created. -/
theorem distribution_complete (crypto : Primitives) (lawful : crypto.Lawful) (crdt : GroupCrdt)
    (group : crdt.Lawful) (config : ShareConfig) (owner member : crypto.PrivateKey)
    (start final : ShareLoop crdt) (synced : start.Synced)
    (old : ∀ rotation ∈ start.pendingRotations, rotation.epoch ≤ start.key.currentEpoch)
    (present : start.authState.isMember (groupIdFor crypto config.id) (crypto.publicKey member) = true)
    (commands : List OwnerCommand)
    (kept : ∀ command ∈ commands, ¬ command.Revokes (crypto.publicKey member))
    (ran : (commander crypto config owner).run start commands = some final)
    (joined received : ShareLoop crdt) (joinedSynced : joined.Synced) (sameRing : joined.key = start.key)
    (fresh : joined.rotationBuffer = [])
    (recognised : (crypto.publicKey owner, AuthRole.owner) ∈
      joined.authState.members (groupIdFor crypto config.id))
    (deliveries : List (Key × SignedRotation))
    (sources : ∀ delivery ∈ deliveries, delivery.2 ∈ final.pendingRotations ∨
      Refused crypto config member joined.authState delivery.2)
    (all : ∀ rotation ∈ final.pendingRotations, ∃ delivery ∈ deliveries, delivery.2 = rotation)
    (room : (receiver crypto config member).Along (fun loop delivery => loop.HasRoom delivery.2 ∨
      Refused crypto config member joined.authState delivery.2) joined deliveries)
    (delivered : (receiver crypto config member).run joined deliveries = some received) :
    received.key.keys = final.key.keys.take
        (start.key.currentEpoch + (commands.takeWhile OwnerCommand.isRevoke).length) ∧
      ((∀ command ∈ commands, command.isRevoke = true) → received.key = final.key ∧
        ∀ nonce plaintext blob, final.key.currentEpoch < 2 ^ 64 →
          encrypt crypto final.key nonce plaintext = .ok blob →
          decrypt crypto received.key blob = .ok plaintext) := by
  have distributing := distributing_of_run group synced old present kept ran
  let epochKey : Nat → Key := fun epoch => (final.key.keyForEpoch epoch).getD final.key.currentKey
  have same : ∀ epoch key, final.key.keyForEpoch epoch = some key → epochKey epoch = key := by
    intro epoch key held
    simp only [epochKey, held, Option.getD_some]
  have each : ∀ delivery ∈ deliveries,
      Opens crypto config member joined.authState epochKey delivery.2 ∨
        Refused crypto config member joined.authState delivery.2 ∨
        delivery.2.epoch ≤ joined.key.currentEpoch := by
    rw [sameRing]
    exact distributing.opens lawful recognised same sources
  have met : (receiver crypto config member).Along
      (Deliverable crypto config member joined.authState epochKey joined.key) joined deliveries := by
    refine Machine.along_mono _ ?_ (Machine.along_and _ room (Machine.along_of_mem _ each joined))
    intro loop delivery ⟨room, kind⟩
    rcases room with space | refused
    · exact kind.imp_left fun opened => ⟨opened, space⟩
    · exact .inr (.inl refused)
  have settled := settled_of_run joinedSynced fresh met delivered
  have arrived : ∀ epoch, joined.key.currentEpoch < epoch →
      (epoch ∈ deliveredEpochs crypto config member joined.authState epochKey deliveries ↔
        epoch ∈ InOrder.marked OwnerCommand.isRevoke joined.key.currentEpoch commands) := by
    rw [sameRing]
    exact fun _ after => distributing.arrives lawful recognised same sources all after
  have reached := (settled.frontier.congr arrived).unique (InOrder.frontier_marked _ _ _)
  have atMost : (commands.takeWhile OwnerCommand.isRevoke).length ≤ commands.length :=
    (List.takeWhile_prefix _).length_le
  obtain ⟨count, ring⟩ := settled.installed
  have current : received.key.currentEpoch = start.key.currentEpoch + count := by
    rw [ring, currentEpoch_extendRing, sameRing]
  rw [sameRing] at reached ring
  have within : start.key.currentEpoch + count ≤ final.key.currentEpoch := by
    rw [distributing.epoch, ← current, reached]
    omega
  have shorter : received.key.keys <+: final.key.keys := by
    rw [ring]
    exact extendRing_prefix distributing.extends_ same within
  have keys : received.key.keys = final.key.keys.take
      (start.key.currentEpoch + (commands.takeWhile OwnerCommand.isRevoke).length) := by
    rw [← reached]
    exact List.prefix_iff_eq_take.mp shorter
  refine ⟨keys, fun revocations => ?_⟩
  have whole : commands.takeWhile OwnerCommand.isRevoke = commands :=
    List.takeWhile_eq_self_iff.mpr revocations
  have equal : received.key = final.key := by
    apply KeyRing.ext
    rw [keys, whole, ← distributing.epoch]
    exact List.take_length
  refine ⟨equal, ?_⟩
  intro nonce plaintext blob small encrypted
  rw [equal]
  exact decrypt_encrypt lawful (List.prefix_refl _) small encrypted

section Samples

open Reference

/-- The founder revokes the stranger and then rotates by hand. -/
def revokeThenRotate : List OwnerCommand :=
  [.revoke docsEntropy stranger.val, .rotateKey docsEntropy]

def rotatedDocs : ShareLoop sequentialGroup :=
  docsRevocation.2.withRing (docsRevocation.2.key.push docsEntropy.newKey)

theorem revokeThenRotate_run :
    (commander cleartext docsConfig founder).run guestLoop revokeThenRotate = some rotatedDocs := by
  have synced : docsRevocation.2.Synced := by
    unfold Synced
    decide +kernel
  have first : (commander cleartext docsConfig founder).step guestLoop
      (.revoke docsEntropy stranger.val) = some docsRevocation.2 := by
    unfold commander
    dsimp only
    rw [docsRevocation_eq]
  have second : (commander cleartext docsConfig founder).step docsRevocation.2
      (.rotateKey docsEntropy) = some rotatedDocs := by
    unfold commander
    dsimp only
    rw [handleRotateKey_synced synced]
    rfl
  refine (Machine.run_cons_iff _).mpr ⟨_, first, (Machine.run_cons_iff _).mpr ⟨_, second, rfl⟩⟩

/-- The guest, who receives the one queued rotation, gets the first two epochs. -/
theorem revokeThenRotate_completes :
    (guestLoop.applyKeyRotation cleartext docsConfig guest (.ofBytes 32 [9]) docsRotation).2.key.keys =
      rotatedDocs.key.keys.take 2 := by
  have queue : rotatedDocs.pendingRotations = [docsRotation] := by
    rw [rotatedDocs, pendingRotations_withRing]
    decide +kernel
  have next : docsRotation.epoch ≤ guestLoop.key.currentEpoch + 1 := by decide +kernel
  have complete := distribution_complete cleartext cleartext_lawful sequentialGroup
    sequentialGroup_lawful docsConfig founder guest guestLoop rotatedDocs (docsLoop_synced _)
    (fun _ listed => absurd listed List.not_mem_nil) (by decide +kernel) revokeThenRotate
    (by
      intro command listed
      rcases List.mem_cons.mp listed with rfl | listed
      · exact fun same : stranger.val = guest.val => absurd same (by decide)
      · rw [List.mem_singleton.mp listed]
        exact id)
    revokeThenRotate_run guestLoop _ (docsLoop_synced _) rfl rfl (by decide +kernel)
    [(.ofBytes 32 [9], docsRotation)]
    (by
      intro delivery listed
      rw [List.mem_singleton.mp listed, queue]
      dsimp only
      exact .inl (List.mem_singleton_self docsRotation))
    (by
      rw [queue]
      intro rotation listed
      rw [List.mem_singleton.mp listed]
      exact ⟨_, List.mem_singleton_self _, by dsimp only⟩)
    ⟨.inl (.inl next), fun _ _ => trivial⟩ rfl
  exact complete.1

/-- Nothing is queued for a manual rotation, so the guest stays behind. -/
theorem manualRotation_undistributed :
    let final := (guestLoop.handleRotateKey docsEntropy).2
    (commander cleartext docsConfig founder).run guestLoop [.rotateKey docsEntropy] = some final ∧
      guestLoop.authState.isMember docs guest.val = true ∧
      (founder.val, AuthRole.owner) ∈ guestLoop.authState.members docs ∧
      final.pendingRotations = [] ∧ guestLoop.key.currentEpoch = 1 ∧ final.key.currentEpoch = 2 := by
  refine ⟨rfl, ?_⟩
  decide +kernel

end Samples

end ShareLoop

end Peerdup.Daemon
