import Peerdup.CryptoProperties
import Peerdup.Daemon.ShareLoop
import Peerdup.RotationProperties

/-!
# What each share-loop handler can do

One equation per handler: the checks it makes, in order, and the state each of its exits
leaves behind.
-/

set_option autoImplicit false

namespace Peerdup

open Foundation Auth Crypto Rotation

namespace Auth.AuthState

variable {crdt : GroupCrdt}

theorem map_fst_members (state : AuthState crdt) (groupId : MemberId) :
    (state.members groupId).map Prod.fst = (crdt.members state.crdt groupId).map Prod.fst := by
  simp [members]

theorem isMember_iff (state : AuthState crdt) (groupId member : MemberId) :
    state.isMember groupId member = true ↔ member ∈ (state.members groupId).map Prod.fst := by
  rw [map_fst_members, isMember]
  simp [List.any_eq_true]

/-- The state after the CRDT has taken an operation. -/
def applied (state : AuthState crdt) (next : crdt.State) (op : SignedOp) : AuthState crdt :=
  { state with crdt := next, ops := state.ops ++ [op] }

/-- The state after the CRDT has refused one. -/
def wiped (state : AuthState crdt) : AuthState crdt := { state with crdt := crdt.new }

theorem author_eq (crypto : Primitives) (state : AuthState crdt) (myKey : crypto.PrivateKey)
    (groupId : MemberId) (action : GroupAction) :
    state.author crypto myKey groupId action =
      match crdt.process state.crdt (state.authored crypto myKey groupId action) with
      | .error cause =>
          (.error ["applying locally-authored auth op", "auth crdt error: " ++ cause], state.wiped)
      | .ok next =>
          (.ok (state.authored crypto myKey groupId action),
            state.applied next (state.authored crypto myKey groupId action)) := by
  rw [author, process]
  cases crdt.process state.crdt (state.authored crypto myKey groupId action) <;> rfl

end Auth.AuthState

namespace Daemon.ShareLoop

variable {crdt : GroupCrdt} (crypto : Primitives) (config : ShareConfig)
  (identity : crypto.PrivateKey)

def removal (loop : ShareLoop crdt) (target : MemberId) : SignedOp :=
  loop.authState.authored crypto identity (groupIdFor crypto config.id) (.remove (.individual target))

def addition (loop : ShareLoop crdt) (invitee : MemberId) (authRole : AuthRole) : SignedOp :=
  loop.authState.authored crypto identity (groupIdFor crypto config.id)
    (.add (.individual invitee) authRole.toAccess)

/-- The membership and its log once an operation is in. -/
def afterOp (loop : ShareLoop crdt) (next : crdt.State) (op : SignedOp) : ShareLoop crdt :=
  (loop.withAuth (loop.authState.applied next op)).saveAuth

/-- A keyring in memory and on disk. -/
def withRing (loop : ShareLoop crdt) (ring : KeyRing) : ShareLoop crdt :=
  (loop.withKeysBin (some ring.fileBytes)).withKey ring

/-- Everyone a revocation leaves in the group. -/
def remaining (loop : ShareLoop crdt) (target : MemberId) : List MemberId :=
  sortIds (((loop.authState.members (groupIdFor crypto config.id)).map Prod.fst).filter
    fun member => member ≠ target)

theorem handleRevoke_eq (loop : ShareLoop crdt) (entropy : Entropy) (target : MemberId) :
    loop.handleRevoke crypto config identity entropy target =
      if loop.authState.isEmpty then
        (.error ["share " ++ config.id ++ " has no auth state on disk"], loop)
      else if !loop.authState.isMember (groupIdFor crypto config.id) target then
        (.error [toHex target ++ " is not a current member of share " ++ config.id], loop)
      else
        let op := loop.removal crypto config identity target
        match crdt.process loop.authState.crdt op with
        | .error cause =>
            (.error ["applying locally-authored auth op", "auth crdt error: " ++ cause],
              loop.withAuth loop.authState.wiped)
        | .ok next =>
            let removed := loop.afterOp next op
            match loadOrCreateKeyring entropy.created loop.dir.keysBin with
            | (.error failure, keysBin) => (.error failure, removed.withKeysBin keysBin)
            | (.ok ring, _) =>
                let rotated := removed.withRing (ring.push entropy.newKey)
                match buildSignedRotation crypto identity entropy.envelope (ring.currentEpoch + 1)
                    entropy.newKey (removed.remaining crypto config target) with
                | .error failure => (.error failure, rotated)
                | .ok rotation => (.ok (ring.currentEpoch + 1), rotated.queueRotation rotation) := by
  unfold handleRevoke
  by_cases empty : loop.authState.isEmpty = true
  · rw [if_pos empty, if_pos empty]
  rw [if_neg empty, if_neg empty]
  dsimp only
  by_cases absent : (!loop.authState.isMember (groupIdFor crypto config.id) target) = true
  · rw [if_pos absent, if_pos absent]
  rw [if_neg absent, if_neg absent, AuthState.removeMember, AuthState.author_eq]
  dsimp only [removal]
  cases crdt.process loop.authState.crdt (loop.authState.authored crypto identity
    (groupIdFor crypto config.id) (.remove (.individual target))) with
  | error cause => rfl
  | ok next =>
      dsimp only [withAuth, saveAuth]
      rcases loaded : loadOrCreateKeyring entropy.created loop.dir.keysBin with ⟨result, keysBin⟩
      cases result with
      | error failure =>
          rw [rotateKeyring, loaded]
          rfl
      | ok ring =>
          rw [rotateKeyring_of_load loaded]
          dsimp only [withKeysBin]
          rw [loadOrCreateKeyring_fileBytes]
          dsimp only
          rw [KeyRing.keyForEpoch_push_current, loadOrCreateKeyring_fileBytes]
          rfl

theorem handleRotateKey_eq (loop : ShareLoop crdt) (entropy : Entropy) :
    loop.handleRotateKey entropy =
      match loadOrCreateKeyring entropy.created loop.dir.keysBin with
      | (.error failure, keysBin) => (.error failure, loop.withKeysBin keysBin)
      | (.ok ring, _) => (.ok (ring.currentEpoch + 1), loop.withRing (ring.push entropy.newKey)) := by
  unfold handleRotateKey
  rcases loaded : loadOrCreateKeyring entropy.created loop.dir.keysBin with ⟨result, keysBin⟩
  cases result with
  | error failure => rw [rotateKeyring, loaded]
  | ok ring =>
      rw [rotateKeyring_of_load loaded]
      dsimp only [withKeysBin]
      rw [loadOrCreateKeyring_fileBytes]
      rfl

theorem handleInvite_eq (loop : ShareLoop crdt) (invitee : MemberId) (authRole : AuthRole)
    (suggestedRole : ShareRole) :
    loop.handleInvite crypto config identity invitee authRole suggestedRole =
      if loop.authState.isEmpty then
        (.error ["share " ++ config.id ++
          " has no auth state on disk; can only invite from the creator's machine"], loop)
      else if loop.authState.isMember (groupIdFor crypto config.id) invitee then
        (.error [toHex invitee ++ " is already a member of share " ++ config.id], loop)
      else
        let op := loop.addition crypto config identity invitee authRole
        match crdt.process loop.authState.crdt op with
        | .error cause =>
            (.error ["applying locally-authored auth op", "auth crdt error: " ++ cause],
              loop.withAuth loop.authState.wiped)
        | .ok next =>
            (.ok ⟨ticketVersion, config.id, config.topic, loop.key.keys,
              loop.authState.ops ++ [op], invitee, suggestedRole⟩, loop.afterOp next op) := by
  unfold handleInvite
  by_cases empty : loop.authState.isEmpty = true
  · rw [if_pos empty, if_pos empty]
  rw [if_neg empty, if_neg empty]
  dsimp only
  by_cases present : loop.authState.isMember (groupIdFor crypto config.id) invitee = true
  · rw [if_pos present, if_pos present]
  rw [if_neg present, if_neg present, AuthState.addMember, AuthState.author_eq]
  dsimp only [addition]
  cases crdt.process loop.authState.crdt (loop.authState.authored crypto identity
    (groupIdFor crypto config.id) (.add (.individual invitee) authRole.toAccess)) <;> rfl

/-- Everything a revocation can come to, exit by exit. -/
theorem handleRevoke_cases (loop : ShareLoop crdt) (entropy : Entropy) (target : MemberId) :
    (∃ failure, loop.handleRevoke crypto config identity entropy target = (.error failure, loop)) ∨
    (∃ failure, loop.handleRevoke crypto config identity entropy target =
      (.error failure, loop.withAuth loop.authState.wiped)) ∨
    ∃ next, crdt.process loop.authState.crdt (loop.removal crypto config identity target) =
        .ok next ∧
      let removed := loop.afterOp next (loop.removal crypto config identity target)
      (∃ failure keysBin, loadOrCreateKeyring entropy.created loop.dir.keysBin =
          (.error failure, keysBin) ∧
        loop.handleRevoke crypto config identity entropy target =
          (.error failure, removed.withKeysBin keysBin)) ∨
      ∃ ring keysBin, loadOrCreateKeyring entropy.created loop.dir.keysBin = (.ok ring, keysBin) ∧
        let rotated := removed.withRing (ring.push entropy.newKey)
        (∃ failure, loop.handleRevoke crypto config identity entropy target =
          (.error failure, rotated)) ∨
        ∃ rotation, rotation.epoch = ring.currentEpoch + 1 ∧
          Carries crypto rotation identity entropy.newKey ∧
          (∀ member, Addresses rotation member ↔ member ∈ removed.remaining crypto config target) ∧
          loop.handleRevoke crypto config identity entropy target =
            (.ok (ring.currentEpoch + 1), rotated.queueRotation rotation) := by
  rw [handleRevoke_eq]
  by_cases empty : loop.authState.isEmpty = true
  · rw [if_pos empty]
    exact .inl ⟨_, rfl⟩
  rw [if_neg empty]
  by_cases absent : (!loop.authState.isMember (groupIdFor crypto config.id) target) = true
  · rw [if_pos absent]
    exact .inl ⟨_, rfl⟩
  rw [if_neg absent]
  dsimp only
  cases crdt.process loop.authState.crdt (loop.removal crypto config identity target) with
  | error cause => exact .inr (.inl ⟨_, rfl⟩)
  | ok next =>
      refine .inr (.inr ⟨next, rfl, ?_⟩)
      rcases loadOrCreateKeyring entropy.created loop.dir.keysBin with ⟨result, keysBin⟩
      cases result with
      | error failure => exact .inl ⟨failure, keysBin, rfl, rfl⟩
      | ok ring =>
          refine .inr ⟨ring, keysBin, rfl, ?_⟩
          dsimp only
          cases built : buildSignedRotation crypto identity entropy.envelope (ring.currentEpoch + 1)
            entropy.newKey ((loop.afterOp next
              (loop.removal crypto config identity target)).remaining crypto config target) with
          | error failure => exact .inl ⟨failure, rfl⟩
          | ok rotation =>
              obtain ⟨epoch, carries, addresses⟩ := carries_of_buildSignedRotation built
              exact .inr ⟨rotation, epoch, carries, addresses, rfl⟩

theorem mem_remaining_iff (loop : ShareLoop crdt) (target member : MemberId) :
    member ∈ loop.remaining crypto config target ↔
      member ≠ target ∧
        loop.authState.isMember (groupIdFor crypto config.id) member = true := by
  rw [remaining, mem_sortIds, List.mem_filter, AuthState.isMember_iff, and_comm]
  simp

/-- The keyring in memory is the one on disk. -/
def Synced (loop : ShareLoop crdt) : Prop := loop.dir.keysBin = some loop.key.fileBytes

@[simp] theorem pendingRotations_withRing (loop : ShareLoop crdt) (ring : KeyRing) :
    (loop.withRing ring).pendingRotations = loop.pendingRotations := rfl

variable {loop : ShareLoop crdt}

theorem Synced.withKeysBin (synced : loop.Synced) :
    loop.withKeysBin (some loop.key.fileBytes) = loop := by
  rw [ShareLoop.withKeysBin, ← synced]

theorem handleRotateKey_synced (synced : loop.Synced) (entropy : Entropy) :
    loop.handleRotateKey entropy =
      (.ok (loop.key.currentEpoch + 1), loop.withRing (loop.key.push entropy.newKey)) := by
  rw [handleRotateKey_eq, synced, loadOrCreateKeyring_fileBytes]

/-- Installing an opened rotation onto a synced keyring, by epoch. -/
def installOpened (loop : ShareLoop crdt) (config : ShareConfig) (epoch : Nat) (newKey : Key) :
    Except Failure AppliedOrBuffered × ShareLoop crdt :=
  if epoch = loop.key.currentEpoch then
    if loop.key.currentKey = newKey then (.ok .idempotent, loop)
    else (.error ["installing rotation key for share " ++ config.id ++ " at epoch " ++ toString epoch,
      "epoch " ++ toString epoch ++ " already populated with a different key"], loop)
  else if epoch < loop.key.currentEpoch then (.ok .stale, loop)
  else if epoch > loop.key.currentEpoch + 1 then (.ok .buffered, loop)
  else (.ok .applied, loop.withRing (loop.key.push newKey))

theorem tryInstallRotation_of_opened (synced : loop.Synced) (created : Key)
    {rotation : SignedRotation} {newKey : Key}
    (opened : verifyAndDecrypt crypto rotation loop.authState (groupIdFor crypto config.id)
      identity = .okForUs newKey) :
    loop.tryInstallRotation crypto config identity created rotation =
      loop.installOpened config rotation.epoch newKey := by
  have same := synced.withKeysBin
  rw [tryInstallRotation, installOpened, opened]
  dsimp only
  rw [synced, installEpochKey_fileBytes]
  by_cases current : rotation.epoch = loop.key.currentEpoch
  · rw [if_pos current, if_pos current]
    by_cases equal : loop.key.currentKey = newKey
    · rw [if_pos equal, if_pos equal]
      dsimp only
      rw [same]
    · rw [if_neg equal, if_neg equal]
      dsimp only
      rw [same]
  rw [if_neg current, if_neg current]
  by_cases older : rotation.epoch < loop.key.currentEpoch
  · rw [if_pos older, if_pos older]
    dsimp only
    rw [same]
  rw [if_neg older, if_neg older]
  by_cases ahead : rotation.epoch > loop.key.currentEpoch + 1
  · rw [if_pos ahead, if_pos ahead]
    dsimp only
    rw [same]
  · rw [if_neg ahead, if_neg ahead]
    dsimp only
    rw [loadOrCreateKeyring_fileBytes]
    rfl

theorem tryInstallRotation_of_refused (created : Key) {rotation : SignedRotation}
    (refused : ∀ newKey, verifyAndDecrypt crypto rotation loop.authState
      (groupIdFor crypto config.id) identity ≠ .okForUs newKey) :
    loop.tryInstallRotation crypto config identity created rotation = (.ok .idempotent, loop) := by
  unfold tryInstallRotation
  dsimp only
  cases outcome : verifyAndDecrypt crypto rotation loop.authState (groupIdFor crypto config.id)
      identity with
  | okForUs newKey => exact absurd outcome (refused newKey)
  | notForUs => rfl
  | notAManager => rfl
  | badSignature => rfl
  | decryptFailed => rfl

/-- What an install attempt can do to a synced loop: append the opened key, or nothing. -/
theorem tryInstallRotation_cases (synced : loop.Synced) (created : Key) (rotation : SignedRotation) :
    (∃ newKey, verifyAndDecrypt crypto rotation loop.authState (groupIdFor crypto config.id)
        identity = .okForUs newKey ∧ rotation.epoch = loop.key.currentEpoch + 1 ∧
      loop.tryInstallRotation crypto config identity created rotation =
        (.ok .applied, loop.withRing (loop.key.push newKey))) ∨
    (∃ result, result ≠ .ok .applied ∧
      loop.tryInstallRotation crypto config identity created rotation = (result, loop)) := by
  by_cases opens : ∃ newKey, verifyAndDecrypt crypto rotation loop.authState
      (groupIdFor crypto config.id) identity = .okForUs newKey
  swap
  · have refused := tryInstallRotation_of_refused crypto config identity created
      (fun newKey opened => opens ⟨newKey, opened⟩)
    exact .inr ⟨_, by simp, refused⟩
  obtain ⟨newKey, opened⟩ := opens
  have installed := tryInstallRotation_of_opened crypto config identity synced created opened
  unfold installOpened at installed
  by_cases current : rotation.epoch = loop.key.currentEpoch
  · rw [if_pos current] at installed
    by_cases equal : loop.key.currentKey = newKey
    · rw [if_pos equal] at installed
      exact .inr ⟨_, by simp, installed⟩
    · rw [if_neg equal] at installed
      exact .inr ⟨_, by simp, installed⟩
  rw [if_neg current] at installed
  by_cases older : rotation.epoch < loop.key.currentEpoch
  · rw [if_pos older] at installed
    exact .inr ⟨_, by simp, installed⟩
  rw [if_neg older] at installed
  by_cases ahead : rotation.epoch > loop.key.currentEpoch + 1
  · rw [if_pos ahead] at installed
    exact .inr ⟨_, by simp, installed⟩
  · rw [if_neg ahead] at installed
    exact .inl ⟨newKey, opened, by omega, installed⟩

theorem applyKeyRotation_of_refused (created : Key) {rotation : SignedRotation}
    (refused : ∀ newKey, verifyAndDecrypt crypto rotation loop.authState
      (groupIdFor crypto config.id) identity ≠ .okForUs newKey) :
    (loop.applyKeyRotation crypto config identity created rotation).2 = loop := by
  rw [applyKeyRotation, tryInstallRotation_of_refused crypto config identity created refused]

theorem applyKeyRotation_of_opened (synced : loop.Synced) (created : Key)
    {rotation : SignedRotation} {newKey : Key}
    (opened : verifyAndDecrypt crypto rotation loop.authState (groupIdFor crypto config.id)
      identity = .okForUs newKey) :
    (loop.applyKeyRotation crypto config identity created rotation).2 =
      if rotation.epoch ≤ loop.key.currentEpoch then loop
      else if rotation.epoch = loop.key.currentEpoch + 1 then
        (loop.withRing (loop.key.push newKey)).drainRotationBuffer crypto config identity created
      else loop.withBuffer (bufferPush loop.rotationBuffer rotation) := by
  rw [applyKeyRotation, tryInstallRotation_of_opened crypto config identity synced created opened,
    installOpened]
  by_cases current : rotation.epoch = loop.key.currentEpoch
  · rw [if_pos current, if_pos current.le]
    by_cases equal : loop.key.currentKey = newKey
    · rw [if_pos equal]
    · rw [if_neg equal]
  rw [if_neg current]
  by_cases older : rotation.epoch < loop.key.currentEpoch
  · rw [if_pos older, if_pos older.le]
  have fresh : ¬ rotation.epoch ≤ loop.key.currentEpoch := by omega
  rw [if_neg older, if_neg fresh]
  by_cases ahead : rotation.epoch > loop.key.currentEpoch + 1
  · have apart : ¬ rotation.epoch = loop.key.currentEpoch + 1 := by omega
    rw [if_pos ahead, if_neg apart]
  · have next : rotation.epoch = loop.key.currentEpoch + 1 := by omega
    rw [if_neg ahead, if_pos next]

theorem applyKeyRotation_of_stale (synced : loop.Synced) (created : Key)
    {rotation : SignedRotation} (stale : rotation.epoch ≤ loop.key.currentEpoch) :
    (loop.applyKeyRotation crypto config identity created rotation).2 = loop := by
  by_cases opens : ∃ newKey, verifyAndDecrypt crypto rotation loop.authState
      (groupIdFor crypto config.id) identity = .okForUs newKey
  · obtain ⟨newKey, opened⟩ := opens
    rw [applyKeyRotation_of_opened crypto config identity synced created opened, if_pos stale]
  · exact applyKeyRotation_of_refused crypto config identity created
      fun newKey opened => opens ⟨newKey, opened⟩

theorem bufferPush_eq_iff (buffer : List SignedRotation) (rotation : SignedRotation) :
    bufferPush buffer rotation = buffer ↔ ∃ held ∈ buffer, held.epoch = rotation.epoch := by
  unfold bufferPush
  by_cases held : (buffer.any (·.epoch = rotation.epoch)) = true
  · rw [if_pos held]
    simpa using held
  rw [if_neg held]
  have absent : ¬ ∃ held ∈ buffer, held.epoch = rotation.epoch := by simpa using held
  have pushed : ∀ front, front ++ [rotation] = buffer → False := by
    intro front same
    exact absent ⟨rotation, same ▸ List.mem_append_right _ List.mem_cons_self, rfl⟩
  simp only [absent, iff_false]
  split
  · exact fun same => pushed _ same
  · exact fun same => pushed _ same

theorem bufferPush_of_absent {buffer : List SignedRotation} {rotation : SignedRotation}
    (absent : ¬ ∃ held ∈ buffer, held.epoch = rotation.epoch)
    (room : buffer.length < rotationBufferCap) :
    bufferPush buffer rotation = buffer ++ [rotation] := by
  have missing : ¬ buffer.any (·.epoch = rotation.epoch) = true := by simpa using absent
  rw [bufferPush, if_neg missing, if_neg (Nat.not_le.mpr room)]

theorem mem_sortByEpoch {rotation : SignedRotation} {rotations : List SignedRotation} :
    rotation ∈ sortByEpoch rotations ↔ rotation ∈ rotations :=
  List.mem_insertionSort _

theorem pairwise_sortByEpoch (rotations : List SignedRotation) :
    (sortByEpoch rotations).Pairwise fun left right => left.epoch ≤ right.epoch := by
  have : Std.Total fun left right : SignedRotation => left.epoch ≤ right.epoch :=
    ⟨fun left right => Nat.le_total left.epoch right.epoch⟩
  have : IsTrans SignedRotation fun left right => left.epoch ≤ right.epoch :=
    ⟨fun _ _ _ first second => Nat.le_trans first second⟩
  exact List.pairwise_insertionSort _ _

theorem mem_of_mem_bufferPush {other rotation : SignedRotation} {buffer : List SignedRotation}
    (member : other ∈ bufferPush buffer rotation) : other ∈ buffer ∨ other = rotation := by
  unfold bufferPush at member
  split at member
  · exact .inl member
  split at member
  · rcases List.mem_append.mp member with kept | pushed
    · exact .inl (mem_sortByEpoch.mp (List.mem_of_mem_drop kept))
    · exact .inr (List.mem_singleton.mp pushed)
  · rcases List.mem_append.mp member with kept | pushed
    · exact .inl kept
    · exact .inr (List.mem_singleton.mp pushed)

/-- What an install attempt keeps, and a buffer of trusted rotations too. -/
structure InstallsKeep (created : Key) (Trusted : SignedRotation → Prop)
    (Holds : ShareLoop crdt → Prop) : Prop where
  trusted : ∀ loop, Holds loop → ∀ rotation ∈ loop.rotationBuffer, Trusted rotation
  withBuffer : ∀ loop buffer, Holds loop → (∀ rotation ∈ buffer, Trusted rotation) →
    Holds (loop.withBuffer buffer)
  install : ∀ loop rotation, Holds loop → Trusted rotation →
    Holds (loop.tryInstallRotation crypto config identity created rotation).2

section InstallsKeep

variable {crypto config identity} {created : Key} {Trusted : SignedRotation → Prop}
  {Holds : ShareLoop crdt → Prop}

theorem InstallsKeep.bufferPush
    (keeps : InstallsKeep crypto config identity created Trusted Holds) (holds : Holds loop)
    {rotation : SignedRotation} (authentic : Trusted rotation) :
    Holds (loop.withBuffer (bufferPush loop.rotationBuffer rotation)) := by
  apply keeps.withBuffer loop _ holds
  intro other member
  rcases mem_of_mem_bufferPush member with kept | rfl
  · exact keeps.trusted loop holds other kept
  · exact authentic

theorem InstallsKeep.drainRounds
    (keeps : InstallsKeep crypto config identity created Trusted Holds) (rounds : Nat)
    (holds : Holds loop) : Holds (loop.drainRounds crypto config identity created rounds) := by
  induction rounds generalizing loop with
  | zero => exact holds
  | succ rounds ih =>
      unfold ShareLoop.drainRounds
      cases sorted : sortByEpoch loop.rotationBuffer with
      | nil => exact holds
      | cons candidate rest =>
          have listed : ∀ rotation ∈ candidate :: rest, Trusted rotation := by
            intro rotation member
            rw [← sorted] at member
            exact keeps.trusted loop holds rotation (mem_sortByEpoch.mp member)
          obtain ⟨first, others⟩ := List.forall_mem_cons.mp listed
          have tried := keeps.install _ candidate (keeps.withBuffer loop rest holds others) first
          dsimp only
          revert tried
          rcases ShareLoop.tryInstallRotation crypto config identity (loop.withBuffer rest) created
            candidate with ⟨result, next⟩
          intro tried
          rcases result with failure | outcome
          · exact ih tried
          cases outcome with
          | applied => exact ih tried
          | idempotent => exact ih tried
          | stale => exact ih tried
          | buffered => exact keeps.bufferPush tried first

theorem InstallsKeep.applyKeyRotation
    (keeps : InstallsKeep crypto config identity created Trusted Holds) (holds : Holds loop)
    {rotation : SignedRotation} (authentic : Trusted rotation) :
    Holds (loop.applyKeyRotation crypto config identity created rotation).2 := by
  have tried := keeps.install loop rotation holds authentic
  unfold ShareLoop.applyKeyRotation
  revert tried
  rcases ShareLoop.tryInstallRotation crypto config identity loop created rotation with
    ⟨result, next⟩
  intro tried
  rcases result with failure | outcome
  · exact tried
  cases outcome with
  | applied => exact keeps.drainRounds _ tried
  | idempotent => exact tried
  | stale => exact tried
  | buffered => exact keeps.bufferPush tried authentic

end InstallsKeep

/-- A synced loop with a good keyring, whose buffer holds trusted rotations only. Its
membership and its own queue are as given. -/
structure Receiving (authState : AuthState crdt) (pending : List SignedRotation)
    (Trusted : SignedRotation → Prop) (Good : KeyRing → Prop) (loop : ShareLoop crdt) : Prop where
  synced : loop.Synced
  authState_eq : loop.authState = authState
  pending_eq : loop.pendingRotations = pending
  trusted : ∀ rotation ∈ loop.rotationBuffer, Trusted rotation
  good : Good loop.key

section Receiving

variable {authState : AuthState crdt} {pending : List SignedRotation}
  {Trusted : SignedRotation → Prop} {Good : KeyRing → Prop}

theorem Receiving.withBuffer (receiving : Receiving authState pending Trusted Good loop)
    {buffer : List SignedRotation} (trusted : ∀ rotation ∈ buffer, Trusted rotation) :
    Receiving authState pending Trusted Good (loop.withBuffer buffer) :=
  ⟨receiving.synced, receiving.authState_eq, receiving.pending_eq, trusted, receiving.good⟩

/-- The keyring stays good under every key that a trusted rotation opens to in turn. -/
def KeepsGood (authState : AuthState crdt) (Trusted : SignedRotation → Prop)
    (Good : KeyRing → Prop) : Prop :=
  ∀ rotation ring newKey, Trusted rotation → Good ring →
    verifyAndDecrypt crypto rotation authState (groupIdFor crypto config.id) identity =
      .okForUs newKey →
    rotation.epoch = ring.currentEpoch + 1 → Good (ring.push newKey)

variable {crypto config identity}

theorem Receiving.tryInstallRotation
    (keeps : KeepsGood crypto config identity authState Trusted Good)
    (receiving : Receiving authState pending Trusted Good loop) (created : Key)
    {rotation : SignedRotation} (authentic : Trusted rotation) :
    Receiving authState pending Trusted Good
      (loop.tryInstallRotation crypto config identity created rotation).2 := by
  rcases tryInstallRotation_cases crypto config identity receiving.synced created rotation with
    ⟨newKey, opened, next, installed⟩ | ⟨result, _, installed⟩
  · rw [installed]
    rw [receiving.authState_eq] at opened
    exact ⟨rfl, receiving.authState_eq, receiving.pending_eq, receiving.trusted,
      keeps rotation loop.key newKey authentic receiving.good opened next⟩
  · rw [installed]
    exact receiving

theorem Receiving.installsKeep
    (keeps : KeepsGood crypto config identity authState Trusted Good) (created : Key) :
    InstallsKeep crypto config identity created Trusted
      (Receiving authState pending Trusted Good) where
  trusted _ receiving := receiving.trusted
  withBuffer _ _ receiving trusted := receiving.withBuffer trusted
  install _ _ receiving authentic := receiving.tryInstallRotation keeps created authentic

theorem Receiving.drainRounds (keeps : KeepsGood crypto config identity authState Trusted Good)
    (created : Key) (rounds : Nat) (receiving : Receiving authState pending Trusted Good loop) :
    Receiving authState pending Trusted Good
      (loop.drainRounds crypto config identity created rounds) :=
  (Receiving.installsKeep keeps created).drainRounds rounds receiving

theorem Receiving.applyKeyRotation (keeps : KeepsGood crypto config identity authState Trusted Good)
    (receiving : Receiving authState pending Trusted Good loop) (created : Key)
    {rotation : SignedRotation} (authentic : Trusted rotation) :
    Receiving authState pending Trusted Good
      (loop.applyKeyRotation crypto config identity created rotation).2 :=
  (Receiving.installsKeep keeps created).applyKeyRotation receiving authentic

end Receiving

end Daemon.ShareLoop

end Peerdup
