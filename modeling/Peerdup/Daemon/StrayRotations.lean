import Peerdup.Daemon.DeliveryOrder
import Peerdup.Daemon.ReplayProperties

/-!
# Rotations that wait in another share

A rotation of another share that comes too early is buffered like one of the share's own. The
rotations in between bring it into the keyring.
-/

set_option autoImplicit false

namespace Peerdup.Daemon.ShareLoop

open Foundation Auth Crypto Rotation

variable {crdt : GroupCrdt} {crypto : Primitives} {config : ShareConfig}
  {identity rotator : crypto.PrivateKey} {loop : ShareLoop crdt} {authState : AuthState crdt}
  {rotation : SignedRotation} {newKey : Key} {epoch : Nat}

/-- The rotation, with its envelopes, signed for another epoch. -/
def reissued (crypto : Primitives) (rotator : crypto.PrivateKey) (rotation : SignedRotation)
    (epoch : Nat) : SignedRotation where
  epoch
  rotatorPubkey := rotation.rotatorPubkey
  signature := crypto.sign rotator (canonicalBytes epoch rotation.rotatorPubkey rotation.envelopes)
  envelopes := rotation.envelopes

theorem carries_reissued (carries : Carries crypto rotation rotator newKey) (epoch : Nat) :
    Carries crypto (reissued crypto rotator rotation epoch) rotator newKey :=
  ⟨carries.rotatorPubkey, rfl, carries.sealing⟩

/-- Whatever waits with this epoch opens. -/
def OpensAt (crypto : Primitives) (config : ShareConfig) (identity : crypto.PrivateKey)
    (authState : AuthState crdt) (epoch : Nat) (rotation : SignedRotation) : Prop :=
  rotation.epoch = epoch → ∃ key, verifyAndDecrypt crypto rotation authState
    (groupIdFor crypto config.id) identity = .okForUs key

/-- The epoch is in the keyring, or a rotation that opens waits with it. -/
structure Coming (crypto : Primitives) (config : ShareConfig) (identity : crypto.PrivateKey)
    (authState : AuthState crdt) (epoch : Nat) (loop : ShareLoop crdt) : Prop where
  synced : loop.Synced
  authState_eq : loop.authState = authState
  opens : ∀ held ∈ loop.rotationBuffer, OpensAt crypto config identity authState epoch held
  bounded : loop.rotationBuffer.length ≤ rotationBufferCap
  waits : epoch ≤ loop.key.currentEpoch ∨ ∃ held ∈ loop.rotationBuffer, held.epoch = epoch

/-- Nor does it wait where its turn has come. -/
structure Waiting (crypto : Primitives) (config : ShareConfig) (identity : crypto.PrivateKey)
    (authState : AuthState crdt) (epoch : Nat) (loop : ShareLoop crdt) : Prop
    extends Coming crypto config identity authState epoch loop where
  ahead : epoch ≤ loop.key.currentEpoch ∨ loop.key.currentEpoch + 1 < epoch

theorem length_bufferPush_le {buffer : List SignedRotation}
    (bounded : buffer.length ≤ rotationBufferCap) (rotation : SignedRotation) :
    (bufferPush buffer rotation).length ≤ rotationBufferCap := by
  have sorted : (sortByEpoch buffer).length = buffer.length := List.length_insertionSort _ _
  have positive : 0 < rotationBufferCap := by decide
  unfold bufferPush
  split
  · exact bounded
  split
  · rw [List.length_append, List.length_drop, sorted, List.length_singleton]
    omega
  · rw [List.length_append, List.length_singleton]
    omega

theorem mem_bufferPush_of_absent {buffer : List SignedRotation} {rotation : SignedRotation}
    (absent : ¬ ∃ held ∈ buffer, held.epoch = rotation.epoch) :
    rotation ∈ bufferPush buffer rotation := by
  have missing : ¬ buffer.any (·.epoch = rotation.epoch) = true := by simpa using absent
  rw [bufferPush, if_neg missing]
  split
  · exact List.mem_append_right _ List.mem_cons_self
  · exact List.mem_append_right _ List.mem_cons_self

/-- With room, every epoch that waited still waits, and so does the one pushed. -/
theorem epoch_bufferPush {buffer : List SignedRotation} (room : buffer.length < rotationBufferCap)
    {candidate held : SignedRotation} (member : held ∈ candidate :: buffer) :
    ∃ other ∈ bufferPush buffer candidate, other.epoch = held.epoch := by
  by_cases there : ∃ other ∈ buffer, other.epoch = candidate.epoch
  · rw [(bufferPush_eq_iff buffer candidate).mpr there]
    rcases List.mem_cons.mp member with rfl | inside
    · exact there
    · exact ⟨held, inside, rfl⟩
  · rw [bufferPush_of_absent there room]
    refine ⟨held, ?_, rfl⟩
    simpa [or_comm] using member

theorem ahead_of_buffered (synced : loop.Synced) (created : Key)
    (tried : (loop.tryInstallRotation crypto config identity created rotation).1 = .ok .buffered) :
    loop.key.currentEpoch + 1 < rotation.epoch := by
  by_cases opens : ∃ key, verifyAndDecrypt crypto rotation loop.authState
      (groupIdFor crypto config.id) identity = .okForUs key
  · obtain ⟨key, opened⟩ := opens
    rw [tryInstallRotation_of_opened crypto config identity synced created opened, installOpened]
      at tried
    split at tried
    · split at tried
      · cases tried
      · cases tried
    split at tried
    · cases tried
    split at tried
    · next ahead => exact ahead
    · cases tried
  · rw [tryInstallRotation_of_refused crypto config identity created
      fun key opened => opens ⟨key, opened⟩] at tried
    cases tried

theorem known_of_opened (synced : loop.Synced) (created : Key) {key : Key}
    (opened : verifyAndDecrypt crypto rotation loop.authState (groupIdFor crypto config.id)
      identity = .okForUs key)
    (notApplied : (loop.tryInstallRotation crypto config identity created rotation).1 ≠ .ok .applied)
    (notBuffered : (loop.tryInstallRotation crypto config identity created rotation).1 ≠
      .ok .buffered) : rotation.epoch ≤ loop.key.currentEpoch := by
  rw [tryInstallRotation_of_opened crypto config identity synced created opened, installOpened]
    at notApplied notBuffered
  split at notApplied
  · next current => exact current.le
  next other =>
    rw [if_neg other] at notBuffered
    split at notApplied
    · next older => exact older.le
    next notOlder =>
      rw [if_neg notOlder] at notBuffered
      split at notApplied
      · next ahead =>
          rw [if_pos ahead] at notBuffered
          exact absurd rfl notBuffered
      · exact absurd rfl notApplied

theorem Coming.settled (coming : Coming crypto config identity authState epoch loop)
    (empty : loop.rotationBuffer = []) : Waiting crypto config identity authState epoch loop := by
  refine ⟨coming, coming.waits.imp_right ?_⟩
  intro ⟨held, member, _⟩
  rw [empty] at member
  cases member

section Popped

variable {candidate : SignedRotation} {rest : List SignedRotation}

theorem Coming.waits_popped (coming : Coming crypto config identity authState epoch loop)
    (perm : (candidate :: rest).Perm loop.rotationBuffer) :
    epoch ≤ loop.key.currentEpoch ∨ candidate.epoch = epoch ∨ ∃ held ∈ rest, held.epoch = epoch := by
  refine coming.waits.imp_right ?_
  intro ⟨held, member, same⟩
  rcases List.mem_cons.mp (perm.symm.subset member) with rfl | inside
  · exact .inl same
  · exact .inr ⟨held, inside, same⟩

theorem Coming.opens_popped (coming : Coming crypto config identity authState epoch loop)
    (perm : (candidate :: rest).Perm loop.rotationBuffer) :
    ∀ held ∈ rest, OpensAt crypto config identity authState epoch held :=
  fun held member => coming.opens held (perm.subset (List.mem_cons_of_mem _ member))

theorem Coming.length_popped (coming : Coming crypto config identity authState epoch loop)
    (perm : (candidate :: rest).Perm loop.rotationBuffer) : rest.length < rotationBufferCap := by
  have count := perm.length_eq
  have bounded := coming.bounded
  rw [List.length_cons] at count
  omega

/-- A rotation of the buffer has been installed. -/
theorem Coming.installed (coming : Coming crypto config identity authState epoch loop)
    (perm : (candidate :: rest).Perm loop.rotationBuffer) {key : Key}
    (next : candidate.epoch = loop.key.currentEpoch + 1) :
    Coming crypto config identity authState epoch
      ((loop.withBuffer rest).withRing (loop.key.push key)) := by
  refine ⟨rfl, coming.authState_eq, coming.opens_popped perm, (coming.length_popped perm).le, ?_⟩
  change epoch ≤ (loop.key.push key).currentEpoch ∨ _
  rw [KeyRing.currentEpoch_push]
  rcases coming.waits_popped perm with there | here | later
  · exact .inl (Nat.le_succ_of_le there)
  · exact .inl (here ▸ next.le)
  · exact .inr later

/-- One has been dropped that the keyring has no more use for. -/
theorem Coming.dropped (coming : Coming crypto config identity authState epoch loop)
    (perm : (candidate :: rest).Perm loop.rotationBuffer)
    (known : candidate.epoch = epoch → candidate.epoch ≤ loop.key.currentEpoch) :
    Coming crypto config identity authState epoch (loop.withBuffer rest) := by
  refine ⟨coming.synced, coming.authState_eq, coming.opens_popped perm,
    (coming.length_popped perm).le, ?_⟩
  rcases coming.waits_popped perm with there | here | later
  · exact .inl there
  · exact .inl (here ▸ known here)
  · exact .inr later

/-- The least one is ahead and goes back into the buffer, and so all of it is ahead. -/
theorem Coming.returned (coming : Coming crypto config identity authState epoch loop)
    (perm : (candidate :: rest).Perm loop.rotationBuffer)
    (least : ∀ held ∈ rest, candidate.epoch ≤ held.epoch)
    (ahead : loop.key.currentEpoch + 1 < candidate.epoch) :
    Waiting crypto config identity authState epoch
      ((loop.withBuffer rest).withBuffer (bufferPush rest candidate)) := by
  have fewer := coming.length_popped perm
  refine ⟨⟨coming.synced, coming.authState_eq, ?_, length_bufferPush_le fewer.le candidate, ?_⟩, ?_⟩
  · intro held member
    rcases mem_of_mem_bufferPush member with kept | rfl
    · exact coming.opens_popped perm held kept
    · exact coming.opens held (perm.subset List.mem_cons_self)
  · refine coming.waits.imp_right ?_
    intro ⟨held, member, same⟩
    obtain ⟨other, inside, sameEpoch⟩ := epoch_bufferPush fewer (perm.symm.subset member)
    exact ⟨other, inside, sameEpoch.trans same⟩
  · rcases coming.waits_popped perm with there | here | ⟨held, inside, same⟩
    · exact .inl there
    · exact .inr (here ▸ ahead)
    · exact .inr (Nat.lt_of_lt_of_le ahead (same ▸ least held inside))

end Popped

/-- Draining leaves nothing waiting whose turn has come. -/
theorem Coming.drainRounds (coming : Coming crypto config identity authState epoch loop)
    (created : Key) (rounds : Nat) (enough : loop.rotationBuffer.length ≤ rounds) :
    Waiting crypto config identity authState epoch
      (loop.drainRounds crypto config identity created rounds) := by
  induction rounds generalizing loop with
  | zero => exact coming.settled (List.length_eq_zero_iff.mp (Nat.le_zero.mp enough))
  | succ rounds ih =>
      have perm : (sortByEpoch loop.rotationBuffer).Perm loop.rotationBuffer :=
        List.perm_insertionSort _ _
      have ordered := pairwise_sortByEpoch loop.rotationBuffer
      unfold ShareLoop.drainRounds
      cases sorted : sortByEpoch loop.rotationBuffer with
      | nil =>
          rw [sorted] at perm
          exact coming.settled perm.nil_eq.symm
      | cons candidate rest =>
          rw [sorted] at perm ordered
          have fewer : rest.length ≤ rounds := by
            have count := perm.length_eq
            rw [List.length_cons] at count
            omega
          have synced : (loop.withBuffer rest).Synced := coming.synced
          dsimp only
          rcases tryInstallRotation_cases crypto config identity synced created candidate with
            ⟨key, _, next, tried⟩ | ⟨result, notApplied, tried⟩
          · rw [tried]
            exact ih (coming.installed perm next) fewer
          · have dropped (notBuffered : result ≠ .ok .buffered) :
                Coming crypto config identity authState epoch (loop.withBuffer rest) := by
              refine coming.dropped perm fun here => ?_
              obtain ⟨key, opened⟩ := coming.opens candidate (perm.subset List.mem_cons_self) here
              rw [← coming.authState_eq] at opened
              have known : candidate.epoch ≤ (loop.withBuffer rest).key.currentEpoch :=
                known_of_opened synced created opened (by rwa [tried]) (by rwa [tried])
              exact known
            rw [tried]
            cases result with
            | error failure => exact ih (dropped (by simp)) fewer
            | ok outcome =>
                cases outcome with
                | applied => exact absurd rfl notApplied
                | idempotent => exact ih (dropped (by simp)) fewer
                | stale => exact ih (dropped (by simp)) fewer
                | buffered =>
                    have ahead := ahead_of_buffered synced created (congrArg Prod.fst tried)
                    exact coming.returned perm (List.pairwise_cons.mp ordered).1 ahead

/-- A rotation in its turn is installed, and so is what had waited for it. -/
theorem Waiting.deliver (waiting : Waiting crypto config identity authState epoch loop)
    (created : Key) {key : Key}
    (opened : verifyAndDecrypt crypto rotation authState (groupIdFor crypto config.id) identity =
      .okForUs key) (near : rotation.epoch ≤ loop.key.currentEpoch + 1) :
    Waiting crypto config identity authState epoch
        (loop.applyKeyRotation crypto config identity created rotation).2 ∧
      rotation.epoch ≤
        (loop.applyKeyRotation crypto config identity created rotation).2.key.currentEpoch := by
  rw [← waiting.authState_eq] at opened
  rw [applyKeyRotation_of_opened crypto config identity waiting.synced created opened]
  by_cases known : rotation.epoch ≤ loop.key.currentEpoch
  · rw [if_pos known]
    exact ⟨waiting, known⟩
  have next : rotation.epoch = loop.key.currentEpoch + 1 := by omega
  rw [if_neg known, if_pos next]
  have coming : Coming crypto config identity authState epoch
      (loop.withRing (loop.key.push key)) := by
    refine ⟨rfl, waiting.authState_eq, waiting.opens, waiting.bounded, ?_⟩
    refine waiting.waits.imp_left fun there => ?_
    change epoch ≤ (loop.key.push key).currentEpoch
    rw [KeyRing.currentEpoch_push]
    exact Nat.le_succ_of_le there
  refine ⟨coming.drainRounds created _ (Nat.le_refl _), ?_⟩
  have longer := (prefix_drain config identity loop created (loop.key.push key)).length_le
  rw [KeyRing.keys_push, List.length_append, List.length_singleton] at longer
  exact next ▸ longer

/-- Rotations for the epochs in between bring the waiting one in. -/
theorem Waiting.run (lawful : crypto.Lawful)
    (carries : Carries crypto rotation rotator newKey)
    (owns : RotatorOwns authState (groupIdFor crypto config.id) rotation)
    (addressed : Addresses rotation (crypto.publicKey identity)) (created : Key) (count : Nat)
    {final : ShareLoop crdt} (waiting : Waiting crypto config identity authState epoch loop)
    {start : Nat} (reached : start ≤ loop.key.currentEpoch)
    (ran : (receiver crypto config identity).run loop ((List.range' (start + 1) count).map fun number =>
      (created, reissued crypto rotator rotation number)) = some final) :
    Waiting crypto config identity authState epoch final ∧ start + count ≤ final.key.currentEpoch := by
  induction count generalizing loop start with
  | zero =>
      cases ran
      exact ⟨waiting, reached⟩
  | succ count ih =>
      rw [List.range'_succ, List.map_cons, Machine.run_cons_iff] at ran
      obtain ⟨next, stepped, ran⟩ := ran
      cases stepped
      have opened : verifyAndDecrypt crypto (reissued crypto rotator rotation (start + 1)) authState
          (groupIdFor crypto config.id) identity = .okForUs newKey := by
        rcases verifyAndDecrypt_of_carries lawful (carries_reissued carries (start + 1)) authState
          (groupIdFor crypto config.id) identity with ⟨_, _, opened⟩ | ⟨closed, _⟩
        · exact opened
        · exact absurd ⟨owns, addressed⟩ closed
      obtain ⟨still, risen⟩ := waiting.deliver created opened (Nat.succ_le_succ reached)
      have reachedNext : start + 1 ≤ (loop.applyKeyRotation crypto config identity created
        (reissued crypto rotator rotation (start + 1))).2.key.currentEpoch := risen
      obtain ⟨last, climbed⟩ := ih still reachedNext ran
      exact ⟨last, by omega⟩

/-- Without a rotation for it, an epoch is never reached. -/
theorem run_misses (created : Key) (rotation : SignedRotation) (numbers : List Nat)
    (apart : ∀ number ∈ numbers, number ≠ epoch) {final : ShareLoop crdt} (synced : loop.Synced)
    (unheld : ∀ held ∈ loop.rotationBuffer, held.epoch ≠ epoch)
    (below : loop.key.currentEpoch < epoch)
    (ran : (receiver crypto config identity).run loop (numbers.map fun number =>
      (created, reissued crypto rotator rotation number)) = some final) :
    final.key.currentEpoch < epoch := by
  have keeps : KeepsGood crypto config identity loop.authState (fun held => held.epoch ≠ epoch)
      (fun ring => ring.currentEpoch < epoch) := by
    intro held ring key other less _ next
    rw [KeyRing.currentEpoch_push]
    omega
  have start : Receiving loop.authState loop.pendingRotations (fun held => held.epoch ≠ epoch)
      (fun ring => ring.currentEpoch < epoch) loop := ⟨synced, rfl, rfl, unheld, below⟩
  generalize loop.authState = authState at keeps start
  generalize loop.pendingRotations = pending at start
  clear synced unheld below
  induction numbers generalizing loop with
  | nil =>
      cases ran
      exact start.good
  | cons number numbers ih =>
      rw [List.map_cons, Machine.run_cons_iff] at ran
      obtain ⟨next, stepped, ran⟩ := ran
      cases stepped
      obtain ⟨here, others⟩ := List.forall_mem_cons.mp apart
      exact ih others ran (start.applyKeyRotation keeps created here)

/-- A buffered rotation changes the keyring once the epochs below it have come. -/
theorem buffered_reaches (lawful : crypto.Lawful)
    (carries : Carries crypto rotation rotator newKey)
    (owns : RotatorOwns loop.authState (groupIdFor crypto config.id) rotation)
    (addressed : Addresses rotation (crypto.publicKey identity)) (created : Key)
    (synced : loop.Synced) (bounded : loop.rotationBuffer.length ≤ rotationBufferCap)
    (ahead : loop.key.currentEpoch + 1 < rotation.epoch)
    (unheld : ¬ ∃ held ∈ loop.rotationBuffer, held.epoch = rotation.epoch) :
    ∃ later final expected,
      (receiver crypto config identity).run
          (loop.applyKeyRotation crypto config identity created rotation).2 later = some final ∧
      (receiver crypto config identity).run loop later = some expected ∧ final.key ≠ expected.key := by
  have opened : verifyAndDecrypt crypto rotation loop.authState (groupIdFor crypto config.id)
      identity = .okForUs newKey := by
    rcases verifyAndDecrypt_of_carries lawful carries loop.authState (groupIdFor crypto config.id)
      identity with ⟨_, _, opened⟩ | ⟨closed, _⟩
    · exact opened
    · exact absurd ⟨owns, addressed⟩ closed
  rw [applyKeyRotation_of_opened crypto config identity synced created opened, if_neg (by omega),
    if_neg (by omega)]
  have waiting : Waiting crypto config identity loop.authState rotation.epoch
      (loop.withBuffer (bufferPush loop.rotationBuffer rotation)) := by
    refine ⟨⟨synced, rfl, ?_, length_bufferPush_le bounded rotation, .inr ?_⟩, .inr ahead⟩
    · intro held member same
      rcases mem_of_mem_bufferPush member with kept | rfl
      · exact absurd ⟨held, kept, same⟩ unheld
      · exact ⟨newKey, opened⟩
    · exact ⟨rotation, mem_bufferPush_of_absent unheld, rfl⟩
  let later := (List.range' (loop.key.currentEpoch + 1)
    (rotation.epoch - 1 - loop.key.currentEpoch)).map fun number =>
      (created, reissued crypto rotator rotation number)
  obtain ⟨final, ran⟩ := (receiver crypto config identity).exists_run
    (fun loop delivery => ⟨_, rfl⟩) (loop.withBuffer (bufferPush loop.rotationBuffer rotation)) later
  obtain ⟨expected, missed⟩ := (receiver crypto config identity).exists_run
    (fun loop delivery => ⟨_, rfl⟩) loop later
  refine ⟨later, final, expected, ran, missed, fun same => ?_⟩
  obtain ⟨last, climbed⟩ :=
    waiting.run lawful carries owns addressed created _ (Nat.le_refl loop.key.currentEpoch) ran
  have below := run_misses created rotation _ (by
    intro number member
    have range := List.mem_range'_1.mp member
    omega) synced (fun held member same => unheld ⟨held, member, same⟩) (by omega) missed
  rw [← same] at below
  have reached := last.ahead
  omega

/-- A delivery never tells in the keyring exactly when it leaves the loop as it is. -/
theorem never_tells_iff (lawful : crypto.Lawful) (carries : Carries crypto rotation rotator newKey)
    (synced : loop.Synced) (bounded : loop.rotationBuffer.length ≤ rotationBufferCap) (created : Key) :
    let delivered := (loop.applyKeyRotation crypto config identity created rotation).2
    let spares := ¬ (RotatorOwns loop.authState (groupIdFor crypto config.id) rotation ∧
        Addresses rotation (crypto.publicKey identity)) ∨
      rotation.epoch ≤ loop.key.currentEpoch ∨
      loop.key.currentEpoch + 1 < rotation.epoch ∧
        ∃ held ∈ loop.rotationBuffer, held.epoch = rotation.epoch
    ((∀ later final expected,
        (receiver crypto config identity).run delivered later = some final →
        (receiver crypto config identity).run loop later = some expected →
          final.key = expected.key ∧ final.dir.keysBin = expected.dir.keysBin) ↔ spares) ∧
      (spares → delivered = loop) := by
  dsimp only
  obtain ⟨ring, alone⟩ := delivery_iff lawful config identity carries synced created
  refine ⟨⟨fun never => ?_, fun spares later final expected ran missed => ?_⟩, alone.mpr⟩
  · by_contra tells
    obtain ⟨opens, tells⟩ := not_or.mp tells
    obtain ⟨unknown, unheld⟩ := not_or.mp tells
    by_cases next : rotation.epoch = loop.key.currentEpoch + 1
    · exact ring.mp (never [] _ _ rfl rfl) ⟨not_not.mp opens, next⟩
    · have ahead : loop.key.currentEpoch + 1 < rotation.epoch := by omega
      obtain ⟨owns, addressed⟩ := not_not.mp opens
      obtain ⟨later, final, expected, ran, missed, differs⟩ := buffered_reaches lawful carries owns
        addressed created synced bounded ahead fun held => unheld ⟨ahead, held⟩
      exact differs (never later final expected ran missed).1
  · rw [alone.mpr spares, missed] at ran
    cases ran
    exact ⟨rfl, rfl⟩

/-- A revocation's rotation, delivered on any share's topic, never tells in that share's keyring
unless the rotator owns that share too, the revocation kept the receiver, and the epoch is above
the receiver's and does not wait there already. Otherwise it leaves the whole loop alone. -/
theorem revocation_delivery_iff (crypto : Primitives) (lawful : crypto.Lawful) (crdt : GroupCrdt)
    (config other : ShareConfig) (rotator identity : crypto.PrivateKey) (owner after : ShareLoop crdt)
    (entropy : Entropy) (target : MemberId) (epoch : Nat) (rotation : SignedRotation)
    (revoked : owner.handleRevoke crypto config rotator entropy target = (.ok epoch, after))
    (queued : after.pendingRotations = owner.pendingRotations ++ [rotation])
    (loop : ShareLoop crdt) (synced : loop.Synced)
    (bounded : loop.rotationBuffer.length ≤ rotationBufferCap) (created : Key) :
    let delivered := (loop.applyKeyRotation crypto other identity created rotation).2
    let spares := ¬ ((crypto.publicKey rotator, AuthRole.owner) ∈
          loop.authState.members (groupIdFor crypto other.id) ∧
        crypto.publicKey identity ≠ target ∧
        after.authState.isMember (groupIdFor crypto config.id) (crypto.publicKey identity) = true) ∨
      epoch ≤ loop.key.currentEpoch ∨
      loop.key.currentEpoch + 1 < epoch ∧ ∃ held ∈ loop.rotationBuffer, held.epoch = epoch
    ((∀ later final expected,
        (receiver crypto other identity).run delivered later = some final →
        (receiver crypto other identity).run loop later = some expected →
          final.key = expected.key ∧ final.dir.keysBin = expected.dir.keysBin) ↔ spares) ∧
      (spares → delivered = loop) := by
  rcases handleRevoke_cases crypto config rotator owner entropy target with
    ⟨_, refused⟩ | ⟨_, refused⟩ | ⟨next, _, ⟨_, _, _, refused⟩ | ⟨ring, _, _, ⟨_, refused⟩ |
      ⟨built, epochSame, carries, addresses, done⟩⟩⟩
  · cases refused.symm.trans revoked
  · cases refused.symm.trans revoked
  · cases refused.symm.trans revoked
  · cases refused.symm.trans revoked
  cases done.symm.trans revoked
  have same : built = rotation := List.singleton_inj.mp (List.append_cancel_left queued)
  subst same
  have delivery := @never_tells_iff crdt crypto other identity rotator loop built entropy.newKey
    lawful carries synced bounded created
  simp only [RotatorOwns, carries.rotatorPubkey, addresses, mem_remaining_iff, epochSame] at delivery
  exact delivery

section Samples

open Reference

/-- The stranger, whom the revocation dropped, keeps its music keyring, whatever comes later. -/
theorem docsRotation_spares_stranger :
    let delivered := (musicLoop.applyKeyRotation cleartext music stranger (.ofBytes 32 [9])
      docsRotation).2
    ∀ later final expected, (receiver cleartext music stranger).run delivered later = some final →
      (receiver cleartext music stranger).run musicLoop later = some expected →
        final.key = expected.key ∧ final.dir.keysBin = expected.dir.keysBin :=
  (revocation_delivery_iff cleartext cleartext_lawful sequentialGroup docsConfig music founder
    stranger guestLoop docsRevocation.2 docsEntropy stranger.val 2 docsRotation docsRevocation_eq
    (by decide +kernel) musicLoop rfl (Nat.zero_le _) (.ofBytes 32 [9])).1.mpr
      (.inl fun opens => opens.2.1 rfl)

/-- The guest installs the documents' key as epoch 2 of the music. -/
theorem docsRotation_installs_in_music :
    docsConfig.id ≠ music.id ∧ docsRevocation.1 = .ok 2 ∧
      docsRevocation.2.pendingRotations = [docsRotation] ∧
      musicLoop.key.keys = [.ofBytes 32 [8]] ∧
      (musicLoop.applyKeyRotation cleartext music guest (.ofBytes 32 [9]) docsRotation).2.key.keys =
        [.ofBytes 32 [8], docsEntropy.newKey] := by
  decide +kernel

end Samples

end Peerdup.Daemon.ShareLoop
