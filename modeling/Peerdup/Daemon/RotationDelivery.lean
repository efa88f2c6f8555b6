import Peerdup.Daemon.DeliveryOrder
import Peerdup.Daemon.ReplayProperties
import Mathlib.Data.Finset.Dedup
import Mathlib.Data.List.Induction
import Mathlib.Data.Set.Card

/-!
# What a receiver makes of a set of rotations

Whatever the order and the repetitions, the keyring and the buffer are a function of
the set of epochs delivered.
-/

set_option autoImplicit false

namespace Peerdup.Daemon

open Foundation Auth Crypto Rotation Reference

theorem keys_extendRing (ring : KeyRing) (epochKey : Nat → Key) (count : Nat) :
    (extendRing ring epochKey count).keys =
      ring.keys ++ (List.range' (ring.currentEpoch + 1) count).map epochKey := by
  induction count with
  | zero => simp [extendRing]
  | succ count ih =>
      have last : ring.currentEpoch + 1 + count = ring.currentEpoch + count + 1 := by omega
      rw [extendRing, KeyRing.keys_push, ih, List.range'_concat, Nat.one_mul, last, List.map_append,
        List.append_assoc]
      rfl

namespace ShareLoop

variable {crdt : GroupCrdt}

section Draining

variable (crypto : Primitives) (config : ShareConfig) (identity : crypto.PrivateKey) (created : Key)

/-- The runs of `drain_rotation_buffer`'s loop that end. -/
inductive Drains : ShareLoop crdt → ShareLoop crdt → Prop where
  | empty {loop : ShareLoop crdt} : loop.rotationBuffer = [] → Drains loop loop
  | gapped {loop after : ShareLoop crdt} {candidate : SignedRotation} {rest : List SignedRotation} :
      sortByEpoch loop.rotationBuffer = candidate :: rest →
      tryInstallRotation crypto config identity (loop.withBuffer rest) created candidate =
        (.ok .buffered, after) →
      Drains loop (after.withBuffer (bufferPush after.rotationBuffer candidate))
  | continues {loop after final : ShareLoop crdt} {candidate : SignedRotation}
      {rest : List SignedRotation} {result : Except Failure AppliedOrBuffered} :
      sortByEpoch loop.rotationBuffer = candidate :: rest →
      tryInstallRotation crypto config identity (loop.withBuffer rest) created candidate =
        (result, after) →
      result ≠ .ok .buffered → Drains after final → Drains loop final

theorem rotationBuffer_tryInstallRotation (loop : ShareLoop crdt) (rotation : SignedRotation) :
    (loop.tryInstallRotation crypto config identity created rotation).2.rotationBuffer =
      loop.rotationBuffer := by
  unfold tryInstallRotation
  dsimp only
  split
  · split
    · rfl
    · split
      · rfl
      · rfl
    · rfl
    · rfl
    · rfl
  · rfl
  · rfl
  · rfl
  · rfl

theorem drains_drainRounds (rounds : Nat) (loop : ShareLoop crdt)
    (enough : loop.rotationBuffer.length ≤ rounds) :
    Drains crypto config identity created loop
      (loop.drainRounds crypto config identity created rounds) := by
  induction rounds generalizing loop with
  | zero => exact .empty (List.length_eq_zero_iff.mp (Nat.le_zero.mp enough))
  | succ rounds ih =>
      have length : (sortByEpoch loop.rotationBuffer).length = loop.rotationBuffer.length :=
        List.length_insertionSort _ _
      unfold drainRounds
      cases sorted : sortByEpoch loop.rotationBuffer with
      | nil =>
          rw [sorted] at length
          exact .empty (List.length_eq_zero_iff.mp length.symm)
      | cons candidate rest =>
          rw [sorted, List.length_cons] at length
          have kept := rotationBuffer_tryInstallRotation crypto config identity created
            (loop.withBuffer rest) candidate
          rcases tried : tryInstallRotation crypto config identity (loop.withBuffer rest) created
            candidate with ⟨result, after⟩
          rw [tried] at kept
          have shorter : after.rotationBuffer.length ≤ rounds := by
            rw [kept]
            change rest.length ≤ rounds
            omega
          dsimp only
          rw [tried]
          cases result with
          | error failure => exact .continues sorted tried (by simp) (ih after shorter)
          | ok outcome =>
              cases outcome with
              | applied => exact .continues sorted tried (by simp) (ih after shorter)
              | idempotent => exact .continues sorted tried (by simp) (ih after shorter)
              | stale => exact .continues sorted tried (by simp) (ih after shorter)
              | buffered => exact .gapped sorted tried

theorem drains_drainRotationBuffer (loop : ShareLoop crdt) :
    Drains crypto config identity created loop
      (loop.drainRotationBuffer crypto config identity created) :=
  drains_drainRounds crypto config identity created _ loop (Nat.le_refl _)

end Draining

section Delivery

variable {crypto : Primitives} {config : ShareConfig} {identity : crypto.PrivateKey}
  {authState : AuthState crdt} {epochKey : Nat → Key} {ring : KeyRing} {delivered : Set Nat}
  {loop : ShareLoop crdt}

/-- The epochs that wait for a lower one are never more than the buffer may hold. -/
def WaitingFits (crypto : Primitives) (config : ShareConfig) (identity : crypto.PrivateKey)
    (authState : AuthState crdt) (epochKey : Nat → Key) (start : Nat)
    (deliveries : List (Key × SignedRotation)) : Prop :=
  ∀ (earlier later : List (Key × SignedRotation)) (reached : Nat), deliveries = earlier ++ later →
    InOrder.Frontier start (deliveredEpochs crypto config identity authState epochKey earlier)
      reached →
    {epoch | epoch ∈ deliveredEpochs crypto config identity authState epochKey earlier ∧
      reached < epoch}.encard ≤ rotationBufferCap

theorem WaitingFits.front {start : Nat} {front back : List (Key × SignedRotation)}
    (fits : WaitingFits crypto config identity authState epochKey start (front ++ back)) :
    WaitingFits crypto config identity authState epochKey start front := by
  intro earlier later reached whole frontier
  exact fits earlier (later ++ back) reached (by rw [whole, List.append_assoc]) frontier

theorem Settled.mem_buffer_iff
    (settled : Settled crypto config identity authState epochKey ring delivered loop) (epoch : Nat) :
    epoch ∈ loop.rotationBuffer.map SignedRotation.epoch ↔
      epoch ∈ delivered ∧ loop.key.currentEpoch < epoch := by
  rw [List.mem_map]
  constructor
  · intro ⟨rotation, member, same⟩
    obtain ⟨ahead, arrived, _⟩ := settled.waiting rotation member
    exact ⟨same ▸ arrived, same ▸ ahead⟩
  · intro ⟨arrived, ahead⟩
    exact settled.complete epoch arrived ahead

/-- A new epoch that would wait finds room, for otherwise too many would wait after it. -/
theorem Settled.hasRoom
    (settled : Settled crypto config identity authState epochKey ring delivered loop)
    {rotation : SignedRotation}
    (fits : ∀ reached, InOrder.Frontier ring.currentEpoch (insert rotation.epoch delivered) reached →
      {epoch | epoch ∈ insert rotation.epoch delivered ∧ reached < epoch}.encard ≤
        rotationBufferCap) : loop.HasRoom rotation := by
  by_cases near : rotation.epoch ≤ loop.key.currentEpoch + 1
  · exact .inl near
  by_cases held : ∃ held ∈ loop.rotationBuffer, held.epoch = rotation.epoch
  · exact .inr (.inl held)
  refine .inr (.inr ?_)
  have frontier : InOrder.Frontier ring.currentEpoch (insert rotation.epoch delivered)
      loop.key.currentEpoch := by
    refine ⟨settled.start_le, fun epoch after below => .inr (settled.filled epoch after below), ?_⟩
    intro either
    rcases either with same | arrived
    · omega
    · exact settled.gap arrived
  let waiting := rotation.epoch :: loop.rotationBuffer.map SignedRotation.epoch
  have distinct : waiting.Nodup := by
    refine List.nodup_cons.mpr ⟨fun member => held ?_, settled.distinct⟩
    obtain ⟨other, listed, same⟩ := List.mem_map.mp member
    exact ⟨other, listed, same⟩
  have among : (waiting.toFinset : Set Nat) ⊆
      {epoch | epoch ∈ insert rotation.epoch delivered ∧ loop.key.currentEpoch < epoch} := by
    intro epoch member
    rw [List.coe_toFinset] at member
    rcases List.mem_cons.mp member with same | listed
    · exact ⟨.inl same, by omega⟩
    · obtain ⟨arrived, ahead⟩ := (settled.mem_buffer_iff epoch).mp listed
      exact ⟨.inr arrived, ahead⟩
  have count := (Set.encard_le_encard among).trans (fits _ frontier)
  rw [Set.encard_coe_eq_coe_finsetCard, List.toFinset_card_of_nodup distinct, List.length_cons,
    List.length_map] at count
  exact Nat.lt_of_succ_le (Nat.cast_le.mp count)

theorem waitingFits_of_short {start : Nat} {deliveries : List (Key × SignedRotation)}
    (short : deliveries.length ≤ rotationBufferCap) :
    WaitingFits crypto config identity authState epochKey start deliveries := by
  intro earlier later reached whole _
  let epochs := (earlier.map fun delivery => delivery.2.epoch).toFinset
  have among : {epoch | epoch ∈ deliveredEpochs crypto config identity authState epochKey earlier ∧
      reached < epoch} ⊆ (epochs : Set Nat) := by
    intro epoch ⟨⟨delivery, member, same, _⟩, _⟩
    exact List.mem_toFinset.mpr (List.mem_map.mpr ⟨delivery, member, same⟩)
  have count : epochs.card ≤ rotationBufferCap := by
    have shorter : epochs.card ≤ (earlier.map fun delivery => delivery.2.epoch).length :=
      List.toFinset_card_le _
    rw [List.length_map] at shorter
    rw [whole, List.length_append] at short
    omega
  exact (Set.encard_le_encard among).trans
    (Set.encard_coe_eq_coe_finsetCard epochs ▸ Nat.cast_le.mpr count)

/-- What opens, opens with the key of its epoch. -/
def KeysAgree (crypto : Primitives) (config : ShareConfig) (identity : crypto.PrivateKey)
    (authState : AuthState crdt) (epochKey : Nat → Key) (deliveries : List (Key × SignedRotation)) :
    Prop :=
  ∀ delivery ∈ deliveries, ∀ key, verifyAndDecrypt crypto delivery.2 authState
    (groupIdFor crypto config.id) identity = .okForUs key → key = epochKey delivery.2.epoch

theorem along_deliverable {start : ShareLoop crdt} (synced : start.Synced)
    (fresh : start.rotationBuffer = []) (deliveries : List (Key × SignedRotation))
    (agree : KeysAgree crypto config identity start.authState epochKey deliveries)
    (fits : WaitingFits crypto config identity start.authState epochKey start.key.currentEpoch
      deliveries) :
    (receiver crypto config identity).Along
      (Deliverable crypto config identity start.authState epochKey start.key) start deliveries := by
  induction deliveries using List.reverseRecOn with
  | nil => trivial
  | append_singleton front delivery ih =>
      have met := ih (fun earlier member => agree earlier (List.mem_append_left _ member)) fits.front
      refine (Machine.along_append_iff _).mpr ⟨met, fun middle ran => ⟨?_, fun _ _ => trivial⟩⟩
      have settled := settled_of_run synced fresh met ran
      obtain ⟨created, rotation⟩ := delivery
      by_cases opens : ∃ key, verifyAndDecrypt crypto rotation start.authState
          (groupIdFor crypto config.id) identity = .okForUs key
      · obtain ⟨key, opened⟩ := opens
        have same := agree _ (List.mem_append_right _ List.mem_cons_self) key opened
        have opened : Opens crypto config identity start.authState epochKey rotation :=
          opened.trans (congrArg VerifyOutcome.okForUs same)
        refine .inl ⟨opened, settled.hasRoom fun reached frontier => ?_⟩
        have grown : deliveredEpochs crypto config identity start.authState epochKey
            (front ++ [(created, rotation)]) = _ := deliveredEpochs_concat_opened opened front
        rw [← grown] at frontier ⊢
        exact fits _ [] reached (List.append_nil _).symm frontier
      · exact .inr (.inl fun key opened => opens ⟨key, opened⟩)

end Delivery

/-- The keyring and the buffer after any deliveries, from the set of epochs delivered. -/
theorem rotationDelivery_orderIndependent (crypto : Primitives) (config : ShareConfig)
    (identity : crypto.PrivateKey) (epochKey : Nat → Key) (start : ShareLoop crdt)
    (synced : start.Synced) (fresh : start.rotationBuffer = [])
    (deliveries : List (Key × SignedRotation))
    (agree : KeysAgree crypto config identity start.authState epochKey deliveries)
    (fits : WaitingFits crypto config identity start.authState epochKey start.key.currentEpoch
      deliveries) :
    let delivered := deliveredEpochs crypto config identity start.authState epochKey deliveries
    (∃ final reached, (receiver crypto config identity).run start deliveries = some final ∧
      InOrder.Frontier start.key.currentEpoch delivered reached ∧
      final.key.keys = start.key.keys ++
        (List.range' (start.key.currentEpoch + 1) (reached - start.key.currentEpoch)).map epochKey ∧
      final.dir.keysBin = some final.key.fileBytes ∧
      (final.rotationBuffer.map SignedRotation.epoch).Nodup ∧
      ∀ epoch, epoch ∈ final.rotationBuffer.map SignedRotation.epoch ↔
        epoch ∈ delivered ∧ reached < epoch) ∧
    (∀ (loop : ShareLoop crdt) (created : Key) (rotation : SignedRotation),
      Refused crypto config identity loop.authState rotation →
      loop.applyKeyRotation crypto config identity created rotation = (.ok (), loop)) ∧
    ∀ (loop : ShareLoop crdt) (created : Key), Drains crypto config identity created loop
      (loop.drainRotationBuffer crypto config identity created) := by
  refine ⟨?_, ?_, fun loop created => drains_drainRotationBuffer crypto config identity created loop⟩
  · obtain ⟨final, ran⟩ := (receiver crypto config identity).exists_run
      (fun loop delivery => ⟨_, rfl⟩) start deliveries
    have settled := settled_of_run synced fresh (along_deliverable synced fresh deliveries agree fits)
      ran
    refine ⟨final, final.key.currentEpoch, ran, settled.frontier, ?_, settled.synced,
      settled.distinct, settled.mem_buffer_iff⟩
    obtain ⟨count, extended⟩ := settled.installed
    rw [extended, currentEpoch_extendRing, Nat.add_sub_cancel_left]
    exact keys_extendRing start.key epochKey count
  · intro loop created rotation refused
    rw [applyKeyRotation, tryInstallRotation_of_refused crypto config identity created refused]

section Samples

/-- The founder's rotation for epoch 3, with the key of epoch 2 once more. -/
def thirdRotation : SignedRotation :=
  match buildSignedRotation cleartext founder docsEntropy.envelope 3 docsEntropy.newKey
      [guest.val] with
  | .ok rotation => rotation
  | .error _ => docsRotation

/-- Epoch 3 arrives before epoch 2, a tampered copy between them, and both once more. -/
def shuffledRotations : List (Key × SignedRotation) :=
  [thirdRotation, { docsRotation with epoch := 5 }, docsRotation, thirdRotation, docsRotation].map
    fun rotation => (.ofBytes 32 [9], rotation)

theorem shuffledRotations_keysAgree : KeysAgree cleartext docsConfig guest guestLoop.authState
    (fun _ => docsEntropy.newKey) shuffledRotations := by
  intro delivery member key opened
  have checked : ∀ delivery ∈ shuffledRotations,
      verifyAndDecrypt cleartext delivery.2 guestLoop.authState docs guest =
        .okForUs docsEntropy.newKey ∨
      verifyAndDecrypt cleartext delivery.2 guestLoop.authState docs guest = .badSignature := by
    decide +kernel
  rcases checked delivery member with agreed | refused
  · exact VerifyOutcome.okForUs.inj (opened.symm.trans agreed)
  · exact absurd (opened.symm.trans refused) (by simp)

theorem shuffledRotations_install :
    ∃ final reached, (receiver cleartext docsConfig guest).run guestLoop shuffledRotations =
        some final ∧
      InOrder.Frontier 1 (deliveredEpochs cleartext docsConfig guest guestLoop.authState
        (fun _ => docsEntropy.newKey) shuffledRotations) reached ∧
      final.key.keys = [.ofBytes 32 [7]] ++
        (List.range' 2 (reached - 1)).map fun _ => docsEntropy.newKey := by
  obtain ⟨⟨final, reached, ran, frontier, keys, _⟩, _⟩ :=
    rotationDelivery_orderIndependent cleartext docsConfig guest (fun _ => docsEntropy.newKey)
      guestLoop (docsLoop_synced _) rfl shuffledRotations shuffledRotations_keysAgree
      (waitingFits_of_short (by decide))
  exact ⟨final, reached, ran, frontier, keys⟩

end Samples

end ShareLoop

end Peerdup.Daemon
