import Peerdup.Daemon.ShareLoopProperties
import Peerdup.Foundation.InOrder
import Peerdup.Foundation.Machine

/-!
# Rotations delivered in any order

A receiver installs epoch by epoch and buffers what is ahead. Its keyring and buffer
are a function of the set of epochs delivered, as long as nothing is evicted.
-/

set_option autoImplicit false

namespace Peerdup.Daemon

open Foundation Auth Crypto Rotation

namespace ShareLoop

variable {crdt : GroupCrdt}

/-- A loop that takes key rotations. Each comes with the key that would be drawn if
`keys.bin` were absent. -/
def receiver (crypto : Primitives) (config : ShareConfig) (identity : crypto.PrivateKey) :
    Machine (ShareLoop crdt) (Key × SignedRotation) where
  step loop := fun (created, rotation) =>
    some (loop.applyKeyRotation crypto config identity created rotation).2

section Delivery

variable (crypto : Primitives) (config : ShareConfig) (identity : crypto.PrivateKey)
  (authState : AuthState crdt) (epochKey : Nat → Key)

def Opens (rotation : SignedRotation) : Prop :=
  verifyAndDecrypt crypto rotation authState (groupIdFor crypto config.id) identity =
    .okForUs (epochKey rotation.epoch)

def Refused (rotation : SignedRotation) : Prop :=
  ∀ key, verifyAndDecrypt crypto rotation authState (groupIdFor crypto config.id) identity ≠
    .okForUs key

/-- Pushing the rotation would evict none. -/
def HasRoom (loop : ShareLoop crdt) (rotation : SignedRotation) : Prop :=
  rotation.epoch ≤ loop.key.currentEpoch + 1 ∨
    (∃ held ∈ loop.rotationBuffer, held.epoch = rotation.epoch) ∨
    loop.rotationBuffer.length < rotationBufferCap

end Delivery

end ShareLoop

/-- The ring with the keys of the next epochs. -/
def extendRing (ring : KeyRing) (epochKey : Nat → Key) : Nat → KeyRing
  | 0 => ring
  | count + 1 => (extendRing ring epochKey count).push (epochKey (ring.currentEpoch + count + 1))

@[simp] theorem currentEpoch_extendRing (ring : KeyRing) (epochKey : Nat → Key) (count : Nat) :
    (extendRing ring epochKey count).currentEpoch = ring.currentEpoch + count := by
  induction count with
  | zero => rfl
  | succ count ih => rw [extendRing, KeyRing.currentEpoch_push, ih, Nat.add_assoc]

namespace ShareLoop

variable {crdt : GroupCrdt}

/-- Everything delivered is installed, without a gap, or waits in the buffer. -/
structure Following (crypto : Primitives) (config : ShareConfig) (identity : crypto.PrivateKey)
    (authState : AuthState crdt) (epochKey : Nat → Key) (ring : KeyRing) (delivered : Set Nat)
    (loop : ShareLoop crdt) : Prop where
  synced : loop.Synced
  authState_eq : loop.authState = authState
  installed : ∃ count, loop.key = extendRing ring epochKey count
  filled : ∀ epoch, ring.currentEpoch < epoch → epoch ≤ loop.key.currentEpoch → epoch ∈ delivered
  waiting : ∀ rotation ∈ loop.rotationBuffer, loop.key.currentEpoch < rotation.epoch ∧
    rotation.epoch ∈ delivered ∧ Opens crypto config identity authState epochKey rotation
  complete : ∀ epoch ∈ delivered, loop.key.currentEpoch < epoch →
    ∃ rotation ∈ loop.rotationBuffer, rotation.epoch = epoch
  distinct : (loop.rotationBuffer.map SignedRotation.epoch).Nodup

/-- The buffer has been drained: the next epoch has not arrived. -/
structure Settled (crypto : Primitives) (config : ShareConfig) (identity : crypto.PrivateKey)
    (authState : AuthState crdt) (epochKey : Nat → Key) (ring : KeyRing) (delivered : Set Nat)
    (loop : ShareLoop crdt) : Prop
    extends Following crypto config identity authState epochKey ring delivered loop where
  gap : loop.key.currentEpoch + 1 ∉ delivered
  bounded : loop.rotationBuffer.length ≤ rotationBufferCap

variable {crypto : Primitives} {config : ShareConfig} {identity : crypto.PrivateKey}
  {authState : AuthState crdt} {epochKey : Nat → Key} {ring : KeyRing} {delivered : Set Nat}
  {loop : ShareLoop crdt}

theorem Following.start_le
    (following : Following crypto config identity authState epochKey ring delivered loop) :
    ring.currentEpoch ≤ loop.key.currentEpoch := by
  obtain ⟨count, same⟩ := following.installed
  rw [same, currentEpoch_extendRing]
  exact Nat.le_add_right _ _

theorem Settled.frontier
    (settled : Settled crypto config identity authState epochKey ring delivered loop) :
    InOrder.Frontier ring.currentEpoch delivered loop.key.currentEpoch :=
  ⟨settled.start_le, settled.filled, settled.gap⟩

theorem Settled.redeliver
    (settled : Settled crypto config identity authState epochKey ring delivered loop) {epoch : Nat}
    (known : epoch ≤ loop.key.currentEpoch ∨ ∃ held ∈ loop.rotationBuffer, held.epoch = epoch) :
    Settled crypto config identity authState epochKey ring (insert epoch delivered) loop := by
  have gap := settled.gap
  refine { settled with filled := ?_, waiting := ?_, complete := ?_, gap := ?_ }
  · exact fun number after below => .inr (settled.filled number after below)
  · intro rotation member
    obtain ⟨ahead, arrived, opened⟩ := settled.waiting rotation member
    exact ⟨ahead, .inr arrived, opened⟩
  · intro number arrived ahead
    rcases arrived with same | arrived
    · exact known.elim (fun below => by omega) (fun held => same ▸ held)
    · exact settled.complete number arrived ahead
  · intro arrived
    rcases arrived with same | arrived
    · rcases known with below | ⟨held, member, same'⟩
      · omega
      · exact gap (same.trans same'.symm ▸ (settled.waiting held member).2.1)
    · exact gap arrived

theorem Following.install {rotation : SignedRotation} {buffer : List SignedRotation}
    (following : Following crypto config identity authState epochKey ring delivered loop)
    (next : rotation.epoch = loop.key.currentEpoch + 1) (arrived : rotation.epoch ∈ delivered)
    (rest : ∀ other, other ∈ buffer ↔ other ∈ loop.rotationBuffer ∧ other.epoch ≠ rotation.epoch)
    (distinct : (buffer.map SignedRotation.epoch).Nodup) :
    Following crypto config identity authState epochKey ring delivered
      ((loop.withBuffer buffer).withRing (loop.key.push (epochKey rotation.epoch))) where
  synced := rfl
  authState_eq := following.authState_eq
  installed := by
    obtain ⟨count, same⟩ := following.installed
    refine ⟨count + 1, ?_⟩
    change loop.key.push (epochKey rotation.epoch) = _
    rw [next, same, extendRing, currentEpoch_extendRing]
  filled epoch after below := by
    change epoch ≤ (loop.key.push _).currentEpoch at below
    rw [KeyRing.currentEpoch_push] at below
    by_cases last : epoch = loop.key.currentEpoch + 1
    · rw [last, ← next]
      exact arrived
    · exact following.filled epoch after (by omega)
  waiting other member := by
    obtain ⟨held, apart⟩ := (rest other).mp member
    obtain ⟨ahead, listed, opened⟩ := following.waiting other held
    refine ⟨?_, listed, opened⟩
    change (loop.key.push _).currentEpoch < other.epoch
    rw [KeyRing.currentEpoch_push]
    omega
  complete epoch listed ahead := by
    change (loop.key.push _).currentEpoch < epoch at ahead
    rw [KeyRing.currentEpoch_push] at ahead
    obtain ⟨held, member, same⟩ := following.complete epoch listed (by omega)
    exact ⟨held, (rest held).mpr ⟨member, by omega⟩, same⟩
  distinct := distinct

/-- The lowest epoch of a buffer, and the others. -/
structure Lowest (buffer : List SignedRotation) (candidate : SignedRotation)
    (rest : List SignedRotation) : Prop where
  perm : (candidate :: rest).Perm buffer
  below : ∀ other ∈ rest, candidate.epoch < other.epoch
  distinct : (rest.map SignedRotation.epoch).Nodup

theorem lowest_of_sortByEpoch {buffer rest : List SignedRotation} {candidate : SignedRotation}
    (distinct : (buffer.map SignedRotation.epoch).Nodup)
    (sorted : sortByEpoch buffer = candidate :: rest) : Lowest buffer candidate rest := by
  have perm : (candidate :: rest).Perm buffer := by
    rw [← sorted]
    exact List.perm_insertionSort _ buffer
  have unique := (perm.map SignedRotation.epoch).nodup_iff.mpr distinct
  rw [List.map_cons, List.nodup_cons] at unique
  obtain ⟨apart, restDistinct⟩ := unique
  have ordered := pairwise_sortByEpoch buffer
  rw [sorted] at ordered
  refine ⟨perm, ?_, restDistinct⟩
  intro other member
  have atMost := (List.pairwise_cons.mp ordered).1 other member
  have different : candidate.epoch ≠ other.epoch :=
    fun same => apart (List.mem_map.mpr ⟨other, member, same.symm⟩)
  exact Nat.lt_of_le_of_ne atMost different

theorem Lowest.mem_rest_iff {buffer rest : List SignedRotation} {candidate : SignedRotation}
    (lowest : Lowest buffer candidate rest) (other : SignedRotation) :
    other ∈ rest ↔ other ∈ buffer ∧ other.epoch ≠ candidate.epoch := by
  rw [← lowest.perm.mem_iff, List.mem_cons]
  constructor
  · exact fun member => ⟨.inr member, (lowest.below other member).ne'⟩
  · intro ⟨either, apart⟩
    exact either.resolve_left fun same => apart (congrArg SignedRotation.epoch same)

theorem Following.rebuffer {buffer : List SignedRotation}
    (following : Following crypto config identity authState epochKey ring delivered loop)
    (perm : buffer.Perm loop.rotationBuffer) :
    Following crypto config identity authState epochKey ring delivered (loop.withBuffer buffer) where
  synced := following.synced
  authState_eq := following.authState_eq
  installed := following.installed
  filled := following.filled
  waiting rotation member := following.waiting rotation (perm.mem_iff.mp member)
  complete epoch listed ahead := by
    obtain ⟨held, member, same⟩ := following.complete epoch listed ahead
    exact ⟨held, perm.mem_iff.mpr member, same⟩
  distinct := (perm.map SignedRotation.epoch).nodup_iff.mpr following.distinct

theorem Following.arrive {rotation : SignedRotation}
    (following : Following crypto config identity authState epochKey ring delivered loop)
    (opened : Opens crypto config identity authState epochKey rotation)
    (ahead : loop.key.currentEpoch < rotation.epoch)
    (fresh : ¬ ∃ held ∈ loop.rotationBuffer, held.epoch = rotation.epoch) :
    Following crypto config identity authState epochKey ring (insert rotation.epoch delivered)
      (loop.withBuffer (rotation :: loop.rotationBuffer)) where
  synced := following.synced
  authState_eq := following.authState_eq
  installed := following.installed
  filled epoch after below := .inr (following.filled epoch after below)
  waiting other member := by
    rcases List.mem_cons.mp member with same | member
    · rw [same]
      exact ⟨ahead, .inl rfl, opened⟩
    · obtain ⟨further, arrived, opens⟩ := following.waiting other member
      exact ⟨further, .inr arrived, opens⟩
  complete epoch arrived above := by
    rcases arrived with same | arrived
    · exact ⟨rotation, List.mem_cons_self, same.symm⟩
    · obtain ⟨held, member, same⟩ := following.complete epoch arrived above
      exact ⟨held, List.mem_cons_of_mem _ member, same⟩
  distinct := by
    change ((rotation :: loop.rotationBuffer).map SignedRotation.epoch).Nodup
    rw [List.map_cons, List.nodup_cons]
    exact ⟨fun member => fresh (List.mem_map.mp member), following.distinct⟩

theorem Following.settled_of_empty
    (following : Following crypto config identity authState epochKey ring delivered loop)
    (empty : loop.rotationBuffer = []) :
    Settled crypto config identity authState epochKey ring delivered loop := by
  refine ⟨following, fun arrived => ?_, by simp [empty]⟩
  obtain ⟨held, member, _⟩ := following.complete _ arrived (Nat.lt_succ_self _)
  rw [empty] at member
  cases member

/-- Enough rounds install everything that has become installable. -/
theorem Following.drainRounds (created : Key) (rounds : Nat)
    (following : Following crypto config identity authState epochKey ring delivered loop)
    (bounded : loop.rotationBuffer.length ≤ rotationBufferCap)
    (enough : loop.rotationBuffer.length ≤ rounds) :
    Settled crypto config identity authState epochKey ring delivered
      (loop.drainRounds crypto config identity created rounds) := by
  induction rounds generalizing loop with
  | zero => exact following.settled_of_empty (List.length_eq_zero_iff.mp (Nat.le_zero.mp enough))
  | succ rounds ih =>
      unfold ShareLoop.drainRounds
      cases sorted : sortByEpoch loop.rotationBuffer with
      | nil =>
          have same : (sortByEpoch loop.rotationBuffer).length = loop.rotationBuffer.length :=
            List.length_insertionSort _ _
          rw [sorted] at same
          exact following.settled_of_empty (List.length_eq_zero_iff.mp same.symm)
      | cons candidate rest =>
          have lowest := lowest_of_sortByEpoch following.distinct sorted
          have count : rest.length + 1 = loop.rotationBuffer.length := lowest.perm.length_eq
          obtain ⟨ahead, arrived, opened⟩ :=
            following.waiting candidate (lowest.perm.mem_iff.mp List.mem_cons_self)
          have synced : (loop.withBuffer rest).Synced := following.synced
          have opens : verifyAndDecrypt crypto candidate (loop.withBuffer rest).authState
              (groupIdFor crypto config.id) identity = .okForUs (epochKey candidate.epoch) := by
            change verifyAndDecrypt crypto candidate loop.authState _ _ = _
            rw [following.authState_eq]
            exact opened
          have tried := tryInstallRotation_of_opened crypto config identity synced created opens
          have current : (loop.withBuffer rest).key = loop.key := rfl
          rw [installOpened, current, if_neg (by omega), if_neg (by omega)] at tried
          dsimp only
          by_cases next : candidate.epoch = loop.key.currentEpoch + 1
          · rw [if_neg (by omega)] at tried
            rw [tried]
            refine ih (following.install next arrived lowest.mem_rest_iff lowest.distinct) ?_ ?_
            · change rest.length ≤ rotationBufferCap
              omega
            · change rest.length ≤ rounds
              omega
          · -- Still a gap: the candidate goes back and every other one is further ahead.
            rw [if_pos (by omega)] at tried
            rw [tried]
            have absent : ¬ ∃ held ∈ rest, held.epoch = candidate.epoch := by
              intro waiting
              obtain ⟨held, member, same⟩ := waiting
              exact (lowest.below held member).ne' same
            have back : bufferPush rest candidate = rest ++ [candidate] :=
              bufferPush_of_absent absent (by omega)
            have perm : (rest ++ [candidate]).Perm loop.rotationBuffer :=
              (List.perm_append_singleton candidate rest).trans lowest.perm
            have kept := following.rebuffer perm
            rw [← back] at kept perm
            change Settled _ _ _ _ _ _ _ (loop.withBuffer (bufferPush rest candidate))
            refine ⟨kept, fun listed => ?_, perm.length_eq.trans_le bounded⟩
            change loop.key.currentEpoch + 1 ∈ delivered at listed
            obtain ⟨held, member, same⟩ := following.complete _ listed (Nat.lt_succ_self _)
            rcases List.mem_cons.mp (lowest.perm.mem_iff.mpr member) with first | later
            · exact next (first ▸ same)
            · have above := lowest.below held later
              omega

theorem Settled.deliver
    (settled : Settled crypto config identity authState epochKey ring delivered loop) (created : Key)
    {rotation : SignedRotation} (opened : Opens crypto config identity authState epochKey rotation)
    (room : loop.HasRoom rotation) :
    Settled crypto config identity authState epochKey ring (insert rotation.epoch delivered)
      (loop.applyKeyRotation crypto config identity created rotation).2 := by
  have opens : verifyAndDecrypt crypto rotation loop.authState (groupIdFor crypto config.id)
      identity = .okForUs (epochKey rotation.epoch) := by
    rw [settled.authState_eq]
    exact opened
  rw [applyKeyRotation_of_opened crypto config identity settled.synced created opens]
  by_cases known : rotation.epoch ≤ loop.key.currentEpoch
  · rw [if_pos known]
    exact settled.redeliver (.inl known)
  rw [if_neg known]
  by_cases held : ∃ held ∈ loop.rotationBuffer, held.epoch = rotation.epoch
  · have waits : ¬ rotation.epoch = loop.key.currentEpoch + 1 := by
      obtain ⟨other, member, same⟩ := held
      intro next
      exact settled.gap (next ▸ same ▸ (settled.waiting other member).2.1)
    rw [if_neg waits, (bufferPush_eq_iff ..).mpr held]
    exact settled.redeliver (.inr held)
  have arrived := settled.arrive opened (Nat.not_le.mp known) held
  by_cases next : rotation.epoch = loop.key.currentEpoch + 1
  · rw [if_pos next]
    have others : ∀ other, other ∈ loop.rotationBuffer ↔
        other ∈ rotation :: loop.rotationBuffer ∧ other.epoch ≠ rotation.epoch := by
      intro other
      rw [List.mem_cons]
      constructor
      · exact fun member => ⟨.inr member, fun same => held ⟨other, member, same⟩⟩
      · intro ⟨either, apart⟩
        exact either.resolve_left fun same => apart (congrArg SignedRotation.epoch same)
    have installed := arrived.install next (.inl rfl) others settled.distinct
    exact installed.drainRounds created _ settled.bounded (Nat.le_refl _)
  · rw [if_neg next]
    have space := (room.resolve_left (by omega)).resolve_left held
    rw [bufferPush_of_absent held space]
    have kept := arrived.rebuffer (List.perm_append_singleton rotation loop.rotationBuffer)
    have longer : (loop.rotationBuffer ++ [rotation]).length ≤ rotationBufferCap := by
      rw [List.length_append]
      exact space
    refine ⟨kept, ?_, longer⟩
    intro either
    exact either.elim (fun same => next same.symm) settled.gap

/-- Once the lowest has left the buffer, its epoch might as well not have arrived. -/
theorem Following.forget {lowest : SignedRotation} {rest : List SignedRotation}
    (following : Following crypto config identity authState epochKey ring delivered loop)
    (least : Lowest loop.rotationBuffer lowest rest) :
    Following crypto config identity authState epochKey ring (delivered \ {lowest.epoch})
      (loop.withBuffer rest) where
  synced := following.synced
  authState_eq := following.authState_eq
  installed := following.installed
  filled epoch after below := by
    have waits := (following.waiting lowest (least.perm.mem_iff.mp List.mem_cons_self)).1
    change epoch ≤ loop.key.currentEpoch at below
    exact ⟨following.filled epoch after below, fun same => by rw [Set.mem_singleton_iff] at same; omega⟩
  waiting other member := by
    obtain ⟨held, apart⟩ := (least.mem_rest_iff other).mp member
    obtain ⟨ahead, arrived, opened⟩ := following.waiting other held
    exact ⟨ahead, ⟨arrived, apart⟩, opened⟩
  complete epoch arrived ahead := by
    obtain ⟨held, member, same⟩ := following.complete epoch arrived.1 ahead
    exact ⟨held, (least.mem_rest_iff held).mpr ⟨member, same ▸ arrived.2⟩, same⟩
  distinct := least.distinct

theorem Settled.evict
    (settled : Settled crypto config identity authState epochKey ring delivered loop) (created : Key)
    {rotation lowest : SignedRotation} {rest : List SignedRotation}
    (opened : Opens crypto config identity authState epochKey rotation)
    (ahead : loop.key.currentEpoch + 1 < rotation.epoch)
    (absent : ¬ ∃ held ∈ loop.rotationBuffer, held.epoch = rotation.epoch)
    (full : rotationBufferCap ≤ loop.rotationBuffer.length)
    (sorted : sortByEpoch loop.rotationBuffer = lowest :: rest) :
    Settled crypto config identity authState epochKey ring
      (insert rotation.epoch (delivered \ {lowest.epoch}))
      (loop.applyKeyRotation crypto config identity created rotation).2 := by
  have least := lowest_of_sortByEpoch settled.distinct sorted
  have opens : verifyAndDecrypt crypto rotation loop.authState (groupIdFor crypto config.id)
      identity = .okForUs (epochKey rotation.epoch) := by
    rw [settled.authState_eq]
    exact opened
  have missing : ¬ loop.rotationBuffer.any (·.epoch = rotation.epoch) = true := by simpa using absent
  have pushed : bufferPush loop.rotationBuffer rotation = rest ++ [rotation] := by
    rw [bufferPush, if_neg missing, if_pos full, sorted]
    rfl
  rw [applyKeyRotation_of_opened crypto config identity settled.synced created opens,
    if_neg (by omega), if_neg (by omega), pushed]
  have fresh : ¬ ∃ held ∈ rest, held.epoch = rotation.epoch := by
    intro waiting
    obtain ⟨held, member, same⟩ := waiting
    exact absent ⟨held, ((least.mem_rest_iff held).mp member).1, same⟩
  have arrived := (settled.forget least).arrive opened (Nat.lt_of_succ_lt ahead) fresh
  have kept := arrived.rebuffer (List.perm_append_singleton rotation rest)
  refine ⟨kept, ?_, ?_⟩
  · intro either
    exact either.elim (fun same => ahead.ne same) fun rest => settled.gap rest.1
  · change (rest ++ [rotation]).length ≤ rotationBufferCap
    have count : rest.length + 1 = loop.rotationBuffer.length := least.perm.length_eq
    rw [List.length_append, List.length_singleton, count]
    exact settled.bounded

/-- After an eviction the receiver stops at the epoch it has lost, even when every epoch
below has arrived. -/
theorem Settled.evict_stalls
    (settled : Settled crypto config identity authState epochKey ring delivered loop) (created : Key)
    {first second lowest : SignedRotation} {rest : List SignedRotation}
    (full : rotationBufferCap ≤ loop.rotationBuffer.length)
    (sorted : sortByEpoch loop.rotationBuffer = lowest :: rest)
    (third : lowest.epoch = loop.key.currentEpoch + 3)
    (secondOpened : Opens crypto config identity authState epochKey second)
    (secondEpoch : second.epoch = loop.key.currentEpoch + 2)
    (firstOpened : Opens crypto config identity authState epochKey first)
    (firstEpoch : first.epoch = loop.key.currentEpoch + 1) :
    let waiting := (loop.applyKeyRotation crypto config identity created second).2
    (waiting.applyKeyRotation crypto config identity created first).2.key.currentEpoch =
      loop.key.currentEpoch + 2 := by
  dsimp only
  have least := lowest_of_sortByEpoch settled.distinct sorted
  have absent : ¬ ∃ held ∈ loop.rotationBuffer, held.epoch = second.epoch := by
    intro ⟨held, member, same⟩
    rcases List.mem_cons.mp (least.perm.mem_iff.mpr member) with first | later
    · rw [first] at same
      omega
    · have above := least.below held later
      omega
  have evicted := settled.evict created secondOpened (by omega) absent full sorted
  have unmoved : (loop.applyKeyRotation crypto config identity created second).2.key = loop.key := by
    rw [applyKeyRotation_of_opened crypto config identity settled.synced created
      (settled.authState_eq ▸ secondOpened), if_neg (by omega), if_neg (by omega)]
    rfl
  have room : HasRoom (loop.applyKeyRotation crypto config identity created second).2 first :=
    .inl (by rw [unmoved]; omega)
  have final := evicted.deliver created firstOpened room
  refine final.frontier.unique ⟨?_, ?_, ?_⟩
  · exact settled.start_le.trans (Nat.le_add_right _ _)
  · intro epoch after below
    by_cases one : epoch = loop.key.currentEpoch + 1
    · exact .inl (one.trans firstEpoch.symm)
    by_cases two : epoch = loop.key.currentEpoch + 2
    · exact .inr (.inl (two.trans secondEpoch.symm))
    have known : epoch ≤ loop.key.currentEpoch := by omega
    refine .inr (.inr ⟨settled.filled epoch after known, ?_⟩)
    rw [Set.mem_singleton_iff]
    omega
  · intro arrived
    rcases arrived with same | same | ⟨_, apart⟩
    · omega
    · omega
    · exact apart third.symm

/-- The epochs among the deliveries that open for the receiver. -/
def deliveredEpochs (crypto : Primitives) (config : ShareConfig) (identity : crypto.PrivateKey)
    (authState : AuthState crdt) (epochKey : Nat → Key) (deliveries : List (Key × SignedRotation)) :
    Set Nat :=
  {epoch | ∃ delivery ∈ deliveries, delivery.2.epoch = epoch ∧
    Opens crypto config identity authState epochKey delivery.2}

theorem deliveredEpochs_concat_opened {created : Key} {rotation : SignedRotation}
    (opened : Opens crypto config identity authState epochKey rotation)
    (deliveries : List (Key × SignedRotation)) :
    deliveredEpochs crypto config identity authState epochKey (deliveries ++ [(created, rotation)]) =
      insert rotation.epoch
        (deliveredEpochs crypto config identity authState epochKey deliveries) := by
  ext epoch
  constructor
  · intro ⟨delivery, member, same, opens⟩
    rcases List.mem_append.mp member with earlier | last
    · exact .inr ⟨delivery, earlier, same, opens⟩
    · rw [List.mem_singleton.mp last] at same
      exact .inl same.symm
  · intro either
    rcases either with same | ⟨delivery, member, same, opens⟩
    · exact ⟨_, List.mem_append_right _ List.mem_cons_self, same.symm, opened⟩
    · exact ⟨delivery, List.mem_append_left _ member, same, opens⟩

theorem deliveredEpochs_concat_closed {created : Key} {rotation : SignedRotation}
    (closed : ¬ Opens crypto config identity authState epochKey rotation)
    (deliveries : List (Key × SignedRotation)) :
    deliveredEpochs crypto config identity authState epochKey (deliveries ++ [(created, rotation)]) =
      deliveredEpochs crypto config identity authState epochKey deliveries := by
  ext epoch
  constructor
  · intro ⟨delivery, member, same, opens⟩
    rcases List.mem_append.mp member with earlier | last
    · exact ⟨delivery, earlier, same, opens⟩
    · rw [List.mem_singleton.mp last] at opens
      exact absurd opens closed
  · intro ⟨delivery, member, same, opens⟩
    exact ⟨delivery, List.mem_append_left _ member, same, opens⟩

/-- What may be delivered: an opened rotation that the buffer has room for, a refused one,
or one for an epoch of the ring. -/
def Deliverable (crypto : Primitives) (config : ShareConfig) (identity : crypto.PrivateKey)
    (authState : AuthState crdt) (epochKey : Nat → Key) (ring : KeyRing) (loop : ShareLoop crdt)
    (delivery : Key × SignedRotation) : Prop :=
  Opens crypto config identity authState epochKey delivery.2 ∧ loop.HasRoom delivery.2 ∨
    Refused crypto config identity authState delivery.2 ∨ delivery.2.epoch ≤ ring.currentEpoch

/-- Deliveries settle whatever their order, when nothing is evicted. -/
theorem settled_of_run {start final : ShareLoop crdt} (synced : start.Synced)
    (fresh : start.rotationBuffer = []) {deliveries : List (Key × SignedRotation)}
    (met : (receiver crypto config identity).Along
      (Deliverable crypto config identity start.authState epochKey start.key) start deliveries)
    (ran : (receiver crypto config identity).run start deliveries = some final) :
    Settled crypto config identity start.authState epochKey start.key
      (deliveredEpochs crypto config identity start.authState epochKey deliveries) final := by
  have preserved : ∀ (taken : List (Key × SignedRotation)) (loop : ShareLoop crdt) delivery next,
      Settled crypto config identity start.authState epochKey start.key
        (deliveredEpochs crypto config identity start.authState epochKey taken) loop →
      Deliverable crypto config identity start.authState epochKey start.key loop delivery →
      (receiver crypto config identity).step loop delivery = some next →
      Settled crypto config identity start.authState epochKey start.key
        (deliveredEpochs crypto config identity start.authState epochKey (taken ++ [delivery]))
        next := by
    intro taken loop (created, rotation) next settled deliverable stepped
    cases stepped
    rcases deliverable with ⟨opened, room⟩ | refused | old
    · rw [deliveredEpochs_concat_opened opened]
      exact settled.deliver created opened room
    · rw [deliveredEpochs_concat_closed (refused _),
        applyKeyRotation_of_refused crypto config identity created (settled.authState_eq ▸ refused)]
      exact settled
    · have stale : rotation.epoch ≤ loop.key.currentEpoch := old.trans settled.start_le
      rw [applyKeyRotation_of_stale crypto config identity settled.synced created stale]
      by_cases opened : Opens crypto config identity start.authState epochKey rotation
      · rw [deliveredEpochs_concat_opened opened]
        exact settled.redeliver (.inl stale)
      · rw [deliveredEpochs_concat_closed opened]
        exact settled
  refine Machine.run_history _ preserved ?_ met ran
  have none : ∀ epoch, epoch ∉ deliveredEpochs crypto config identity start.authState epochKey [] :=
    fun epoch ⟨_, member, _⟩ => absurd member List.not_mem_nil
  refine ⟨⟨synced, rfl, ⟨0, rfl⟩, ?_, ?_, ?_, ?_⟩, none _, ?_⟩
  · exact fun epoch after below => absurd after (Nat.not_lt.mpr below)
  · rw [fresh]
    exact fun _ member => absurd member List.not_mem_nil
  · exact fun epoch arrived => absurd arrived (none epoch)
  · rw [fresh]
    exact List.nodup_nil
  · rw [fresh]
    exact Nat.zero_le _

end ShareLoop

end Peerdup.Daemon
