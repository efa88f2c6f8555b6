import Peerdup.AuthLog
import Peerdup.Daemon.AuthGossipProperties
import Peerdup.Daemon.WireRoundTrip

/-!
# Whole logs as payloads

What a peer publishes is all of its log, deps first. Taken as one payload it is applied as a
whole, on top of whatever another peer has applied, and nothing of it waits.
-/

set_option autoImplicit false

namespace Peerdup.Daemon

open Foundation Auth

variable {crdt : GroupCrdt} {crypto : Primitives} {group part : Finset SignedOp}
  {state : AuthState crdt} {log : List SignedOp}

theorem computeId_mem_of_ordered {ops : List SignedOp} (ordered : CausallyOrdered crypto ops)
    {op : SignedOp} (member : op ∈ ops) {dep : OpId} (named : dep ∈ op.deps) :
    dep ∈ ops.map (·.computeId crypto) := by
  obtain ⟨front, back, whole⟩ := List.append_of_mem member
  have earlier := ordered front op back whole dep named
  rw [whole, List.map_append]
  exact List.mem_append_left _ earlier

theorem signedGroup_of_subset (signed : SignedGroup crypto group) (within : part ⊆ group)
    (closed : ∀ op ∈ part, ∀ dep ∈ op.deps, ∃ other ∈ part, other.computeId crypto = dep) :
    SignedGroup crypto part where
  signed op member := signed.signed op (within member)
  closed := closed
  apart op member other held := signed.apart op (within member) other (within held)
  acyclic item circle := by
    refine signed.acyclic item (Relation.TransGen.mono ?_ _ _ circle)
    exact fun first second edge => ⟨within edge.1, within edge.2.1, edge.2.2⟩

theorem acceptsReady_of_subset (accepts : AcceptsReady crypto crdt group) (within : part ⊆ group) :
    AcceptsReady crypto crdt part := by
  intro ops state listing processed op member
  refine accepts ops state ⟨?_, listing.nodup, listing.ordered⟩ processed op (within member)
  exact fun other held => within (listing.among other held)

theorem applyRaw_encode {op : SignedOp} (holdable : op.Holdable) (applied : Nat)
    (state : AuthState crdt) :
    (applyRaw crypto applied state op.encode).2 = (state.applyRemote crypto op).2 := by
  unfold applyRaw
  rw [ShareFiles.decode_encode_op holdable]
  dsimp only
  rcases state.applyRemote crypto op with ⟨failure | applied_, next⟩
  · rfl
  · cases applied_ <;> rfl

/-- A payload is a sequence of deliveries. -/
theorem stuck_applyPayload (signed : SignedGroup crypto group)
    (accepts : AcceptsReady crypto crdt group) {delivered : Set SignedOp}
    (stuck : AuthState.Stuck crypto group delivered state) (applied : Nat)
    (within : ∀ op ∈ log, op ∈ group ∧ op.Holdable) :
    AuthState.Stuck crypto group (delivered ∪ {op | op ∈ log})
      (applyPayload crypto applied state (log.map SignedOp.encode)).2 := by
  induction log generalizing applied state delivered with
  | nil =>
      have none_ : delivered ∪ {op | op ∈ ([] : List SignedOp)} = delivered := by simp
      rw [none_]
      exact stuck
  | cons op log ih =>
      obtain ⟨⟨member, holdable⟩, others⟩ := List.forall_mem_cons.mp within
      obtain ⟨_, next, called, settled⟩ := stuck.applyRemote signed accepts member
      have whole : delivered ∪ {other | other ∈ op :: log} =
          insert op delivered ∪ {other | other ∈ log} := by
        ext other
        simp [or_left_comm, or_assoc]
      have taken : (applyRaw crypto applied state op.encode).2 = next := by
        rw [applyRaw_encode holdable, called]
      rw [whole, List.map_cons, applyPayload]
      dsimp only
      rw [taken]
      exact ih settled _ others

/-- All that the peer knows of the group has been applied. -/
structure Settled (crypto : Primitives) (group : Finset SignedOp) (state : AuthState crdt) :
    Prop where
  replayable : state.Replayable crypto
  settled : state.pending = []
  among : ∀ op ∈ state.ops, op ∈ group

theorem Settled.widen (settled : Settled crypto part state) (within : part ⊆ group) :
    Settled crypto group state where
  replayable := settled.replayable
  settled := settled.settled
  among op member := within (settled.among op member)

theorem Settled.stuck (settled : Settled crypto group state) :
    AuthState.Stuck crypto group {op | op ∈ state.ops} state where
  processed := settled.replayable.processed
  ordered := settled.replayable.ordered
  nodup := settled.replayable.distinct.of_map
  delivered_iff op := by
    rw [settled.settled, List.append_nil]
    exact Iff.rfl
  among := settled.among
  none_ready op waits := by
    rw [settled.settled] at waits
    cases waits

theorem Settled.listing (settled : Settled crypto group state) :
    CausalListing crypto group state.ops := settled.stuck.toGathered.listing

theorem settled_of_stuck (signed : SignedGroup crypto group) {delivered : Set SignedOp}
    (stuck : AuthState.Stuck crypto group delivered state) (none_ : state.pending = []) :
    Settled crypto group state where
  replayable :=
    { processed := stuck.processed
      ordered := stuck.ordered
      verified := fun op member =>
        signed.signed op (stuck.among op ((stuck.delivered_iff op).mp member))
      distinct := by
        refine stuck.nodup.map_on fun op member other held same => ?_
        exact signed.apart op (stuck.among op ((stuck.delivered_iff op).mp member)) other
          (stuck.among other ((stuck.delivered_iff other).mp held)) same }
  settled := none_
  among := stuck.listing.among

/-- A whole log is applied as a whole: afterwards the peer has what it had and the log, and
still nothing waits. -/
theorem Settled.applyPayload (signed : SignedGroup crypto group)
    (accepts : AcceptsReady crypto crdt group) (settled : Settled crypto group state)
    (applied : Nat) (ordered : CausallyOrdered crypto log)
    (within : ∀ op ∈ log, op ∈ group ∧ op.Holdable) :
    let next := (applyPayload crypto applied state (log.map SignedOp.encode)).2
    Settled crypto group next ∧ ∀ op, op ∈ next.ops ↔ op ∈ state.ops ∨ op ∈ log := by
  classical
  -- The two logs together are closed under deps, so they are a group of their own.
  let both : Finset SignedOp := (state.ops ++ log).toFinset
  have inBoth : ∀ op, op ∈ both ↔ op ∈ state.ops ∨ op ∈ log := by
    intro op
    rw [List.mem_toFinset, List.mem_append]
  have sub : both ⊆ group := by
    intro op member
    rcases (inBoth op).mp member with own | new
    · exact settled.among op own
    · exact (within op new).1
  have closed : ∀ op ∈ both, ∀ dep ∈ op.deps, ∃ other ∈ both, other.computeId crypto = dep := by
    intro op member dep named
    rcases (inBoth op).mp member with own | new
    · obtain ⟨other, held, same⟩ := List.mem_map.mp
        (computeId_mem_of_ordered settled.replayable.ordered own named)
      exact ⟨other, (inBoth other).mpr (.inl held), same⟩
    · obtain ⟨other, held, same⟩ := List.mem_map.mp (computeId_mem_of_ordered ordered new named)
      exact ⟨other, (inBoth other).mpr (.inr held), same⟩
  have signedBoth := signedGroup_of_subset signed sub closed
  have here : Settled crypto both state :=
    ⟨settled.replayable, settled.settled, fun op member => (inBoth op).mpr (.inl member)⟩
  have stuck := stuck_applyPayload signedBoth (acceptsReady_of_subset accepts sub) here.stuck applied
    fun op member => ⟨(inBoth op).mpr (.inr member), (within op member).2⟩
  have none_ := stuck.complete signedBoth fun op member => (inBoth op).mp member
  refine ⟨(settled_of_stuck signedBoth stuck none_).widen sub, fun op => ?_⟩
  have held := stuck.delivered_iff op
  rw [none_, List.append_nil] at held
  exact held

end Peerdup.Daemon
