import Peerdup.Daemon.RunShareProperties

/-!
# Rotations on the wire

A revocation is announced to the members by the ticks of the task that handled it. A leech
has no ticks.
-/

set_option autoImplicit false

namespace Peerdup.Daemon

open Foundation Auth Crypto Rotation

variable {crdt : GroupCrdt} {crypto : Primitives}

/-- A rotation for this epoch waits to be published. -/
def Queued (epoch : Nat) (share : RunningShare crdt) : Prop :=
  ∃ rotation ∈ share.loop.pendingRotations, rotation.epoch = epoch

def Published (epoch : Nat) (share : RunningShare crdt) : Prop :=
  ∃ rotation : SignedRotation, rotation.epoch = epoch ∧ .keyRotation rotation ∈ share.published

/-- A seed or a sync peer publishes the rotation of a revocation at its next tick. A leech
that revokes somebody publishes nothing at all. -/
theorem revocation_published (crypto : Primitives) (crdt : GroupCrdt) (setup : ShareSetup crypto)
    (share : RunningShare crdt) (events : List (Actor.Event ShareCommand Turn (Branch × Turn)))
    (box : CommandChannel crdt)
    (ran : (channelMachine crdt setup).run (.fresh share) events = some box) :
    (RunningShare.isLeech share.role = true → box.state.published = share.published) ∧
      (RunningShare.isLeech share.role = false → ∀ front back call target turn epoch later,
        box.log = front ++ back →
        .handled call (.revoke target) turn (.newEpoch (.ok epoch)) ∈ front →
        .acted (.announceTick, later) ∈ back → Published epoch box.state) := by
  have performs := (Actor.explained_of_run ran).1.performs
  constructor
  · intro silent
    have kept : ∀ (state : RunningShare crdt) (entry : TaskEntry) next goesOn,
        RunningShare.isLeech state.role = true ∧ state.published = share.published →
        (runShare crdt setup).Does state entry next goesOn →
        RunningShare.isLeech next.role = true ∧ next.published = share.published := by
      intro state entry next goesOn ⟨leech, same⟩ does
      have effect := RunningShare.effect_of_does does
      exact ⟨effect.isLeech_eq.trans leech, (effect.published_leech leech).trans same⟩
    exact (performs.invariant kept ⟨silent, rfl⟩).2
  · intro speaks front back call target turn epoch later whole revoked ticked
    rw [whole] at performs
    obtain ⟨middle, going, before, goes, onward⟩ := performs.cut
    have still : going = true := by
      rcases goes with going | ⟨empty, _⟩
      · exact going
      · rw [empty] at ticked
        cases ticked
    have leechless : ∀ (state : RunningShare crdt) (entry : TaskEntry) next goesOn,
        RunningShare.isLeech state.role = false →
        (runShare crdt setup).Does state entry next goesOn →
        RunningShare.isLeech next.role = false := by
      intro state entry next goesOn speaks does
      exact (RunningShare.effect_of_does does).isLeech_eq.trans speaks
    have waits : ∀ (state : RunningShare crdt) (entry : TaskEntry) next goesOn,
        Queued epoch state → (runShare crdt setup).Does state entry next goesOn →
        Queued epoch next := by
      intro state entry next goesOn ⟨rotation, member, same⟩ does
      exact ⟨rotation, (RunningShare.effect_of_does does).pending_extends.subset member, same⟩
    have queued : Queued epoch middle := by
      refine before.established leechless (fun state next goesOn _ does => ?_) waits speaks revoked
      have same : state.handle setup turn (.revoke target) = (.newEpoch (.ok epoch), next, goesOn) :=
        does
      have loop := congrArg (fun result => result.2.1.loop) same
      have answered := CommandReply.newEpoch.inj (congrArg Prod.fst same)
      rw [Queued, ← loop]
      exact (ShareLoop.pendingRotations_handleRevoke state.loop turn.entropy target).2 epoch answered
    have both : ∀ (state : RunningShare crdt) (entry : TaskEntry) next goesOn,
        RunningShare.isLeech state.role = false ∧ Queued epoch state →
        (runShare crdt setup).Does state entry next goesOn →
        RunningShare.isLeech next.role = false ∧ Queued epoch next := by
      intro state entry next goesOn ⟨speaks, queued⟩ does
      exact ⟨leechless state entry next goesOn speaks does, waits state entry next goesOn queued does⟩
    refine (onward still).established both (fun state next goesOn holds does => ?_)
      (fun state entry next goesOn done does => ?_) ⟨before.invariant leechless speaks, queued⟩ ticked
    · obtain ⟨speaks, rotation, member, same⟩ := holds
      have tick : (state.announceTick setup, true) = (next, goesOn) := does
      have ticked : next = state.announceTick setup := (congrArg Prod.fst tick).symm
      refine ⟨rotation, same, ?_⟩
      rw [ticked, RunningShare.announceTick_eq state speaks]
      exact List.mem_append_right _ (List.mem_append_right _ (List.mem_map.mpr ⟨rotation, member, rfl⟩))
    · obtain ⟨rotation, same, member⟩ := done
      exact ⟨rotation, same, (RunningShare.effect_of_does does).published_extends.subset member⟩

section Samples

open Reference ShareLoop

theorem guestRevocation_epoch :
    (guestLoop.handleRevoke cleartext docsConfig founder docsEntropy guest.val).1 = .ok 2 := by
  have computed : (guestLoop.handleRevoke cleartext docsConfig founder docsEntropy
      guest.val).1.toOption = some 2 := by decide +kernel
  generalize (guestLoop.handleRevoke cleartext docsConfig founder docsEntropy guest.val).1 =
    result at computed ⊢
  cases result with
  | error failure => cases computed
  | ok epoch =>
      cases computed
      rfl

theorem runShare_revoke (loop : ShareLoop sequentialGroup) (target : MemberId) :
    (runShare sequentialGroup docsSetup).handle (docsTask loop (.sync none)) (.revoke target)
        quietTurn =
      (.newEpoch (loop.handleRevoke cleartext docsConfig founder docsEntropy target).1,
        docsTask (loop.handleRevoke cleartext docsConfig founder docsEntropy target).2 (.sync none),
        true) := rfl

/-- The founder revokes the guest, and the task's timer fires. -/
def revokeThenTick : List (Actor.Event ShareCommand Turn (Branch × Turn)) :=
  [.call (.revoke guest.val), .push 0, .take quietTurn] ++ [.act (.announceTick, quietTurn)]

theorem guestRevocation_published : ∃ box,
    (channelMachine sequentialGroup docsSetup).run
        (.fresh (docsTask guestLoop (.sync none))) revokeThenTick = some box ∧
      Published 2 box.state := by
  have handled := runShare_revoke guestLoop guest.val
  rw [guestRevocation_epoch] at handled
  have alive : (.fresh (docsTask guestLoop (.sync none)) :
      CommandChannel sequentialGroup).alive = true := rfl
  have served := Actor.run_served (show 0 < commandCapacity by decide) alive ⟨rfl, rfl⟩ handled
  have ran := (Machine.run_append_iff _).mpr ⟨_, served, (Machine.run_cons_iff _).mpr
    ⟨_, step_announceTick rfl, Machine.run_nil _ _⟩⟩
  exact ⟨_, ran, (revocation_published cleartext sequentialGroup docsSetup
    (docsTask guestLoop (.sync none)) revokeThenTick _ ran).2 rfl
    [.handled 0 (.revoke guest.val) quietTurn (.newEpoch (.ok 2))]
    [.acted (.announceTick, quietTurn)] 0 guest.val quietTurn 2 quietTurn rfl
    (List.mem_singleton_self _) (List.mem_singleton_self _)⟩

end Samples

end Peerdup.Daemon
