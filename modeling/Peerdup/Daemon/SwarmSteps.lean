import Peerdup.Daemon.GroupScope
import Peerdup.Daemon.RunShareProperties
import Peerdup.Daemon.Swarm
import Peerdup.Daemon.WholeLogs

/-!
# What happens to the membership in a swarm

All that an event can do to the log of a task and to what it has published. Every log on its
way is a whole one, so nothing ever waits for deps.
-/

set_option autoImplicit false

namespace Peerdup.Daemon

open Foundation Auth RunningShare

variable {crdt : GroupCrdt} {crypto : Primitives}

section Loop

variable {config : ShareConfig} {identity : crypto.PrivateKey} {loop : ShareLoop crdt}
  {group : Finset SignedOp}

/-- What a command that the CRDT does not reject makes of the membership: at most one
operation of this peer is applied. -/
def ShareLoop.Authors (crypto : Primitives) (identity : crypto.PrivateKey) (loop : ShareLoop crdt)
    (after : AuthState crdt) : Prop :=
  after = loop.authState ∨ ∃ groupId action next,
    crdt.process loop.authState.crdt (loop.authState.authored crypto identity groupId action) =
      .ok next ∧
    loop.NewId crypto (loop.authState.authored crypto identity groupId action) ∧
    after = loop.authState.applied next (loop.authState.authored crypto identity groupId action)

theorem ShareLoop.authors_invite {invitee : MemberId} {authRole : AuthRole}
    {suggestedRole : ShareRole}
    (clean : loop.Unrejected crypto config identity (.invite invitee authRole suggestedRole)) :
    loop.Authors crypto identity
      (loop.handleInvite crypto config identity invitee authRole suggestedRole).2.authState := by
  rw [handleInvite_eq]
  by_cases empty : loop.authState.isEmpty = true
  · rw [if_pos empty]
    exact .inl rfl
  rw [if_neg empty]
  by_cases present : loop.authState.isMember (groupIdFor crypto config.id) invitee = true
  · rw [if_pos present]
    exact .inl rfl
  rw [if_neg present]
  obtain ⟨unspoiled, new⟩ := clean (Bool.eq_false_iff.mpr empty) (Bool.eq_false_iff.mpr present)
  dsimp only
  cases processed : crdt.process loop.authState.crdt
      (loop.addition crypto config identity invitee authRole) with
  | ok next => exact .inr ⟨_, _, next, processed, new, rfl⟩
  | error cause =>
      dsimp only
      rw [withAuth_wiped unspoiled processed]
      exact .inl rfl

theorem ShareLoop.authors_revoke {entropy : Entropy} {target : MemberId}
    (clean : loop.Unrejected crypto config identity (.revoke entropy target)) :
    loop.Authors crypto identity
      (loop.handleRevoke crypto config identity entropy target).2.authState := by
  rw [handleRevoke_eq]
  by_cases empty : loop.authState.isEmpty = true
  · rw [if_pos empty]
    exact .inl rfl
  rw [if_neg empty]
  by_cases absent : (!loop.authState.isMember (groupIdFor crypto config.id) target) = true
  · rw [if_pos absent]
    exact .inl rfl
  rw [if_neg absent]
  have present : loop.authState.isMember (groupIdFor crypto config.id) target = true := by
    rwa [Bool.not_eq_true', Bool.not_eq_false] at absent
  obtain ⟨unspoiled, new⟩ := clean (Bool.eq_false_iff.mpr empty) present
  dsimp only
  cases processed : crdt.process loop.authState.crdt
      (loop.removal crypto config identity target) with
  | ok next =>
      refine .inr ⟨_, _, next, processed, new, ?_⟩
      dsimp only
      split
      · rfl
      · split <;> rfl
  | error cause =>
      dsimp only
      rw [withAuth_wiped unspoiled processed]
      exact .inl rfl

theorem ShareLoop.Authors.ops_subset {after : AuthState crdt}
    (authors : loop.Authors crypto identity after) : ∀ op ∈ loop.authState.ops, op ∈ after.ops := by
  rcases authors with same | ⟨_, _, _, _, _, same⟩
  · rw [same]
    exact fun _ => id
  · rw [same]
    exact fun _ => List.mem_append_left _

theorem Settled.authors (lawful : crypto.Lawful) (heads : crdt.HeadsProcessed crypto)
    (settled : Settled crypto group loop.authState) {after : AuthState crdt}
    (authors : loop.Authors crypto identity after) (within : ∀ op ∈ after.ops, op ∈ group) :
    Settled crypto group after := by
  rcases authors with same | ⟨groupId, action, next, accepted, new, same⟩
  · exact same ▸ settled
  · subst same
    exact ⟨settled.replayable.author lawful heads identity groupId action accepted new,
      settled.settled, within⟩

end Loop

section Task

variable {setup : ShareSetup crypto} {share next : RunningShare crdt} {entry : TaskEntry}

/-- Where nothing happens to the loop, messages are published, and the logs among them are the
speaker's own. -/
theorem effect_publishes (effect : Effect setup share entry next) (still : loopEvents entry = []) :
    next.loop = share.loop ∧ ∃ messages, next.published = share.published ++ messages ∧
      ∀ payload, .authOps payload ∈ messages → isLeech share.role = false ∧
        payload = share.loop.authState.ops.map SignedOp.encode := by
  have silent : ∃ messages, share.published = share.published ++ messages ∧
      ∀ payload, ShareMsg.authOps payload ∈ messages → isLeech share.role = false ∧
        payload = share.loop.authState.ops.map SignedOp.encode :=
    ⟨[], (List.append_nil _).symm, fun _ contra => by cases contra⟩
  cases effect with
  | still _ => exact ⟨rfl, silent⟩
  | loop event _ =>
      rw [still] at event
      cases event
  | tick speaks =>
      rw [announceTick_eq share speaks]
      refine ⟨rfl, _, rfl, fun payload member => ⟨speaks, ?_⟩⟩
      rcases List.mem_append.mp member with earlier | rotation
      · rcases List.mem_append.mp earlier with announce | log
        · cases role : share.role with
          | seed own => simp [tickAnnounces, role] at announce
          | leech completed => simp [tickAnnounces, role] at announce
          | sync state => cases state <;> simp [tickAnnounces, role] at announce
        · rw [authOpsMessages] at log
          split at log
          · cases log
          · exact ShareMsg.authOps.inj (List.mem_singleton.mp log)
      · obtain ⟨_, _, contra⟩ := List.mem_map.mp rotation
        cases contra
  | failed _ => exact ⟨rfl, silent⟩
  | fetched _ => exact ⟨rfl, silent⟩
  | authored _ _ =>
      refine ⟨rfl, _, rfl, fun payload member => ?_⟩
      cases List.mem_singleton.mp member
  | took _ _ =>
      refine ⟨rfl, _, rfl, fun payload member => ?_⟩
      cases List.mem_singleton.mp member

theorem loopEvents_act_own {branch : Branch} (own : branch.isOwn = true) (turn : Turn) :
    loopEvents (.acted (branch, turn)) = [] := by
  cases branch with
  | localChange inputs => rfl
  | announceTick => rfl
  | gossip item =>
      cases item with
      | ended => rfl
      | lagged => rfl
      | payload msg =>
          cases msg with
          | none => rfl
          | some msg => cases own

end Task

/-- The peer whose task does something. -/
def SwarmEvent.peer {Peer : Type} : SwarmEvent Peer → Peer
  | .handle peer _ _ => peer
  | .act peer _ _ => peer
  | .hear peer _ _ _ => peer

namespace Swarm

variable {Peer : Type} {setupOf : Peer → ShareSetup crypto}
  {swarm next start final : Swarm crdt Peer} {event : SwarmEvent Peer}

def opsOf (swarm : Swarm crdt Peer) (peer : Peer) : List SignedOp :=
  (swarm.tasks peer).loop.authState.ops

/-- The peers whose tasks have an announce tick. -/
def speakers (swarm : Swarm crdt Peer) : Set Peer :=
  {peer | isLeech (swarm.tasks peer).role = false}

/-- All that an event can mean for the membership at its peer, and for what is published. -/
inductive Outcome (setupOf : Peer → ShareSetup crypto) (swarm : Swarm crdt Peer) :
    SwarmEvent Peer → RunningShare crdt → Prop where
  | kept {event share messages} :
      share.loop.authState = (swarm.tasks event.peer).loop.authState →
      share.published = (swarm.tasks event.peer).published ++ messages →
      (∀ payload, .authOps payload ∈ messages → event.peer ∈ swarm.speakers ∧
        payload = (swarm.opsOf event.peer).map SignedOp.encode) →
      Outcome setupOf swarm event share
  | authored {event share} : event.authors = true →
      share.published = (swarm.tasks event.peer).published →
      (swarm.Accepted setupOf event → (swarm.tasks event.peer).loop.Authors crypto
        (setupOf event.peer).identity share.loop.authState) →
      Outcome setupOf swarm event share
  | took {peer source index turn payload} :
      (swarm.tasks source).published[index]? = some (.authOps payload) →
      Outcome setupOf swarm (.hear peer source index turn)
        ((swarm.tasks peer).receiveAuthOps crypto payload)

theorem outcome_of_effect {share : RunningShare crdt} {entry : TaskEntry}
    (effect : Effect (setupOf event.peer) (swarm.tasks event.peer) entry share)
    (still : loopEvents entry = []) : Outcome setupOf swarm event share := by
  obtain ⟨same, messages, published, logs⟩ := effect_publishes effect still
  exact .kept (congrArg ShareLoop.authState same) published logs

theorem outcome_kept {share : RunningShare crdt} {loop : ShareLoop crdt}
    (same : loop.authState = (swarm.tasks event.peer).loop.authState)
    (taken : share = (swarm.tasks event.peer).withLoop loop) : Outcome setupOf swarm event share := by
  subst taken
  exact .kept same (List.append_nil _).symm fun _ contra => by cases contra

theorem outcome_handle (peer : Peer) (command : ShareCommand) (turn : Turn) :
    Outcome setupOf swarm (.handle peer command turn)
      ((swarm.tasks peer).handle (setupOf peer) turn command).2.1 := by
  cases command with
  | invite invitee authRole suggestedRole =>
      exact .authored rfl rfl fun clean => ShareLoop.authors_invite clean
  | revoke target =>
      exact .authored rfl rfl fun clean => ShareLoop.authors_revoke clean
  | rotateKey =>
      exact outcome_kept (ShareLoop.sameAuth_rotateKey (swarm.tasks peer).loop turn.entropy).1 rfl
  | members => exact outcome_kept rfl rfl
  | shutdown => exact outcome_kept rfl rfl

theorem outcome_hear {peer source : Peer} {index : Nat} {msg : ShareMsg} (turn : Turn)
    (published : (swarm.tasks source).published[index]? = some msg) :
    Outcome setupOf swarm (.hear peer source index turn)
      ((swarm.tasks peer).receive (setupOf peer) turn msg) := by
  cases msg with
  | authOps payload => exact .took published
  | keyRotation rotation =>
      exact outcome_kept
        (ShareLoop.sameAuth_applyKeyRotation (swarm.tasks peer).loop turn.entropy.created rotation).1 rfl
  | announce announce =>
      exact outcome_of_effect (effect_receive (swarm.tasks peer) turn (.announce announce)) rfl

variable [DecidableEq Peer]

theorem iterate_some {peer : Peer} {iteration : RunningShare crdt → RunningShare crdt × Bool}
    (ran : swarm.iterate peer iteration = some next) :
    next = swarm.setTask peer (iteration (swarm.tasks peer)).1
      (iteration (swarm.tasks peer)).2 := by
  unfold iterate at ran
  split at ran
  · exact (Option.some.inj ran).symm
  · cases ran

theorem step_cases (stepped : (machine crdt setupOf).step swarm event = some next) :
    ∃ share goesOn, next = swarm.setTask event.peer share goesOn ∧
      isLeech share.role = isLeech (swarm.tasks event.peer).role ∧
      Outcome setupOf swarm event share := by
  cases event with
  | handle peer command turn =>
      change swarm.iterate peer (fun share => (share.handle (setupOf peer) turn command).2) =
        some next at stepped
      refine ⟨_, _, iterate_some stepped, ?_, outcome_handle peer command turn⟩
      exact (effect_handle (swarm.tasks peer) turn 0 command .done).isLeech_eq
  | act peer branch turn =>
      change (if branch.isOwn then _ else none) = some next at stepped
      split at stepped
      next own =>
        have effect : Effect (setupOf peer) (swarm.tasks peer) (.acted (branch, turn)) _ :=
          effect_act (swarm.tasks peer) turn branch
        refine ⟨_, _, iterate_some stepped, effect.isLeech_eq, ?_⟩
        exact outcome_of_effect effect (loopEvents_act_own own turn)
      · cases stepped
  | hear peer source index turn =>
      unfold machine at stepped
      dsimp only at stepped
      split at stepped
      · cases stepped
      next msg published =>
        refine ⟨_, _, iterate_some stepped, ?_, outcome_hear turn published⟩
        exact (effect_receive (swarm.tasks peer) turn msg).isLeech_eq

theorem opsOf_setTask (swarm : Swarm crdt Peer) (peer other : Peer) (share : RunningShare crdt)
    (goesOn : Bool) : (swarm.setTask peer share goesOn).opsOf other =
      if other = peer then share.loop.authState.ops else swarm.opsOf other := by
  rw [opsOf, setTask]
  dsimp only
  rw [Function.update_apply]
  split <;> rfl

theorem speakers_step (stepped : (machine crdt setupOf).step swarm event = some next) :
    next.speakers = swarm.speakers := by
  obtain ⟨share, goesOn, rfl, role, _⟩ := step_cases stepped
  ext peer
  have same : isLeech ((swarm.setTask event.peer share goesOn).tasks peer).role =
      isLeech (swarm.tasks peer).role := by
    rw [setTask]
    dsimp only
    by_cases here : peer = event.peer
    · rw [here, Function.update_self, role]
    · rw [Function.update_of_ne here]
  change isLeech _ = false ↔ isLeech _ = false
  rw [same]

/-- An operation that has been applied stays, whatever arrives later. -/
theorem ops_subset_of_step (accepted : swarm.Accepted setupOf event)
    (stepped : (machine crdt setupOf).step swarm event = some next) (peer : Peer) :
    ∀ op ∈ swarm.opsOf peer, op ∈ next.opsOf peer := by
  obtain ⟨share, goesOn, rfl, _, outcome⟩ := step_cases stepped
  intro op member
  rw [opsOf_setTask]
  split
  · next same =>
      subst same
      cases outcome with
      | kept same _ _ =>
          rw [same]
          exact member
      | authored _ _ authors => exact (authors accepted).ops_subset op member
      | took _ =>
          exact (ops_applyPayload 0 _ _).subset member
  · exact member

theorem ops_subset_of_run {events : List (SwarmEvent Peer)}
    (met : (machine crdt setupOf).Along (fun swarm event => swarm.Accepted setupOf event) start
      events)
    (ran : (machine crdt setupOf).run start events = some final) (peer : Peer) :
    ∀ op ∈ start.opsOf peer, op ∈ final.opsOf peer := by
  have kept : ∀ (swarm : Swarm crdt Peer) event next,
      (∀ op ∈ start.opsOf peer, op ∈ swarm.opsOf peer) → swarm.Accepted setupOf event →
        (machine crdt setupOf).step swarm event = some next →
          ∀ op ∈ start.opsOf peer, op ∈ next.opsOf peer := by
    intro swarm event next held accepted stepped op member
    exact ops_subset_of_step accepted stepped peer op (held op member)
  exact (machine crdt setupOf).run_along_invariant kept (fun _ => id) met ran

/-- A payload that is all of a log of the group, deps first. -/
structure WholeLog (crypto : Primitives) (group : Finset SignedOp) (payload : List Bytes)
    (log : List SignedOp) : Prop where
  encoded : payload = log.map SignedOp.encode
  ordered : CausallyOrdered crypto log
  among : ∀ op ∈ log, op ∈ group

/-- Nothing waits anywhere, and only whole logs are on their way. -/
structure Sane (crypto : Primitives) (group : Finset SignedOp) (swarm : Swarm crdt Peer) : Prop where
  settled : ∀ peer, Settled crypto group (swarm.tasks peer).loop.authState
  whole : ∀ peer payload, .authOps payload ∈ (swarm.tasks peer).published →
    ∃ log, WholeLog crypto group payload log

/-- What a swarm relies on: the primitives, the CRDT, and a group of all the operations. -/
structure Setting (crypto : Primitives) (crdt : GroupCrdt) (group : Finset SignedOp) : Prop where
  lawful : crypto.Lawful
  heads : crdt.HeadsProcessed crypto
  signed : SignedGroup crypto group
  accepts : AcceptsReady crypto crdt group
  holdable : ∀ op ∈ group, op.Holdable

variable {group : Finset SignedOp}

omit [DecidableEq Peer] in
theorem Sane.took (setting : Setting crypto crdt group) (sane : swarm.Sane crypto group)
    (peer : Peer) {source : Peer} {index : Nat} {payload : List Bytes}
    (published : (swarm.tasks source).published[index]? = some (.authOps payload)) :
    ∃ log, WholeLog crypto group payload log ∧
      Settled crypto group ((swarm.tasks peer).receiveAuthOps crypto payload).loop.authState ∧
      ∀ op, op ∈ ((swarm.tasks peer).receiveAuthOps crypto payload).loop.authState.ops ↔
        op ∈ swarm.opsOf peer ∨ op ∈ log := by
  obtain ⟨log, whole⟩ := sane.whole source payload (List.mem_of_getElem? published)
  obtain ⟨settled, ops⟩ := (sane.settled peer).applyPayload setting.signed setting.accepts 0
    whole.ordered fun op member => ⟨whole.among op member, setting.holdable op (whole.among op member)⟩
  rw [← whole.encoded] at settled ops
  exact ⟨log, whole, settled, ops⟩

theorem Sane.step (setting : Setting crypto crdt group) (sane : swarm.Sane crypto group)
    (accepted : swarm.Accepted setupOf event)
    (stepped : (machine crdt setupOf).step swarm event = some next)
    (within : ∀ op ∈ next.opsOf event.peer, op ∈ group) : next.Sane crypto group := by
  obtain ⟨share, goesOn, rfl, _, outcome⟩ := step_cases stepped
  rw [opsOf_setTask, if_pos rfl] at within
  have both : Settled crypto group share.loop.authState ∧
      ∀ payload, .authOps payload ∈ share.published → ∃ log, WholeLog crypto group payload log := by
    cases outcome with
    | @kept _ _ messages same published logs =>
        refine ⟨same ▸ sane.settled event.peer, fun payload member => ?_⟩
        rw [published] at member
        rcases List.mem_append.mp member with old | new
        · exact sane.whole event.peer payload old
        · obtain ⟨_, encoded⟩ := logs payload new
          have settled := sane.settled event.peer
          exact ⟨_, encoded, settled.replayable.ordered, settled.among⟩
    | authored _ published authors =>
        refine ⟨(sane.settled event.peer).authors setting.lawful setting.heads (authors accepted)
          within, ?_⟩
        rw [published]
        exact sane.whole event.peer
    | @took peer source index turn payload published =>
        obtain ⟨_, _, settled, _⟩ := sane.took setting peer published
        exact ⟨settled, sane.whole peer⟩
  constructor
  · intro peer
    rw [setTask]
    dsimp only
    by_cases same : peer = event.peer
    · rw [same, Function.update_self]
      exact both.1
    · rw [Function.update_of_ne same]
      exact sane.settled peer
  · intro peer
    rw [setTask]
    dsimp only
    by_cases same : peer = event.peer
    · rw [same, Function.update_self]
      exact both.2
    · rw [Function.update_of_ne same]
      exact sane.whole peer

end Swarm

end Peerdup.Daemon
