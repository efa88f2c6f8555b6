import Peerdup.Daemon.DiskMirror
import Peerdup.Daemon.LifeSteps
import Peerdup.Daemon.RunShare

/-!
# What a share's task does

All that one iteration can do, whichever loop the task is in.
-/

set_option autoImplicit false

namespace Peerdup.Daemon

open Foundation Auth Crypto Rotation

variable {crdt : GroupCrdt} {crypto : Primitives}

abbrev TaskEntry := Actor.Entry ShareCommand CommandReply Turn (Branch × Turn)

/-- What an entry of a task's log means for the membership and the keys. -/
def loopEvents : TaskEntry → List LoopEvent
  | .handled _ (.invite invitee authRole suggestedRole) _ _ =>
      [.invite invitee authRole suggestedRole]
  | .handled _ (.revoke target) turn _ => [.revoke turn.entropy target]
  | .handled _ .rotateKey turn _ => [.rotateKey turn.entropy]
  | .handled _ .members _ _ => []
  | .handled _ .shutdown _ _ => []
  | .acted (.gossip (.payload (some (.authOps ops))), _) => [.authOps ops]
  | .acted (.gossip (.payload (some (.keyRotation rotation))), turn) =>
      [.keyRotation turn.entropy.created rotation]
  | .acted _ => []

namespace RunningShare

variable {setup : ShareSetup crypto} {share next : RunningShare crdt}

@[simp] theorem withLoop_loop (share : RunningShare crdt) (loop : ShareLoop crdt) :
    (share.withLoop loop).loop = loop := rfl

@[simp] theorem withLoop_role (share : RunningShare crdt) (loop : ShareLoop crdt) :
    (share.withLoop loop).role = share.role := rfl

@[simp] theorem withLoop_device (share : RunningShare crdt) (loop : ShareLoop crdt) :
    (share.withLoop loop).device = share.device := rfl

@[simp] theorem withLoop_published (share : RunningShare crdt) (loop : ShareLoop crdt) :
    (share.withLoop loop).published = share.published := rfl

@[simp] theorem withDevice_loop (share : RunningShare crdt) (device : Device) :
    (share.withDevice device).loop = share.loop := rfl

@[simp] theorem withDevice_role (share : RunningShare crdt) (device : Device) :
    (share.withDevice device).role = share.role := rfl

@[simp] theorem withDevice_published (share : RunningShare crdt) (device : Device) :
    (share.withDevice device).published = share.published := rfl

@[simp] theorem hold_loop (share : RunningShare crdt) (state : ShareState) :
    (share.hold setup state).loop = share.loop := rfl

@[simp] theorem publish_loop (share : RunningShare crdt) (messages : List ShareMsg) :
    (share.publish messages).loop = share.loop := rfl

@[simp] theorem publish_role (share : RunningShare crdt) (messages : List ShareMsg) :
    (share.publish messages).role = share.role := rfl

@[simp] theorem publishAuthOps_loop (share : RunningShare crdt) :
    share.publishAuthOps.loop = share.loop := by
  unfold publishAuthOps
  split <;> rfl

@[simp] theorem publishAuthOps_role (share : RunningShare crdt) :
    share.publishAuthOps.role = share.role := by
  unfold publishAuthOps
  split <;> rfl

@[simp] theorem publishPendingRotations_loop (share : RunningShare crdt) :
    share.publishPendingRotations.loop = share.loop := rfl

@[simp] theorem publishPendingRotations_role (share : RunningShare crdt) :
    share.publishPendingRotations.role = share.role := rfl

/-- What a role publishes of its own on a tick. -/
def tickAnnounces (setup : ShareSetup crypto) : RunningRole → List ShareMsg
  | .seed announce => [.announce announce]
  | .leech _ => []
  | .sync none => []
  | .sync (some state) => [.announce (publishSyncAnnounce state setup.btPort)]

def isLeech : RunningRole → Bool
  | .leech _ => true
  | .seed _ => false
  | .sync _ => false

def authOpsMessages (authState : AuthState crdt) : List ShareMsg :=
  if authState.isEmpty then [] else [.authOps (authState.ops.map SignedOp.encode)]

theorem publishAuthOps_eq (share : RunningShare crdt) :
    share.publishAuthOps = share.publish (authOpsMessages share.loop.authState) := by
  unfold publishAuthOps authOpsMessages
  split
  · simp [publish]
  · rfl

/-- Outside a leech, a tick publishes the whole membership log and every queued rotation. -/
theorem announceTick_eq (share : RunningShare crdt) (speaks : isLeech share.role = false) :
    share.announceTick setup = share.publish (tickAnnounces setup share.role ++
      authOpsMessages share.loop.authState ++
        share.loop.pendingRotations.map .keyRotation) := by
  unfold announceTick
  cases role : share.role with
  | seed announce =>
      simp [publishAuthOps_eq, publishPendingRotations, publish, tickAnnounces]
  | leech completed =>
      rw [role] at speaks
      cases speaks
  | sync state =>
      cases state with
      | none => simp [publishAuthOps_eq, publishPendingRotations, publish, tickAnnounces]
      | some state => simp [publishAuthOps_eq, publishPendingRotations, publish, tickAnnounces]

/-- All that one iteration can do to a task. -/
inductive Effect (setup : ShareSetup crypto) (share : RunningShare crdt) :
    TaskEntry → RunningShare crdt → Prop where
  | still {entry} : loopEvents entry = [] → Effect setup share entry share
  | loop {entry event loop} : loopEvents entry = [event] →
      (ShareLoop.life crypto setup.config setup.identity).step share.loop event = some loop →
      Effect setup share entry (share.withLoop loop)
  | tick {turn} : isLeech share.role = false →
      Effect setup share (.acted (.announceTick, turn)) (share.announceTick setup)
  /-- A local change or an announce that comes to nothing. -/
  | failed {entry device} : loopEvents entry = [] → Effect setup share entry (share.withDevice device)
  | fetched {announce turn device} : share.role = .leech false →
      Effect setup share (.acted (.gossip (.payload (some (.announce announce))), turn))
        { share with device, role := .leech true }
  | authored {inputs turn current state device} : share.role = .sync current →
      handleLocalChange crypto share.device setup.root setup.peerIdHex share.loop.key inputs
        current = (.ok (some state), device) →
      state.clock = (currentClock current).increment setup.peerIdHex →
      Effect setup share (.acted (.localChange inputs, turn))
        ((share.withDevice device).hold setup state)
  | took {announce turn current state device} {clock : VectorClock} : share.role = .sync current →
      state.clock = (currentClock current).merge clock →
      Effect setup share (.acted (.gossip (.payload (some (.announce announce))), turn))
        ((share.withDevice device).hold setup state)

/-- What a task has published when it gets to its loop. -/
inductive Started (setup : ShareSetup crypto) (loop : ShareLoop crdt) : RunningShare crdt → Prop where
  | seed {device announce} : announce.clock = none → Started setup loop ⟨loop, device, .seed announce, []⟩
  | leech {device} : Started setup loop
      ⟨loop, device, .leech false, loop.pendingRotations.map .keyRotation⟩
  | sync {device} : Started setup loop ⟨loop, device, .sync none, []⟩
  | holding {device state} : Started setup loop (hold setup ⟨loop, device, .sync none, []⟩ state)

theorem started_of_start {loop : ShareLoop crdt} {device : Device} {inputs : LocalInputs}
    {role : ShareRole} (started : (RunningShare.start setup loop device inputs role).1 = .ok share) :
    Started setup loop share := by
  cases role with
  | seed =>
      unfold RunningShare.start startSeed at started
      dsimp only at started
      split at started
      · cases started
      · split at started
        · cases started
        · split at started
          · cases started
          · cases started
          · cases started
            exact .seed rfl
  | leech =>
      unfold RunningShare.start startLeech at started
      dsimp only at started
      split at started
      · cases started
      · cases started
        exact .leech
  | sync =>
      unfold RunningShare.start startSync at started
      dsimp only at started
      split at started
      · cases started
      · split at started
        · cases started
        · cases started
          exact .sync
        · cases started
          exact .holding

theorem effect_leechAnnounce {completed : Bool} (role : share.role = .leech completed)
    (announce : Announce) (turn : Turn) :
    Effect setup share (.acted (.gossip (.payload (some (.announce announce))), turn))
      (share.leechAnnounce completed announce turn.fetch) := by
  unfold leechAnnounce
  cases completed with
  | true => exact .still rfl
  | false =>
      rw [if_neg Bool.false_ne_true]
      split
      · exact .failed rfl
      · exact .fetched role

theorem effect_syncLocalChange {state : Option ShareState} (role : share.role = .sync state)
    (inputs : LocalInputs) (turn : Turn) :
    Effect setup share (.acted (.localChange inputs, turn))
      (share.syncLocalChange setup state inputs) := by
  unfold syncLocalChange
  split
  · exact .failed rfl
  · exact .failed rfl
  · next newState device ran =>
      rcases handleLocalChange_clock ran with
        ⟨_, _, _, _, same, _, _, _, _, clock, _⟩ | ⟨none_, _⟩
      · cases same
        exact .authored role ran clock
      · exact absurd rfl (none_ newState)

theorem effect_syncAnnounce {state : Option ShareState} (role : share.role = .sync state)
    (announce : Announce) (turn : Turn) :
    Effect setup share (.acted (.gossip (.payload (some (.announce announce))), turn))
      (share.syncAnnounce setup state announce turn) := by
  unfold syncAnnounce
  split
  · exact .still rfl
  · next newState judged =>
      obtain ⟨remote, _, clock⟩ := judgeAnnounce_localWins judged
      exact .took role clock
  · split
    · exact .failed rfl
    · next newState device ran => exact .took role ((applyRemoteSync_clock ran).2 newState rfl)

theorem effect_receive (share : RunningShare crdt) (turn : Turn) (msg : ShareMsg) :
    Effect setup share (.acted (.gossip (.payload (some msg)), turn))
      (share.receive setup turn msg) := by
  cases msg with
  | authOps ops => exact .loop rfl rfl
  | keyRotation rotation => exact .loop rfl rfl
  | announce announce =>
      unfold receive
      dsimp only
      cases role : share.role with
      | seed own => exact .still rfl
      | leech completed => exact effect_leechAnnounce role announce turn
      | sync state => exact effect_syncAnnounce role announce turn

theorem effect_act (share : RunningShare crdt) (turn : Turn) (branch : Branch) :
    Effect setup share (.acted (branch, turn)) (share.act setup turn branch).1 := by
  cases branch with
  | localChange inputs =>
      unfold act localChange
      dsimp only
      cases role : share.role with
      | seed announce => exact .still rfl
      | leech completed => exact .still rfl
      | sync state => exact effect_syncLocalChange role inputs turn
  | announceTick =>
      unfold act
      dsimp only
      cases speaks : isLeech share.role with
      | false => exact .tick speaks
      | true =>
          unfold announceTick
          cases role : share.role with
          | leech completed => exact .still rfl
          | seed announce =>
              rw [role] at speaks
              cases speaks
          | sync state =>
              rw [role] at speaks
              cases speaks
  | gossip item =>
      cases item with
      | ended => exact .still rfl
      | lagged => exact .still rfl
      | payload msg =>
          cases msg with
          | none => exact .still rfl
          | some msg => exact effect_receive share turn msg

theorem effect_handle (share : RunningShare crdt) (turn : Turn) (call : Nat) (command : ShareCommand)
    (reply : CommandReply) :
    Effect setup share (.handled call command turn reply) (share.handle setup turn command).2.1 := by
  cases command with
  | invite invitee authRole suggestedRole => exact .loop rfl rfl
  | revoke target => exact .loop rfl rfl
  | rotateKey => exact .loop rfl rfl
  | members => exact .still rfl
  | shutdown => exact .still rfl

theorem effect_of_does {entry : TaskEntry} {goesOn : Bool}
    (does : (runShare crdt setup).Does share entry next goesOn) : Effect setup share entry next := by
  cases entry with
  | handled call command turn reply =>
      have same : (share.handle setup turn command).2.1 = next := by
        rw [show share.handle setup turn command = _ from does]
      exact same ▸ effect_handle share turn call command reply
  | acted step =>
      have same : (share.act setup step.2 step.1).1 = next := by
        rw [show share.act setup step.2 step.1 = _ from does]
      exact same ▸ effect_act share step.2 step.1

variable {entry : TaskEntry}

theorem Effect.loop_run (effect : Effect setup share entry next) :
    (ShareLoop.life crypto setup.config setup.identity).run share.loop (loopEvents entry) =
      some next.loop := by
  cases effect with
  | loop event stepped =>
      rw [event]
      exact (Machine.run_cons_iff _).mpr ⟨_, stepped, rfl⟩
  | still none_ => rw [none_]; rfl
  | tick speaks => rw [announceTick_eq share speaks]; rfl
  | failed none_ => rw [none_]; rfl
  | fetched _ => rfl
  | authored _ _ _ => rfl
  | took _ _ => rfl

end RunningShare

namespace ShareLoop

variable {config : ShareConfig} {identity : crypto.PrivateKey} {loop next : ShareLoop crdt}

theorem pendingRotations_tryInstallRotation (loop : ShareLoop crdt) (created : Key)
    (rotation : SignedRotation) :
    (loop.tryInstallRotation crypto config identity created rotation).2.pendingRotations =
      loop.pendingRotations := by
  unfold tryInstallRotation
  dsimp only
  split
  · split
    · rfl
    · split <;> rfl
    all_goals rfl
  all_goals rfl

theorem pendingRotations_applyKeyRotation (loop : ShareLoop crdt) (created : Key)
    (rotation : SignedRotation) :
    (loop.applyKeyRotation crypto config identity created rotation).2.pendingRotations =
      loop.pendingRotations := by
  have keeps : InstallsKeep crypto config identity created (fun _ => True)
      (fun other : ShareLoop crdt => other.pendingRotations = loop.pendingRotations) :=
    ⟨fun _ _ _ _ => trivial, fun _ _ same _ => same,
      fun other rotation same _ =>
        (pendingRotations_tryInstallRotation other created rotation).trans same⟩
  exact keeps.applyKeyRotation rfl trivial

theorem pendingRotations_handleInvite (loop : ShareLoop crdt) (invitee : MemberId)
    (authRole : AuthRole) (suggestedRole : ShareRole) :
    (loop.handleInvite crypto config identity invitee authRole suggestedRole).2.pendingRotations =
      loop.pendingRotations := by
  rw [handleInvite_eq]
  split
  · rfl
  · split
    · rfl
    · dsimp only
      split <;> rfl

theorem pendingRotations_handleRotateKey (loop : ShareLoop crdt) (entropy : Entropy) :
    (loop.handleRotateKey entropy).2.pendingRotations = loop.pendingRotations := by
  rw [handleRotateKey_eq]
  split <;> rfl

/-- A revocation queues at most one rotation, and one for its epoch when it succeeds. -/
theorem pendingRotations_handleRevoke (loop : ShareLoop crdt) (entropy : Entropy)
    (target : MemberId) :
    loop.pendingRotations <+:
        (loop.handleRevoke crypto config identity entropy target).2.pendingRotations ∧
      ∀ epoch, (loop.handleRevoke crypto config identity entropy target).1 = .ok epoch →
        ∃ rotation ∈ (loop.handleRevoke crypto config identity entropy target).2.pendingRotations,
          rotation.epoch = epoch := by
  rcases handleRevoke_cases crypto config identity loop entropy target with
    ⟨_, same⟩ | ⟨_, same⟩ | ⟨_, _, ⟨_, _, _, same⟩ | ⟨_, _, _, ⟨_, same⟩ | ⟨rotation, epoch, _, _, same⟩⟩⟩
  · rw [same]
    exact ⟨List.prefix_rfl, fun _ contra => by cases contra⟩
  · rw [same]
    exact ⟨List.prefix_rfl, fun _ contra => by cases contra⟩
  · rw [same]
    exact ⟨List.prefix_rfl, fun _ contra => by cases contra⟩
  · rw [same]
    exact ⟨List.prefix_rfl, fun _ contra => by cases contra⟩
  · rw [same]
    refine ⟨List.prefix_append _ _, fun other revoked => ⟨rotation, ?_, ?_⟩⟩
    · exact List.mem_append_right _ (List.mem_singleton_self _)
    · cases revoked
      exact epoch

theorem pendingRotations_step {event : LoopEvent} (stays : ∀ created, event ≠ .restart created)
    (stepped : (life crypto config identity).step loop event = some next) :
    loop.pendingRotations <+: next.pendingRotations := by
  cases event with
  | invite invitee authRole suggestedRole =>
      cases stepped
      rw [pendingRotations_handleInvite]
  | revoke entropy target =>
      cases stepped
      exact (pendingRotations_handleRevoke loop entropy target).1
  | rotateKey entropy =>
      cases stepped
      rw [pendingRotations_handleRotateKey]
  | authOps payload =>
      cases stepped
      exact List.prefix_rfl
  | keyRotation created rotation =>
      cases stepped
      rw [pendingRotations_applyKeyRotation]
  | restart created => exact absurd rfl (stays created)

end ShareLoop

namespace RunningShare

variable {setup : ShareSetup crypto} {share next : RunningShare crdt} {entry : TaskEntry}

theorem Effect.published_extends (effect : Effect setup share entry next) :
    share.published <+: next.published := by
  cases effect with
  | still _ => exact List.prefix_rfl
  | loop _ _ => exact List.prefix_rfl
  | tick speaks =>
      rw [announceTick_eq share speaks]
      exact List.prefix_append _ _
  | failed _ => exact List.prefix_rfl
  | fetched _ => exact List.prefix_rfl
  | authored _ _ _ => exact List.prefix_append _ _
  | took _ _ => exact List.prefix_append _ _

theorem Effect.isLeech_eq (effect : Effect setup share entry next) :
    isLeech next.role = isLeech share.role := by
  cases effect with
  | still _ => rfl
  | loop _ _ => rfl
  | tick speaks => rw [announceTick_eq share speaks, publish_role]
  | failed _ => rfl
  | fetched role => rw [role]; rfl
  | authored role _ _ => rw [role]; rfl
  | took role _ => rw [role]; rfl

/-- A leech is silent. -/
theorem Effect.published_leech (effect : Effect setup share entry next)
    (silent : isLeech share.role = true) : next.published = share.published := by
  cases effect with
  | still _ => rfl
  | loop _ _ => rfl
  | tick speaks => cases silent.symm.trans speaks
  | failed _ => rfl
  | fetched _ => rfl
  | authored role _ _ =>
      rw [role] at silent
      cases silent
  | took role _ =>
      rw [role] at silent
      cases silent

theorem ne_restart_of_mem_loopEvents {event : LoopEvent} (member : event ∈ loopEvents entry)
    (created : Key) : event ≠ .restart created := by
  intro restarted
  subst restarted
  unfold loopEvents at member
  split at member <;> simp at member

/-- Only a restart could shorten the queue. -/
theorem Effect.pending_extends (effect : Effect setup share entry next) :
    share.loop.pendingRotations <+: next.loop.pendingRotations := by
  cases effect with
  | still _ => exact List.prefix_rfl
  | @loop _ event _ listed stepped =>
      have member : event ∈ loopEvents entry := by
        rw [listed]
        exact List.mem_singleton_self _
      exact ShareLoop.pendingRotations_step (ne_restart_of_mem_loopEvents member) stepped
  | tick speaks => rw [announceTick_eq share speaks, publish_loop]
  | failed _ => exact List.prefix_rfl
  | fetched _ => exact List.prefix_rfl
  | authored _ _ _ => exact List.prefix_rfl
  | took _ _ => exact List.prefix_rfl

end RunningShare

section Samples

open Reference ShareLoop

def docsSetup : ShareSetup cleartext := ⟨docsConfig, founder, [ascii "docs"], 4240⟩

/-- An iteration in which no torrent can be added. -/
def quietTurn : Turn := ⟨docsEntropy, fun tree => ⟨.error [], tree, .error []⟩, .ok (), false⟩

/-- The founder's task in one of the loops. -/
def docsTask (loop : ShareLoop sequentialGroup) (role : RunningRole) :
    RunningShare sequentialGroup := ⟨loop, ⟨.empty, [], none⟩, role, []⟩

theorem step_announceTick {box : CommandChannel sequentialGroup} (alive : box.alive = true) :
    (channelMachine sequentialGroup docsSetup).step box (.act (.announceTick, quietTurn)) =
      some (box.acted (box.state.announceTick docsSetup) (.announceTick, quietTurn)) :=
  Actor.step_acted alive rfl

end Samples

end Peerdup.Daemon
