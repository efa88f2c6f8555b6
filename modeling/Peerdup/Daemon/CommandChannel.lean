import Peerdup.Daemon.RevokeProperties
import Peerdup.Daemon.RunShareProperties

/-!
# Commands on a running share

The bus sends its commands to the share's task, which takes them one at a time between the
ticks and the gossip. One order of all of it explains every reply, and nothing comes after
a shutdown.
-/

set_option autoImplicit false

namespace Peerdup.Daemon

open Foundation Auth Crypto Rotation

variable {crdt : GroupCrdt} {crypto : Primitives}

/-- Every reply is what the command gives in its place among all that happened before it.
A command that got no reply was not run. -/
structure Linearized (setup : ShareSetup crypto) (share : RunningShare crdt)
    (box : CommandChannel crdt) : Prop where
  once : box.calls.Nodup
  accounted : box.known.Perm (List.range box.requests.length)
  replied : ∀ call reply, box.Answered call reply → ∃ front back command turn loop,
    box.log = front ++ .handled call command turn reply :: back ∧
      box.requests[call]? = some command ∧
      (ShareLoop.life crypto setup.config setup.identity).run share.loop
        (front.flatMap loopEvents) = some loop ∧
      (loop.handleShareCommand setup turn.entropy command).1 = reply
  unanswered : ∀ call, (∀ reply, ¬ box.Answered call reply) → call ∉ box.calls

theorem run_loopEvents {setup : ShareSetup crypto} {share state : RunningShare crdt}
    {log : List TaskEntry} {alive : Bool}
    (performs : (runShare crdt setup).Performs share log state alive) :
    (ShareLoop.life crypto setup.config setup.identity).run share.loop (log.flatMap loopEvents) =
      some state.loop :=
  performs.simulates fun _ _ _ _ does => (RunningShare.effect_of_does does).loop_run

/-- Whichever loop a share is in, commands, gossip, ticks, downloads and edits together leave
the membership, the keys and the queue that the commands and the gossip alone would. As long
as the CRDT rejects nothing, a restart at any point loads them again. -/
theorem task_mirrorsDisk (crypto : Primitives) (lawful : crypto.Lawful) (crdt : GroupCrdt)
    (heads : crdt.HeadsProcessed crypto) (setup : ShareSetup crypto) (created : Key)
    (dir : ShareDir) (share : RunningShare crdt)
    (spawned : spawnShareTask crypto created dir = .ok share.loop)
    (queued : ∀ rotation ∈ dir.pendingRotations, rotation.epoch ≤ share.loop.key.currentEpoch)
    (events : List (Actor.Event ShareCommand Turn (Branch × Turn))) (box : CommandChannel crdt)
    (ran : (channelMachine crdt setup).run (.fresh share) events = some box) :
    (ShareLoop.life crypto setup.config setup.identity).run share.loop
        (box.log.flatMap loopEvents) = some box.state.loop ∧
      ((ShareLoop.life crypto setup.config setup.identity).Along
          (ShareLoop.Unrejected crypto setup.config setup.identity) share.loop
          (box.log.flatMap loopEvents) →
        box.state.loop.Mirrored crypto) := by
  have refined := run_loopEvents (Actor.explained_of_run ran).1.performs
  refine ⟨refined, fun clean => ?_⟩
  have preserved : ∀ (loop : ShareLoop crdt) (event : LoopEvent) (next : ShareLoop crdt),
      ShareLoop.Kept crypto loop →
      loop.Unrejected crypto setup.config setup.identity event →
      (ShareLoop.life crypto setup.config setup.identity).step loop event = some next →
      ShareLoop.Kept crypto next :=
    fun _ _ _ kept clean stepped => kept.step lawful heads clean stepped
  exact (Machine.run_along_invariant _ preserved (ShareLoop.kept_of_spawn spawned queued) clean
    refined).mirrored

/-- The commands on a share are linearizable: they take effect one at a time, in an order that
keeps every command after those answered before it was sent. -/
theorem commands_linearize (crypto : Primitives) (crdt : GroupCrdt) (setup : ShareSetup crypto)
    (share : RunningShare crdt) (front back : List (Actor.Event ShareCommand Turn (Branch × Turn)))
    (middle box : CommandChannel crdt)
    (before : (channelMachine crdt setup).run (.fresh share) front = some middle)
    (after : (channelMachine crdt setup).run middle back = some box) :
    Linearized setup share box ∧
      ∀ first second reply, middle.Answered first reply → middle.requests.length ≤ second →
        second ∈ box.calls → Actor.Precedes box first second := by
  have ran : (channelMachine crdt setup).run (.fresh share) (front ++ back) = some box :=
    (Machine.run_append_iff _).mpr ⟨middle, before, after⟩
  obtain ⟨explained, accounted⟩ := Actor.explained_of_run ran
  refine ⟨⟨explained.once, accounted.once, fun call reply answered => ?_, fun call silent => ?_⟩,
    fun first second reply answered later handled =>
      Actor.precedes_of_run before after answered later handled⟩
  · obtain ⟨command, turn, member⟩ := (explained.answered call reply).mp answered
    obtain ⟨earlier, rest, whole⟩ := List.append_of_mem member
    have performs := explained.performs
    rw [whole] at performs
    obtain ⟨state, next, goesOn, upTo, does, -⟩ := performs.at_entry
    refine ⟨earlier, rest, command, turn, state.loop, whole,
      explained.asked call command turn reply member, run_loopEvents upTo, ?_⟩
    have handled : state.handle setup turn command = (reply, next, goesOn) := does
    exact congrArg Prod.fst handled
  · intro handled
    obtain ⟨command, turn, reply, member⟩ := Actor.mem_calls_iff.mp handled
    exact silent reply ((explained.answered call reply).mpr ⟨command, turn, member⟩)

theorem goesOn_of_done {setup : ShareSetup crypto} {share next : RunningShare crdt} {call : Nat}
    {command : ShareCommand} {turn : Turn} {goesOn : Bool}
    (does : (runShare crdt setup).Does share (.handled call command turn .done) next goesOn) :
    goesOn = false := by
  have handled : share.handle setup turn command = (.done, next, goesOn) := does
  cases command with
  | invite invitee authRole suggestedRole => cases handled
  | revoke target => cases handled
  | rotateKey => cases handled
  | members => cases handled
  | shutdown =>
      cases handled
      rfl

/-- The task has answered a shutdown with the last thing it did. -/
theorem ended_of_done {setup : ShareSetup crypto} {share : RunningShare crdt}
    {box : CommandChannel crdt} {call : Nat}
    (explained : (runShare crdt setup).Explained share box) (answered : box.Answered call .done) :
    box.alive = false ∧ ∃ front command turn,
      box.log = front ++ [.handled call command turn .done] := by
  obtain ⟨command, turn, member⟩ := (explained.answered call .done).mp answered
  obtain ⟨front, back, whole⟩ := List.append_of_mem member
  have performs := explained.performs
  rw [whole] at performs
  obtain ⟨before, after, goesOn, upTo, does, goes⟩ := performs.at_entry
  rw [goesOn_of_done does] at goes
  rcases goes with contra | ⟨last, ended⟩
  · cases contra
  · rw [last] at whole
    exact ⟨ended.symm, front, command, turn, whole⟩

/-- Once a shutdown is answered, the share's state, its directory and what it has published
are final, only that one shutdown is answered, and no command that was not answered by then
ever runs. -/
theorem shutdown_isFinal (crypto : Primitives) (crdt : GroupCrdt) (setup : ShareSetup crypto)
    (share : RunningShare crdt) (front back : List (Actor.Event ShareCommand Turn (Branch × Turn)))
    (middle box : CommandChannel crdt)
    (before : (channelMachine crdt setup).run (.fresh share) front = some middle)
    (after : (channelMachine crdt setup).run middle back = some box) (call : Nat)
    (answered : middle.Answered call .done) :
    box.state = middle.state ∧ box.queue = [] ∧
      (∀ other reply, box.Answered other reply ↔ middle.Answered other reply) ∧
      ∀ other, box.Answered other .done → other = call := by
  have ran : (channelMachine crdt setup).run (.fresh share) (front ++ back) = some box :=
    (Machine.run_append_iff _).mpr ⟨middle, before, after⟩
  obtain ⟨explainedBefore, _⟩ := Actor.explained_of_run before
  obtain ⟨explained, accounted⟩ := Actor.explained_of_run ran
  obtain ⟨ended, earlier, command, turn, last⟩ := ended_of_done explainedBefore answered
  obtain ⟨still, state, log⟩ := (Actor.follows_of_run after).ended ended
  have answers : ∀ other reply, box.Answered other reply ↔ middle.Answered other reply := by
    intro other reply
    rw [explained.answered, explainedBefore.answered, log]
  refine ⟨state, accounted.closed still, answers, fun other done => ?_⟩
  obtain ⟨_, others, otherCommand, otherTurn, otherLast⟩ := ended_of_done explained done
  have same := (log.symm.trans otherLast).symm.trans last
  cases List.singleton_inj.mp (List.append_inj' same rfl).2
  rfl

section Samples

open Reference ShareLoop

theorem runShare_handle (share : RunningShare sequentialGroup) (command : ShareCommand)
    (stays : command ≠ .shutdown) (open_ : share.goesOn quietTurn = true) :
    (runShare sequentialGroup docsSetup).handle share command quietTurn =
      ((share.loop.handleShareCommand docsSetup quietTurn.entropy command).1,
        share.withLoop (share.loop.handleShareCommand docsSetup quietTurn.entropy command).2.1,
        true) := by
  have goes : share.handle docsSetup quietTurn command =
      ((share.loop.handleShareCommand docsSetup quietTurn.entropy command).1,
        share.withLoop (share.loop.handleShareCommand docsSetup quietTurn.entropy command).2.1,
        !(share.loop.handleShareCommand docsSetup quietTurn.entropy command).2.2 &&
          share.goesOn quietTurn) := rfl
  have loops : (share.loop.handleShareCommand docsSetup quietTurn.entropy command).2.2 = false := by
    cases command with
    | invite invitee authRole suggestedRole => rfl
    | revoke target => rfl
    | rotateKey => rfl
    | members => rfl
    | shutdown => exact absurd rfl stays
  rw [loops, open_] at goes
  exact goes

/-- A command is sent to an idle task and taken at once. -/
def served (command : ShareCommand) : List (Actor.Event ShareCommand Turn (Branch × Turn)) :=
  [.call command, .push 0, .take quietTurn]

def docsLeech : RunningShare sequentialGroup := docsTask (docsLoop founded) (.leech false)

theorem run_served {box : CommandChannel sequentialGroup} (alive : box.alive = true)
    (idle : box.sending = [] ∧ box.queue = []) (open_ : box.state.goesOn quietTurn = true)
    {command : ShareCommand} (stays : command ≠ .shutdown) :
    (channelMachine sequentialGroup docsSetup).run box (served command) =
      some ⟨box.state.withLoop
          (box.state.loop.handleShareCommand docsSetup quietTurn.entropy command).2.1,
        true, box.requests ++ [command], [], [],
        box.outcomes ++ [(box.requests.length,
          .replied (box.state.loop.handleShareCommand docsSetup quietTurn.entropy command).1)],
        box.log ++ [.handled box.requests.length command quietTurn
          (box.state.loop.handleShareCommand docsSetup quietTurn.entropy command).1]⟩ :=
  Actor.run_served (show 0 < commandCapacity by decide) alive idle
    (runShare_handle box.state command stays open_)

theorem fresh_docsLeech : (.fresh docsLeech : CommandChannel sequentialGroup).alive = true := rfl

theorem guestInvitation_mirrored : ∃ box,
    (channelMachine sequentialGroup docsSetup).run (.fresh docsLeech)
        (served (.invite guest.val .writer .sync)) = some box ∧
      box.state.loop.Mirrored cleartext := by
  have stays : ShareCommand.invite guest.val .writer .sync ≠ .shutdown := fun contra => by cases contra
  have ran := run_served fresh_docsLeech ⟨rfl, rfl⟩ rfl stays
  refine ⟨_, ran, (task_mirrorsDisk cleartext cleartext_lawful sequentialGroup
    sequentialGroup_headsProcessed docsSetup (.ofBytes 32 [9]) (docsLoop founded).dir docsLeech
    (spawn_docsLoop _) (fun _ member => absurd member List.not_mem_nil) _ _ ran).2 ?_⟩
  exact ⟨inviteAndRestart_unrejected.1, fun _ _ => trivial⟩

/-- The task has listed its members. -/
def docsListed : CommandChannel sequentialGroup :=
  ⟨docsLeech, true, [.members], [], [],
    [(0, .replied (docsLeech.loop.handleShareCommand docsSetup docsEntropy .members).1)],
    [.handled 0 .members quietTurn
      (docsLeech.loop.handleShareCommand docsSetup docsEntropy .members).1]⟩

/-- The members are listed, and later on the key is rotated. -/
theorem listThenRotate_linearized : ∃ middle box,
    (channelMachine sequentialGroup docsSetup).run (.fresh docsLeech) (served .members) =
        some middle ∧
      (channelMachine sequentialGroup docsSetup).run middle (served .rotateKey) = some box ∧
      Linearized docsSetup docsLeech box ∧ Actor.Precedes box 0 1 := by
  have listed := run_served fresh_docsLeech ⟨rfl, rfl⟩ rfl
    (show ShareCommand.members ≠ .shutdown from fun contra => by cases contra)
  have alive : docsListed.alive = true := rfl
  have rotated := run_served alive ⟨rfl, rfl⟩ rfl
    (show ShareCommand.rotateKey ≠ .shutdown from fun contra => by cases contra)
  obtain ⟨linearized, ordered⟩ := commands_linearize cleartext sequentialGroup docsSetup docsLeech
    (served .members) (served .rotateKey) _ _ listed rotated
  refine ⟨_, _, listed, rotated, linearized, ordered 0 1 _ (List.mem_singleton_self _)
    (Nat.le_refl _) ?_⟩
  exact List.mem_of_getElem? (show [0, 1][1]? = some 1 from rfl)

/-- A rotation that comes too late. -/
def tooLate : List (Actor.Event ShareCommand Turn (Branch × Turn)) := [.call .rotateKey, .refuse 0]

theorem docsShutdown_isFinal : ∃ middle box,
    (channelMachine sequentialGroup docsSetup).run (.fresh docsLeech) (served .shutdown) =
        some middle ∧
      (channelMachine sequentialGroup docsSetup).run middle tooLate = some box ∧
      box.state = middle.state := by
  have handled : (runShare sequentialGroup docsSetup).handle docsLeech .shutdown quietTurn =
      (.done, docsLeech, false) := rfl
  have stopped := Actor.run_served (show 0 < commandCapacity by decide) fresh_docsLeech ⟨rfl, rfl⟩
    handled
  have refused : (channelMachine sequentialGroup docsSetup).run
      ⟨docsLeech, false, [.shutdown], [], [], [(0, .replied .done)],
        [.handled 0 .shutdown quietTurn .done]⟩ tooLate =
      some ⟨docsLeech, false, [.shutdown, .rotateKey], [], [],
        [(0, .replied .done), (1, .unsent)], [.handled 0 .shutdown quietTurn .done]⟩ := rfl
  exact ⟨_, _, stopped, refused, (shutdown_isFinal cleartext sequentialGroup docsSetup docsLeech
    (served .shutdown) tooLate _ _ stopped refused 0 (List.mem_singleton_self _)).1⟩

end Samples

end Peerdup.Daemon
