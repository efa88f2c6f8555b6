import Peerdup.Daemon.DiskMirror
import Peerdup.Daemon.RunShare

/-!
# The tasks of one share on all its peers

What a task publishes reaches the others over the share's gossip topic at any later time, in
any order, several times or never. Everything else a task does is up to its own world.
-/

set_option autoImplicit false

namespace Peerdup.Daemon

open Foundation Auth

/-- Whatever completes in a task but the arrival of a message. -/
def Branch.isOwn : Branch → Bool
  | .gossip (.payload (some _)) => false
  | .gossip (.payload none) => true
  | .gossip .ended => true
  | .gossip .lagged => true
  | .localChange _ => true
  | .announceTick => true

/-- A task that has returned stays as it was. -/
structure Swarm (crdt : GroupCrdt) (Peer : Type) where
  tasks : Peer → RunningShare crdt
  running : Peer → Bool

inductive SwarmEvent (Peer : Type) where
  | handle (peer : Peer) (command : ShareCommand) (turn : Turn)
  | act (peer : Peer) (branch : Branch) (turn : Turn)
  /-- The peer receives what the source has published at this index. -/
  | hear (peer source : Peer) (index : Nat) (turn : Turn)

namespace Swarm

variable {crdt : GroupCrdt} {crypto : Primitives} {Peer : Type} [DecidableEq Peer]

def setTask (swarm : Swarm crdt Peer) (peer : Peer) (share : RunningShare crdt) (goesOn : Bool) :
    Swarm crdt Peer where
  tasks := Function.update swarm.tasks peer share
  running := Function.update swarm.running peer goesOn

/-- One iteration of a peer's loop, if it has not returned. -/
def iterate (swarm : Swarm crdt Peer) (peer : Peer)
    (iteration : RunningShare crdt → RunningShare crdt × Bool) : Option (Swarm crdt Peer) :=
  if swarm.running peer then
    let (share, goesOn) := iteration (swarm.tasks peer)
    some (swarm.setTask peer share goesOn)
  else none

variable (crdt) (setupOf : Peer → ShareSetup crypto)

def machine : Machine (Swarm crdt Peer) (SwarmEvent Peer) where
  step swarm
    | .handle peer command turn =>
        swarm.iterate peer fun share => (share.handle (setupOf peer) turn command).2
    | .act peer branch turn =>
        if branch.isOwn then swarm.iterate peer fun share => share.act (setupOf peer) turn branch
        else none
    | .hear peer source index turn =>
        match (swarm.tasks source).published[index]? with
        | none => none
        | some msg =>
            swarm.iterate peer fun share =>
              share.act (setupOf peer) turn (.gossip (.payload (some msg)))

variable {crdt}

/-- Every task has just been started, from whatever its peer has on disk. -/
def Begun (swarm : Swarm crdt Peer) : Prop :=
  ∀ peer, ∃ created dir loop device inputs role,
    spawnShareTask crypto created dir = .ok loop ∧
      (RunningShare.start (setupOf peer) loop device inputs role).1 = .ok (swarm.tasks peer)

/-- The CRDT accepts what a command authors. -/
def Accepted (swarm : Swarm crdt Peer) : SwarmEvent Peer → Prop
  | .handle peer (.invite invitee authRole suggestedRole) _ =>
      (swarm.tasks peer).loop.Unrejected crypto (setupOf peer).config (setupOf peer).identity
        (.invite invitee authRole suggestedRole)
  | .handle peer (.revoke target) turn =>
      (swarm.tasks peer).loop.Unrejected crypto (setupOf peer).config (setupOf peer).identity
        (.revoke turn.entropy target)
  | .handle _ .rotateKey _ => True
  | .handle _ .members _ => True
  | .handle _ .shutdown _ => True
  | .act _ _ _ => True
  | .hear _ _ _ _ => True

/-- In the run, the peer receives a membership log that the source publishes in it. -/
def Hears (start : Swarm crdt Peer) (events : List (SwarmEvent Peer)) (peer source : Peer) : Prop :=
  ∃ early index turn late before payload,
    events = early ++ .hear peer source index turn :: late ∧
    (machine crdt setupOf).run start early = some before ∧
    (start.tasks source).published.length ≤ index ∧
    (before.tasks source).published[index]? = some (.authOps payload)

end Swarm

/-- A command that authors a membership operation. -/
def SwarmEvent.authors {Peer : Type} : SwarmEvent Peer → Bool
  | .handle _ (.invite _ _ _) _ => true
  | .handle _ (.revoke _) _ => true
  | .handle _ .rotateKey _ => false
  | .handle _ .members _ => false
  | .handle _ .shutdown _ => false
  | .act _ _ _ => false
  | .hear _ _ _ _ => false

end Peerdup.Daemon
