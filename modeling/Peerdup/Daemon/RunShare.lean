import Peerdup.Daemon.PeerLife
import Peerdup.Daemon.ShareNetwork
import Peerdup.Foundation.Mailbox

/-!
# The task of a share

`run_share` and the three loops it can end up in: what each branch of their `select!` does,
what it publishes, and whether the loop goes on.
-/

set_option autoImplicit false

namespace Peerdup.Daemon

open Foundation Auth Crypto Rotation

inductive ShareMsg where
  | announce (announce : Announce)
  | authOps (ops : List Bytes)
  | keyRotation (rotation : SignedRotation)

inductive ShareCommand where
  | invite (invitee : MemberId) (authRole : AuthRole) (suggestedRole : ShareRole)
  | revoke (target : MemberId)
  | rotateKey
  | members
  | shutdown

/-- What comes back through a command's `oneshot`. -/
inductive CommandReply where
  | ticket (result : Except Failure String)
  | newEpoch (result : Except Failure Nat)
  | members (members : List (MemberId × AuthRole))
  | done

/-- What `sub.next()` yields. A payload is given decoded, if it decodes. -/
inductive GossipItem where
  | ended
  | lagged
  | payload (msg : Option ShareMsg)

inductive Branch where
  | localChange (inputs : LocalInputs)
  | announceTick
  | gossip (item : GossipItem)

/-- What the world contributes to one iteration. -/
structure Turn where
  entropy : Entropy
  fetch : FileTree → Fetch
  saved : Except SyncFailure Unit
  /-- `cmd_rx.is_closed()`: no sender is left. -/
  closed : Bool

/-- What `run_share` is given and does not change. -/
structure ShareSetup (crypto : Primitives) where
  config : ShareConfig
  identity : crypto.PrivateKey
  root : Path
  btPort : UInt16

def ShareSetup.peerIdHex {crypto : Primitives} (setup : ShareSetup crypto) : String :=
  toHex (crypto.publicKey setup.identity)

/-- The loop a task is in, with the variables of its own. -/
inductive RunningRole where
  | seed (announce : Announce)
  | leech (completed : Bool)
  | sync (state : Option ShareState)

/-- A task in its loop. What it has published is kept oldest first. -/
structure RunningShare (crdt : GroupCrdt) where
  loop : ShareLoop crdt
  device : Device
  role : RunningRole
  published : List ShareMsg

variable {crdt : GroupCrdt} {crypto : Primitives}

def sortMembers (members : List (MemberId × AuthRole)) : List (MemberId × AuthRole) :=
  members.insertionSort fun left right => left.1.key ≤ right.1.key

/-- The reply, what the loop owns afterwards, and whether it should exit. -/
def ShareLoop.handleShareCommand (loop : ShareLoop crdt) (setup : ShareSetup crypto)
    (entropy : Entropy) : ShareCommand → CommandReply × ShareLoop crdt × Bool
  | .invite invitee authRole suggestedRole =>
      let (result, loop) :=
        loop.handleInvite crypto setup.config setup.identity invitee authRole suggestedRole
      (.ticket (result.map Ticket.encode), loop, false)
  | .revoke target =>
      let (result, loop) := loop.handleRevoke crypto setup.config setup.identity entropy target
      (.newEpoch result, loop, false)
  | .rotateKey =>
      let (result, loop) := loop.handleRotateKey entropy
      (.newEpoch result, loop, false)
  | .members =>
      (.members (sortMembers (loop.authState.members (groupIdFor crypto setup.config.id))),
        loop, false)
  | .shutdown => (.done, loop, true)

namespace RunningShare

def withLoop (share : RunningShare crdt) (loop : ShareLoop crdt) : RunningShare crdt :=
  { share with loop }

def withDevice (share : RunningShare crdt) (device : Device) : RunningShare crdt :=
  { share with device }

def publish (share : RunningShare crdt) (messages : List ShareMsg) : RunningShare crdt :=
  { share with published := share.published ++ messages }

def publishAuthOps (share : RunningShare crdt) : RunningShare crdt :=
  if share.loop.authState.isEmpty then share
  else share.publish [.authOps (share.loop.authState.ops.map SignedOp.encode)]

def publishPendingRotations (share : RunningShare crdt) : RunningShare crdt :=
  share.publish (share.loop.pendingRotations.map .keyRotation)

variable (setup : ShareSetup crypto)

/-- A new state of `sync_loop` is announced as soon as it is held. -/
def hold (share : RunningShare crdt) (state : ShareState) : RunningShare crdt :=
  { share.publish [.announce (publishSyncAnnounce state setup.btPort)] with
    role := .sync (some state) }

def receiveAuthOps (crypto : Primitives) (share : RunningShare crdt) (ops : List Bytes) :
    RunningShare crdt :=
  share.withLoop (ShareNetwork.receiveAuthOps crypto share.loop ops)

def receiveKeyRotation (share : RunningShare crdt) (created : Key) (rotation : SignedRotation) :
    RunningShare crdt :=
  share.withLoop
    (share.loop.applyKeyRotation crypto setup.config setup.identity created rotation).2

/-- Fetch the announced version into the share root, as it is. -/
def leechApplyAnnounce (device : Device) (announce : Announce) (fetch : FileTree → Fetch) :
    Except SyncFailure Unit × Device :=
  if (usablePeers announce.btEndpoints).isEmpty then
    (.error [.text "announce had no usable peers"], device)
  else
    let fetched := fetch device.tree
    let device := device.withTree fetched.tree
    match fetched.added with
    | .error failure => (.error failure, device)
    | .ok none => (.error [.text "add_torrent returned no handle"], device)
    | .ok (some torrentId) =>
        let device := device.addTorrent torrentId
        match fetched.completed with
        | .error failure => (.error (.text "wait_until_completed failed" :: failure), device)
        | .ok () => (.ok (), device)

def leechAnnounce (share : RunningShare crdt) (completed : Bool) (announce : Announce)
    (fetch : FileTree → Fetch) : RunningShare crdt :=
  if completed then share
  else
    match leechApplyAnnounce share.device announce fetch with
    | (.error _, device) => share.withDevice device
    | (.ok (), device) => { share with device, role := .leech true }

def syncLocalChange (share : RunningShare crdt) (state : Option ShareState)
    (inputs : LocalInputs) : RunningShare crdt :=
  match handleLocalChange crypto share.device setup.root setup.peerIdHex share.loop.key inputs
      state with
  | (.error _, device) => share.withDevice device
  | (.ok none, device) => share.withDevice device
  | (.ok (some newState), device) => (share.withDevice device).hold setup newState

def syncAnnounce (share : RunningShare crdt) (state : Option ShareState) (announce : Announce)
    (turn : Turn) : RunningShare crdt :=
  match judgeAnnounce state announce with
  | .ignored => share
  | .localWins newState =>
      (share.withDevice (persist share.device turn.saved newState).2).hold setup newState
  | .applies remote =>
      match applyRemoteSync crypto share.device setup.root remote share.loop.key turn.fetch
          state with
      | (.error _, device) => share.withDevice device
      | (.ok newState, device) =>
          (share.withDevice (persist device turn.saved newState).2).hold setup newState

/-- The test that closes an iteration of `leech_loop`. The other loops have none. -/
def goesOn (share : RunningShare crdt) (turn : Turn) : Bool :=
  match share.role with
  | .leech completed => !(completed && turn.closed)
  | .seed _ => true
  | .sync _ => true

/-- Only `sync_loop` watches the file system. -/
def localChange (share : RunningShare crdt) (inputs : LocalInputs) : RunningShare crdt :=
  match share.role with
  | .sync state => share.syncLocalChange setup state inputs
  | .seed _ => share
  | .leech _ => share

/-- `leech_loop` has no announce tick. -/
def announceTick (share : RunningShare crdt) : RunningShare crdt :=
  match share.role with
  | .seed announce => (share.publish [.announce announce]).publishAuthOps.publishPendingRotations
  | .leech _ => share
  | .sync none => share.publishAuthOps.publishPendingRotations
  | .sync (some state) =>
      (share.publish [.announce (publishSyncAnnounce state setup.btPort)])
        |>.publishAuthOps.publishPendingRotations

def receive (share : RunningShare crdt) (turn : Turn) : ShareMsg → RunningShare crdt
  | .authOps ops => share.receiveAuthOps crypto ops
  | .keyRotation rotation => share.receiveKeyRotation setup turn.entropy.created rotation
  | .announce announce =>
      match share.role with
      | .seed _ => share
      | .leech completed => share.leechAnnounce completed announce turn.fetch
      | .sync state => share.syncAnnounce setup state announce turn

/-- One iteration in which a branch other than the commands completes. What does not decode
sends a loop back to its head, past the test that closes an iteration. -/
def act (share : RunningShare crdt) (turn : Turn) : Branch → RunningShare crdt × Bool
  | .localChange inputs => (share.localChange setup inputs, true)
  | .announceTick => (share.announceTick setup, true)
  | .gossip .ended => (share, false)
  | .gossip .lagged => (share, true)
  | .gossip (.payload none) => (share, true)
  | .gossip (.payload (some msg)) =>
      let share := share.receive setup turn msg
      (share, share.goesOn turn)

def handle (share : RunningShare crdt) (turn : Turn) (command : ShareCommand) :
    CommandReply × RunningShare crdt × Bool :=
  let (reply, loop, exits) := share.loop.handleShareCommand setup turn.entropy command
  let share := share.withLoop loop
  (reply, share, !exits && share.goesOn turn)

/-- `seed_loop` up to its loop: seed the root as it is, and make the announce once. -/
def startSeed (loop : ShareLoop crdt) (device : Device) (seed : FileTree → Seed) :
    Except SyncFailure (RunningShare crdt) × Device :=
  match device.tree.look setup.root with
  | none => (.error [.about "canonicalize" setup.root, .cause .notFound], device)
  | some _ =>
      match (seed device.tree).infoHash with
      | .error failure => (.error (.text "create_torrent" :: failure), device)
      | .ok infoHash =>
          match (seed device.tree).added with
          | .error failure => (.error failure, device)
          | .ok none => (.error [.text "add_torrent returned no handle"], device)
          | .ok (some torrentId) =>
              let device := device.addTorrent torrentId
              let announce : Announce :=
                ⟨infoHash, [("127.0.0.1", setup.btPort)], none, none, none⟩
              (.ok ⟨loop, device, .seed announce, []⟩, device)

def startLeech (loop : ShareLoop crdt) (device : Device) :
    Except SyncFailure (RunningShare crdt) × Device :=
  match device.tree.createDirAll setup.root with
  | .error error => (.error [.about "create_dir_all" setup.root, .cause error], device)
  | .ok tree =>
      let device := device.withTree tree
      (.ok (publishPendingRotations ⟨loop, device, .leech false, []⟩), device)

def startSync (loop : ShareLoop crdt) (device : Device) (inputs : LocalInputs) :
    Except SyncFailure (RunningShare crdt) × Device :=
  match device.tree.createDirAll setup.root with
  | .error error => (.error [.about "create_dir_all" setup.root, .cause error], device)
  | .ok tree =>
      match reconcileOnStart crypto setup.root setup.peerIdHex loop.key (device.withTree tree)
          inputs with
      | (.error failure, device) => (.error failure, device)
      | (.ok none, device) => (.ok ⟨loop, device, .sync none, []⟩, device)
      | (.ok (some state), device) => (.ok (hold setup ⟨loop, device, .sync none, []⟩ state), device)

/-- `run_share` up to its loop, over what `spawn_share_task` has loaded. -/
def start (loop : ShareLoop crdt) (device : Device) (inputs : LocalInputs) :
    ShareRole → Except SyncFailure (RunningShare crdt) × Device
  | .seed => startSeed setup loop device inputs.seed
  | .leech => startLeech setup loop device
  | .sync => startSync setup loop device inputs

end RunningShare

/-- The task behind its command channel. -/
def runShare (crdt : GroupCrdt) {crypto : Primitives} (setup : ShareSetup crypto) :
    Actor (RunningShare crdt) ShareCommand CommandReply Turn (Branch × Turn) where
  handle share command turn := share.handle setup turn command
  act share step := share.act setup step.2 step.1

/-- The channel's size. -/
def commandCapacity : Nat := 32

/-- The bus handlers, the channel and the task. -/
abbrev CommandChannel (crdt : GroupCrdt) :=
  Actor.Mailbox (RunningShare crdt) ShareCommand CommandReply Turn (Branch × Turn)

def channelMachine (crdt : GroupCrdt) {crypto : Primitives} (setup : ShareSetup crypto) :
    Machine (CommandChannel crdt) (Actor.Event ShareCommand Turn (Branch × Turn)) :=
  (runShare crdt setup).machine commandCapacity

/-- The user's files change beside the task. -/
def userEdits (box : CommandChannel crdt) (tree : FileTree) : CommandChannel crdt :=
  { box with state := box.state.withDevice (box.state.device.withTree tree) }

def editedMachine (crdt : GroupCrdt) {crypto : Primitives} (setup : ShareSetup crypto) :
    Machine (CommandChannel crdt) (FileTree ⊕ Actor.Event ShareCommand Turn (Branch × Turn)) :=
  (channelMachine crdt setup).disturbed userEdits

end Peerdup.Daemon
