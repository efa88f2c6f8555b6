import Peerdup.Daemon.AuthGossip
import Peerdup.Daemon.ShareLoop
import Peerdup.Foundation.Machine

/-!
# The peers of one share

Peers run share loops, import tickets and exchange gossip. A broadcast is never
consumed, so a published rotation reaches any peer, any number of times, in any order.
-/

set_option autoImplicit false

namespace Peerdup.Daemon

open Foundation Auth Crypto Rotation

/-- What `spawn_share_task` loads before it starts the loop. -/
def spawnShareTask {crdt : GroupCrdt} (crypto : Primitives) (created : Key) (dir : ShareDir) :
    Except Failure (ShareLoop crdt) :=
  match loadOrCreateKeyring created dir.keysBin with
  | (.error failure, _) => .error ("loading share keyring" :: failure)
  | (.ok key, keysBin) =>
      match AuthState.load crypto dir.authLog with
      | .error failure => .error ("loading auth log" :: failure)
      | .ok authState =>
          .ok ⟨authState, key, loadPending dir.pendingRotations, [], { dir with keysBin }⟩

/-- `share_join` where the share is not configured yet, up to the running loop. -/
def shareJoin {crdt : GroupCrdt} (crypto : Primitives) (identity : crypto.PrivateKey)
    (created : Key) (ticket : Ticket) : Except Failure (ShareLoop crdt) :=
  let me := crypto.publicKey identity
  if ticket.inviteePubkey ≠ me then
    .error ["ticket was issued for a different public key (expected " ++
      toHex ticket.inviteePubkey ++ ", this daemon is " ++ toHex me ++ ")"]
  else
    match installKeyring none ticket.keys with
    | (.error failure, _) => .error failure
    | (.ok _, keysBin) =>
        match (AuthState.empty : AuthState crdt).replay crypto
            ("applying auth op while joining " ++ ticket.shareId) ticket.authLog with
        | .error failure => .error failure
        | .ok authState =>
            if !authState.isMember (groupIdFor crypto ticket.shareId) me then
              .error ["ticket's auth log does not list us as a member"]
            else spawnShareTask crypto created ⟨some authState.ops, keysBin, []⟩

structure ShareNetwork (crdt : GroupCrdt) (Peer : Type) where
  loops : Peer → Option (ShareLoop crdt)
  tickets : List Ticket
  published : List SignedRotation
  /-- The epochs that commands have created, with their keys. -/
  minted : List (Nat × Key)

inductive ShareEvent (Peer : Type) where
  | invite (peer : Peer) (invitee : MemberId) (authRole : AuthRole) (suggestedRole : ShareRole)
  | revoke (peer : Peer) (entropy : Entropy) (target : MemberId)
  | rotateKey (peer : Peer) (entropy : Entropy)
  | join (peer : Peer) (created : Key) (ticket : Nat)
  | announceTick (peer : Peer)
  | deliver (peer : Peer) (created : Key) (rotation : Nat)
  | gossip (peer : Peer) (payload : List Bytes)

namespace ShareNetwork

variable {crdt : GroupCrdt} {Peer : Type} [DecidableEq Peer]

def setLoop (network : ShareNetwork crdt Peer) (peer : Peer) (loop : ShareLoop crdt) :
    ShareNetwork crdt Peer :=
  { network with loops := fun other => if other = peer then some loop else network.loops other }

def mint (network : ShareNetwork crdt Peer) (before after : KeyRing) : ShareNetwork crdt Peer :=
  if before.currentEpoch < after.currentEpoch then
    { network with minted := network.minted ++ [(after.currentEpoch, after.currentKey)] }
  else network

def issue (network : ShareNetwork crdt Peer) : Except Failure Ticket → ShareNetwork crdt Peer
  | .ok ticket => { network with tickets := network.tickets ++ [ticket] }
  | .error _ => network

/-- `apply_auth_ops` on a loop: the log is saved when something was applied. -/
def receiveAuthOps (crypto : Primitives) (loop : ShareLoop crdt) (payload : List Bytes) :
    ShareLoop crdt :=
  let (_, authState, authLog) := applyAuthOps crypto loop.authState loop.dir.authLog payload
  { loop with authState, dir := { loop.dir with authLog } }

def machine (crypto : Primitives) (config : ShareConfig) (identityOf : Peer → crypto.PrivateKey) :
    Machine (ShareNetwork crdt Peer) (ShareEvent Peer) where
  step network
    | .invite peer invitee authRole suggestedRole =>
        (network.loops peer).map fun loop =>
          let (result, after) :=
            loop.handleInvite crypto config (identityOf peer) invitee authRole suggestedRole
          (network.setLoop peer after).issue result
    | .revoke peer entropy target =>
        (network.loops peer).map fun loop =>
          let after := (loop.handleRevoke crypto config (identityOf peer) entropy target).2
          (network.setLoop peer after).mint loop.key after.key
    | .rotateKey peer entropy =>
        (network.loops peer).map fun loop =>
          let after := (loop.handleRotateKey entropy).2
          (network.setLoop peer after).mint loop.key after.key
    | .join peer created index =>
        network.tickets[index]?.map fun ticket =>
          match shareJoin crypto (identityOf peer) created ticket with
          | .ok loop => network.setLoop peer loop
          | .error _ => network
    | .announceTick peer =>
        (network.loops peer).map fun loop =>
          { network with published := network.published ++ loop.pendingRotations }
    | .deliver peer created index => do
        let loop ← network.loops peer
        let rotation ← network.published[index]?
        let after := (loop.applyKeyRotation crypto config (identityOf peer) created rotation).2
        return network.setLoop peer after
    | .gossip peer payload =>
        (network.loops peer).map fun loop => network.setLoop peer (receiveAuthOps crypto loop payload)

end ShareNetwork

end Peerdup.Daemon
