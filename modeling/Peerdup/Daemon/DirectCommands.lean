import Peerdup.Daemon.ShareNetwork
import Peerdup.Foundation.Service
import Peerdup.MemberHex

/-!
# The same commands without a daemon

`share invite`, `share revoke` and `share rotate-key` on the files alone, beside what a
daemon on the bus does with them.
-/

set_option autoImplicit false

namespace Peerdup.Daemon

open Foundation Auth Crypto Rotation

section Direct

variable (crypto : Primitives) (crdt : GroupCrdt)
  (configs : Except Failure (List ShareConfig)) (identity : Except Failure crypto.PrivateKey)

/-- `cmd_share_invite_direct` from `auth::load` on. -/
def inviteOnDisk (cfg : ShareConfig) (identity : crypto.PrivateKey) (created : Key)
    (dir : ShareDir) (id inviteePubkeyHex : String) (invitee : MemberId) (role : ShareRole)
    (authRole : AuthRole) : Except Failure Ticket × ShareDir :=
  let groupId := groupIdFor crypto id
  match (AuthState.load crypto dir.authLog : Except Failure (AuthState crdt)) with
  | .error failure => (.error failure, dir)
  | .ok authState =>
      if authState.isEmpty then
        (.error ["share " ++ id ++
          " has no auth state on disk; can only invite from the creator's machine"], dir)
      else if authState.isMember groupId invitee then
        (.error [inviteePubkeyHex ++ " is already a member of share " ++ id], dir)
      else
        match authState.addMember crypto identity groupId invitee authRole with
        | (.error failure, _) => (.error failure, dir)
        | (.ok _, authState) =>
            let dir := { dir with authLog := some authState.ops }
            match loadOrCreateKeyring created dir.keysBin with
            | (.error failure, keysBin) => (.error failure, { dir with keysBin })
            | (.ok ring, keysBin) =>
                (.ok {
                  version := ticketVersion
                  shareId := cfg.id
                  topic := cfg.topic
                  keys := ring.exportKeys
                  authLog := authState.ops
                  inviteePubkey := invitee
                  role }, { dir with keysBin })

def cmdShareInviteDirect (created : Key) (dir : ShareDir) (id inviteePubkeyHex : String)
    (role : ShareRole) (authRole : AuthRole) : Option (Except Failure Ticket × ShareDir) :=
  match configs with
  | .error failure => some (.error failure, dir)
  | .ok configs =>
      match configs.find? (·.id = id) with
      | none => some (.error ["share " ++ id ++ " not found"], dir)
      | some cfg =>
          (fromHex inviteePubkeyHex).map fun
            | .error failure => (.error ("parsing invitee public key" :: failure), dir)
            | .ok invitee =>
                match identity with
                | .error failure => (.error failure, dir)
                | .ok identity =>
                    inviteOnDisk crypto crdt cfg identity created dir id inviteePubkeyHex invitee
                      role authRole

/-- `cmd_share_revoke_direct` from `auth::load` on. The result is the epoch it prints. -/
def revokeOnDisk (identity : crypto.PrivateKey) (entropy : Entropy) (dir : ShareDir)
    (id peerPubkeyHex : String) (target : MemberId) : Except Failure Nat × ShareDir :=
  let groupId := groupIdFor crypto id
  match (AuthState.load crypto dir.authLog : Except Failure (AuthState crdt)) with
  | .error failure => (.error failure, dir)
  | .ok authState =>
      if authState.isEmpty then (.error ["share " ++ id ++ " has no auth state on disk"], dir)
      else if !authState.isMember groupId target then
        (.error [peerPubkeyHex ++ " is not a current member of share " ++ id], dir)
      else
        match authState.removeMember crypto identity groupId target with
        | (.error failure, _) => (.error failure, dir)
        | (.ok _, authState) =>
            let dir := { dir with authLog := some authState.ops }
            let remaining := sortIds
              (((authState.members groupId).map Prod.fst).filter fun member => member ≠ target)
            match rotateKeyring entropy.created entropy.newKey dir.keysBin with
            | (.error failure, keysBin) => (.error failure, { dir with keysBin })
            | (.ok newEpoch, keysBin) =>
                let dir := { dir with keysBin }
                match loadOrCreateKeyring entropy.created dir.keysBin with
                | (.error failure, keysBin) => (.error failure, { dir with keysBin })
                | (.ok ring, keysBin) =>
                    let dir := { dir with keysBin }
                    match ring.keyForEpoch newEpoch with
                    | none => (.error ["rotated keyring missing epoch " ++ toString newEpoch], dir)
                    | some newKey =>
                        match buildSignedRotation crypto identity entropy.envelope newEpoch newKey
                            remaining with
                        | .error failure => (.error failure, dir)
                        | .ok rotation =>
                            (.ok newEpoch, { dir with
                              pendingRotations := savePending dir.pendingRotations rotation })

def cmdShareRevokeDirect (entropy : Entropy) (dir : ShareDir) (id peerPubkeyHex : String) :
    Option (Except Failure Nat × ShareDir) :=
  match configs with
  | .error failure => some (.error failure, dir)
  | .ok configs =>
      if !configs.any (·.id = id) then some (.error ["share " ++ id ++ " not found"], dir)
      else
        (fromHex peerPubkeyHex).map fun
          | .error failure => (.error ("parsing peer public key" :: failure), dir)
          | .ok target =>
              match identity with
              | .error failure => (.error failure, dir)
              | .ok identity =>
                  revokeOnDisk crypto crdt identity entropy dir id peerPubkeyHex target

def cmdShareRotateKeyDirect (entropy : Entropy) (dir : ShareDir) (id : String) :
    Except Failure Nat × ShareDir :=
  match configs with
  | .error failure => (.error failure, dir)
  | .ok configs =>
      if !configs.any (·.id = id) then (.error ["share " ++ id ++ " not found"], dir)
      else
        match rotateKeyring entropy.created entropy.newKey dir.keysBin with
        | (.error failure, keysBin) => (.error failure, { dir with keysBin })
        | (.ok newEpoch, keysBin) => (.ok newEpoch, { dir with keysBin })

end Direct

section Bus

variable {crdt : GroupCrdt} (crypto : Primitives) (config : ShareConfig)
  (identity : crypto.PrivateKey) (loop : ShareLoop crdt)

/-- `share_invite` on the bus, whose request the share's loop handles. -/
def shareInvite (inviteePubkey : String) (role : ShareRole) (authRole : AuthRole) :
    Option (Except Failure Ticket × ShareLoop crdt) :=
  (fromHex inviteePubkey).map fun
    | .error failure => (.error ("parsing invitee public key" :: failure), loop)
    | .ok invitee => loop.handleInvite crypto config identity invitee authRole role

def shareRevoke (entropy : Entropy) (peerPubkey : String) :
    Option (Except Failure Nat × ShareLoop crdt) :=
  (fromHex peerPubkey).map fun
    | .error failure => (.error ("parsing peer public key" :: failure), loop)
    | .ok target => loop.handleRevoke crypto config identity entropy target

end Bus

inductive ShareRequest where
  | invite (inviteePubkey : String) (role : ShareRole) (authRole : AuthRole)
  | revoke (peerPubkey : String)
  | rotateKey

/-- A ticket that is printed or sent, or the epoch that is. -/
inductive ShareReply where
  | ticket (ticket : Ticket)
  | epoch (newEpoch : Nat)
deriving DecidableEq

def succeeded {Value State : Type} (reply : Value → ShareReply) :
    Except Failure Value × State → Option (ShareReply × State)
  | (.error _, _) => none
  | (.ok value, state) => some (reply value, state)

/-- Each command reads the share's files again. -/
def directCommands (crypto : Primitives) (crdt : GroupCrdt)
    (configs : Except Failure (List ShareConfig)) (identity : Except Failure crypto.PrivateKey)
    (id : String) : Service ShareDir (Entropy × ShareRequest) ShareReply where
  call dir
    | (entropy, .invite inviteePubkey role authRole) =>
        (cmdShareInviteDirect crypto crdt configs identity entropy.created dir id inviteePubkey role
          authRole).bind (succeeded .ticket)
    | (entropy, .revoke peerPubkey) =>
        (cmdShareRevokeDirect crypto crdt configs identity entropy dir id peerPubkey).bind
          (succeeded .epoch)
    | (entropy, .rotateKey) => succeeded .epoch (cmdShareRotateKeyDirect configs entropy dir id)

/-- The running loop answers from what it has in memory. -/
def loopCommands {crdt : GroupCrdt} (crypto : Primitives) (config : ShareConfig)
    (identity : crypto.PrivateKey) :
    Service (ShareLoop crdt) (Entropy × ShareRequest) ShareReply where
  call loop
    | (_, .invite inviteePubkey role authRole) =>
        (shareInvite crypto config identity loop inviteePubkey role authRole).bind
          (succeeded .ticket)
    | (entropy, .revoke peerPubkey) =>
        (shareRevoke crypto config identity loop entropy peerPubkey).bind (succeeded .epoch)
    | (entropy, .rotateKey) => succeeded .epoch (loop.handleRotateKey entropy)

end Peerdup.Daemon
