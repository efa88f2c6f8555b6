import Peerdup.Rotation
import Peerdup.Ticket

/-!
# The share loop's commands and rotations

What one share task owns in memory, what it keeps on disk, and the handlers that change
both. File operations succeed. A handler that fails returns the state as it leaves it.
-/

set_option autoImplicit false

namespace Peerdup.Daemon

open Foundation Auth Crypto Rotation

/-- The files of one share directory. -/
structure ShareDir where
  authLog : Option (List SignedOp)
  keysBin : Option Bytes
  pendingRotations : List SignedRotation

structure ShareLoop (crdt : GroupCrdt) where
  authState : AuthState crdt
  key : KeyRing
  pendingRotations : List SignedRotation
  rotationBuffer : List SignedRotation
  dir : ShareDir

/-- What the handlers read of `ShareConfig`. -/
structure ShareConfig where
  id : String
  topic : String

/-- The random values one handler call may draw. -/
structure Entropy where
  created : Key
  newKey : Key
  envelope : Nat → EnvelopeEntropy

def rotationBufferCap : Nat := 64

/-- Bounded push: the lowest epoch makes room, and an epoch already there stays. -/
def bufferPush (buffer : List SignedRotation) (rotation : SignedRotation) : List SignedRotation :=
  if buffer.any (·.epoch = rotation.epoch) then buffer
  else if buffer.length ≥ rotationBufferCap then (sortByEpoch buffer).drop 1 ++ [rotation]
  else buffer ++ [rotation]

inductive AppliedOrBuffered where
  | applied
  | idempotent
  | stale
  | buffered
deriving DecidableEq

namespace ShareLoop

variable {crdt : GroupCrdt}

def withAuth (loop : ShareLoop crdt) (authState : AuthState crdt) : ShareLoop crdt :=
  { loop with authState }

def saveAuth (loop : ShareLoop crdt) : ShareLoop crdt :=
  { loop with dir := { loop.dir with authLog := some loop.authState.ops } }

def withKeysBin (loop : ShareLoop crdt) (keysBin : Option Bytes) : ShareLoop crdt :=
  { loop with dir := { loop.dir with keysBin } }

def withKey (loop : ShareLoop crdt) (key : KeyRing) : ShareLoop crdt := { loop with key }

def queueRotation (loop : ShareLoop crdt) (rotation : SignedRotation) : ShareLoop crdt :=
  { loop with
    pendingRotations := loop.pendingRotations ++ [rotation]
    dir := { loop.dir with pendingRotations := savePending loop.dir.pendingRotations rotation } }

variable (crypto : Primitives) (config : ShareConfig) (identity : crypto.PrivateKey)

def handleInvite (loop : ShareLoop crdt) (invitee : MemberId) (authRole : AuthRole)
    (suggestedRole : ShareRole) : Except Failure Ticket × ShareLoop crdt :=
  let groupId := groupIdFor crypto config.id
  if loop.authState.isEmpty then
    (.error ["share " ++ config.id ++
      " has no auth state on disk; can only invite from the creator's machine"], loop)
  else if loop.authState.isMember groupId invitee then
    (.error [toHex invitee ++ " is already a member of share " ++ config.id], loop)
  else
    match loop.authState.addMember crypto identity groupId invitee authRole with
    | (.error failure, authState) => (.error failure, loop.withAuth authState)
    | (.ok _, authState) =>
        let loop := (loop.withAuth authState).saveAuth
        (.ok {
          version := ticketVersion
          shareId := config.id
          topic := config.topic
          keys := loop.key.exportKeys
          authLog := loop.authState.ops
          inviteePubkey := invitee
          role := suggestedRole }, loop)

def handleRevoke (loop : ShareLoop crdt) (entropy : Entropy) (target : MemberId) :
    Except Failure Nat × ShareLoop crdt :=
  let groupId := groupIdFor crypto config.id
  if loop.authState.isEmpty then
    (.error ["share " ++ config.id ++ " has no auth state on disk"], loop)
  else if !loop.authState.isMember groupId target then
    (.error [toHex target ++ " is not a current member of share " ++ config.id], loop)
  else
    match loop.authState.removeMember crypto identity groupId target with
    | (.error failure, authState) => (.error failure, loop.withAuth authState)
    | (.ok _, authState) =>
        let loop := (loop.withAuth authState).saveAuth
        let remaining :=
          sortIds (((authState.members groupId).map Prod.fst).filter fun member => member ≠ target)
        match rotateKeyring entropy.created entropy.newKey loop.dir.keysBin with
        | (.error failure, keysBin) => (.error failure, loop.withKeysBin keysBin)
        | (.ok newEpoch, keysBin) =>
            let loop := loop.withKeysBin keysBin
            match loadOrCreateKeyring entropy.created loop.dir.keysBin with
            | (.error failure, keysBin) => (.error failure, loop.withKeysBin keysBin)
            | (.ok ring, keysBin) =>
                let loop := loop.withKeysBin keysBin
                match ring.keyForEpoch newEpoch with
                | none => (.error ["rotated keyring missing epoch " ++ toString newEpoch], loop)
                | some newKeyBytes =>
                    -- Reload the in-memory keyring so encrypt and decrypt see the new epoch.
                    match loadOrCreateKeyring entropy.created loop.dir.keysBin with
                    | (.error failure, keysBin) => (.error failure, loop.withKeysBin keysBin)
                    | (.ok fresh, keysBin) =>
                        let loop := (loop.withKeysBin keysBin).withKey fresh
                        match buildSignedRotation crypto identity entropy.envelope newEpoch
                            newKeyBytes remaining with
                        | .error failure => (.error failure, loop)
                        | .ok rotation => (.ok newEpoch, loop.queueRotation rotation)

def handleRotateKey (loop : ShareLoop crdt) (entropy : Entropy) :
    Except Failure Nat × ShareLoop crdt :=
  match rotateKeyring entropy.created entropy.newKey loop.dir.keysBin with
  | (.error failure, keysBin) => (.error failure, loop.withKeysBin keysBin)
  | (.ok newEpoch, keysBin) =>
      let loop := loop.withKeysBin keysBin
      match loadOrCreateKeyring entropy.created loop.dir.keysBin with
      | (.error failure, keysBin) => (.error failure, loop.withKeysBin keysBin)
      | (.ok fresh, keysBin) => (.ok newEpoch, (loop.withKeysBin keysBin).withKey fresh)

def tryInstallRotation (loop : ShareLoop crdt) (created : Key) (rotation : SignedRotation) :
    Except Failure AppliedOrBuffered × ShareLoop crdt :=
  let groupId := groupIdFor crypto config.id
  match verifyAndDecrypt crypto rotation loop.authState groupId identity with
  | .okForUs newKey =>
      match installEpochKey created loop.dir.keysBin rotation.epoch newKey with
      | (.error failure, keysBin) =>
          (.error (("installing rotation key for share " ++ config.id ++ " at epoch " ++
            toString rotation.epoch) :: failure), loop.withKeysBin keysBin)
      | (.ok .installed, keysBin) =>
          match loadOrCreateKeyring created keysBin with
          | (.error failure, keysBin) =>
              (.error (("reloading keyring for share " ++ config.id ++ " after install") :: failure),
                loop.withKeysBin keysBin)
          | (.ok fresh, keysBin) => (.ok .applied, (loop.withKeysBin keysBin).withKey fresh)
      | (.ok .idempotent, keysBin) => (.ok .idempotent, loop.withKeysBin keysBin)
      | (.ok .stale, keysBin) => (.ok .stale, loop.withKeysBin keysBin)
      | (.ok (.gap _ _), keysBin) => (.ok .buffered, loop.withKeysBin keysBin)
  | .notForUs => (.ok .idempotent, loop)
  | .notAManager => (.ok .idempotent, loop)
  | .badSignature => (.ok .idempotent, loop)
  | .decryptFailed => (.ok .idempotent, loop)

def withBuffer (loop : ShareLoop crdt) (rotationBuffer : List SignedRotation) : ShareLoop crdt :=
  { loop with rotationBuffer }

/-- `drain_rotation_buffer`'s loop: every round but the last shortens the buffer. -/
def drainRounds (created : Key) : Nat → ShareLoop crdt → ShareLoop crdt
  | 0, loop => loop
  | rounds + 1, loop =>
      match sortByEpoch loop.rotationBuffer with
      | [] => loop
      | candidate :: rest =>
          match tryInstallRotation crypto config identity (loop.withBuffer rest) created candidate with
          | (.ok .buffered, loop) => loop.withBuffer (bufferPush loop.rotationBuffer candidate)
          | (.ok .applied, loop) => drainRounds created rounds loop
          | (.ok .idempotent, loop) => drainRounds created rounds loop
          | (.ok .stale, loop) => drainRounds created rounds loop
          | (.error _, loop) => drainRounds created rounds loop

def drainRotationBuffer (loop : ShareLoop crdt) (created : Key) : ShareLoop crdt :=
  loop.drainRounds crypto config identity created loop.rotationBuffer.length

def applyKeyRotation (loop : ShareLoop crdt) (created : Key) (rotation : SignedRotation) :
    Except Failure Unit × ShareLoop crdt :=
  match loop.tryInstallRotation crypto config identity created rotation with
  | (.error failure, loop) => (.error failure, loop)
  | (.ok .applied, loop) => (.ok (), loop.drainRotationBuffer crypto config identity created)
  | (.ok .idempotent, loop) => (.ok (), loop)
  | (.ok .stale, loop) => (.ok (), loop)
  | (.ok .buffered, loop) => (.ok (), loop.withBuffer (bufferPush loop.rotationBuffer rotation))

end ShareLoop

end Peerdup.Daemon
