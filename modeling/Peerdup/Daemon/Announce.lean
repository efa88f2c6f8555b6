import Peerdup.Clock
import Peerdup.Foundation.Path

/-!
# Sync versions and announces

The version a peer holds, the announce it gossips, and what `sync_loop` decides
about a received announce before it touches the disk.
-/

set_option autoImplicit false

namespace Peerdup.Daemon

open Foundation

/-- UTC wall-clock time, in nanoseconds. -/
abbrev Timestamp := Int

/-- The paths of a version, as the ordered set iterates them. -/
abbrev Manifest := List Path

structure ShareState where
  versionHash : String
  infoHash : String
  torrentId : Nat
  clock : VectorClock
  timestamp : Timestamp
  manifest : Manifest

/-- `ShareMsg::Announce`. The optional fields are absent from older announces. -/
structure Announce where
  infoHash : String
  btEndpoints : List (String × UInt16)
  versionHash : Option String
  clock : Option VectorClock
  timestamp : Option Timestamp

/-- An announce that carries every field sync needs. -/
structure RemoteVersion where
  infoHash : String
  btEndpoints : List (String × UInt16)
  versionHash : String
  clock : VectorClock
  timestamp : Timestamp

def publishSyncAnnounce (state : ShareState) (btPort : UInt16) : Announce where
  infoHash := state.infoHash
  btEndpoints := [("127.0.0.1", btPort)]
  versionHash := some state.versionHash
  clock := some state.clock
  timestamp := some state.timestamp

/-- The legacy check: all three sync fields must be there. -/
def Announce.remote? (announce : Announce) : Option RemoteVersion :=
  match announce.versionHash, announce.clock, announce.timestamp with
  | some versionHash, some clock, some timestamp =>
      some ⟨announce.infoHash, announce.btEndpoints, versionHash, clock, timestamp⟩
  | _, _, _ => none

/-- Later timestamp wins. On a tie the greater version hash wins. -/
def lwwWeWin (localTs : Timestamp) (localVhash : String) (remoteTs : Timestamp)
    (remoteVhash : String) : Bool :=
  match compare localTs remoteTs with
  | .gt => true
  | .lt => false
  | .eq => decide (localVhash > remoteVhash)

inductive AnnounceVerdict where
  | ignored
  /-- Local wins a concurrent edit: take the merged clock and fetch nothing. -/
  | localWins (state : ShareState)
  | applies (remote : RemoteVersion)

/-- `sync_loop`'s announce branch up to the call of `apply_remote_sync`. -/
def judgeAnnounce (state : Option ShareState) (announce : Announce) : AnnounceVerdict :=
  match announce.remote? with
  | none => .ignored
  | some remote =>
      match state with
      | none => .applies remote
      | some current =>
          match current.clock.compare remote.clock with
          | .equal => .ignored
          | .selfDominates => .ignored
          | .concurrent =>
              if lwwWeWin current.timestamp current.versionHash remote.timestamp remote.versionHash
              then .localWins { current with clock := current.clock.merge remote.clock }
              else .applies remote
          | .otherDominates => .applies remote

/-- `current.map(|s| s.clock.clone()).unwrap_or_default()`. -/
def currentClock : Option ShareState → VectorClock
  | none => .new
  | some state => state.clock

/-- The state `apply_remote_sync` returns once the fetched content has checked out. -/
def appliedState (current : Option ShareState) (remote : RemoteVersion) (torrentId : Nat)
    (manifest : Manifest) : ShareState where
  versionHash := remote.versionHash
  infoHash := remote.infoHash
  torrentId := torrentId
  clock := (currentClock current).merge remote.clock
  timestamp := remote.timestamp
  manifest := manifest

/-- The state `handle_local_change` returns for changed content. -/
def changedState (peerIdHex : String) (current : Option ShareState) (versionHash infoHash : String)
    (torrentId : Nat) (timestamp : Timestamp) (manifest : Manifest) : ShareState where
  versionHash := versionHash
  infoHash := infoHash
  torrentId := torrentId
  clock := (currentClock current).increment peerIdHex
  timestamp := timestamp
  manifest := manifest

/-- `current.map(|s| s.version_hash == new_vhash).unwrap_or(false)`. -/
def unchanged (current : Option ShareState) (versionHash : String) : Bool :=
  (current.map fun state => state.versionHash == versionHash).getD false

end Peerdup.Daemon
