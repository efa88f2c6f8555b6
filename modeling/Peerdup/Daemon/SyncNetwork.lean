import Peerdup.Daemon.Announce
import Peerdup.Foundation.Machine

/-!
# Peers exchanging announces

Any number of peers run `sync_loop` on one share. Each is known by its hex public
key. A peer edits locally, repeats its announce, or handles any announce published
so far, and a fetch delivers what was announced. Announces are never consumed, so
they arrive in any order, repeatedly, or not at all.
-/

set_option autoImplicit false

namespace Peerdup.Daemon

open Foundation

structure SyncNetwork where
  states : String → Option ShareState
  published : List Announce

inductive SyncEvent where
  /-- The watcher fires and the content hashes to `versionHash`. -/
  | localEdit (peer versionHash infoHash : String) (torrentId : Nat) (timestamp : Timestamp)
      (manifest : Manifest)
  /-- `peer` handles the announce at `index`. A fetch adds `torrentId` and writes `manifest`. -/
  | receive (peer : String) (index torrentId : Nat) (manifest : Manifest)
  | announceTick (peer : String)

namespace SyncNetwork

def start : SyncNetwork := ⟨fun _ => none, []⟩

/-- A peer publishes its new state and holds it. -/
def install (network : SyncNetwork) (btPort : String → UInt16) (peer : String)
    (state : ShareState) : SyncNetwork where
  states := Function.update network.states peer (some state)
  published := network.published ++ [publishSyncAnnounce state (btPort peer)]

def machine (btPort : String → UInt16) : Machine SyncNetwork SyncEvent where
  step network
    | .localEdit peer versionHash infoHash torrentId timestamp manifest =>
        let current := network.states peer
        if unchanged current versionHash then some network
        else some (network.install btPort peer
          (changedState peer current versionHash infoHash torrentId timestamp manifest))
    | .receive peer index torrentId manifest =>
        network.published[index]?.map fun announce =>
          match judgeAnnounce (network.states peer) announce with
          | .ignored => network
          | .localWins state => network.install btPort peer state
          | .applies remote =>
              network.install btPort peer
                (appliedState (network.states peer) remote torrentId manifest)
    | .announceTick peer =>
        match network.states peer with
        | none => some network
        | some state =>
            some { network with
              published := network.published ++ [publishSyncAnnounce state (btPort peer)] }

/-- Peers whose clocks compare equal hold the same content. -/
def EqualClocksAgree (network : SyncNetwork) : Prop :=
  ∀ left right leftState rightState, network.states left = some leftState →
    network.states right = some rightState →
    leftState.clock.compare rightState.clock = .equal →
    leftState.versionHash = rightState.versionHash

/-- A local edit wins against the version it replaces, and its counter has room. -/
def EditBeatsReplaced (network : SyncNetwork) : SyncEvent → Prop
  | .localEdit peer versionHash _ _ timestamp _ =>
      ∀ current, network.states peer = some current → current.versionHash ≠ versionHash →
        lwwWeWin timestamp versionHash current.timestamp current.versionHash = true ∧
          (current.clock.get peer).toNat + 1 < 2 ^ 64
  | _ => True

end SyncNetwork

end Peerdup.Daemon
