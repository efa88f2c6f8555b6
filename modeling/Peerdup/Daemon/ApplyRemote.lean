import Peerdup.Daemon.Endpoint
import Peerdup.Daemon.Shadow

/-!
# Local changes and remote versions

`handle_local_change` turns the content of the root into a new version, and
`apply_remote_sync` turns a fetched version into the content of the root. Each returns
the disk and the torrents as it leaves them, also when it fails.
-/

set_option autoImplicit false

namespace Peerdup.Daemon

open Foundation Crypto

structure PersistedState where
  versionHash : String
  clock : VectorClock
  timestamp : Timestamp
  manifest : Manifest

/-- What a share's sync works on: the disk, the torrents librqbit manages, and the state
file outside the share root. -/
structure Device where
  tree : FileTree
  managed : List Nat
  stateFile : Option PersistedState

namespace Device

def withTree (device : Device) (tree : FileTree) : Device := { device with tree }

def addTorrent (device : Device) (id : Nat) : Device :=
  { device with managed := device.managed ++ [id] }

/-- `session.delete` of the torrent of the state the loop holds. Its files stay. -/
def deleteCurrent (device : Device) : Option ShareState → Device
  | none => device
  | some state => { device with managed := device.managed.filter (· ≠ state.torrentId) }

end Device

/-- How librqbit takes a torrent: an error, no handle, or its id. -/
abbrev Added := Except SyncFailure (Option Nat)

/-- The magnet's torrent: how it was added, the disk afterwards, and whether it completed. -/
structure Fetch where
  added : Added
  tree : FileTree
  completed : Except SyncFailure Unit

/-- The shadow's torrent: its info hash, and how it was added. -/
structure Seed where
  infoHash : Except SyncFailure String
  added : Added

def noHandle : SyncFailure := [.text "no handle"]

def createAndAddShadowTorrent (device : Device) (seed : Seed) :
    Except SyncFailure (String × Nat) × Device :=
  match seed.infoHash with
  | .error failure => (.error (.text "create_torrent" :: failure), device)
  | .ok infoHash =>
      match seed.added with
      | .error failure => (.error failure, device)
      | .ok none => (.error noHandle, device)
      | .ok (some id) => (.ok (infoHash, id), device.addTorrent id)

/-- `persist`, when writing the state file comes back so. -/
def persist (device : Device) (saved : Except SyncFailure Unit) (state : ShareState) :
    Except SyncFailure Unit × Device :=
  match saved with
  | .error failure => (.error failure, device)
  | .ok () =>
      (.ok (), { device with
        stateFile := some ⟨state.versionHash, state.clock, state.timestamp, state.manifest⟩ })

/-- What the world contributes to one `handle_local_change`. -/
structure LocalInputs where
  nonces : Nat → Nonce
  seed : FileTree → Seed
  now : Timestamp
  saved : Except SyncFailure Unit

def handleLocalChange (crypto : Primitives) (device : Device) (root : Path) (peerIdHex : String)
    (key : KeyRing) (inputs : LocalInputs) (current : Option ShareState) :
    Except SyncFailure (Option ShareState) × Device :=
  match hasContent device.tree root with
  | .error failure => (.error failure, device)
  | .ok false => (.ok none, device)
  | .ok true =>
      match snapshotContent crypto device.tree root with
      | .error failure => (.error failure, device)
      | .ok (newVhash, newManifest) =>
          if unchanged current newVhash then (.ok none, device)
          else
            let device := device.deleteCurrent current
            match syncPlaintextToShadow crypto device.tree root key inputs.nonces newManifest with
            | (.error failure, tree) => (.error failure, device.withTree tree)
            | (.ok (), tree) =>
                let device := device.withTree tree
                match createAndAddShadowTorrent device (inputs.seed tree) with
                | (.error failure, device) => (.error failure, device)
                | (.ok (infoHash, torrentId), device) =>
                    let newState :=
                      changedState peerIdHex current newVhash infoHash torrentId inputs.now newManifest
                    match persist device inputs.saved newState with
                    | (.error failure, device) => (.error failure, device)
                    | (.ok (), device) => (.ok (some newState), device)

def usablePeers (btEndpoints : List (String × UInt16)) : List (String × UInt16) :=
  btEndpoints.filter fun (host, port) =>
    Endpoint.isSocketAddr (host ++ ":" ++ toString port.toNat)

def applyRemoteSync (crypto : Primitives) (device : Device) (root : Path) (remote : RemoteVersion)
    (key : KeyRing) (fetch : FileTree → Fetch) (current : Option ShareState) :
    Except SyncFailure ShareState × Device :=
  if (usablePeers remote.btEndpoints).isEmpty then
    (.error [.text "announce had no usable peers"], device)
  else
    let device := device.deleteCurrent current
    let shadow := shadowRoot root
    match device.tree.createDirAll shadow with
    | .error error => (.error [.about "create_dir_all" shadow, .cause error], device)
    | .ok tree =>
        let fetched := fetch tree
        let device := device.withTree fetched.tree
        match fetched.added with
        | .error failure => (.error failure, device)
        | .ok none => (.error noHandle, device)
        | .ok (some torrentId) =>
            let device := device.addTorrent torrentId
            match fetched.completed with
            | .error failure => (.error (.text "wait_until_completed" :: failure), device)
            | .ok () =>
                match syncShadowToPlaintext crypto device.tree root key with
                | (.error failure, tree) =>
                    (.error (.text "decrypting shadow to plaintext after fetch" :: failure),
                      device.withTree tree)
                | (.ok newManifest, tree) =>
                    let device := device.withTree tree
                    match snapshotContent crypto device.tree root with
                    | .error failure => (.error failure, device)
                    | .ok (computedVhash, _) =>
                        if computedVhash ≠ remote.versionHash then
                          (.error [.text ("decrypted plaintext version_hash " ++ computedVhash ++
                            " != announced " ++ remote.versionHash)], device)
                        else
                          let device :=
                            match current with
                            | none => device
                            | some state =>
                                device.withTree
                                  (deleteOrphans device.tree root state.manifest newManifest)
                          (.ok (appliedState current remote torrentId newManifest), device)

end Peerdup.Daemon
