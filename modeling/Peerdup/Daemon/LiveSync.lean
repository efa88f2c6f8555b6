import Peerdup.Daemon.EncryptPass
import Peerdup.Daemon.PeerLife

/-!
# The sync loop beside its user

A remote version is applied in many steps: the download, one file after another, the check
of the hash, the orphans. The user may write between any two of them. The other handlers
are single steps, since an edit inside one is an edit before it and one after it.
-/

set_option autoImplicit false

namespace Peerdup.Daemon

open Foundation Crypto

variable (crypto : Primitives) (root : Path) (peerIdHex : String) (key : KeyRing)

/-- Where `apply_remote_sync` stands. -/
inductive ApplyPhase where
  | fetching (remote : RemoteVersion)
  /-- The ciphertext files still to decrypt, and the manifest so far. -/
  | decrypting (remote : RemoteVersion) (torrentId : Nat) (shadowFiles : List Path)
      (manifest : Manifest)
  /-- The hash has checked out over this content, and these files are still to be deleted. -/
  | deleting (state : ShareState) (version : Path → Option Bytes) (orphans : List Path)

inductive LoopPhase where
  | stopped
  | waiting (current : Option ShareState)
  | applying (current : Option ShareState) (phase : ApplyPhase)

/-- The share, the loop, and the content of the version that the loop's state records. -/
structure LiveSync where
  device : Device
  loop : LoopPhase
  recorded : Path → Option Bytes

inductive LiveEvent where
  | userEdits (tree : FileTree)
  | start (inputs : LocalInputs)
  | stop
  | localChange (inputs : LocalInputs)
  | receive (announce : Announce) (saved : Except SyncFailure Unit)
  /-- librqbit writes a file into its output folder. -/
  | download (shadowRel : Path) (ciphertext : Bytes)
  | fetched (added : Added) (completed : Except SyncFailure Unit)
  /-- The next step of an apply. -/
  | proceed (saved : Except SyncFailure Unit)

namespace LiveSync

def startLoop (sync : LiveSync) (inputs : LocalInputs) : LiveSync :=
  match sync.device.tree.createDirAll root with
  | .error _ => sync
  | .ok tree =>
      let device : Device := { sync.device with tree, managed := [] }
      match reconcileOnStart crypto root peerIdHex key device inputs with
      | (.error _, device) => { sync with device }
      | (.ok none, device) => ⟨device, .waiting none, fun _ => none⟩
      | (.ok (some state), device) => ⟨device, .waiting (some state), plaintext tree root⟩

def changeLocally (sync : LiveSync) (current : Option ShareState) (inputs : LocalInputs) :
    LiveSync :=
  match handleLocalChange crypto sync.device root peerIdHex key inputs current with
  | (.error _, device) => { sync with device }
  | (.ok none, device) => { sync with device }
  | (.ok (some state), device) =>
      ⟨device, .waiting (some state), plaintext sync.device.tree root⟩

def receive (sync : LiveSync) (current : Option ShareState) (announce : Announce)
    (saved : Except SyncFailure Unit) : LiveSync :=
  match judgeAnnounce current announce with
  | .ignored => sync
  | .localWins state =>
      { sync with device := (persist sync.device saved state).2, loop := .waiting (some state) }
  | .applies remote =>
      if (usablePeers remote.btEndpoints).isEmpty then sync
      else
        let device := sync.device.deleteCurrent current
        match device.tree.createDirAll (shadowRoot root) with
        | .error _ => { sync with device }
        | .ok tree =>
            { sync with device := device.withTree tree, loop := .applying current (.fetching remote) }

def download (sync : LiveSync) (shadowRel : Path) (ciphertext : Bytes) : LiveSync :=
  { sync with
    device := sync.device.withTree
      (sync.device.tree.place (shadowRoot root ++ shadowRel) ciphertext) }

def fetched (sync : LiveSync) (current : Option ShareState) (remote : RemoteVersion)
    (added : Added) (completed : Except SyncFailure Unit) : LiveSync :=
  match added with
  | .error _ => { sync with loop := .waiting current }
  | .ok none => { sync with loop := .waiting current }
  | .ok (some torrentId) =>
      let sync := { sync with device := sync.device.addTorrent torrentId }
      match completed with
      | .error _ => { sync with loop := .waiting current }
      | .ok () =>
          if sync.device.tree.look (shadowRoot root) = none then
            { sync with loop := .applying current (.decrypting remote torrentId [] []) }
          else
            match collectFiles sync.device.tree (shadowRoot root) with
            | .error _ => { sync with loop := .waiting current }
            | .ok shadowFiles =>
                { sync with loop := .applying current (.decrypting remote torrentId shadowFiles []) }

def decryptNext (sync : LiveSync) (current : Option ShareState) (remote : RemoteVersion)
    (torrentId : Nat) (shadowRel : Path) (shadowFiles : List Path) (manifest : Manifest) :
    LiveSync :=
  match decryptFile crypto sync.device.tree root key shadowRel with
  | (.error _, tree) =>
      { sync with device := sync.device.withTree tree, loop := .waiting current }
  | (.ok none, tree) =>
      { sync with
        device := sync.device.withTree tree
        loop := .applying current (.decrypting remote torrentId shadowFiles manifest) }
  | (.ok (some rel), tree) =>
      { sync with
        device := sync.device.withTree tree
        loop := .applying current
          (.decrypting remote torrentId shadowFiles (insertPath rel manifest)) }

/-- The files `delete_orphans` goes through. -/
def orphans (current : Option ShareState) (manifest : Manifest) : List Path :=
  match current with
  | none => []
  | some state => state.manifest.filter (· ∉ manifest)

def verify (sync : LiveSync) (current : Option ShareState) (remote : RemoteVersion)
    (torrentId : Nat) (manifest : Manifest) : LiveSync :=
  match snapshotContent crypto sync.device.tree root with
  | .error _ => { sync with loop := .waiting current }
  | .ok (computedVhash, _) =>
      if computedVhash ≠ remote.versionHash then { sync with loop := .waiting current }
      else
        { sync with
          loop := .applying current
            (.deleting (appliedState current remote torrentId manifest)
              (plaintext sync.device.tree root) (orphans current manifest)) }

def proceed (sync : LiveSync) (current : Option ShareState) (saved : Except SyncFailure Unit) :
    ApplyPhase → LiveSync
  | .fetching _ => sync
  | .decrypting remote torrentId (shadowRel :: shadowFiles) manifest =>
      sync.decryptNext crypto root key current remote torrentId shadowRel shadowFiles manifest
  | .decrypting remote torrentId [] manifest => sync.verify crypto root current remote torrentId manifest
  | .deleting state version (rel :: orphans) =>
      { sync with
        device := sync.device.withTree (tryRemove sync.device.tree (root ++ rel))
        loop := .applying current (.deleting state version orphans) }
  | .deleting state version [] =>
      ⟨(persist sync.device saved state).2, .waiting (some state), version⟩

/-- Events that the loop is not there to take leave everything as it is. -/
def machine : Machine LiveSync LiveEvent where
  step sync event :=
    match event, sync.loop with
    | .userEdits tree, _ => some { sync with device := sync.device.withTree tree }
    | .start inputs, .stopped => some (sync.startLoop crypto root peerIdHex key inputs)
    | .stop, _ => some { sync with loop := .stopped }
    | .localChange inputs, .waiting current =>
        some (sync.changeLocally crypto root peerIdHex key current inputs)
    | .receive announce saved, .waiting current => some (sync.receive root current announce saved)
    | .download shadowRel ciphertext, .applying _ (.fetching _) =>
        some (sync.download root shadowRel ciphertext)
    | .fetched added completed, .applying current (.fetching remote) =>
        some (sync.fetched root current remote added completed)
    | .proceed saved, .applying current phase =>
        some (sync.proceed crypto root key current saved phase)
    | _, _ => some sync

/-- Whether placing a decrypted file changes the file `rel` with this content. -/
def spoils (tree : FileTree) (placed : Bytes) (rel : Path) (content : Bytes) :
    PlaintextRel → Bool
  | .file target =>
      (rel = target && placed ≠ content && NameFits tmpSuffix target &&
          tree.look (root ++ temporary target) ≠ some .directory) ||
        (rel = temporary target &&
          (tree.look (root ++ target) ≠ some .directory || placed ≠ content))
  | .here dir _ => dir ≠ [] && rel = temporary dir && placed ≠ content
  | .up _ => false

/-- Whether the next step decrypts something else over the file `rel` with this content, or
deletes it. -/
def nextOverwrites (tree : FileTree) (rel : Path) (content : Bytes) : ApplyPhase → Bool
  | .decrypting _ _ (shadowRel :: _) _ =>
      match plaintextRelFromShadowRel shadowRel, tree.read (shadowRoot root ++ shadowRel) with
      | some target, .ok ciphertext =>
          match decrypt crypto key ciphertext with
          | .ok placed => spoils root tree placed rel content target
          | .error _ => false
      | _, _ => false
  | .deleting _ _ (orphan :: _) => rel = orphan
  | _ => false

def overwrites (sync : LiveSync) (event : LiveEvent) (rel : Path) (content : Bytes) : Bool :=
  match event, sync.loop with
  | .proceed _, .applying _ phase => nextOverwrites crypto root key sync.device.tree rel content phase
  | _, _ => false

/-- The files that the next step may change. -/
def touched : ApplyPhase → List Path
  | .decrypting _ _ (shadowRel :: _) _ =>
      match plaintextRelFromShadowRel shadowRel with
      | some (.file target) => [target, temporary target]
      | some (.here dir _) => [temporary dir]
      | _ => []
  | .deleting _ _ (orphan :: _) => [orphan]
  | _ => []

end LiveSync

end Peerdup.Daemon
