import Peerdup.Daemon.AuthFile

/-!
# Adding and joining shares

`share_add` over D-Bus, and the commands that add and join on the data directory itself.
The identity and the keyring are read from the disk, or created there.
-/

set_option autoImplicit false

namespace Peerdup.Daemon.ShareFiles

open Foundation Auth Crypto Rotation RawPath

/-- `PrivateKey::from_bytes` and `PrivateKey::as_bytes`. -/
structure KeyBytes (crypto : Primitives) where
  fromBytes : Octets 32 → crypto.PrivateKey
  asBytes : crypto.PrivateKey → Octets 32
  fromBytes_asBytes : ∀ key, fromBytes (asBytes key) = key

/-- A share that is added over D-Bus keeps its path as it is given, relative or not. -/
structure AddFormats extends FileFormats where
  addedJson : ShareConfig → Bytes → ShareRole → Timestamp → Except String Bytes

def idFromTopic (crypto : Primitives) (topic : String) : String :=
  .ofList ((toHex (crypto.blake3 (idBytes topic))).toList.take 16)

/-- `ShareRole::from_str`. -/
def parseShareRole (role : String) : Except String ShareRole :=
  match role.toLower with
  | "seed" => .ok .seed
  | "leech" => .ok .leech
  | "sync" => .ok .sync
  | other => .error ("unknown role " ++ other.quote)

/-- `Path::exists` of a path as it is given. -/
def givenExists (tree : FileTree) (cwd : Except SyncFailure RawPath) (path : Bytes) : Bool :=
  match absolutePath cwd path with
  | .error _ => false
  | .ok absolute => path ≠ [] && tree.existsAt absolute

/-- A path of the command line, from the working directory if it is relative. -/
def directPath (cwd : Except SyncFailure RawPath) (path : Bytes) : Except SyncFailure RawPath :=
  if path.head? = some 0x2F then .ok (RawPath.join [] path)
  else
    match cwd with
    | .error failure => .error failure
    | .ok cwd => .ok (cwd.join path)

def saveConfig (tree : FileTree) (dir : RawPath) (json : Except String Bytes) :
    Except SyncFailure Unit × FileTree :=
  match tree.createDirAllAt dir with
  | (.error error, tree) => (.error [.about "create_dir_all" dir, .cause error], tree)
  | (.ok (), tree) =>
      match json with
      | .error reason => (.error [.text reason], tree)
      | .ok json =>
          match tree.writeAt dir (ascii "share.json") json with
          | .error error => (.error [.about "write share.json in" dir, .cause error], tree)
          | .ok tree => (.ok (), tree)

theorem StoredConfig.save_eq (config : StoredConfig) (formats : FileFormats) (tree : FileTree)
    (dataDir : RawPath) : config.save formats tree dataDir =
      saveConfig tree (shareDir dataDir config.id) (formats.configJson config) := rfl

section Load

variable {crypto : Primitives} (tree : FileTree)

/-- `identity::load_or_create`. -/
def loadOrCreateIdentity (keys : KeyBytes crypto) (dataDir : RawPath) (fresh : crypto.PrivateKey) :
    Except SyncFailure crypto.PrivateKey × FileTree :=
  let path := dataDir ++ [ascii "identity.key"]
  if tree.existsAt path then
    match tree.readAt path with
    | .error error => (.error [.about "reading" path, .cause error], tree)
    | .ok raw =>
        if raw.length = 32 then (.ok (keys.fromBytes (.ofBytes 32 raw)), tree)
        else (.error [.text ("identity.key has wrong length: got " ++ toString raw.length ++
          ", want 32")], tree)
  else
    let parent := dataDir.rdropWhile RawPath.isDot
    match tree.createDirAllAt parent with
    | (.error error, tree) => (.error [.about "create_dir_all" parent, .cause error], tree)
    | (.ok (), tree) =>
        match tree.writeAt dataDir (ascii "identity.key") (keys.asBytes fresh).bytes with
        | .error error => (.error [.about "writing" path, .cause error], tree)
        | .ok tree => (.ok fresh, tree)

/-- `load_or_create_keyring`. -/
def loadKeyring (dir : RawPath) (created : Key) : Except SyncFailure KeyRing × FileTree :=
  let path := dir ++ [ascii "keys.bin"]
  if tree.existsAt path then
    match tree.readAt path with
    | .error error => (.error [.about "reading" path, .cause error], tree)
    | .ok raw =>
        match parseKeys raw with
        | .error failure => (.error (failure.map .text), tree)
        | .ok ring => (.ok ring, tree)
  else
    let ring : KeyRing := ⟨[created], singleton_ne_nil created⟩
    match saveKeyring tree dir ring with
    | (.error failure, tree) => (.error failure, tree)
    | (.ok (), tree) => (.ok ring, tree)

/-- What a share task starts with. Pending rotations that cannot be loaded are only a warning. -/
def spawnTask (crdt : GroupCrdt) (crypto : Primitives) (dir : RawPath) (created : Key) :
    Except SyncFailure (KeyRing × AuthState crdt) × FileTree :=
  match loadKeyring tree dir created with
  | (.error failure, tree) => (.error (.text "loading share keyring" :: failure), tree)
  | (.ok key, tree) =>
      match loadAuth crypto tree dir with
      | .error failure => (.error (.text "loading auth log" :: failure), tree)
      | .ok authState => (.ok (key, authState), tree)

end Load

variable (tree : FileTree) (dataDir : RawPath) (crypto : Primitives)

section Add

variable (formats : AddFormats) (crdt : GroupCrdt)

/-- The part of `share_add` under the runtime's locks. -/
def addLocked (identity : crypto.PrivateKey) (created : Key) (running : List String) (id : String)
    (json : Except String Bytes) : Except SyncFailure String × List String × FileTree :=
  let dir := shareDir dataDir id
  if id ∈ running then (.error [.text ("share " ++ id ++ " is already running")], running, tree)
  else
    match (AuthState.empty : AuthState crdt).createGroup crypto identity (groupIdFor crypto id) with
    | (.error failure, _) => (.error (failure.map .text), running, tree)
    | (.ok _, authState) =>
        match saveConfig tree dir json with
        | (.error failure, tree) => (.error failure, running, tree)
        | (.ok (), tree) =>
            match saveAuth tree dir authState.ops with
            | (.error failure, tree) => (.error failure, running, tree)
            | (.ok (), tree) =>
                match spawnTask tree crdt crypto dir created with
                | (.error failure, tree) => (.error failure, running, tree)
                | (.ok _, tree) => (.ok id, running ++ [id], tree)

def shareAdd (identity : crypto.PrivateKey) (created : Key) (now : Timestamp)
    (running : List String) (cwd : Except SyncFailure RawPath) (topic : String) (path : Bytes)
    (role : String) : Except SyncFailure String × List String × FileTree :=
  match parseShareRole role with
  | .error cause =>
      (.error [.text ("invalid role " ++ role.quote ++ ": " ++ cause)], running, tree)
  | .ok role =>
      if role = .seed ∧ givenExists tree cwd path = false then
        (.error [.about "seed path does not exist:" (splitSlash path)], running, tree)
      else
        let id := idFromTopic crypto topic
        addLocked tree dataDir crypto crdt identity created running id
          (formats.addedJson ⟨id, topic⟩ path role now)

def cmdShareAddDirect (keys : KeyBytes crypto) (fresh : crypto.PrivateKey) (now : Timestamp)
    (cwd : Except SyncFailure RawPath) (topic : String) (path : Bytes) (role : ShareRole) :
    Except SyncFailure Unit × FileTree :=
  match directPath cwd path with
  | .error failure => (.error failure, tree)
  | .ok path =>
      if role = .seed ∧ tree.existsAt path = false then
        (.error [.about "seed path does not exist:" path], tree)
      else
        let config : StoredConfig := ⟨⟨idFromTopic crypto topic, topic⟩, path, role, now⟩
        match config.save formats.toFileFormats tree dataDir with
        | (.error failure, tree) => (.error failure, tree)
        | (.ok (), tree) =>
            match loadOrCreateIdentity tree keys dataDir fresh with
            | (.error failure, tree) => (.error failure, tree)
            | (.ok identity, tree) =>
                match (AuthState.empty : AuthState crdt).createGroup crypto identity
                    (groupIdFor crypto config.id) with
                | (.error failure, _) => (.error (failure.map .text), tree)
                | (.ok _, authState) => saveAuth tree (shareDir dataDir config.id) authState.ops

end Add

section Join

variable (formats : FileFormats) {crdt : GroupCrdt}

/-- What a join leaves on the disk, with the texts of its two refusals. -/
def joinFiles (applying notListed : String) (identity : crypto.PrivateKey) (ticket : Ticket)
    (path : RawPath) (now : Timestamp) : Except SyncFailure (AuthState crdt) × FileTree :=
  let dir := shareDir dataDir ticket.shareId
  match tree.createDirAllAt path with
  | (.error error, tree) => (.error [.cause error], tree)
  | (.ok (), tree) =>
      let config : StoredConfig := ⟨⟨ticket.shareId, ticket.topic⟩, path, ticket.role, now⟩
      match config.save formats tree dataDir with
      | (.error failure, tree) => (.error failure, tree)
      | (.ok (), tree) =>
          match installKeyring tree dir ticket.keys with
          | (.error failure, tree) => (.error failure, tree)
          | (.ok (), tree) =>
              match (AuthState.empty : AuthState crdt).replay crypto
                  (applying ++ ticket.shareId) ticket.authLog with
              | .error failure => (.error (failure.map .text), tree)
              | .ok authState =>
                  if !authState.isMember (groupIdFor crypto ticket.shareId)
                      (crypto.publicKey identity) then (.error [.text notListed], tree)
                  else
                    match saveAuth tree dir authState.ops with
                    | (.error failure, tree) => (.error failure, tree)
                    | (.ok (), tree) => (.ok authState, tree)

theorem joinOnDisk_eq (identity : crypto.PrivateKey) (ticket : Ticket) (path : RawPath)
    (now : Timestamp) :
    (joinOnDisk formats tree dataDir crypto identity ticket path now :
        Except SyncFailure (AuthState crdt) × FileTree) =
      joinFiles tree dataDir crypto formats "applying auth op while joining "
        "ticket's auth log does not list us as a member" identity ticket path now := rfl

def cmdShareJoinDirect (crdt : GroupCrdt) (keys : KeyBytes crypto) (fresh : crypto.PrivateKey)
    (now : Timestamp) (cwd : Except SyncFailure RawPath) (decoded : Except Failure Ticket)
    (path : Bytes) : Except SyncFailure (AuthState crdt) × FileTree :=
  match decoded with
  | .error failure => (.error (failure.map .text), tree)
  | .ok ticket =>
      match loadAll formats tree dataDir with
      | .error failure => (.error failure, tree)
      | .ok configs =>
          if configs.any (·.id = ticket.shareId) then
            (.error [.text ("share " ++ ticket.shareId ++
              " is already configured locally; remove it first if you want to re-join")], tree)
          else
            match loadOrCreateIdentity tree keys dataDir fresh with
            | (.error failure, tree) => (.error failure, tree)
            | (.ok identity, tree) =>
                let me := crypto.publicKey identity
                if ticket.inviteePubkey ≠ me then
                  (.error [.text ("ticket was issued for a different public key (expected " ++
                    toHex ticket.inviteePubkey ++ ", this peer is " ++ toHex me ++
                    "); ask the inviter to re-run `share invite` with the correct key")], tree)
                else
                  match directPath cwd path with
                  | .error failure => (.error failure, tree)
                  | .ok path =>
                      joinFiles tree dataDir crypto formats
                        "applying auth log op while joining share "
                        "ticket's auth log does not list us as a member; refusing to join"
                        identity ticket path now

end Join

section Sample

open Reference

def sampleAddFormats : AddFormats where
  toFileFormats := sampleFormats
  addedJson config path _ _ := sampleFormats.configJson ⟨config, splitSlash path, .sync, 0⟩

def sampleKeys : KeyBytes cleartext where
  fromBytes raw := if usable : raw ≠ offCurve then ⟨raw, usable⟩ else founder
  asBytes key := key.val
  fromBytes_asBytes key := dif_pos key.property

/-- A share whose id is the one of its topic. -/
def teamDocs : StoredConfig :=
  ⟨⟨idFromTopic cleartext "team docs", "team docs"⟩, [ascii "home", ascii "docs"], .sync, 0⟩

end Sample

end Peerdup.Daemon.ShareFiles
