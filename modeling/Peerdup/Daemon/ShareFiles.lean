import Mathlib.Data.List.DropRight
import Peerdup.Daemon.Content
import Peerdup.Daemon.ShareNetwork
import Peerdup.Foundation.RawPathProperties

/-!
# Shares in the data directory

`share_remove` and `share_join` on the whole disk. The id comes from the bus or out of a
ticket and is joined into paths as it is.
-/

set_option autoImplicit false

namespace Peerdup.Daemon.ShareFiles

open Foundation Auth Crypto Rotation

/-- `share.json`. -/
structure StoredConfig extends ShareConfig where
  rootPath : RawPath
  role : ShareRole
  createdAt : Timestamp

/-- The JSON library, on `share.json`. It writes no path that is not text. -/
structure FileFormats where
  configJson : StoredConfig → Except String Bytes
  parseConfig : Bytes → Option StoredConfig

def idBytes (id : String) : Bytes := id.toUTF8.data.toList

def sharesDir (dataDir : RawPath) : RawPath := dataDir ++ [ascii "shares"]

def shareDir (dataDir : RawPath) (id : String) : RawPath := (sharesDir dataDir).join (idBytes id)

variable (formats : FileFormats) (tree : FileTree) (dataDir : RawPath)

def loadEntry (out : List StoredConfig) : Name × Node → Except SyncFailure (List StoredConfig)
  | (_, .file _) => .ok out
  | (name, .directory) =>
      let path := sharesDir dataDir ++ [name, ascii "share.json"]
      if !tree.existsAt path then .ok out
      else
        match tree.readAt path with
        | .error error => .error [.about "reading" path, .cause error]
        | .ok bytes =>
            match formats.parseConfig bytes with
            | none => .error [.about "parsing" path]
            | some config => .ok (out ++ [config])

def loadAll : Except SyncFailure (List StoredConfig) :=
  let dir := sharesDir dataDir
  if !tree.existsAt dir then .ok []
  else
    match tree.readDirAt dir with
    | .error error => .error [.about "read_dir" dir, .cause error]
    | .ok entries =>
        match entries.foldlM (loadEntry formats tree dataDir) [] with
        | .error failure => .error failure
        | .ok configs => .ok (configs.insertionSort fun left right => left.id ≤ right.id)

/-- `share::remove`. -/
def remove (id : String) : Except SyncFailure Unit × FileTree :=
  let dir := shareDir dataDir id
  if !tree.existsAt dir then (.error [.text ("share " ++ id ++ " not found")], tree)
  else
    match tree.removeDirAllAt dir with
    | (.error error, tree) => (.error [.about "remove_dir_all" dir, .cause error], tree)
    | (.ok (), tree) => (.ok (), tree)

/-- The shadow below the root the share had. A failure is only a warning. -/
def removeShadow (tree : FileTree) : Option RawPath → FileTree
  | none => tree
  | some root =>
      let shadowParent := root ++ [peerdupDirName]
      if tree.existsAt shadowParent then (tree.removeDirAllAt shadowParent).2 else tree

def rootOf (configs : List StoredConfig) (id : String) : Option RawPath :=
  (configs.find? (·.id = id)).map (·.rootPath)

def cmdShareRemoveDirect (id : String) : Except SyncFailure Unit × FileTree :=
  match loadAll formats tree dataDir with
  | .error failure => (.error failure, tree)
  | .ok configs =>
      match remove tree dataDir id with
      | (.error failure, tree) => (.error failure, tree)
      | (.ok (), tree) => (.ok (), removeShadow tree (rootOf configs id))

/-- The same over D-Bus, which also ends the share's task. -/
def shareRemove (running : List String) (id : String) :
    Except SyncFailure Unit × List String × FileTree :=
  match loadAll formats tree dataDir with
  | .error failure => (.error failure, running, tree)
  | .ok configs =>
      let running := running.filter (· ≠ id)
      match remove tree dataDir id with
      | (.error failure, tree) => (.error failure, running, tree)
      | (.ok (), tree) => (.ok (), running, removeShadow tree (rootOf configs id))

def StoredConfig.save (config : StoredConfig) : Except SyncFailure Unit × FileTree :=
  let dir := shareDir dataDir config.id
  match tree.createDirAllAt dir with
  | (.error error, tree) => (.error [.about "create_dir_all" dir, .cause error], tree)
  | (.ok (), tree) =>
      match formats.configJson config with
      | .error reason => (.error [.text reason], tree)
      | .ok json =>
          match tree.writeAt dir (ascii "share.json") json with
          | .error error => (.error [.about "write share.json in" dir, .cause error], tree)
          | .ok tree => (.ok (), tree)

/-- A file that is written beside its target and renamed, in a directory that is created if
need be. -/
def saveFile (tree : FileTree) (dir : RawPath) (tmp name : Name) (content : Bytes) :
    Except SyncFailure Unit × FileTree :=
  -- `parent()` ends before the dots that close the directory's path.
  let parent := dir.rdropWhile RawPath.isDot
  match tree.createDirAllAt parent with
  | (.error error, tree) => (.error [.about "create_dir_all" parent, .cause error], tree)
  | (.ok (), tree) =>
      match tree.writeAt dir tmp content with
      | .error error => (.error [.about "writing" (dir ++ [tmp]), .cause error], tree)
      | .ok tree =>
          match tree.renameAt dir tmp name with
          | .error error =>
              (.error [.moving "renaming" (dir ++ [tmp]) (dir ++ [name]), .cause error], tree)
          | .ok tree => (.ok (), tree)

def saveKeyring (dir : RawPath) (ring : KeyRing) : Except SyncFailure Unit × FileTree :=
  saveFile tree dir (ascii "keys.bin.tmp") (ascii "keys.bin") ring.fileBytes

def saveAuth (dir : RawPath) (ops : List SignedOp) : Except SyncFailure Unit × FileTree :=
  saveFile tree dir (ascii "auth.log.tmp") (ascii "auth.log") ((Codec.seq signedOpCodec).encode ops)

def installKeyring (dir : RawPath) (keys : List Key) : Except SyncFailure Unit × FileTree :=
  let path := dir ++ [ascii "keys.bin"]
  if tree.existsAt path then
    (.error [.about "keys.bin already exists; refusing to overwrite" path], tree)
  else if empty : keys = [] then (.error [.text "cannot install an empty keyring"], tree)
  else saveKeyring tree dir ⟨keys, empty⟩

section Join

variable {crdt : GroupCrdt} (crypto : Primitives) (identity : crypto.PrivateKey)

/-- What a join leaves on the disk, step by step. -/
def joinOnDisk (ticket : Ticket) (path : RawPath) (now : Timestamp) :
    Except SyncFailure (AuthState crdt) × FileTree :=
  let dir := shareDir dataDir ticket.shareId
  match tree.createDirAllAt path with
  | (.error error, tree) => (.error [.cause error], tree)
  | (.ok (), tree) =>
      let config : StoredConfig := ⟨⟨ticket.shareId, ticket.topic⟩, path, ticket.role, now⟩
      match config.save formats tree dataDir with
      | (.error failure, tree) => (.error failure, tree)
      | (.ok (), tree) =>
          match installKeyring tree dir ticket.keys with
          | (.error failure, tree) => (.error failure, tree)
          | (.ok (), tree) =>
              match (AuthState.empty : AuthState crdt).replay crypto
                  ("applying auth op while joining " ++ ticket.shareId) ticket.authLog with
              | .error failure => (.error (failure.map .text), tree)
              | .ok authState =>
                  if !authState.isMember (groupIdFor crypto ticket.shareId)
                      (crypto.publicKey identity) then
                    (.error [.text "ticket's auth log does not list us as a member"], tree)
                  else
                    match saveAuth tree dir authState.ops with
                    | (.error failure, tree) => (.error failure, tree)
                    | (.ok (), tree) => (.ok authState, tree)

/-- The join path, from the working directory if it is relative. -/
def absolutePath (cwd : Except SyncFailure RawPath) (path : Bytes) : Except SyncFailure RawPath :=
  if path.head? = some 0x2F then .ok (RawPath.join [] path)
  else
    match cwd with
    | .error failure => .error (.text "resolving cwd for relative join path" :: failure)
    | .ok cwd => .ok (cwd.join path)

def shareJoin (crdt : GroupCrdt) (created : Key) (now : Timestamp) (running : List String)
    (cwd : Except SyncFailure RawPath) (decoded : Except Failure Ticket) (path : Bytes) :
    Except SyncFailure String × List String × FileTree :=
  match decoded with
  | .error failure => (.error (failure.map .text), running, tree)
  | .ok ticket =>
      match absolutePath cwd path with
      | .error failure => (.error failure, running, tree)
      | .ok path =>
          let me := crypto.publicKey identity
          if ticket.inviteePubkey ≠ me then
            (.error [.text ("ticket was issued for a different public key (expected " ++
              toHex ticket.inviteePubkey ++ ", this daemon is " ++ toHex me ++ ")")], running, tree)
          else if ticket.shareId ∈ running then
            (.error [.text ("share " ++ ticket.shareId ++ " is already running")], running, tree)
          else
            match loadAll formats tree dataDir with
            | .error failure => (.error failure, running, tree)
            | .ok configs =>
                if configs.any (·.id = ticket.shareId) then
                  (.error [.text ("share " ++ ticket.shareId ++ " is already configured locally")],
                    running, tree)
                else
                  match joinOnDisk formats tree dataDir crypto identity ticket path now with
                  | (.error failure, tree) => (.error failure, running, tree)
                  | (.ok (authState : AuthState crdt), tree) =>
                      let dir : ShareDir :=
                        ⟨some authState.ops, some (ticket.keys.flatMap Octets.bytes), []⟩
                      -- The task starts from the files just written and writes none here.
                      match (spawnShareTask crypto created dir : Except Failure (ShareLoop crdt)) with
                      | .error failure => (.error (failure.map .text), running, tree)
                      | .ok _ => (.ok ticket.shareId, running ++ [ticket.shareId], tree)

end Join

/-- Where a share's files belong: one component below the shares directory. -/
def InShareDir (dataDir : RawPath) (id : String) (path : Path) : Prop :=
  legalName (idBytes id) = true ∧
    RawPath.resolve [] dataDir ++ [ascii "shares", idBytes id] <+: path

def InShadow (root : Option RawPath) (path : Path) : Prop :=
  ∃ given, root = some given ∧ RawPath.resolve [] given ++ [peerdupDirName] <+: path

/-- The root the configured share of this id has, if there is one. -/
def configuredRoot (id : String) : Option RawPath :=
  match loadAll formats tree dataDir with
  | .error _ => none
  | .ok configs => rootOf configs id

/-- A removal changes nothing but the share's own directory and shadow, and nothing at all
when no such share is configured. -/
structure RemovesOwn (before : FileTree) (dataDir : RawPath) (id : String)
    (result : Except SyncFailure Unit) (after : FileTree) : Prop where
  inside : ∀ path, after.look path ≠ before.look path →
    InShareDir dataDir id path ∨ InShadow (configuredRoot formats before dataDir id) path
  configured : configuredRoot formats before dataDir id = none →
    (∃ failure, result = .error failure) ∧ ∀ path, after.look path = before.look path

/-- The configuration cannot be read, or the id leads to nothing that can be deleted, or it is
a configured share's and one component, or leads into that share's own shadow. -/
def RemovalScoped (id : String) : Prop :=
  (∃ failure, loadAll formats tree dataDir = .error failure) ∨
    (∀ path, ¬ tree.Removes (shareDir dataDir id) path) ∨
    (configuredRoot formats tree dataDir id).isSome = true ∧
      (legalName (idBytes id) = true ∨
        ∀ path, tree.Removes (shareDir dataDir id) path →
          InShadow (configuredRoot formats tree dataDir id) path)

/-- A directory that was missing on the way to a given path. -/
def CreatedOnTheWay (before after : FileTree) (raw : RawPath) (path : Path) : Prop :=
  before.look path = none ∧ after.look path = some .directory ∧
    ∃ front, front <+: raw ∧ RawPath.resolve [] front = path

/-- A join changes nothing but the share's own directory, besides creating it and the join
path. -/
def JoinsOwn (before : FileTree) (dataDir : RawPath) (id : String) (joinPath : RawPath)
    (after : FileTree) : Prop :=
  ∀ path, after.look path ≠ before.look path →
    InShareDir dataDir id path ∨
      legalName (idBytes id) = true ∧ CreatedOnTheWay before after (shareDir dataDir id) path ∨
      CreatedOnTheWay before after joinPath path

end Peerdup.Daemon.ShareFiles
