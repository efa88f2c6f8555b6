import Peerdup.Crypto
import Peerdup.Daemon.Content

/-!
# The ciphertext shadow

Every plaintext file has an encrypted twin below `.peerdup/encrypted`, named with a
`.bin` suffix. Both directions leave the disk as it is when a step fails.
-/

set_option autoImplicit false

namespace Peerdup.Daemon

open Foundation Crypto

def shadowRoot (root : Path) : Path := root ++ [peerdupDirName, ascii "encrypted"]

def binSuffix : Name := ascii ".bin"

/-- `set_file_name` with a suffix added to the last component, where there is one. -/
def withSuffix (path : Path) (suffix : Name) : Path :=
  match path.getLast? with
  | some name => path.dropLast ++ [name ++ suffix]
  | none => path

def shadowFileFor (root rel : Path) : Path := withSuffix (shadowRoot root ++ rel) binSuffix

/-- How the path of a directory can end. -/
inductive Ending where
  | separator
  | dot
deriving DecidableEq

/-- What `set_file_name` makes of a name without its suffix. -/
inductive PlaintextRel where
  | file (rel : Path)
  /-- Nothing or `.`: the path of the directory. -/
  | here (dir : Path) (ending : Ending)
  /-- `..`: a path without a file name. -/
  | up (dir : Path)
deriving DecidableEq

def plaintextRelFromShadowRel (shadowRel : Path) : Option PlaintextRel :=
  match shadowRel.getLast? with
  | none => none
  | some name =>
      if !validUtf8 name || !binSuffix.isSuffixOf name then none
      else
        let stripped := name.take (name.length - binSuffix.length)
        let dir := shadowRel.dropLast
        if stripped = [] then some (.here dir .separator)
        else if stripped = ascii "." then some (.here dir .dot)
        else if stripped = ascii ".." then some (.up dir)
        else some (.file (dir ++ [stripped]))

/-- The components by which paths compare, where the path names something of its own. -/
def PlaintextRel.components : PlaintextRel → Option Path
  | .file rel => some rel
  | .here dir _ => some dir
  | .up _ => none

/-- Encrypt one file of the manifest. -/
def encryptFile (crypto : Primitives) (tree : FileTree) (root : Path) (key : KeyRing) (nonce : Nonce)
    (rel : Path) : Except SyncFailure Unit × FileTree :=
  let shadowPath := shadowFileFor root rel
  match tree.createDirAll shadowPath.dropLast with
  | .error error => (.error [.about "create_dir_all" shadowPath.dropLast, .cause error], tree)
  | .ok tree =>
      match tree.read (root ++ rel) with
      | .error error => (.error [.about "reading plaintext" (root ++ rel), .cause error], tree)
      | .ok plaintext =>
          match encrypt crypto key nonce plaintext with
          | .error failure =>
              (.error (.about "encrypting" rel :: failure.map .text), tree)
          | .ok ciphertext =>
              match tree.write shadowPath ciphertext with
              | .error error =>
                  (.error [.about "writing ciphertext" shadowPath, .cause error], tree)
              | .ok tree => (.ok (), tree)

/-- Each file takes the next nonce. -/
def encryptFiles (crypto : Primitives) (root : Path) (key : KeyRing) (nonces : Nat → Nonce) :
    Manifest → FileTree → Except SyncFailure Unit × FileTree
  | [], tree => (.ok (), tree)
  | rel :: manifest, tree =>
      match encryptFile crypto tree root key (nonces 0) rel with
      | (.error failure, tree) => (.error failure, tree)
      | (.ok (), tree) =>
          encryptFiles crypto root key (fun index => nonces (index + 1)) manifest tree

/-- Remove one ciphertext file that no manifest entry accounts for. -/
def dropShadowOrphan (root : Path) (manifest : Manifest) (tree : FileTree) (shadowRel : Path) :
    FileTree :=
  match plaintextRelFromShadowRel shadowRel with
  | none => tree
  | some rel =>
      if rel.components.any (· ∈ manifest) then tree
      else
        match tree.removeFile (shadowRoot root ++ shadowRel) with
        | .ok tree => tree
        | .error _ => tree

def syncPlaintextToShadow (crypto : Primitives) (tree : FileTree) (root : Path) (key : KeyRing)
    (nonces : Nat → Nonce) (manifest : Manifest) : Except SyncFailure Unit × FileTree :=
  let shadow := shadowRoot root
  match tree.createDirAll shadow with
  | .error error => (.error [.about "create_dir_all" shadow, .cause error], tree)
  | .ok tree =>
      match encryptFiles crypto root key nonces manifest tree with
      | (.error failure, tree) => (.error failure, tree)
      | (.ok (), tree) =>
          match collectFiles tree shadow with
          | .error failure => (.error failure, tree)
          | .ok shadowFiles => (.ok (), shadowFiles.foldl (dropShadowOrphan root manifest) tree)

def tmpSuffix : Name := ascii ".peerdup-tmp"

/-- Write beside the target, then rename onto it. -/
def placeFile (tree : FileTree) (root : Path) (rel : Path) (plaintext : Bytes) :
    Except SyncFailure Path × FileTree :=
  let path := root ++ rel
  match tree.createDirAll path.dropLast with
  | .error error => (.error [.about "create_dir_all" path.dropLast, .cause error], tree)
  | .ok tree =>
      let tmp := withSuffix path tmpSuffix
      match tree.write tmp plaintext with
      | .error error => (.error [.about "writing plaintext" tmp, .cause error], tree)
      | .ok tree =>
          match tree.rename tmp path with
          | .error error => (.error [.moving "renaming" tmp path, .cause error], tree)
          | .ok tree => (.ok rel, tree)

/-- Why no file is renamed onto the path of a directory, in whichever way it ends. -/
def Ending.refusal (ending : Ending) (tree : FileTree) (path : Path) : IoError :=
  match ending, tree.look path with
  | .separator, _ => .notADirectory
  -- The dot is looked up in what is before it.
  | .dot, some .directory => .resourceBusy
  | .dot, some (.file _) => .notADirectory
  | .dot, none => .notFound

/-- The same for a path that ends in a separator or a dot, onto which no file is renamed. -/
def placeHere (tree : FileTree) (root dir : Path) (ending : Ending) (plaintext : Bytes) :
    Except SyncFailure Path × FileTree :=
  let path := root ++ dir
  match tree.createDirAll path.dropLast with
  | .error error => (.error [.about "create_dir_all" path.dropLast, .cause error], tree)
  | .ok tree =>
      if path = [] then (.error [.about "plaintext path has no filename:" path], tree)
      else
        let tmp := withSuffix path tmpSuffix
        match tree.write tmp plaintext with
        | .error error => (.error [.about "writing plaintext" tmp, .cause error], tree)
        | .ok tree => (.error [.moving "renaming" tmp path, .cause (ending.refusal tree path)], tree)

/-- A path that ends in `..` has no file name to write. -/
def placeUp (tree : FileTree) (root dir : Path) : Except SyncFailure Path × FileTree :=
  let parent := root ++ dir
  match tree.createDirAll parent with
  | .error error => (.error [.about "create_dir_all" parent, .cause error], tree)
  | .ok tree =>
      (.error [.about "plaintext path has no filename:" (parent ++ [ascii ".."])], tree)

def place (tree : FileTree) (root : Path) (rel : PlaintextRel) (plaintext : Bytes) :
    Except SyncFailure Path × FileTree :=
  match rel with
  | .file rel => placeFile tree root rel plaintext
  | .here dir ending => placeHere tree root dir ending plaintext
  | .up dir => placeUp tree root dir

/-- Decrypt one shadow file. A file without the suffix is skipped. -/
def decryptFile (crypto : Primitives) (tree : FileTree) (root : Path) (key : KeyRing)
    (shadowRel : Path) : Except SyncFailure (Option Path) × FileTree :=
  match plaintextRelFromShadowRel shadowRel with
  | none => (.ok none, tree)
  | some rel =>
      let shadowPath := shadowRoot root ++ shadowRel
      match tree.read shadowPath with
      | .error error => (.error [.about "reading ciphertext" shadowPath, .cause error], tree)
      | .ok ciphertext =>
          match decrypt crypto key ciphertext with
          | .error failure =>
              (.error (.about "decrypting" shadowRel :: failure.map .text), tree)
          | .ok plaintext =>
              match place tree root rel plaintext with
              | (.error failure, tree) => (.error failure, tree)
              | (.ok rel, tree) => (.ok (some rel), tree)

def decryptFiles (crypto : Primitives) (root : Path) (key : KeyRing) :
    List Path → Manifest → FileTree → Except SyncFailure Manifest × FileTree
  | [], manifest, tree => (.ok manifest, tree)
  | shadowRel :: shadowFiles, manifest, tree =>
      match decryptFile crypto tree root key shadowRel with
      | (.error failure, tree) => (.error failure, tree)
      | (.ok none, tree) => decryptFiles crypto root key shadowFiles manifest tree
      | (.ok (some rel), tree) =>
          decryptFiles crypto root key shadowFiles (insertPath rel manifest) tree

def syncShadowToPlaintext (crypto : Primitives) (tree : FileTree) (root : Path) (key : KeyRing) :
    Except SyncFailure Manifest × FileTree :=
  let shadow := shadowRoot root
  if tree.look shadow = none then (.ok [], tree)
  else
    match collectFiles tree shadow with
    | .error failure => (.error failure, tree)
    | .ok shadowFiles => decryptFiles crypto root key shadowFiles [] tree

end Peerdup.Daemon
