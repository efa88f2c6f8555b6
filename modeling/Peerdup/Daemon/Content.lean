import Peerdup.Daemon.Announce
import Peerdup.Foundation.FileTree
import Peerdup.Foundation.Utf8
import Peerdup.Rotation

/-!
# The content of a share root

Walking a share, hashing what is there, and removing what a version has dropped. The
daemon's own directory is no content.
-/

set_option autoImplicit false

namespace Peerdup.Daemon

open Foundation

/-- One context of an error. A path stands for its `Debug` text. -/
inductive Context where
  | text (message : String)
  | about (message : String) (path : Path)
  | moving (message : String) (source target : Path)
  | cause (error : IoError)
deriving DecidableEq

abbrev SyncFailure := List Context

/-- `PEERDUP_DIR_NAME`. -/
def peerdupDirName : Name := ascii ".peerdup"

/-- `collect_files` below a directory at most `fuel` levels deep. -/
def collectBelow (tree : FileTree) (root : Path) :
    Nat → Path → List Path → Except SyncFailure (List Path)
  | 0, _, out => .ok out
  | fuel + 1, dir, out =>
      match tree.readDir (root ++ dir) with
      | .error error => .error [.about "read_dir" (root ++ dir), .cause error]
      | .ok entries =>
          entries.foldlM (fun out (fileName, fileType) =>
            -- That directory holds the ciphertext shadow, not user content.
            if fileName = peerdupDirName then .ok out
            else match fileType with
              | .directory => collectBelow tree root fuel (dir ++ [fileName]) out
              | .file _ => .ok (out ++ [dir ++ [fileName]])) out

def maxDepth (tree : FileTree) : Nat := (tree.entries.map fun entry => entry.1.length).foldr max 0

def collectFiles (tree : FileTree) (root : Path) : Except SyncFailure (List Path) :=
  collectBelow tree root (maxDepth tree + 1) [] []

def hasContent (tree : FileTree) (root : Path) : Except SyncFailure Bool :=
  match tree.readDir root with
  | .error error => .error [.about "read_dir" root, .cause error]
  | .ok entries => .ok !entries.isEmpty

/-- What one file adds to the version hash. -/
def fileRecord (crypto : Primitives) (rel : Path) (content : Bytes) : Bytes :=
  let bytes := lossy (pathBytes rel)
  Codec.littleEndian 8 bytes.length ++ bytes ++ (crypto.blake3 content).bytes

/-- What `snapshot_content` feeds to its top hasher, path by path. -/
def fileRecords (crypto : Primitives) (tree : FileTree) (root : Path) :
    List Path → Except SyncFailure Bytes
  | [] => .ok []
  | rel :: paths =>
      match tree.read (root ++ rel) with
      | .error error => .error [.about "opening" (root ++ rel), .cause error]
      | .ok content =>
          match fileRecords crypto tree root paths with
          | .error failure => .error failure
          | .ok records => .ok (fileRecord crypto rel content ++ records)

def snapshotContent (crypto : Primitives) (tree : FileTree) (root : Path) :
    Except SyncFailure (String × Manifest) :=
  match collectFiles tree root with
  | .error failure => .error failure
  | .ok paths =>
      let paths := sortPaths paths
      match fileRecords crypto tree root paths with
      | .error failure => .error failure
      | .ok records =>
          .ok (Rotation.toHex (crypto.blake3 records),
            paths.foldl (fun manifest rel => insertPath rel manifest) [])

/-- Files of the old manifest that the new one lacks. A removal that fails is skipped. -/
def deleteOrphans (tree : FileTree) (root : Path) (old new : Manifest) : FileTree :=
  (old.filter (· ∉ new)).foldl (fun tree rel =>
    match tree.removeFile (root ++ rel) with
    | .ok tree => tree
    | .error _ => tree) tree

end Peerdup.Daemon
