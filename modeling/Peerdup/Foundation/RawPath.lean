import Peerdup.Foundation.FileTree

/-!
# Paths as they are given

A path with its empty, `.` and `..` components still in it, as an operating system takes
it. Every component that is passed through has to be a directory.
-/

set_option autoImplicit false

namespace Peerdup.Foundation

/-- The components of an absolute path, as given. -/
abbrev RawPath := List Name

def splitSlash : Bytes → List Name
  | [] => [[]]
  | byte :: text =>
      if byte = 0x2F then [] :: splitSlash text
      else
        match splitSlash text with
        | [] => [[byte]]
        | name :: names => (byte :: name) :: names

namespace RawPath

/-- `Path::join`. An absolute path replaces the base. -/
def join (base : RawPath) (text : Bytes) : RawPath :=
  match text with
  | 0x2F :: rest => splitSlash rest
  | _ => base ++ splitSlash text

def isDot (name : Name) : Bool := name = [] || name = ascii "."

def isUp (name : Name) : Bool := name = ascii ".."

/-- Where a path leads from a directory when everything on the way is there. -/
def resolve (dir : Path) : RawPath → Path
  | [] => dir
  | name :: raw =>
      if isDot name then resolve dir raw
      else if isUp name then resolve dir.dropLast raw
      else resolve (dir ++ [name]) raw

/-- The last component that is not empty, which decides what `rmdir` accepts. -/
def lastGiven (raw : RawPath) : Option Name := (raw.filter (· ≠ [])).getLast?

end RawPath

namespace FileTree

open RawPath

variable (tree : FileTree)

/-- Follow a path. The last component may be missing. -/
def walk (dir : Path) : RawPath → Option Path
  | [] => some dir
  | name :: raw =>
      if tree.look dir ≠ some .directory then none
      else if isDot name then walk dir raw
      else if isUp name then walk dir.dropLast raw
      else walk (dir ++ [name]) raw

/-- Why a path cannot be followed: where it stops, or a zero byte anywhere in it. -/
def lost (raw : RawPath) : IoError :=
  if raw.any (·.contains 0x00) then .invalidInput else stop [] raw
where
  stop (dir : Path) : RawPath → IoError
    | [] => tree.unresolved dir
    | name :: raw =>
        if tree.look dir ≠ some .directory then tree.unresolved dir
        else if isDot name then stop dir raw
        else if isUp name then stop dir.dropLast raw
        else stop (dir ++ [name]) raw

def existsAt (raw : RawPath) : Bool :=
  match tree.walk [] raw with
  | none => false
  | some path => (tree.look path).isSome

def readAt (raw : RawPath) : Except IoError Bytes :=
  match tree.walk [] raw with
  | none => .error (tree.lost raw)
  | some path => tree.read path

def readDirAt (raw : RawPath) : Except IoError (List (Name × Node)) :=
  match tree.walk [] raw with
  | none => .error (tree.lost raw)
  | some path => tree.readDir path

def writeAt (raw : RawPath) (name : Name) (content : Bytes) : Except IoError FileTree :=
  match tree.walk [] raw with
  | none => .error (tree.lost raw)
  | some dir => tree.write (dir ++ [name]) content

/-- Both names are in the same directory. -/
def renameAt (raw : RawPath) (source target : Name) : Except IoError FileTree :=
  match tree.walk [] raw with
  | none => .error (tree.lost raw)
  | some dir => tree.rename (dir ++ [source]) (dir ++ [target])

/-- A directory before a closing `.` is not created: `mkdir` refuses, and the parent that is
tried next is the one above it. -/
def closesInDot (rest : RawPath) : Bool := rest.all isDot && rest.contains (ascii ".")

/-- `create_dir_all` from a directory on. What was created before a failure stays. -/
def createDirsAt (tree : FileTree) (dir : Path) : RawPath → Except IoError Unit × FileTree
  | [] => (.ok (), tree)
  | name :: raw =>
      if isDot name then createDirsAt tree dir raw
      else if isUp name then createDirsAt tree dir.dropLast raw
      else
        match tree.look (dir ++ [name]) with
        | some .directory => createDirsAt tree (dir ++ [name]) raw
        | some (.file _) =>
            (.error (if raw.all (· = []) then .alreadyExists else .notADirectory), tree)
        | none =>
            if closesInDot raw then (.error .notFound, tree)
            else
              match tree.createDirAll (dir ++ [name]) with
              | .error error => (.error error, tree)
              | .ok tree => createDirsAt tree (dir ++ [name]) raw

def createDirAllAt (raw : RawPath) : Except IoError Unit × FileTree :=
  if raw.any (·.contains 0x00) then (.error .invalidInput, tree)
  else tree.createDirsAt [] raw

/-- Drop every entry that is gone. What is below such an entry is gone too. -/
def prune (gone : Path → Bool)
    (down : ∀ path name, gone path = true → gone (path ++ [name]) = true) : FileTree where
  entries := tree.entries.filter fun entry => !gone entry.1
  distinct := tree.distinct.sublist (List.filter_sublist.map _)
  rootless := by
    intro root
    obtain ⟨entry, listed, same⟩ := List.mem_map.mp root
    exact tree.rootless (List.mem_map.mpr ⟨entry, (List.mem_filter.mp listed).1, same⟩)
  parents := by
    intro above name child member
    obtain ⟨listed, kept⟩ := List.mem_filter.mp member
    refine (tree.parents above name child listed).imp_right fun parent => ?_
    refine List.mem_filter.mpr ⟨parent, ?_⟩
    cases lost : gone above with
    | false => rfl
    | true =>
        rw [down above name lost] at kept
        cases kept
  legal := by
    intro other member
    obtain ⟨entry, listed, same⟩ := List.mem_map.mp member
    exact tree.legal other (List.mem_map.mpr ⟨entry, (List.mem_filter.mp listed).1, same⟩)

def isBelow (dir path : Path) : Bool := dir.isPrefixOf path && dir ≠ path

def isAt (dir path : Path) : Bool := dir.isPrefixOf path

theorem isBelow_iff {dir path : Path} : isBelow dir path = true ↔ dir <+: path ∧ dir ≠ path := by
  simp [isBelow]

theorem isAt_iff {dir path : Path} : isAt dir path = true ↔ dir <+: path := by
  simp [isAt]

/-- Everything in a directory. -/
def emptied (dir : Path) : FileTree :=
  tree.prune (isBelow dir) (by
    intro path name below
    obtain ⟨above, apart⟩ := isBelow_iff.mp below
    refine isBelow_iff.mpr ⟨above.trans (List.prefix_append _ _), ?_⟩
    intro same
    have shorter := above.length_le
    rw [same, List.length_append, List.length_singleton] at shorter
    omega)

/-- The directory with everything in it. -/
def without (dir : Path) : FileTree :=
  tree.prune (isAt dir) (by
    intro path name at_
    exact isAt_iff.mpr ((isAt_iff.mp at_).trans (List.prefix_append _ _)))

/-- Whether `rmdir` removes a directory that is empty: it takes no `.`, `..` or root, and the
path has to be there still. -/
def removable (dir : Path) (raw : RawPath) : Bool :=
  match raw.lastGiven with
  | none => false
  | some name =>
      !isDot name && !isUp name && dir ≠ [] && ((tree.emptied dir).walk [] raw).isSome

/-- How it ends where it removes nothing. A path that went with the content is no error. -/
def unremoved (dir : Path) (raw : RawPath) : Except IoError Unit :=
  if (tree.emptied dir).walk [] raw = none then .ok ()
  else
    match raw.lastGiven with
    | none => .error .resourceBusy
    | some name => .error (if isDot name then .invalidInput else .directoryNotEmpty)

/-- `remove_dir_all`: the content first, then the directory by the path given. -/
def removeDirAllAt (raw : RawPath) : Except IoError Unit × FileTree :=
  match tree.walk [] raw with
  | none => (.error (tree.lost raw), tree)
  | some dir =>
      match tree.look dir with
      | none => (.error (tree.lost raw), tree)
      | some (.file _) => (.error .notADirectory, tree)
      | some .directory =>
          if tree.removable dir raw then (.ok (), tree.without dir)
          else (tree.unremoved dir raw, tree.emptied dir)

end FileTree

end Peerdup.Foundation
