import Mathlib.Data.List.Induction
import Mathlib.Data.List.Infix
import Mathlib.Data.List.Nodup
import Peerdup.Foundation.Path

/-!
# A tree of files and directories

A finite map from absolute paths of legal names to nodes, in which every node's parent is
a directory. The order of the entries is the order in which directories are listed. There are
no symbolic links, no permissions, and no limit on a path beyond the one on its names.
-/

set_option autoImplicit false

namespace Peerdup.Foundation

inductive Node where
  | file (content : Bytes)
  | directory
deriving DecidableEq

inductive IoError where
  | notFound
  | notADirectory
  | isADirectory
  | alreadyExists
  | directoryNotEmpty
  | resourceBusy
  /-- A name with a zero byte. -/
  | invalidInput
  /-- A name that is too long. -/
  | invalidFilename
deriving DecidableEq

structure FileTree where
  entries : List (Path × Node)
  distinct : (entries.map Prod.fst).Nodup
  rootless : [] ∉ entries.map Prod.fst
  parents : ∀ path name node, (path ++ [name], node) ∈ entries →
    path = [] ∨ (path, Node.directory) ∈ entries
  legal : ∀ path ∈ entries.map Prod.fst, path.all legalName = true

namespace FileTree

def look (tree : FileTree) (path : Path) : Option Node :=
  if path = [] then some .directory
  else (tree.entries.find? (·.1 = path)).map Prod.snd

variable {tree : FileTree} {path other : Path} {node : Node}

@[simp] theorem look_nil (tree : FileTree) : tree.look [] = some .directory := rfl

theorem look_eq_some_iff (nonempty : path ≠ []) :
    tree.look path = some node ↔ (path, node) ∈ tree.entries := by
  rw [look, if_neg nonempty, Option.map_eq_some_iff]
  constructor
  · intro ⟨entry, found, same⟩
    have member := List.mem_of_find?_eq_some found
    have key : entry.1 = path := by simpa using List.find?_some found
    rw [← key, ← same]
    exact member
  · intro member
    cases found : tree.entries.find? (·.1 = path) with
    | none =>
        have missed := List.find?_eq_none.mp found _ member
        simp at missed
    | some entry =>
        have key : entry.1 = path := by simpa using List.find?_some found
        have same := List.inj_on_of_nodup_map tree.distinct (List.mem_of_find?_eq_some found) member key
        exact ⟨entry, rfl, by rw [same]⟩

theorem look_legal (found : tree.look path = some node) : path.all legalName = true := by
  by_cases root : path = []
  · rw [root]
    rfl
  · exact tree.legal path (List.mem_map.mpr ⟨_, (look_eq_some_iff root).mp found, rfl⟩)

theorem look_parent {name : Name} (found : tree.look (path ++ [name]) = some node) :
    tree.look path = some .directory := by
  have member := (look_eq_some_iff (by simp)).mp found
  rcases tree.parents path name node member with root | listed
  · rw [root]
    rfl
  · by_cases root : path = []
    · rw [root]
      rfl
    · exact (look_eq_some_iff root).mpr listed

/-- So is every path strictly above it. -/
theorem look_above {rest : Path} (below : rest ≠ []) (found : tree.look (path ++ rest) = some node) :
    tree.look path = some .directory := by
  induction rest using List.reverseRecOn generalizing node with
  | nil => exact absurd rfl below
  | append_singleton rest name ih =>
      rw [← List.append_assoc] at found
      have parent := look_parent found
      by_cases last : rest = []
      · rw [last, List.append_nil] at parent
        exact parent
      · exact ih last parent

theorem directory_above {base : Path} (there : tree.look base = some .directory)
    (above : path <+: base) : tree.look path = some .directory := by
  obtain ⟨rest, rfl⟩ := above
  by_cases last : rest = []
  · rwa [last, List.append_nil] at there
  · exact look_above last there

theorem look_below_none {rest : Path} (absent : tree.look path = none) :
    tree.look (path ++ rest) = none := by
  by_cases here : rest = []
  · rw [here, List.append_nil]
    exact absent
  · cases inside : tree.look (path ++ rest) with
    | none => rfl
    | some node => cases (look_above here inside).symm.trans absent

/-- Put a node where its parent is a directory. A directory is not replaced by a file. -/
def set (tree : FileTree) (path : Path) (node : Node) (nonempty : path ≠ [])
    (parent : tree.look path.dropLast = some .directory)
    (keeps : node = .directory ∨ tree.look path ≠ some .directory)
    (legal : path.all legalName = true) : FileTree where
  entries := tree.entries.filter (·.1 ≠ path) ++ [(path, node)]
  distinct := by
    rw [List.map_append, List.nodup_append]
    refine ⟨tree.distinct.sublist (List.filter_sublist.map _), List.nodup_singleton _, ?_⟩
    intro kept member new last
    obtain ⟨entry, listed, rfl⟩ := List.mem_map.mp member
    have apart : entry.1 ≠ path := by simpa using (List.mem_filter.mp listed).2
    rw [List.mem_singleton.mp last]
    exact apart
  rootless := by
    rw [List.map_append, List.mem_append]
    intro either
    rcases either with old | new
    · obtain ⟨entry, listed, root⟩ := List.mem_map.mp old
      exact tree.rootless (List.mem_map.mpr ⟨entry, (List.mem_filter.mp listed).1, root⟩)
    · exact nonempty (List.mem_singleton.mp new).symm
  parents := by
    intro above name child member
    have directory : above = [] ∨ tree.look above = some .directory := by
      rcases List.mem_append.mp member with old | new
      · have listed := (List.mem_filter.mp old).1
        exact .inr (look_parent ((look_eq_some_iff (by simp)).mpr listed))
      · obtain ⟨same, _⟩ := Prod.mk.inj (List.mem_singleton.mp new)
        rw [← same, List.dropLast_concat] at parent
        exact .inr parent
    by_cases root : above = []
    · exact .inl root
    refine .inr ?_
    have found := directory.resolve_left root
    by_cases here : above = path
    · have kind : node = .directory := keeps.resolve_right fun other => other (here ▸ found)
      rw [here, kind]
      exact List.mem_append_right _ (List.mem_singleton_self _)
    · have listed := (look_eq_some_iff root).mp found
      exact List.mem_append_left _ (List.mem_filter.mpr ⟨listed, by simpa using here⟩)
  legal := by
    intro other member
    rw [List.map_append] at member
    rcases List.mem_append.mp member with old | new
    · obtain ⟨entry, listed, same⟩ := List.mem_map.mp old
      exact tree.legal other (List.mem_map.mpr ⟨entry, (List.mem_filter.mp listed).1, same⟩)
    · rw [List.mem_singleton.mp new]
      exact legal

@[simp] theorem look_set (nonempty : path ≠ []) (parent : tree.look path.dropLast = some .directory)
    (keeps : node = .directory ∨ tree.look path ≠ some .directory)
    (legal : path.all legalName = true) (other : Path) :
    (tree.set path node nonempty parent keeps legal).look other =
      if other = path then some node else tree.look other := by
  by_cases root : other = []
  · rw [root, if_neg fun same => nonempty same.symm]
    rfl
  ext found
  rw [look_eq_some_iff root]
  simp only [set, List.mem_append, List.mem_filter, List.mem_singleton, Prod.mk.injEq, ne_eq,
    decide_not, Bool.not_eq_eq_eq_not, Bool.not_true, decide_eq_false_iff_not]
  by_cases here : other = path
  · simp [here, eq_comm]
  · rw [if_neg here, look_eq_some_iff root]
    simp [here]

/-- Remove a file. -/
def erase (tree : FileTree) (path : Path) (leaf : tree.look path ≠ some .directory) : FileTree where
  entries := tree.entries.filter (·.1 ≠ path)
  distinct := tree.distinct.sublist (List.filter_sublist.map _)
  rootless := by
    intro root
    obtain ⟨entry, listed, same⟩ := List.mem_map.mp root
    exact tree.rootless (List.mem_map.mpr ⟨entry, (List.mem_filter.mp listed).1, same⟩)
  parents := by
    intro above name child member
    have listed := (List.mem_filter.mp member).1
    rcases tree.parents above name child listed with root | parent
    · exact .inl root
    by_cases root : above = []
    · exact .inl root
    have apart : above ≠ path := by
      intro here
      exact leaf (here ▸ (look_eq_some_iff root).mpr parent)
    exact .inr (List.mem_filter.mpr ⟨parent, by simpa using apart⟩)
  legal := by
    intro other member
    obtain ⟨entry, listed, same⟩ := List.mem_map.mp member
    exact tree.legal other (List.mem_map.mpr ⟨entry, (List.mem_filter.mp listed).1, same⟩)

@[simp] theorem look_erase (leaf : tree.look path ≠ some .directory) (other : Path) :
    (tree.erase path leaf).look other = if other = path then none else tree.look other := by
  by_cases root : other = []
  · have apart : ¬ ([] : Path) = path := fun same => leaf (same ▸ rfl)
    rw [root, if_neg apart]
    rfl
  ext found
  rw [look_eq_some_iff root]
  simp only [erase, List.mem_filter, ne_eq, decide_not, Bool.not_eq_eq_eq_not, Bool.not_true,
    decide_eq_false_iff_not]
  by_cases here : other = path
  · simp [here]
  · rw [if_neg here, look_eq_some_iff root]
    simp [here]

section Operations

def isFile (tree : FileTree) (path : Path) : Bool :=
  match tree.look path with
  | some (.file _) => true
  | _ => false

/-- Why nothing can have the name. -/
def refused (name : Name) : IoError :=
  if nameMax < name.length then .invalidFilename else .invalidInput

/-- Why a path cannot be resolved: it has a zero byte, or a component of it is a file, or the
first one that is missing has too long a name, or it is just missing. -/
def unresolved (tree : FileTree) (path : Path) : IoError :=
  let missing := (path.inits.find? fun above => (tree.look above).isNone).getD []
  if path.any (·.contains 0x00) then .invalidInput
  else if path.inits.any tree.isFile then .notADirectory
  else if nameMax < (missing.getLastD []).length then .invalidFilename
  else .notFound

def read (tree : FileTree) (path : Path) : Except IoError Bytes :=
  match tree.look path with
  | some (.file content) => .ok content
  | some .directory => .error .isADirectory
  | none => .error (tree.unresolved path)

/-- The children of a directory, as `read_dir` lists them. -/
def children (tree : FileTree) (path : Path) : List (Name × Node) :=
  (tree.entries.filter (·.1.dropLast = path)).map fun (child, node) => (child.getLastD [], node)

def readDir (tree : FileTree) (path : Path) : Except IoError (List (Name × Node)) :=
  match tree.look path with
  | some .directory => .ok (tree.children path)
  | some (.file _) => .error .notADirectory
  | none => .error (tree.unresolved path)

def write (tree : FileTree) (path : Path) (content : Bytes) : Except IoError FileTree :=
  if directory : tree.look path = some .directory then .error .isADirectory
  else if parent : tree.look path.dropLast = some .directory then
    if legal : path.all legalName = true then
      .ok (tree.set path (.file content) (fun root => directory (root ▸ rfl)) parent
        (.inr directory) legal)
    else .error (refused (path.getLastD []))
  else .error (tree.unresolved path)

/-- Create the directories below one that exists, outermost first. -/
def makeDirs (tree : FileTree) (base : Path) (found : tree.look base = some .directory) :
    List Name → Except IoError FileTree
  | [] => .ok tree
  | name :: names =>
      match child : tree.look (base ++ [name]) with
      | some .directory => makeDirs tree (base ++ [name]) child names
      | some (.file _) => .error (if names = [] then .alreadyExists else .notADirectory)
      | none =>
          if legal : legalName name = true then
            makeDirs
              (tree.set (base ++ [name]) .directory (by simp) (by simpa using found) (.inl rfl)
                (by simpa [legal] using look_legal found))
              (base ++ [name]) (by simp) names
          else .error (refused name)

def createDirAll (tree : FileTree) (path : Path) : Except IoError FileTree :=
  tree.makeDirs [] tree.look_nil path

def removeFile (tree : FileTree) (path : Path) : Except IoError FileTree :=
  if directory : tree.look path = some .directory then .error .isADirectory
  else if tree.look path = none then .error (tree.unresolved path)
  else .ok (tree.erase path directory)

/-- Rename a file onto a path that holds a file or nothing. -/
def rename (tree : FileTree) (source target : Path) : Except IoError FileTree :=
  match tree.look source with
  | some (.file content) =>
      match tree.write target content with
      | .error error => .error error
      | .ok renamed =>
          if source = target then .ok tree
          else if leaf : renamed.look source = some .directory then .error .isADirectory
          else .ok (renamed.erase source leaf)
  | some .directory => .error .isADirectory
  | none => .error (tree.unresolved source)

variable {after : FileTree} {content : Bytes}

theorem isFile_iff : tree.isFile path = true ↔ ∃ content, tree.look path = some (.file content) := by
  unfold isFile
  split
  · next content found => simp [found]
  · next other =>
      simp only [Bool.false_eq_true, false_iff]
      exact fun ⟨content, found⟩ => other content found

theorem read_ok_iff :
    tree.read path = .ok content ↔ tree.look path = some (.file content) := by
  unfold read
  split
  · next held => simp [held]
  · next held => simp [held]
  · next held => simp [held]

theorem child_path {entry : Path × Node} (listed : entry ∈ tree.entries)
    (above : entry.1.dropLast = path) : path ++ [entry.1.getLastD []] = entry.1 := by
  have nonempty : entry.1 ≠ [] := by
    intro root
    exact tree.rootless (root ▸ List.mem_map.mpr ⟨entry, listed, rfl⟩)
  rw [← above, List.getLastD_eq_getLast?, List.getLast?_eq_some_getLast nonempty]
  exact List.dropLast_append_getLast nonempty

theorem mem_children {name : Name} :
    (name, node) ∈ tree.children path ↔ tree.look (path ++ [name]) = some node := by
  rw [look_eq_some_iff (by simp), children, List.mem_map]
  constructor
  · intro ⟨entry, listed, same⟩
    obtain ⟨member, above⟩ := List.mem_filter.mp listed
    obtain ⟨last, kind⟩ := Prod.mk.inj same
    rw [← last, child_path member (by simpa using above), ← kind]
    exact member
  · intro listed
    exact ⟨_, List.mem_filter.mpr ⟨listed, by simp⟩, by simp⟩

theorem children_nodup (tree : FileTree) (path : Path) :
    ((tree.children path).map Prod.fst).Nodup := by
  have entries : (tree.entries.filter (·.1.dropLast = path)).Nodup :=
    (List.Nodup.of_map _ tree.distinct).filter _
  rw [children, List.map_map]
  refine entries.map_on ?_
  intro left leftListed right rightListed same
  obtain ⟨leftMember, leftAbove⟩ := List.mem_filter.mp leftListed
  obtain ⟨rightMember, rightAbove⟩ := List.mem_filter.mp rightListed
  have leftPath := child_path leftMember (by simpa using leftAbove)
  have rightPath := child_path rightMember (by simpa using rightAbove)
  have last : left.1.getLastD [] = right.1.getLastD [] := same
  rw [last, rightPath] at leftPath
  exact List.inj_on_of_nodup_map tree.distinct leftMember rightMember leftPath.symm

theorem write_ok_iff : (∃ after, tree.write path content = .ok after) ↔
    tree.look path ≠ some .directory ∧ tree.look path.dropLast = some .directory ∧
      path.all legalName = true := by
  unfold write
  by_cases directory : tree.look path = some .directory
  · simp [directory]
  by_cases parent : tree.look path.dropLast = some .directory
  swap
  · simp [directory, parent]
  by_cases legal : path.all legalName = true
  · rw [dif_neg directory, dif_pos parent, dif_pos legal]
    simp [directory, parent, legal]
  · rw [dif_neg directory, dif_pos parent, dif_neg legal]
    simp [legal]

theorem look_write (written : tree.write path content = .ok after) (other : Path) :
    after.look other = if other = path then some (.file content) else tree.look other := by
  unfold write at written
  split at written
  · cases written
  split at written
  swap
  · cases written
  split at written
  · cases written
    rw [look_set]
  · cases written

theorem between_cons (base other : Path) (name : Name) (names : List Name) :
    base <+: other ∧ other <+: base ++ name :: names ↔
      other = base ∨ base ++ [name] <+: other ∧ other <+: base ++ [name] ++ names := by
  constructor
  · intro ⟨⟨rest, same⟩, below⟩
    subst same
    rw [List.prefix_append_right_inj] at below
    rcases List.prefix_cons_iff.mp below with empty | ⟨deeper, same, inside⟩
    · exact .inl (by rw [empty, List.append_nil])
    · rw [same, List.append_assoc]
      have within : name :: deeper <+: [name] ++ names := (List.prefix_cons_inj name).mpr inside
      exact .inr ⟨⟨deeper, by simp⟩, (List.prefix_append_right_inj _).mpr within⟩
  · intro either
    rcases either with same | ⟨above, below⟩
    · rw [same]
      exact ⟨List.prefix_refl _, List.prefix_append _ _⟩
    · rw [List.append_assoc] at below
      exact ⟨(List.prefix_append _ _).trans above, below⟩

/-- Nothing from a base down to a path below it is a file. -/
def Clear (tree : FileTree) (base below : Path) : Prop :=
  ∀ other, base <+: other → other <+: below → tree.isFile other = false

/-- Only what is strictly below an existing directory can be in the way. -/
theorem clear_of_below {base rel : Path} (there : tree.look base = some .directory)
    (below : ∀ inside, inside ≠ [] → inside <+: rel → tree.isFile (base ++ inside) = false) :
    tree.Clear [] (base ++ rel) := by
  intro other _ above
  rcases List.prefix_or_prefix_of_prefix above (List.prefix_append base rel) with
    inside | ⟨rest, whole⟩
  · rw [isFile, directory_above there inside]
  · by_cases here : rest = []
    · rw [← whole, here, List.append_nil, isFile, there]
    · rw [← whole] at above ⊢
      exact below rest here ((List.prefix_append_right_inj base).mp above)

theorem clear_cons {base : Path} {name : Name} {names : List Name}
    (found : tree.look base = some .directory) :
    tree.Clear base (base ++ name :: names) ↔
      tree.Clear (base ++ [name]) (base ++ [name] ++ names) := by
  constructor
  · intro clear other above below
    have between := (between_cons base other name names).mpr (.inr ⟨above, below⟩)
    exact clear other between.1 between.2
  · intro clear other above below
    rcases (between_cons base other name names).mp ⟨above, below⟩ with same | deeper
    · rw [same, isFile, found]
    · exact clear other deeper.1 deeper.2

theorem makeDirs_ok_iff {base : Path} (found : tree.look base = some .directory)
    (names : List Name) : (∃ after, tree.makeDirs base found names = .ok after) ↔
      tree.Clear base (base ++ names) ∧ names.all legalName = true := by
  induction names generalizing tree base with
  | nil =>
      simp only [makeDirs, Except.ok.injEq, exists_eq', List.append_nil, List.all_nil, and_true,
        true_iff]
      intro other above below
      rw [← above.eq_of_length_le below.length_le, isFile, found]
  | cons name names ih =>
      rw [makeDirs, clear_cons found, List.all_cons, Bool.and_eq_true]
      split
      · next child =>
          have legal : legalName name = true :=
            List.all_eq_true.mp (look_legal child) name (by simp)
          rw [iff_true_intro legal, true_and]
          exact ih child
      · next content child =>
          simp only [reduceCtorEq, exists_false, false_iff]
          intro both
          have blocked := both.1 (base ++ [name]) (List.prefix_refl _) (List.prefix_append _ _)
          rw [isFile, child] at blocked
          cases blocked
      · next child =>
          by_cases legal : legalName name = true
          swap
          · simp [legal]
          rw [dif_pos legal, iff_true_intro legal, true_and]
          have allLegal : (base ++ [name]).all legalName = true := by
            simpa [legal] using look_legal found
          have same : ∀ other, (tree.set (base ++ [name]) .directory (by simp) (by simpa using found)
              (.inl rfl) allLegal).isFile other = tree.isFile other := by
            intro other
            rw [isFile, look_set]
            by_cases here : other = base ++ [name]
            · rw [if_pos here, here, isFile, child]
            · rw [if_neg here, isFile]
          refine (ih _).trans ?_
          simp only [Clear, same]

theorem look_makeDirs {base : Path} {found : tree.look base = some .directory} {names : List Name}
    (made : tree.makeDirs base found names = .ok after) (other : Path) :
    after.look other =
      if base <+: other ∧ other <+: base ++ names then some .directory else tree.look other := by
  induction names generalizing tree base with
  | nil =>
      cases made
      by_cases here : other = base
      · simp [here, found]
      · rw [if_neg]
        intro ⟨above, below⟩
        rw [List.append_nil] at below
        exact here (above.eq_of_length_le below.length_le).symm
  | cons name names ih =>
      rw [makeDirs] at made
      split at made
      · next child =>
          rw [ih made]
          simp only [between_cons]
          by_cases here : other = base
          · simp [here, found]
          · simp [here]
      · cases made
      · next child =>
          split at made
          swap
          · cases made
          rw [ih made, look_set]
          simp only [between_cons]
          by_cases here : other = base
          · simp [here, found]
          by_cases last : other = base ++ [name]
          · simp [last]
          · simp [here, last]

theorem createDirAll_ok_iff : (∃ after, tree.createDirAll path = .ok after) ↔
    tree.Clear [] path ∧ path.all legalName = true := by
  rw [createDirAll, makeDirs_ok_iff, List.nil_append]

theorem look_createDirAll (made : tree.createDirAll path = .ok after) (other : Path) :
    after.look other = if other <+: path then some .directory else tree.look other := by
  rw [look_makeDirs made]
  simp

theorem file_createDirAll (made : tree.createDirAll path = .ok after) (other : Path) :
    after.look other = some (.file content) ↔ tree.look other = some (.file content) := by
  rw [look_createDirAll made]
  by_cases above : other <+: path
  · rw [if_pos above]
    have clear := (createDirAll_ok_iff.mp ⟨after, made⟩).1 other List.nil_prefix above
    constructor
    · intro impossible
      cases impossible
    · intro held
      rw [isFile, held] at clear
      cases clear
  · rw [if_neg above]

theorem directory_createDirAll (made : tree.createDirAll path = .ok after)
    (found : tree.look other = some .directory) : after.look other = some .directory := by
  rw [look_createDirAll made, found, ite_self]

theorem makeDirs_of_directory {base : Path} (found : tree.look base = some .directory)
    {names : List Name} (there : tree.look (base ++ names) = some .directory) :
    tree.makeDirs base found names = .ok tree := by
  induction names generalizing base with
  | nil => rfl
  | cons name names ih =>
      have split : base ++ name :: names = base ++ [name] ++ names := by simp
      rw [split] at there
      have next := directory_above there (List.prefix_append _ _)
      rw [makeDirs]
      split
      · next child => exact ih child there
      · next content child => cases child.symm.trans next
      · next child => cases child.symm.trans next

theorem createDirAll_of_directory (there : tree.look path = some .directory) :
    tree.createDirAll path = .ok tree :=
  makeDirs_of_directory tree.look_nil there

theorem look_removeFile (removed : tree.removeFile path = .ok after) (other : Path) :
    after.look other = if other = path then none else tree.look other := by
  unfold removeFile at removed
  split at removed
  · cases removed
  · split at removed
    · cases removed
    · cases removed
      rw [look_erase]

theorem removeFile_ok_iff : (∃ after, tree.removeFile path = .ok after) ↔
    tree.isFile path = true := by
  rw [isFile_iff, removeFile]
  by_cases directory : tree.look path = some .directory
  · simp [directory]
  by_cases absent : tree.look path = none
  · simp [absent]
  · rw [dif_neg directory, if_neg absent]
    simp only [Except.ok.injEq, exists_eq', true_iff]
    cases found : tree.look path with
    | none => exact absurd found absent
    | some node =>
        cases node with
        | file content => exact ⟨content, rfl⟩
        | directory => exact absurd found directory

theorem rename_ok_iff {source target : Path} (apart : source ≠ target)
    (held : tree.look source = some (.file content)) :
    (∃ after, tree.rename source target = .ok after) ↔
      tree.look target ≠ some .directory ∧ tree.look target.dropLast = some .directory ∧
        target.all legalName = true := by
  rw [← write_ok_iff, rename, held]
  dsimp only
  cases written : tree.write target content with
  | error error => simp
  | ok renamed =>
      have kept : renamed.look source = some (.file content) := by
        rw [look_write written, if_neg apart, held]
      simp [apart, kept]

theorem not_directory_of_rename {source target : Path}
    (renamed : tree.rename source target = .ok after) : tree.look target ≠ some .directory := by
  unfold rename at renamed
  split at renamed
  · split at renamed
    · cases renamed
    · next wrote => exact (write_ok_iff.mp ⟨_, wrote⟩).1
  · cases renamed
  · cases renamed

theorem look_rename {source target : Path} (apart : source ≠ target)
    (held : tree.look source = some (.file content))
    (renamed : tree.rename source target = .ok after) (other : Path) :
    after.look other =
      if other = source then none
      else if other = target then some (.file content) else tree.look other := by
  rw [rename, held] at renamed
  dsimp only at renamed
  split at renamed
  · cases renamed
  · next written =>
      rw [if_neg apart] at renamed
      split at renamed
      · cases renamed
      · cases renamed
        rw [look_erase, look_write written]

theorem directory_write (written : tree.write path content = .ok after)
    (found : tree.look other = some .directory) : after.look other = some .directory := by
  have free := (write_ok_iff.mp ⟨after, written⟩).1
  rw [look_write written, if_neg, found]
  intro same
  exact free (same ▸ found)

theorem directory_rename {source target : Path} (renamed : tree.rename source target = .ok after)
    (found : tree.look other = some .directory) : after.look other = some .directory := by
  unfold rename at renamed
  split at renamed
  · next held =>
      split at renamed
      · cases renamed
      next moved wrote =>
        split at renamed
        · cases renamed
          exact found
        split at renamed
        · cases renamed
        · next leaf =>
            cases renamed
            have kept := directory_write wrote found
            rw [look_erase, if_neg, kept]
            intro same
            exact leaf (same ▸ kept)
  · cases renamed
  · cases renamed

end Operations

/-- The same files, listed the other way round. -/
def reversed (tree : FileTree) : FileTree where
  entries := tree.entries.reverse
  distinct := by
    rw [List.map_reverse]
    exact List.nodup_reverse.mpr tree.distinct
  rootless := by
    rw [List.map_reverse, List.mem_reverse]
    exact tree.rootless
  parents above name child member :=
    (tree.parents above name child (List.mem_reverse.mp member)).imp_right List.mem_reverse.mpr
  legal path member := by
    rw [List.map_reverse, List.mem_reverse] at member
    exact tree.legal path member

@[simp] theorem look_reversed (tree : FileTree) (path : Path) :
    tree.reversed.look path = tree.look path := by
  by_cases root : path = []
  · rw [root]
    rfl
  · ext node
    rw [look_eq_some_iff root, look_eq_some_iff root]
    exact List.mem_reverse

theorem children_reversed (tree : FileTree) (path : Path) :
    tree.reversed.children path = (tree.children path).reverse := by
  rw [children, children, reversed, List.filter_reverse, List.map_reverse]

/-- The same files, listed in another order. -/
def relisted (tree : FileTree) (entries : List (Path × Node)) (perm : entries.Perm tree.entries) :
    FileTree where
  entries := entries
  distinct := (perm.map Prod.fst).nodup_iff.mpr tree.distinct
  rootless := mt (perm.map Prod.fst).mem_iff.mp tree.rootless
  parents above name child member :=
    (tree.parents above name child (perm.mem_iff.mp member)).imp_right perm.mem_iff.mpr
  legal path member := tree.legal path ((perm.map Prod.fst).mem_iff.mp member)

@[simp] theorem look_relisted (tree : FileTree) {entries : List (Path × Node)}
    (perm : entries.Perm tree.entries) (path : Path) :
    (tree.relisted entries perm).look path = tree.look path := by
  by_cases root : path = []
  · rw [root]
    rfl
  · ext node
    rw [look_eq_some_iff root, look_eq_some_iff root]
    exact perm.mem_iff

def empty : FileTree where
  entries := []
  distinct := List.nodup_nil
  rootless := List.not_mem_nil
  parents _ _ _ impossible := nomatch impossible
  legal _ impossible := nomatch impossible

/-- Create a file, and the directories it needs. What cannot be created is left out. -/
def place (tree : FileTree) (path : Path) (content : Bytes) : FileTree :=
  match tree.createDirAll path.dropLast with
  | .error _ => tree
  | .ok made =>
      match made.write path content with
      | .error _ => tree
      | .ok written => written

/-- The tree that holds these files. -/
def ofFiles (files : List (Path × Bytes)) : FileTree :=
  files.foldl (fun tree (path, content) => tree.place path content) empty

end FileTree

end Peerdup.Foundation
