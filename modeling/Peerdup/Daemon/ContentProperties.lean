import Mathlib.Data.List.Flatten
import Mathlib.Data.List.Perm.Subperm
import Peerdup.Daemon.Content

/-!
# What a snapshot sees

The files a walk finds, each once, and the version hash as a function of them alone.
-/

set_option autoImplicit false

namespace Peerdup.Daemon

open Foundation

/-- A share's plaintext: the files below its root, outside the daemon's own directories. -/
def plaintext (tree : FileTree) (root rel : Path) : Option Bytes :=
  if rel = [] ∨ peerdupDirName ∈ rel then none
  else
    match tree.look (root ++ rel) with
    | some (.file content) => some content
    | _ => none

variable {tree : FileTree} {root : Path}

theorem plaintext_eq_some_iff {rel : Path} {content : Bytes} :
    plaintext tree root rel = some content ↔
      rel ≠ [] ∧ peerdupDirName ∉ rel ∧ tree.look (root ++ rel) = some (.file content) := by
  unfold plaintext
  by_cases hidden : rel = [] ∨ peerdupDirName ∈ rel
  · rw [if_pos hidden]
    simp only [reduceCtorEq, false_iff]
    exact fun shown => hidden.elim shown.1 shown.2.1
  · rw [if_neg hidden]
    obtain ⟨nonempty, outside⟩ := not_or.mp hidden
    cases tree.look (root ++ rel) with
    | none => simp
    | some node => cases node <;> simp [nonempty, outside]

theorem plaintext_isSome_iff {rel : Path} :
    (plaintext tree root rel).isSome = true ↔
      rel ≠ [] ∧ peerdupDirName ∉ rel ∧ tree.isFile (root ++ rel) = true := by
  rw [Option.isSome_iff_exists, FileTree.isFile_iff]
  simp [plaintext_eq_some_iff]

theorem length_le_maxDepth {path : Path} {node : Node} (found : tree.look path = some node) :
    path.length ≤ maxDepth tree := by
  by_cases empty : path = []
  · rw [empty]
    exact Nat.zero_le _
  have member := (FileTree.look_eq_some_iff empty).mp found
  unfold maxDepth
  generalize tree.entries = entries at member
  induction entries with
  | nil => cases member
  | cons entry entries ih =>
      rw [List.map_cons, List.foldr_cons]
      rcases List.mem_cons.mp member with same | later
      · rw [← same]
        exact Nat.le_max_left _ _
      · exact (ih later).trans (Nat.le_max_right _ _)

/-- The paths that `collect_files` adds below a directory. -/
def filesBelow (tree : FileTree) (root : Path) : Nat → Path → List Path
  | 0, _ => []
  | fuel + 1, dir =>
      (tree.children (root ++ dir)).flatMap fun (name, node) =>
        if name = peerdupDirName then []
        else match node with
          | .directory => filesBelow tree root fuel (dir ++ [name])
          | .file _ => [dir ++ [name]]

private theorem foldlM_append {α β : Type} {step : List β → α → Except SyncFailure (List β)}
    {added : α → List β} {items : List α}
    (steps : ∀ item ∈ items, ∀ out, step out item = .ok (out ++ added item)) (out : List β) :
    items.foldlM step out = .ok (out ++ items.flatMap added) := by
  induction items generalizing out with
  | nil => simp [pure, Except.pure]
  | cons item items ih =>
      rw [List.foldlM_cons, steps item List.mem_cons_self]
      change items.foldlM step (out ++ added item) = _
      rw [ih fun later member => steps later (List.mem_cons_of_mem _ member), List.flatMap_cons,
        List.append_assoc]

theorem collectBelow_eq (fuel : Nat) {dir : Path}
    (found : tree.look (root ++ dir) = some .directory) (out : List Path) :
    collectBelow tree root fuel dir out = .ok (out ++ filesBelow tree root fuel dir) := by
  induction fuel generalizing dir out with
  | zero => simp [collectBelow, filesBelow]
  | succ fuel ih =>
      have listed : tree.readDir (root ++ dir) = .ok (tree.children (root ++ dir)) := by
        rw [FileTree.readDir, found]
      rw [collectBelow, listed, filesBelow]
      refine foldlM_append ?_ out
      intro (name, node) member out
      dsimp only
      by_cases own : name = peerdupDirName
      · rw [if_pos own, if_pos own, List.append_nil]
      rw [if_neg own, if_neg own]
      cases node with
      | file content => rfl
      | directory =>
          have child := FileTree.mem_children.mp member
          rw [List.append_assoc] at child
          exact ih child out

theorem mem_filesBelow {fuel : Nat} {dir : Path}
    (deep : maxDepth tree < fuel + (root ++ dir).length) (rel : Path) :
    rel ∈ filesBelow tree root fuel dir ↔
      ∃ below, below ≠ [] ∧ peerdupDirName ∉ below ∧ rel = dir ++ below ∧
        tree.isFile (root ++ rel) = true := by
  induction fuel generalizing dir with
  | zero =>
      simp only [filesBelow, List.not_mem_nil, false_iff]
      intro ⟨below, _, _, same, file⟩
      obtain ⟨content, found⟩ := FileTree.isFile_iff.mp file
      have bounded := length_le_maxDepth found
      rw [same, ← List.append_assoc, List.length_append] at bounded
      omega
  | succ fuel ih =>
      rw [filesBelow, List.mem_flatMap]
      have deeper : ∀ name, maxDepth tree < fuel + (root ++ (dir ++ [name])).length := by
        intro name
        simp only [List.length_append, List.length_singleton] at deep ⊢
        omega
      constructor
      · intro ⟨(name, node), member, inside⟩
        dsimp only at inside
        split at inside
        · cases inside
        next other =>
          cases node with
          | file content =>
              rw [List.mem_singleton.mp inside]
              refine ⟨[name], by simp, by simpa using Ne.symm other, rfl, ?_⟩
              have child := FileTree.mem_children.mp member
              rw [List.append_assoc] at child
              exact FileTree.isFile_iff.mpr ⟨content, child⟩
          | directory =>
              obtain ⟨below, _, outside, same, file⟩ := (ih (deeper name)).mp inside
              refine ⟨name :: below, by simp, ?_, by rw [same, List.append_assoc]; rfl, file⟩
              exact fun either => (List.mem_cons.mp either).elim (fun own => other own.symm) outside
      · intro ⟨below, nonempty, outside, same, file⟩
        cases below with
        | nil => exact absurd rfl nonempty
        | cons name more =>
            obtain ⟨apart, rest⟩ := not_or.mp (mt List.mem_cons.mpr outside)
            obtain ⟨content, found⟩ := FileTree.isFile_iff.mp file
            by_cases leaf : more = []
            · subst leaf
              rw [same, ← List.append_assoc] at found
              refine ⟨(name, .file content), FileTree.mem_children.mpr found, ?_⟩
              simp [Ne.symm apart, same]
            · have above : tree.look (root ++ dir ++ [name]) = some .directory := by
                rw [same] at found
                have inside : tree.look (root ++ dir ++ [name] ++ more) = some (.file content) := by
                  simpa using found
                exact FileTree.look_above leaf inside
              refine ⟨(name, .directory), FileTree.mem_children.mpr above, ?_⟩
              simp only [Ne.symm apart, if_false]
              exact (ih (deeper name)).mpr ⟨more, leaf, rest, by rw [same, List.append_assoc]; rfl, file⟩

theorem nodup_filesBelow {fuel : Nat} {dir : Path}
    (deep : maxDepth tree < fuel + (root ++ dir).length) :
    (filesBelow tree root fuel dir).Nodup := by
  induction fuel generalizing dir with
  | zero => exact List.nodup_nil
  | succ fuel ih =>
      have deeper : ∀ name, maxDepth tree < fuel + (root ++ (dir ++ [name])).length := by
        intro name
        simp only [List.length_append, List.length_singleton] at deep ⊢
        omega
      rw [filesBelow, List.nodup_flatMap]
      constructor
      · intro (name, node) _
        dsimp only
        split
        · exact List.nodup_nil
        · cases node with
          | file content => exact List.nodup_singleton _
          | directory => exact ih (deeper name)
      · -- Paths from different children differ in the child's name.
        have named : ∀ (name : Name) (node : Node) (rel : Path),
            rel ∈ (if name = peerdupDirName then []
              else match node with
                | .directory => filesBelow tree root fuel (dir ++ [name])
                | .file _ => [dir ++ [name]]) →
            ∃ more, rel = dir ++ name :: more := by
          intro name node rel inside
          split at inside
          · cases inside
          · cases node with
            | file content => exact ⟨[], List.mem_singleton.mp inside⟩
            | directory =>
                obtain ⟨below, _, _, same, _⟩ := (mem_filesBelow (deeper name) rel).mp inside
                exact ⟨below, by rw [same, List.append_assoc]; rfl⟩
        have names := List.pairwise_map.mp (tree.children_nodup (root ++ dir))
        refine names.imp ?_
        intro left right apart rel leftInside rightInside
        obtain ⟨leftMore, leftSame⟩ := named left.1 left.2 rel leftInside
        obtain ⟨rightMore, rightSame⟩ := named right.1 right.2 rel rightInside
        have tails := List.append_cancel_left (leftSame.symm.trans rightSame)
        exact apart (List.cons.inj tails).1

theorem collectFiles_ok (found : tree.look root = some .directory) :
    ∃ paths, collectFiles tree root = .ok paths ∧ paths.Nodup ∧
      ∀ rel, rel ∈ paths ↔ (plaintext tree root rel).isSome = true := by
  have start : tree.look (root ++ []) = some .directory := by rwa [List.append_nil]
  have deep : maxDepth tree < maxDepth tree + 1 + (root ++ []).length := by omega
  refine ⟨_, collectBelow_eq (maxDepth tree + 1) start [], nodup_filesBelow deep, ?_⟩
  intro rel
  rw [List.nil_append, mem_filesBelow deep, plaintext_isSome_iff]
  constructor
  · intro ⟨below, nonempty, outside, same, file⟩
    rw [List.nil_append] at same
    subst same
    exact ⟨nonempty, outside, file⟩
  · intro ⟨nonempty, outside, file⟩
    exact ⟨rel, nonempty, outside, rfl, file⟩

theorem filesBelow_reversed (tree : FileTree) (root : Path) (fuel : Nat) (dir : Path) :
    filesBelow tree.reversed root fuel dir = (filesBelow tree root fuel dir).reverse := by
  induction fuel generalizing dir with
  | zero => rfl
  | succ fuel ih =>
      rw [filesBelow, filesBelow, FileTree.children_reversed, List.reverse_flatMap]
      refine List.flatMap_congr ?_
      intro (name, node) _
      dsimp only [Function.comp]
      split
      · rfl
      · cases node with
        | file content => rfl
        | directory => exact ih (dir ++ [name])

theorem collectFiles_reversed (found : tree.look root = some .directory) {paths : List Path}
    (collected : collectFiles tree root = .ok paths) :
    collectFiles tree.reversed root = .ok paths.reverse := by
  have start : tree.look (root ++ []) = some .directory := by rwa [List.append_nil]
  have startReversed : tree.reversed.look (root ++ []) = some .directory := by
    rw [FileTree.look_reversed, start]
  have depth : maxDepth tree.reversed = maxDepth tree :=
    ((List.reverse_perm tree.entries).map _).foldr_eq 0
  rw [collectFiles, collectBelow_eq _ start, List.nil_append] at collected
  rw [collectFiles, depth, collectBelow_eq _ startReversed, List.nil_append, filesBelow_reversed,
    Except.ok.inj collected]

/-- What a snapshot hashes: the record of every file, in path order. -/
def versionBytes (crypto : Primitives) (content : Path → Option Bytes) (paths : List Path) : Bytes :=
  (sortPaths paths).flatMap fun rel => fileRecord crypto rel ((content rel).getD [])

theorem versionBytes_congr (crypto : Primitives) {left right : Path → Option Bytes}
    {leftPaths rightPaths : List Path} (leftUnique : leftPaths.Nodup) (rightUnique : rightPaths.Nodup)
    (same : ∀ rel, rel ∈ leftPaths ↔ rel ∈ rightPaths)
    (agree : ∀ rel ∈ leftPaths, left rel = right rel) :
    versionBytes crypto left leftPaths = versionBytes crypto right rightPaths := by
  have perm := (List.perm_ext_iff_of_nodup leftUnique rightUnique).mpr same
  rw [versionBytes, versionBytes, ← sortPaths_eq_of_perm perm]
  refine List.flatMap_congr ?_
  intro rel member
  rw [agree rel (mem_sortPaths.mp member)]

theorem length_versionBytes (crypto : Primitives) (content : Path → Option Bytes)
    (paths : List Path) : (versionBytes crypto content paths).length =
      (paths.flatMap fun rel => fileRecord crypto rel ((content rel).getD [])).length :=
  ((perm_sortPaths paths).flatMap_right _).length_eq

theorem versionBytes_lt (crypto : Primitives) {content more : Path → Option Bytes}
    {paths morePaths : List Path} (unique : paths.Nodup)
    (agree : ∀ rel ∈ paths, content rel = more rel) {extra : Path} (fresh : extra ∉ paths)
    (within : ∀ rel, rel = extra ∨ rel ∈ paths → rel ∈ morePaths) :
    (versionBytes crypto content paths).length < (versionBytes crypto more morePaths).length := by
  have same : versionBytes crypto content paths = versionBytes crypto more paths :=
    versionBytes_congr crypto unique unique (fun _ => Iff.rfl) agree
  have both : (extra :: paths).Nodup := List.nodup_cons.mpr ⟨fresh, unique⟩
  have included : (extra :: paths).Subperm morePaths :=
    both.subperm fun rel member => within rel (List.mem_cons.mp member)
  obtain ⟨listing, perm, sublist⟩ := included
  rw [same, length_versionBytes, length_versionBytes]
  have atMost := (sublist.flatMap fun rel => fileRecord crypto rel ((more rel).getD [])).length_le
  have total := (perm.flatMap_right fun rel => fileRecord crypto rel ((more rel).getD [])).length_eq
  rw [total, List.flatMap_cons, List.length_append] at atMost
  have positive : 0 < (fileRecord crypto extra ((more extra).getD [])).length := by
    rw [fileRecord, List.length_append, Octets.length_bytes]
    omega
  omega

theorem fileRecords_eq (crypto : Primitives) {paths : List Path}
    (files : ∀ rel ∈ paths, (plaintext tree root rel).isSome = true) :
    fileRecords crypto tree root paths =
      .ok (paths.flatMap fun rel => fileRecord crypto rel ((plaintext tree root rel).getD [])) := by
  induction paths with
  | nil => rfl
  | cons rel paths ih =>
      obtain ⟨content, shown⟩ := Option.isSome_iff_exists.mp (files rel List.mem_cons_self)
      have read : tree.read (root ++ rel) = .ok content := by
        rw [FileTree.read, (plaintext_eq_some_iff.mp shown).2.2]
      rw [fileRecords, read, ih fun later member => files later (List.mem_cons_of_mem _ member)]
      dsimp only
      rw [List.flatMap_cons, shown, Option.getD_some]

theorem mem_foldl_insertPath {rel : Path} {paths manifest : List Path} :
    rel ∈ paths.foldl (fun manifest rel => insertPath rel manifest) manifest ↔
      rel ∈ paths ∨ rel ∈ manifest := by
  induction paths generalizing manifest with
  | nil => simp
  | cons path paths ih =>
      rw [List.foldl_cons, ih, mem_insertPath, List.mem_cons]
      tauto

/-- What a snapshot feeds to its top hasher. -/
def snapshotFeed (crypto : Primitives) (tree : FileTree) (root : Path) : Bytes :=
  match collectFiles tree root with
  | .ok paths => versionBytes crypto (plaintext tree root) paths
  | .error _ => []

/-- A snapshot of an existing root: the hash of its plaintext, and its paths. -/
theorem snapshotContent_ok (crypto : Primitives) (found : tree.look root = some .directory) :
    ∃ manifest, snapshotContent crypto tree root =
        .ok (Rotation.toHex (crypto.blake3 (snapshotFeed crypto tree root)), manifest) ∧
      ∀ rel, rel ∈ manifest ↔ (plaintext tree root rel).isSome = true := by
  obtain ⟨paths, collected, unique, listed⟩ := collectFiles_ok found
  have files : ∀ rel ∈ sortPaths paths, (plaintext tree root rel).isSome = true :=
    fun rel member => (listed rel).mp (mem_sortPaths.mp member)
  have records := fileRecords_eq crypto files
  refine ⟨_, by rw [snapshotContent, snapshotFeed, collected]; dsimp only; rw [records]; rfl, ?_⟩
  intro rel
  rw [mem_foldl_insertPath, mem_sortPaths]
  simp [listed]

theorem nodup_foldl_insertPath (paths : List Path) {manifest : Manifest} (unique : manifest.Nodup) :
    (paths.foldl (fun manifest rel => insertPath rel manifest) manifest).Nodup := by
  induction paths generalizing manifest with
  | nil => exact unique
  | cons rel paths ih => exact ih (nodup_insertPath unique rel)

theorem nodup_of_snapshotContent {crypto : Primitives} {versionHash : String} {manifest : Manifest}
    (snapshot : snapshotContent crypto tree root = .ok (versionHash, manifest)) : manifest.Nodup := by
  unfold snapshotContent at snapshot
  split at snapshot
  · cases snapshot
  dsimp only at snapshot
  split at snapshot
  · cases snapshot
  · cases snapshot
    exact nodup_foldl_insertPath _ List.nodup_nil

theorem look_of_collectFiles {paths : List Path} (collected : collectFiles tree root = .ok paths) :
    tree.look root = some .directory := by
  rw [collectFiles, collectBelow, FileTree.readDir, List.append_nil] at collected
  cases found : tree.look root with
  | none =>
      rw [found] at collected
      cases collected
  | some node =>
      cases node with
      | directory => rfl
      | file content =>
          rw [found] at collected
          cases collected

theorem look_of_snapshotContent {crypto : Primitives} {taken : String × Manifest}
    (snapshot : snapshotContent crypto tree root = .ok taken) : tree.look root = some .directory := by
  unfold snapshotContent at snapshot
  split at snapshot
  · cases snapshot
  · next collected => exact look_of_collectFiles collected

section Feeds

variable {other : FileTree} {otherRoot : Path}

theorem snapshotFeed_congr (crypto : Primitives) (found : tree.look root = some .directory)
    (otherFound : other.look otherRoot = some .directory)
    (same : ∀ rel, plaintext tree root rel = plaintext other otherRoot rel) :
    snapshotFeed crypto tree root = snapshotFeed crypto other otherRoot := by
  obtain ⟨paths, collected, unique, listed⟩ := collectFiles_ok found
  obtain ⟨otherPaths, otherCollected, otherUnique, otherListed⟩ := collectFiles_ok otherFound
  rw [snapshotFeed, snapshotFeed, collected, otherCollected]
  refine versionBytes_congr crypto unique otherUnique ?_ fun rel _ => same rel
  intro rel
  rw [listed, otherListed, same]

theorem snapshotFeed_lt (crypto : Primitives) (found : tree.look root = some .directory)
    (otherFound : other.look otherRoot = some .directory) {extra : Path}
    (agree : ∀ rel, (plaintext tree root rel).isSome = true →
      plaintext other otherRoot rel = plaintext tree root rel)
    (fresh : plaintext tree root extra = none)
    (shown : (plaintext other otherRoot extra).isSome = true) :
    (snapshotFeed crypto tree root).length < (snapshotFeed crypto other otherRoot).length := by
  obtain ⟨paths, collected, unique, listed⟩ := collectFiles_ok found
  obtain ⟨otherPaths, otherCollected, _, otherListed⟩ := collectFiles_ok otherFound
  rw [snapshotFeed, snapshotFeed, collected, otherCollected]
  have absent : extra ∉ paths := by
    rw [listed, fresh]
    exact Bool.false_ne_true
  refine versionBytes_lt crypto unique ?_ absent ?_
  · intro rel member
    exact (agree rel ((listed rel).mp member)).symm
  · intro rel either
    rw [otherListed]
    rcases either with same | member
    · rw [same]
      exact shown
    · rw [agree rel ((listed rel).mp member)]
      exact (listed rel).mp member

end Feeds

/-- Try to remove a file. -/
def tryRemove (tree : FileTree) (path : Path) : FileTree :=
  match tree.removeFile path with
  | .ok removed => removed
  | .error _ => tree

theorem look_tryRemove (tree : FileTree) (path other : Path) :
    (tryRemove tree path).look other =
      if other = path ∧ tree.isFile other = true then none else tree.look other := by
  unfold tryRemove
  cases removed : tree.removeFile path with
  | error error =>
      have kept : ¬ tree.isFile path = true := by
        rw [← FileTree.removeFile_ok_iff, removed]
        simp
      have none : ¬ (other = path ∧ tree.isFile other = true) := by
        intro ⟨here, file⟩
        exact kept (here ▸ file)
      rw [if_neg none]
  | ok after =>
      have file := FileTree.removeFile_ok_iff.mp ⟨after, removed⟩
      dsimp only
      rw [FileTree.look_removeFile removed]
      by_cases here : other = path
      · rw [if_pos here, if_pos ⟨here, here ▸ file⟩]
      · rw [if_neg here, if_neg (not_and_of_not_left _ here)]

theorem isFile_tryRemove (tree : FileTree) (path other : Path) :
    (tryRemove tree path).isFile other = true ↔ other ≠ path ∧ tree.isFile other = true := by
  rw [FileTree.isFile_iff, look_tryRemove]
  by_cases gone : other = path ∧ tree.isFile other = true
  · rw [if_pos gone]
    exact ⟨fun found => (nomatch found), fun kept => absurd gone.1 kept.1⟩
  · rw [if_neg gone, ← FileTree.isFile_iff]
    exact ⟨fun file => ⟨fun here => gone ⟨here, file⟩, file⟩, And.right⟩

theorem look_foldl_tryRemove (root : Path) (rels : List Path) (tree : FileTree) (other : Path) :
    (rels.foldl (fun tree rel => tryRemove tree (root ++ rel)) tree).look other =
      if (∃ rel ∈ rels, other = root ++ rel) ∧ tree.isFile other = true then none
      else tree.look other := by
  induction rels generalizing tree with
  | nil => simp
  | cons rel rels ih =>
      rw [List.foldl_cons, ih]
      simp only [isFile_tryRemove, look_tryRemove]
      by_cases file : tree.isFile other = true
      · by_cases here : other = root ++ rel
        · simp [here]
        · simp [here, file]
      · simp [file]

theorem look_deleteOrphans (tree : FileTree) (root : Path) (old new : Manifest) (other : Path) :
    (deleteOrphans tree root old new).look other =
      if (∃ rel ∈ old, rel ∉ new ∧ other = root ++ rel) ∧ tree.isFile other = true then none
      else tree.look other := by
  have same : deleteOrphans tree root old new =
      (old.filter (· ∉ new)).foldl (fun tree rel => tryRemove tree (root ++ rel)) tree := rfl
  rw [same, look_foldl_tryRemove]
  simp [List.mem_filter, and_assoc]

end Peerdup.Daemon
