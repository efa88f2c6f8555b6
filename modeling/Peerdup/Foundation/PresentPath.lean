import Peerdup.Foundation.RawPathProperties

/-!
# Paths to a directory that is there

A raw path that leads to a directory names its files by its resolved path: they are read and
written there.
-/

set_option autoImplicit false

namespace Peerdup.Foundation.FileTree

open RawPath

variable {tree after : FileTree} {dir front back : RawPath} {name : Name} {content : Bytes}

/-- The path leads to a directory. -/
structure Present (tree : FileTree) (dir : RawPath) : Prop where
  walked : tree.walk [] dir = some (resolve [] dir)
  directory : tree.look (resolve [] dir) = some .directory

theorem Present.mono (present : Present tree dir)
    (keeps : ∀ path, tree.look path = some .directory → after.look path = some .directory) :
    Present after dir :=
  ⟨walk_mono keeps present.walked, keeps _ present.directory⟩

theorem Present.above (present : Present tree (front ++ back)) : Present tree front := by
  have walked := present.walked
  rw [walk_append] at walked
  cases reached : tree.walk [] front with
  | none =>
      rw [reached] at walked
      cases walked
  | some middle =>
      rw [reached] at walked
      have same := walk_resolve reached
      exact ⟨same ▸ reached, same ▸ directory_of_walk walked present.directory⟩

theorem Present.creates (present : Present tree dir) (above : front <+: dir) :
    tree.createDirAllAt front = (.ok (), tree) := by
  obtain ⟨back, rfl⟩ := above
  exact createDirAllAt_of_walk present.above.walked present.above.directory

theorem Present.reaches (present : Present tree dir) (legal : legalName name = true) :
    tree.walk [] (dir ++ [name]) = some (resolve [] dir ++ [name]) := by
  have notDot : ¬ isDot name = true := by
    rw [not_isDot_of_legal legal]
    exact Bool.false_ne_true
  have notUp : ¬ isUp name = true := by
    rw [not_isUp_of_legal legal]
    exact Bool.false_ne_true
  rw [walk_append, present.walked, Option.bind_some, walk, if_neg (not_not.mpr present.directory),
    if_neg notDot, if_neg notUp]
  rfl

theorem Present.existsAt_eq (present : Present tree dir) (legal : legalName name = true) :
    tree.existsAt (dir ++ [name]) = (tree.look (resolve [] dir ++ [name])).isSome := by
  rw [existsAt, present.reaches legal]

theorem Present.readAt_eq (present : Present tree dir) (legal : legalName name = true) :
    tree.readAt (dir ++ [name]) = tree.read (resolve [] dir ++ [name]) := by
  rw [readAt, present.reaches legal]

/-- A file that can be read is in a directory that is there. -/
theorem present_of_readAt (legal : legalName name = true)
    (read : tree.readAt (dir ++ [name]) = .ok content) :
    Present tree dir ∧ tree.look (resolve [] dir ++ [name]) = some (.file content) := by
  unfold readAt at read
  split at read
  · cases read
  next found walked =>
    have held := read_ok_iff.mp read
    rw [← walk_resolve walked, resolve_append, resolve_of_legal _ legal] at held
    have directory := look_parent held
    rw [walk_append] at walked
    cases reached : tree.walk [] dir with
    | none =>
        rw [reached] at walked
        cases walked
    | some middle => exact ⟨⟨walk_resolve reached ▸ reached, directory⟩, held⟩

theorem Present.child_legal (present : Present tree dir) (legal : legalName name = true) :
    (resolve [] dir ++ [name]).all legalName = true := by
  rw [List.all_append, look_legal present.directory]
  simpa using legal

/-- A missing directory in it can be created. -/
theorem Present.createsChild (present : Present tree dir) (legal : legalName name = true)
    (absent : tree.look (resolve [] dir ++ [name]) = none) :
    ∃ made, tree.createDirAllAt (dir ++ [name]) = (.ok (), made) ∧ ∀ path, made.look path =
      if path = resolve [] dir ++ [name] then some .directory else tree.look path := by
  have clear : tree.Clear [] (resolve [] dir ++ [name]) := by
    intro other _ above
    rcases List.prefix_concat_iff.mp above with here | inside
    · rw [here, isFile, absent]
    · rw [isFile, directory_above present.directory inside]
  obtain ⟨made, created⟩ := createDirAll_ok_iff.mpr ⟨clear, present.child_legal legal⟩
  refine ⟨made, ?_, look_createDirAll_child present.directory created⟩
  have nulless : (dir ++ [name]).any (·.contains 0x00) = false := by
    have free := ((legalName_iff name).mp legal).2.2.2.2.1
    rw [List.any_append, nulless_of_walk present.walked present.directory]
    simpa using free
  have notDot : ¬ isDot name = true := Bool.eq_false_iff.mp (not_isDot_of_legal legal)
  have notUp : ¬ isUp name = true := Bool.eq_false_iff.mp (not_isUp_of_legal legal)
  rw [createDirAllAt, nulless, createDirsAt_append present.walked present.directory, createDirsAt,
    if_neg notDot, if_neg notUp, absent]
  dsimp only
  rw [if_neg (by decide), created]
  rfl

theorem Present.writes (present : Present tree dir) (legal : legalName name = true)
    (free : tree.look (resolve [] dir ++ [name]) ≠ some .directory) (content : Bytes) :
    ∃ after, tree.writeAt dir name content = .ok after ∧ ∀ path, after.look path =
      if path = resolve [] dir ++ [name] then some (.file content) else tree.look path := by
  obtain ⟨after, written⟩ : ∃ after, tree.write (resolve [] dir ++ [name]) content = .ok after := by
    refine write_ok_iff.mpr ⟨free, ?_, present.child_legal legal⟩
    rw [List.dropLast_concat]
    exact present.directory
  refine ⟨after, ?_, look_write written⟩
  rw [writeAt, present.walked]
  exact written

theorem Present.writeAt_directory (present : Present tree dir)
    (taken : tree.look (resolve [] dir ++ [name]) = some .directory) (content : Bytes) :
    tree.writeAt dir name content = .error .isADirectory := by
  rw [writeAt, present.walked]
  dsimp only
  rw [write, dif_pos taken]

end Peerdup.Foundation.FileTree
