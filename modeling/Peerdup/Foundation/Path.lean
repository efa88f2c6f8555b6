import Mathlib.Data.List.Lex
import Mathlib.Data.List.Sort
import Peerdup.Foundation.Bytes

/-! Path components as the file system stores them: byte strings, not text. -/

set_option autoImplicit false

namespace Peerdup.Foundation

abbrev Name := Bytes

/-- A normalized path: its components, outermost first. -/
abbrev Path := List Name

instance : LawfulBEq Path := inferInstance

/-- Paths compare component by component, and components byte by byte. -/
def pathKey (path : Path) : List (List Nat) := path.map fun name => name.map UInt8.toNat

theorem pathKey_injective : Function.Injective pathKey :=
  List.map_injective_iff.mpr (List.map_injective_iff.mpr fun _ _ => UInt8.toNat_inj.mp)

def sortPaths (paths : List Path) : List Path :=
  paths.insertionSort fun left right => pathKey left ≤ pathKey right

theorem mem_sortPaths {path : Path} {paths : List Path} : path ∈ sortPaths paths ↔ path ∈ paths :=
  List.mem_insertionSort _

theorem pairwise_sortPaths (paths : List Path) :
    (sortPaths paths).Pairwise fun left right => pathKey left ≤ pathKey right := by
  have : Std.Total fun left right : Path => pathKey left ≤ pathKey right :=
    ⟨fun left right => le_total (pathKey left) (pathKey right)⟩
  have : IsTrans Path fun left right => pathKey left ≤ pathKey right :=
    ⟨fun _ _ _ first second => le_trans first second⟩
  exact List.pairwise_insertionSort _ paths

theorem perm_sortPaths (paths : List Path) : (sortPaths paths).Perm paths :=
  List.perm_insertionSort _ paths

/-- Sorting forgets the order of a listing. -/
theorem sortPaths_eq_of_perm {left right : List Path} (perm : left.Perm right) :
    sortPaths left = sortPaths right := by
  have sorted := (perm_sortPaths left).trans (perm.trans (perm_sortPaths right).symm)
  refine List.Perm.eq_of_pairwise ?_ (pairwise_sortPaths left) (pairwise_sortPaths right) sorted
  intro first second _ _ below above
  exact pathKey_injective (le_antisymm below above)

/-- Add a path to an ordered set. -/
def insertPath (path : Path) (paths : List Path) : List Path :=
  if path ∈ paths then paths
  else paths.orderedInsert (fun left right => pathKey left ≤ pathKey right) path

@[simp] theorem mem_insertPath (path other : Path) (paths : List Path) :
    other ∈ insertPath path paths ↔ other = path ∨ other ∈ paths := by
  unfold insertPath
  split
  · next listed =>
      exact ⟨.inr, fun either => either.elim (fun same => same ▸ listed) id⟩
  · rw [List.mem_orderedInsert]

theorem nodup_insertPath {paths : List Path} (unique : paths.Nodup) (path : Path) :
    (insertPath path paths).Nodup := by
  unfold insertPath
  split
  · exact unique
  · next fresh =>
      exact (List.perm_orderedInsert _ path paths).nodup_iff.mpr (List.nodup_cons.mpr ⟨fresh, unique⟩)

/-- A path's bytes, with a slash between components. -/
def pathBytes (path : Path) : Bytes := [0x2F].intercalate path

/-- The bytes of an ASCII name. -/
def ascii (text : String) : Name := text.toList.map fun letter => UInt8.ofNat letter.toNat

/-- `NAME_MAX`: the longest name a directory entry can have. -/
def nameMax : Nat := 255

/-- What a file system accepts as the name of a file or directory. -/
def legalName (name : Name) : Bool :=
  name ≠ [] && name ≠ ascii "." && name ≠ ascii ".." && 0x2F ∉ name && 0x00 ∉ name &&
    name.length ≤ nameMax

theorem legalName_iff (name : Name) : legalName name = true ↔
    name ≠ [] ∧ name ≠ ascii "." ∧ name ≠ ascii ".." ∧ 0x2F ∉ name ∧ 0x00 ∉ name ∧
      name.length ≤ nameMax := by
  simp [legalName, and_assoc]

/-- A legal name with a suffix of more than one letter is legal again, if it is not too long. -/
theorem legalName_append {name suffix : Name} (legal : legalName name = true)
    (long : 1 < suffix.length) (slashless : 0x2F ∉ suffix) (nulless : 0x00 ∉ suffix)
    (short : (name ++ suffix).length ≤ nameMax) : legalName (name ++ suffix) = true := by
  obtain ⟨nonempty, _, _, slash, null, _⟩ := (legalName_iff name).mp legal
  have longer : 2 < (name ++ suffix).length := by
    have positive := List.length_pos_iff.mpr nonempty
    rw [List.length_append]
    omega
  have differs : ∀ other : Name, other.length ≤ 2 → name ++ suffix ≠ other := by
    intro other atMost same
    rw [same] at longer
    omega
  refine (legalName_iff _).mpr
    ⟨by simp [nonempty], differs _ (by decide), differs _ (by decide), ?_, ?_, short⟩
  · simp [slash, slashless]
  · simp [null, nulless]

end Peerdup.Foundation
