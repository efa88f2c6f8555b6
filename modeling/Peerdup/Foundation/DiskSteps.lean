import Peerdup.Foundation.FileTree

/-!
# Steps on a disk

A program's calls that change the disk, one after the other up to the first that fails, and
the paths that they create, write or rename.
-/

set_option autoImplicit false

namespace Peerdup.Foundation

inductive DiskStep where
  | createDirAll (path : Path)
  | write (path : Path) (content : Bytes)
  | rename (source target : Path)

namespace FileTree

def take (tree : FileTree) : DiskStep → Except IoError FileTree
  | .createDirAll path => tree.createDirAll path
  | .write path content => tree.write path content
  | .rename source target => tree.rename source target

def aims (tree : FileTree) : DiskStep → List Path
  | .createDirAll path => path.inits.filter (tree.look · = none)
  | .write path _ => [path]
  | .rename source target => [source, target]

/-- What a step creates, writes or renames if it succeeds. A step that fails does nothing. -/
def reached (tree : FileTree) (step : DiskStep) : List Path :=
  match tree.take step with
  | .error _ => []
  | .ok _ => tree.aims step

def takeAll : List DiskStep → FileTree → Except IoError Unit × FileTree
  | [], tree => (.ok (), tree)
  | step :: steps, tree =>
      match tree.take step with
      | .error error => (.error error, tree)
      | .ok tree => takeAll steps tree

def reachedAll : List DiskStep → FileTree → List Path
  | [], _ => []
  | step :: steps, tree =>
      tree.reached step ++
        match tree.take step with
        | .error _ => []
        | .ok tree => reachedAll steps tree

variable {tree after : FileTree} {path : Path} {step : DiskStep} {steps : List DiskStep}

theorem mem_reachedAll_cons : path ∈ reachedAll (step :: steps) tree ↔
    path ∈ tree.reached step ∨ ∃ after, tree.take step = .ok after ∧ path ∈ reachedAll steps after := by
  rw [reachedAll, List.mem_append]
  cases tree.take step with
  | error error => simp
  | ok after => simp

theorem mem_reached_createDirAll {base : Path} (made : path ∈ tree.reached (.createDirAll base)) :
    path <+: base ∧ tree.look path = none := by
  unfold reached at made
  split at made
  · cases made
  · obtain ⟨above, missing⟩ := List.mem_filter.mp made
    exact ⟨(List.mem_inits _ _).mp above, of_decide_eq_true missing⟩

theorem mem_reached_write {target : Path} {content : Bytes}
    (wrote : path ∈ tree.reached (.write target content)) :
    path = target ∧ ∃ after, tree.write target content = .ok after := by
  unfold reached at wrote
  split at wrote
  · cases wrote
  · next after taken => exact ⟨List.mem_singleton.mp wrote, after, taken⟩

theorem mem_reached_rename {source target : Path}
    (renamed : path ∈ tree.reached (.rename source target)) :
    (path = source ∨ path = target) ∧ ∃ after, tree.rename source target = .ok after := by
  unfold reached at renamed
  split at renamed
  · cases renamed
  · next after taken =>
      refine ⟨?_, after, taken⟩
      simpa [aims] using renamed

theorem directory_take (taken : tree.take step = .ok after)
    (found : tree.look path = some .directory) : after.look path = some .directory := by
  cases step with
  | createDirAll base => exact directory_createDirAll taken found
  | write target content => exact directory_write taken found
  | rename source target => exact directory_rename taken found

/-- A step changes nothing but what it reaches. -/
theorem look_take (taken : tree.take step = .ok after) (apart : path ∉ tree.reached step) :
    after.look path = tree.look path := by
  rw [reached, taken] at apart
  cases step with
  | createDirAll base =>
      have made : tree.createDirAll base = .ok after := taken
      rw [look_createDirAll made]
      split
      · next above =>
          have clear := (createDirAll_ok_iff.mp ⟨after, made⟩).1 path List.nil_prefix above
          cases found : tree.look path with
          | none =>
              refine absurd (List.mem_filter.mpr ⟨(List.mem_inits _ _).mpr above, ?_⟩) apart
              exact decide_eq_true found
          | some node =>
              cases node with
              | directory => rfl
              | file content =>
                  rw [isFile, found] at clear
                  cases clear
      · rfl
  | write target content =>
      rw [look_write taken, if_neg fun same => apart (List.mem_singleton.mpr same)]
  | rename source target =>
      obtain ⟨notSource, notTarget⟩ : path ≠ source ∧ path ≠ target := by
        simpa [aims] using apart
      have moved : tree.rename source target = .ok after := taken
      unfold rename at moved
      split at moved
      · split at moved
        · cases moved
        next written wrote =>
          split at moved
          · cases moved
            rfl
          split at moved
          · cases moved
          · cases moved
            rw [look_erase, if_neg notSource, look_write wrote, if_neg notTarget]
      · cases moved
      · cases moved

theorem look_takeAll (apart : path ∉ reachedAll steps tree) :
    (takeAll steps tree).2.look path = tree.look path := by
  induction steps generalizing tree with
  | nil => rfl
  | cons step steps ih =>
      rw [reachedAll, List.mem_append, not_or] at apart
      obtain ⟨here, later⟩ := apart
      rw [takeAll]
      split
      · rfl
      · next taken =>
          rw [taken] at later
          rw [ih later, look_take taken here]

end FileTree

end Peerdup.Foundation
