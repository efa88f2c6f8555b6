import Mathlib.Data.List.Nodup
import Mathlib.Data.List.Sort

/-!
# The latest record of each key

Records replace the one that was held under their key. What is held in the end are the
latest ones, one for each key.
-/

set_option autoImplicit false

namespace Peerdup.Foundation

universe u v

variable {Record : Type u} {Key : Type v} (key : Record → Key)

/-- No later record has its key. -/
def Latest (records : List Record) (record : Record) : Prop :=
  ∃ earlier later, records = earlier ++ record :: later ∧ ∀ other ∈ later, key other ≠ key record

variable {key} {records : List Record} {record : Record}

theorem latest_cons_iff {first : Record} : Latest key (first :: records) record ↔
    Latest key records record ∨ first = record ∧ ∀ other ∈ records, key other ≠ key record := by
  constructor
  · rintro ⟨earlier, later, same, apart⟩
    cases earlier with
    | nil =>
        obtain ⟨rfl, rfl⟩ := List.cons.inj same
        exact .inr ⟨rfl, apart⟩
    | cons other earlier =>
        obtain ⟨rfl, rest⟩ := List.cons.inj same
        exact .inl ⟨earlier, later, rest, apart⟩
  · rintro (⟨earlier, later, rfl, apart⟩ | ⟨rfl, apart⟩)
    · exact ⟨first :: earlier, later, rfl, apart⟩
    · exact ⟨[], records, rfl, apart⟩

section Replace

variable [DecidableEq Key] {held : List Record}

variable (key) in
def replaceLatest (held : List Record) (record : Record) : List Record :=
  held.filter (fun other => key other ≠ key record) ++ [record]

theorem mem_replaceLatest {other : Record} : other ∈ replaceLatest key held record ↔
    other = record ∨ other ∈ held ∧ key record ≠ key other := by
  rw [replaceLatest, List.mem_append, List.mem_filter, List.mem_singleton, or_comm, decide_eq_true_iff,
    ne_comm]

theorem nodup_replaceLatest (distinct : (held.map key).Nodup) (record : Record) :
    ((replaceLatest key held record).map key).Nodup := by
  rw [replaceLatest, List.map_append, List.map_singleton, List.nodup_append]
  refine ⟨distinct.sublist (List.filter_sublist.map _), List.nodup_singleton _, ?_⟩
  intro kept member last same
  obtain ⟨other, listed, rfl⟩ := List.mem_map.mp member
  rw [List.mem_singleton.mp same]
  exact of_decide_eq_true (List.mem_filter.mp listed).2

theorem mem_foldl_replaceLatest : record ∈ records.foldl (replaceLatest key) held ↔
    Latest key records record ∨ record ∈ held ∧ ∀ other ∈ records, key other ≠ key record := by
  induction records generalizing held with
  | nil =>
      rw [List.foldl_nil]
      refine ⟨fun member => .inr ⟨member, nofun⟩, ?_⟩
      rintro (⟨earlier, later, impossible, _⟩ | ⟨member, _⟩)
      · simp at impossible
      · exact member
  | cons first records ih =>
      rw [List.foldl_cons, ih, latest_cons_iff, mem_replaceLatest, List.forall_mem_cons]
      constructor
      · rintro (latest | ⟨rfl | ⟨member, apart⟩, later⟩)
        · exact .inl (.inl latest)
        · exact .inl (.inr ⟨rfl, later⟩)
        · exact .inr ⟨member, apart, later⟩
      · rintro ((latest | ⟨rfl, later⟩) | ⟨member, apart, later⟩)
        · exact .inl latest
        · exact .inr ⟨.inl rfl, later⟩
        · exact .inr ⟨.inr ⟨member, apart⟩, later⟩

theorem nodup_foldl_replaceLatest (distinct : (held.map key).Nodup) (records : List Record) :
    ((records.foldl (replaceLatest key) held).map key).Nodup := by
  induction records generalizing held with
  | nil => exact distinct
  | cons first records ih => exact ih (nodup_replaceLatest distinct first)

end Replace

/-- Records sorted by keys that are distinct ascend strictly. -/
theorem pairwise_lt_insertionSort [LinearOrder Key] (distinct : (records.map key).Nodup) :
    (records.insertionSort fun left right => key left ≤ key right).Pairwise
      fun left right => key left < key right := by
  have : Std.Total fun left right : Record => key left ≤ key right :=
    ⟨fun left right => le_total (key left) (key right)⟩
  have : IsTrans Record fun left right => key left ≤ key right :=
    ⟨fun _ _ _ first second => le_trans first second⟩
  have sorted := List.pairwise_insertionSort (fun left right : Record => key left ≤ key right) records
  have perm := (List.perm_insertionSort (fun left right : Record => key left ≤ key right) records).map key
  have apart := List.pairwise_map.mp (perm.nodup_iff.mpr distinct)
  exact sorted.imp₂ (fun _ _ below different => lt_of_le_of_ne below different) apart

/-- So their order before does not matter. -/
theorem insertionSort_eq_of_perm [LinearOrder Key] {others : List Record}
    (distinct : (records.map key).Nodup) (perm : others.Perm records) :
    (others.insertionSort fun left right => key left ≤ key right) =
      records.insertionSort fun left right => key left ≤ key right := by
  have sorted := pairwise_lt_insertionSort distinct
  have othersSorted := pairwise_lt_insertionSort ((perm.map key).nodup_iff.mpr distinct)
  have same := (List.perm_insertionSort (fun left right : Record => key left ≤ key right) others).trans
    (perm.trans (List.perm_insertionSort (fun left right : Record => key left ≤ key right) records).symm)
  exact List.Perm.eq_of_pairwise (fun _ _ _ _ below above => absurd above below.not_gt) othersSorted
    sorted same

end Peerdup.Foundation
