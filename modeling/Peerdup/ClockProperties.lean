import Peerdup.Clock
import Mathlib.Order.Lattice

/-! Counter-wise meaning of the vector-clock operations. -/

set_option autoImplicit false

namespace Peerdup.VectorClock

/-- A peer's counter as a number. -/
def count (clock : VectorClock) (peer : String) : Nat := (clock.get peer).toNat

@[simp] theorem count_new (peer : String) : new.count peer = 0 := by
  simp [count, get, new]

theorem count_lt (clock : VectorClock) (peer : String) : clock.count peer < 2 ^ 64 :=
  (clock.get peer).toNat_lt

theorem count_increment_mod (clock : VectorClock) (author peer : String) :
    (clock.increment author).count peer =
      if peer = author then (clock.count author + 1) % 2 ^ 64 else clock.count peer := by
  by_cases own : peer = author
  · subst own
    simp [count, get, increment]
  · have other : author ≠ peer := fun same => own same.symm
    simp [count, get, increment, Std.TreeMap.getD_insert, own, other]

theorem count_increment {clock : VectorClock} {author : String}
    (room : clock.count author + 1 < 2 ^ 64) (peer : String) :
    (clock.increment author).count peer =
      if peer = author then clock.count author + 1 else clock.count peer := by
  rw [count_increment_mod, Nat.mod_eq_of_lt room]

private theorem toNat_getD_mergeEntry (ours : Std.TreeMap String UInt64) (peer other : String)
    (value : UInt64) :
    ((mergeEntry ours other value).getD peer 0).toNat =
      if other = peer then max (ours.getD peer 0).toNat value.toNat
      else (ours.getD peer 0).toNat := by
  by_cases same : other = peer
  · subst same
    by_cases above : value > ours.getD other 0
    · have larger := UInt64.lt_iff_toNat_lt.mp above
      simp [mergeEntry, above, max_eq_right larger.le]
    · have smaller := Nat.le_of_not_lt (fun less => above (UInt64.lt_iff_toNat_lt.mpr less))
      simp [mergeEntry, above, max_eq_left smaller]
  · simp [mergeEntry, Std.TreeMap.getD_insert, same]

private theorem lookup_of_mem {entries : List (String × UInt64)} {peer : String} {value : UInt64}
    (distinct : entries.Pairwise fun left right => left.1 ≠ right.1)
    (member : (peer, value) ∈ entries) : entries.lookup peer = some value := by
  induction entries with
  | nil => cases member
  | cons entry entries ih =>
      obtain ⟨key, held⟩ := entry
      obtain ⟨apart, rest⟩ := List.pairwise_cons.mp distinct
      rcases List.mem_cons.mp member with same | later
      · cases same
        simp
      · have different : (peer == key) = false := beq_false_of_ne fun same => apart _ later same.symm
        simpa only [List.lookup_cons, different] using ih rest later

private theorem toNat_getD_foldl_mergeEntry (entries : List (String × UInt64))
    (ours : Std.TreeMap String UInt64)
    (distinct : entries.Pairwise fun left right => left.1 ≠ right.1) (peer : String) :
    ((entries.foldl (fun ours entry => mergeEntry ours entry.1 entry.2) ours).getD peer 0).toNat =
      max (ours.getD peer 0).toNat ((entries.lookup peer).getD 0).toNat := by
  induction entries generalizing ours with
  | nil => simp
  | cons entry entries ih =>
      obtain ⟨key, held⟩ := entry
      obtain ⟨apart, rest⟩ := List.pairwise_cons.mp distinct
      rw [List.foldl_cons, ih _ rest, toNat_getD_mergeEntry, List.lookup_cons]
      by_cases same : key = peer
      · have absent : entries.lookup peer = none := by
          rw [List.lookup_eq_none_iff]
          intro later member
          simpa [← same] using apart later member
        simp [same, absent]
      · have different : (peer == key) = false := beq_false_of_ne fun equal => same equal.symm
        simp [same, different]

private theorem getD_lookup_toList (counters : Std.TreeMap String UInt64) (peer : String) :
    (counters.toList.lookup peer).getD 0 = counters.getD peer 0 := by
  have distinct : counters.toList.Pairwise fun left right => left.1 ≠ right.1 :=
    Std.TreeMap.distinct_keys_toList.imp fun apart same => apart (by simp [same])
  rw [Std.TreeMap.getD_eq_getD_getElem?]
  cases found : counters[peer]? with
  | none =>
      have absent : counters.toList.lookup peer = none := by
        rw [List.lookup_eq_none_iff]
        intro entry member
        have present := Std.TreeMap.mem_toList_iff_getElem?_eq_some.mp
          (show (entry.1, entry.2) ∈ counters.toList from member)
        simp only [bne_iff_ne]
        rintro rfl
        rw [found] at present
        cases present
      rw [absent]
  | some value =>
      rw [lookup_of_mem distinct (Std.TreeMap.mem_toList_iff_getElem?_eq_some.mpr found)]

@[simp] theorem count_merge (clock other : VectorClock) (peer : String) :
    (clock.merge other).count peer = max (clock.count peer) (other.count peer) := by
  have distinct : other.counters.toList.Pairwise fun left right => left.1 ≠ right.1 :=
    Std.TreeMap.distinct_keys_toList.imp fun apart same => apart (by simp [same])
  have folded := toNat_getD_foldl_mergeEntry other.counters.toList clock.counters distinct peer
  rw [getD_lookup_toList] at folded
  simpa only [count, get, merge, Std.TreeMap.foldl_eq_foldl_toList] using folded

private theorem any_ahead_iff (clock other : VectorClock) :
    ((clock.counters.keys ++ other.counters.keys).any
      fun key => decide (clock.get key > other.get key)) = true ↔
      ∃ peer, other.count peer < clock.count peer := by
  simp only [List.any_eq_true, decide_eq_true_eq]
  constructor
  · rintro ⟨peer, _, ahead⟩
    exact ⟨peer, UInt64.lt_iff_toNat_lt.mp ahead⟩
  · rintro ⟨peer, ahead⟩
    refine ⟨peer, List.mem_append_left _ ?_, UInt64.lt_iff_toNat_lt.mpr ahead⟩
    rw [Std.TreeMap.mem_keys]
    by_contra absent
    have zero : clock.get peer = 0 := Std.TreeMap.getD_eq_fallback absent
    simp [count, zero] at ahead

private theorem any_behind_iff (clock other : VectorClock) :
    ((clock.counters.keys ++ other.counters.keys).any
      fun key => decide (other.get key > clock.get key)) = true ↔
      ∃ peer, clock.count peer < other.count peer := by
  rw [← any_ahead_iff other clock]
  simp only [List.any_append, Bool.or_comm]

theorem compare_spec (clock other : VectorClock) :
    match clock.compare other with
    | .equal => ∀ peer, clock.count peer = other.count peer
    | .selfDominates => (∀ peer, other.count peer ≤ clock.count peer) ∧
        ∃ peer, other.count peer < clock.count peer
    | .otherDominates => (∀ peer, clock.count peer ≤ other.count peer) ∧
        ∃ peer, clock.count peer < other.count peer
    | .concurrent => (∃ peer, other.count peer < clock.count peer) ∧
        ∃ peer, clock.count peer < other.count peer := by
  have ahead := any_ahead_iff clock other
  have behind := any_behind_iff clock other
  simp only [VectorClock.compare]
  revert ahead behind
  generalize (List.any _ fun key => decide (clock.get key > other.get key)) = selfAhead
  generalize (List.any _ fun key => decide (other.get key > clock.get key)) = otherAhead
  intro ahead behind
  cases selfAhead <;> cases otherAhead <;>
    simp only [Bool.false_eq_true, false_iff, true_iff, not_exists, not_lt] at ahead behind ⊢
  · exact fun peer => le_antisymm (ahead peer) (behind peer)
  · exact ⟨ahead, behind⟩
  · exact ⟨behind, ahead⟩
  · exact ⟨ahead, behind⟩

theorem compare_eq_equal {clock other : VectorClock} (same : clock.compare other = .equal)
    (peer : String) : clock.count peer = other.count peer := by
  have spec := compare_spec clock other
  rw [same] at spec
  exact spec peer

end Peerdup.VectorClock
