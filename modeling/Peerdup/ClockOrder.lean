import Mathlib.Order.Antisymmetrization
import Mathlib.Order.Bounds.Basic
import Peerdup.ClockProperties

/-!
# The order of vector clocks

Clocks are ordered counter by counter. `compare` decides this preorder, up to counters that
are absent on one side and zero on the other, and `merge` is its join.
-/

set_option autoImplicit false

namespace Peerdup.VectorClock

instance : Preorder VectorClock := Preorder.lift count

variable {clock other same : VectorClock}

theorem le_iff : clock ≤ other ↔ ∀ peer, clock.count peer ≤ other.count peer := Iff.rfl

theorem lt_iff : clock < other ↔
    (∀ peer, clock.count peer ≤ other.count peer) ∧ ∃ peer, clock.count peer < other.count peer := by
  rw [lt_iff_le_not_ge, le_iff, le_iff, not_forall]
  simp only [not_le]

theorem antisymmRel_iff :
    AntisymmRel (· ≤ ·) clock other ↔ ∀ peer, clock.count peer = other.count peer := by
  rw [AntisymmRel, le_iff, le_iff, ← forall_and]
  exact forall_congr' fun peer => le_antisymm_iff.symm

open scoped Classical in
/-- `compare` asks the order twice. -/
theorem compare_eq (clock other : VectorClock) : clock.compare other =
    if clock ≤ other then if other ≤ clock then .equal else .otherDominates
    else if other ≤ clock then .selfDominates else .concurrent := by
  have spec := compare_spec clock other
  cases order : clock.compare other with
  | equal =>
      rw [order] at spec
      obtain ⟨below, above⟩ := antisymmRel_iff.mpr spec
      rw [if_pos below, if_pos above]
  | selfDominates =>
      rw [order] at spec
      obtain ⟨above, apart⟩ := lt_iff_le_not_ge.mp (lt_iff.mpr spec)
      rw [if_neg apart, if_pos above]
  | otherDominates =>
      rw [order] at spec
      obtain ⟨below, apart⟩ := lt_iff_le_not_ge.mp (lt_iff.mpr spec)
      rw [if_pos below, if_neg apart]
  | concurrent =>
      rw [order] at spec
      obtain ⟨⟨ahead, larger⟩, behind, smaller⟩ := spec
      have notBelow : ¬ clock ≤ other := fun below => (below ahead).not_gt larger
      have notAbove : ¬ other ≤ clock := fun above => (above behind).not_gt smaller
      rw [if_neg notBelow, if_neg notAbove]

theorem compare_eq_equal_iff :
    clock.compare other = .equal ↔ AntisymmRel (· ≤ ·) clock other := by
  rw [compare_eq, AntisymmRel]
  split_ifs <;> simp_all

theorem compare_eq_selfDominates_iff : clock.compare other = .selfDominates ↔ other < clock := by
  rw [compare_eq, lt_iff_le_not_ge]
  split_ifs <;> simp_all

theorem compare_eq_otherDominates_iff : clock.compare other = .otherDominates ↔ clock < other := by
  rw [compare_eq, lt_iff_le_not_ge]
  split_ifs <;> simp_all

theorem compare_eq_concurrent_iff :
    clock.compare other = .concurrent ↔ ¬ clock ≤ other ∧ ¬ other ≤ clock := by
  rw [compare_eq]
  split_ifs <;> simp_all

/-- A clock can stand in for an equal one. -/
theorem compare_congr_left (equal : AntisymmRel (· ≤ ·) clock same) (other : VectorClock) :
    clock.compare other = same.compare other := by
  rw [compare_eq, compare_eq, equal.le_congr_left, equal.le_congr_right]

theorem compare_congr_right (equal : AntisymmRel (· ≤ ·) clock same) (other : VectorClock) :
    other.compare clock = other.compare same := by
  rw [compare_eq, compare_eq, equal.le_congr_left, equal.le_congr_right]

/-- `compare` answers `Equal` or `SelfDominates`. -/
def Covers (clock other : VectorClock) : Prop :=
  clock.compare other = .equal ∨ clock.compare other = .selfDominates

theorem covers_iff : clock.Covers other ↔ other ≤ clock := by
  rw [Covers, compare_eq_equal_iff, compare_eq_selfDominates_iff, le_iff_lt_or_antisymmRel, or_comm,
    antisymmRel_comm]

theorem isLUB_merge (clock other : VectorClock) : IsLUB {clock, other} (clock.merge other) := by
  constructor
  · rintro input (rfl | rfl)
    · intro peer
      rw [count_merge]
      exact le_max_left _ _
    · intro peer
      rw [count_merge]
      exact le_max_right _ _
  · intro bound upper peer
    rw [count_merge]
    exact max_le (upper (Set.mem_insert _ _) peer) (upper (Set.mem_insert_of_mem _ rfl) peer)

theorem compare_merge (behind : ∃ peer, clock.count peer < other.count peer) :
    clock.compare (clock.merge other) = .otherDominates := by
  refine compare_eq_otherDominates_iff.mpr (lt_iff.mpr ⟨(isLUB_merge clock other).1 (.inl rfl), ?_⟩)
  obtain ⟨peer, less⟩ := behind
  refine ⟨peer, ?_⟩
  rw [count_merge]
  exact less.trans_le (Nat.le_max_right _ _)

theorem compare_increment {author : String} (room : clock.count author + 1 < 2 ^ 64) :
    (clock.increment author).compare clock = .selfDominates := by
  refine compare_eq_selfDominates_iff.mpr (lt_iff.mpr ⟨fun peer => ?_, author, ?_⟩)
  · rw [count_increment room]
    split_ifs with own
    · rw [own]
      exact Nat.le_succ _
    · exact le_rfl
  · rw [count_increment room, if_pos rfl]
    exact Nat.lt_succ_self _

/-- A counter at its maximum wraps, and the clock falls behind where it was. -/
theorem compare_increment_full {author : String} (full : ¬ clock.count author + 1 < 2 ^ 64) :
    (clock.increment author).compare clock = .otherDominates := by
  have bound := clock.count_lt author
  have top : clock.count author + 1 = 2 ^ 64 := by omega
  refine compare_eq_otherDominates_iff.mpr (lt_iff.mpr ⟨fun peer => ?_, author, ?_⟩)
  · rw [count_increment_mod, top, Nat.mod_self]
    split_ifs
    · exact Nat.zero_le _
    · exact le_rfl
  · rw [count_increment_mod, top, Nat.mod_self, if_pos rfl]
    omega

theorem compare_increment_iff (clock : VectorClock) (author : String) :
    (clock.increment author).compare clock = .selfDominates ↔ clock.count author + 1 < 2 ^ 64 := by
  refine ⟨fun dominates => ?_, compare_increment⟩
  by_contra full
  rw [compare_increment_full full] at dominates
  cases dominates

theorem incrementChecked_eq_some_iff (clock : VectorClock) (author : String) :
    clock.incrementChecked author = some (clock.increment author) ↔
      clock.count author + 1 < 2 ^ 64 := by
  rw [incrementChecked, ← count]
  by_cases room : clock.count author + 1 < 2 ^ 64
  · exact iff_of_true (if_pos room) room
  · refine iff_of_false (fun kept => ?_) room
    rw [if_neg room] at kept
    cases kept

/-- What `compare` says, counter by counter. -/
structure ComparesPointwise (clock other : VectorClock) : Prop where
  equal : clock.compare other = .equal ↔ ∀ peer, clock.count peer = other.count peer
  selfDominates : clock.compare other = .selfDominates ↔
    (∀ peer, other.count peer ≤ clock.count peer) ∧ ∃ peer, other.count peer < clock.count peer
  otherDominates : clock.compare other = .otherDominates ↔
    (∀ peer, clock.count peer ≤ other.count peer) ∧ ∃ peer, clock.count peer < other.count peer
  concurrent : clock.compare other = .concurrent ↔
    (∃ peer, other.count peer < clock.count peer) ∧ ∃ peer, clock.count peer < other.count peer

/-- The clock covers both inputs, and every clock that covers both covers it. -/
structure LeastCover (join clock other : VectorClock) : Prop where
  left : join.Covers clock
  right : join.Covers other
  least : ∀ bound : VectorClock, bound.Covers clock → bound.Covers other → bound.Covers join

theorem comparesPointwise (clock other : VectorClock) : ComparesPointwise clock other where
  equal := compare_eq_equal_iff.trans antisymmRel_iff
  selfDominates := compare_eq_selfDominates_iff.trans lt_iff
  otherDominates := compare_eq_otherDominates_iff.trans lt_iff
  concurrent := by
    rw [compare_eq_concurrent_iff, le_iff, le_iff, not_forall, not_forall]
    simp only [not_le]

theorem leastCover_merge (clock other : VectorClock) : LeastCover (clock.merge other) clock other := by
  have join := isLUB_merge clock other
  refine ⟨covers_iff.mpr (join.1 (Set.mem_insert _ _)),
    covers_iff.mpr (join.1 (Set.mem_insert_of_mem _ rfl)), ?_⟩
  intro bound left right
  refine covers_iff.mpr (join.2 ?_)
  rintro input (rfl | rfl)
  · exact covers_iff.mp left
  · exact covers_iff.mp right

theorem compare_eq_equal_of_count (same : ∀ peer, clock.count peer = other.count peer) :
    clock.compare other = .equal :=
  compare_eq_equal_iff.mpr (antisymmRel_iff.mpr same)

/-- `compare` and `merge` are the order and the join of a semilattice, up to `Equal`. -/
theorem clocks_joinSemilattice :
    (∀ clock other : VectorClock, ComparesPointwise clock other) ∧
    Equivalence (fun clock other : VectorClock => clock.compare other = .equal) ∧
    (∀ clock other : VectorClock,
      clock.compare other = .selfDominates ↔ other.compare clock = .otherDominates) ∧
    (∀ clock other : VectorClock,
      clock.compare other = .concurrent ↔ other.compare clock = .concurrent) ∧
    (∀ clock other third : VectorClock,
      clock.Covers other → other.Covers third → clock.Covers third) ∧
    (∀ clock same other : VectorClock, clock.compare same = .equal →
      clock.compare other = same.compare other ∧ other.compare clock = other.compare same) ∧
    (∀ clock other : VectorClock, LeastCover (clock.merge other) clock other) ∧
    (∀ clock other third : VectorClock,
      ((clock.merge other).merge third).compare (clock.merge (other.merge third)) = .equal) ∧
    (∀ clock other : VectorClock, (clock.merge other).compare (other.merge clock) = .equal) ∧
    ∀ clock : VectorClock, (clock.merge clock).compare clock = .equal := by
  refine ⟨comparesPointwise, ⟨?_, ?_, ?_⟩, ?_, ?_, ?_, ?_, leastCover_merge, ?_, ?_, ?_⟩
  · exact fun clock => compare_eq_equal_of_count fun _ => rfl
  · intro clock other equal
    exact compare_eq_equal_iff.mpr (compare_eq_equal_iff.mp equal).symm
  · intro clock other third first second
    exact compare_eq_equal_iff.mpr
      ((compare_eq_equal_iff.mp first).trans (compare_eq_equal_iff.mp second))
  · intro clock other
    rw [compare_eq_selfDominates_iff, compare_eq_otherDominates_iff]
  · intro clock other
    rw [compare_eq_concurrent_iff, compare_eq_concurrent_iff, and_comm]
  · intro clock other third first second
    exact covers_iff.mpr ((covers_iff.mp second).trans (covers_iff.mp first))
  · intro clock same other equal
    have related := compare_eq_equal_iff.mp equal
    exact ⟨compare_congr_left related other, compare_congr_right related other⟩
  · intro clock other third
    refine compare_eq_equal_of_count fun peer => ?_
    simp only [count_merge, max_assoc]
  · intro clock other
    refine compare_eq_equal_of_count fun peer => ?_
    rw [count_merge, count_merge, max_comm]
  · intro clock
    refine compare_eq_equal_of_count fun peer => ?_
    rw [count_merge, max_self]

/-- An entry that is zero changes no comparison. -/
theorem zeroEntry_unnoticed :
    (new.merge ⟨(∅ : Std.TreeMap String UInt64).insert "ann" 0⟩).compare (new.increment "bob") =
      new.compare (new.increment "bob") := by
  have zero (peer : String) :
      count ⟨(∅ : Std.TreeMap String UInt64).insert "ann" 0⟩ peer = 0 := by
    simp [count, get, Std.TreeMap.getD_insert]
  refine (clocks_joinSemilattice.2.2.2.2.2.1 _ new (new.increment "bob") ?_).1
  refine compare_eq_equal_of_count fun peer => ?_
  rw [count_merge, zero, count_new]
  rfl

end Peerdup.VectorClock
