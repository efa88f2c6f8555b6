import Mathlib.Order.Bounds.Basic
import Mathlib.Order.MinMax
import Mathlib.Tactic.Common

/-!
# Last-writer register over counted histories

Every peer numbers its writes from zero. A counter vector covers the writes
below its counters, and the register holds the greatest write covered. Merging
counters is then taking the greater of two registers.
-/

set_option autoImplicit false

namespace Peerdup.Foundation.LastWriter

variable {Peer Key : Type}

/-- The writes that a counter vector has seen. -/
def covered (history : Peer → ℕ → Key) (counts : Peer → ℕ) : Set Key :=
  {key | ∃ peer index, index < counts peer ∧ history peer index = key}

theorem covered_congr {history : Peer → ℕ → Key} {counts others : Peer → ℕ}
    (same : ∀ peer, counts peer = others peer) :
    covered history counts = covered history others := by
  rw [funext same]

theorem covered_max (history : Peer → ℕ → Key) (counts others : Peer → ℕ) :
    covered history (fun peer => max (counts peer) (others peer)) =
      covered history counts ∪ covered history others := by
  ext key
  constructor
  · rintro ⟨peer, index, below, written⟩
    rcases lt_max_iff.mp below with left | right
    · exact .inl ⟨peer, index, left, written⟩
    · exact .inr ⟨peer, index, right, written⟩
  · rintro (⟨peer, index, below, written⟩ | ⟨peer, index, below, written⟩)
    · exact ⟨peer, index, lt_max_of_lt_left below, written⟩
    · exact ⟨peer, index, lt_max_of_lt_right below, written⟩

theorem covered_mono (history : Peer → ℕ → Key) {counts others : Peer → ℕ}
    (below : ∀ peer, counts peer ≤ others peer) :
    covered history counts ⊆ covered history others := by
  rintro key ⟨peer, index, small, written⟩
  exact ⟨peer, index, small.trans_le (below peer), written⟩

variable [DecidableEq Peer]

/-- Record one write of a peer at the given number. -/
def record (history : Peer → ℕ → Key) (author : Peer) (number : ℕ) (key : Key) : Peer → ℕ → Key :=
  fun peer index => if peer = author ∧ index = number then key else history peer index

/-- Counters that have not reached the recorded number cover what they covered. -/
theorem covered_record_of_le {history : Peer → ℕ → Key} {author : Peer} {number : ℕ} {key : Key}
    {counts : Peer → ℕ} (unseen : counts author ≤ number) :
    covered (record history author number key) counts = covered history counts := by
  have kept : ∀ peer index, index < counts peer →
      record history author number key peer index = history peer index := by
    intro peer index below
    apply if_neg
    rintro ⟨rfl, rfl⟩
    omega
  ext written
  constructor
  · rintro ⟨peer, index, below, rfl⟩
    exact ⟨peer, index, below, (kept peer index below).symm⟩
  · rintro ⟨peer, index, below, rfl⟩
    exact ⟨peer, index, below, kept peer index below⟩

/-- The author's next write adds exactly itself. -/
theorem covered_record_next {history : Peer → ℕ → Key} {author : Peer} {key : Key}
    {counts others : Peer → ℕ}
    (advanced : ∀ peer, others peer = if peer = author then counts author + 1 else counts peer) :
    covered (record history author (counts author) key) others =
      insert key (covered history counts) := by
  have unchanged : covered (record history author (counts author) key) counts =
      covered history counts := covered_record_of_le (le_refl (counts author))
  rw [← unchanged]
  ext written
  constructor
  · rintro ⟨peer, index, below, rfl⟩
    rw [advanced peer] at below
    by_cases own : peer = author
    · subst own
      rw [if_pos rfl] at below
      rcases Nat.lt_succ_iff_lt_or_eq.mp below with earlier | rfl
      · exact .inr ⟨peer, index, earlier, rfl⟩
      · exact .inl (if_pos ⟨rfl, rfl⟩)
    · rw [if_neg own] at below
      exact .inr ⟨peer, index, below, rfl⟩
  · rintro (rfl | ⟨peer, index, below, rfl⟩)
    · exact ⟨author, counts author, by simp [advanced], if_pos ⟨rfl, rfl⟩⟩
    · refine ⟨peer, index, below.trans_le ?_, rfl⟩
      rw [advanced peer]
      split
      · next own => exact own ▸ Nat.le_succ _
      · exact le_refl _

variable [LinearOrder Key]

/-- The register holds the greatest write its counters cover. -/
def Latest (history : Peer → ℕ → Key) (counts : Peer → ℕ) (key : Key) : Prop :=
  IsGreatest (covered history counts) key

omit [DecidableEq Peer] in
theorem Latest.unique {history : Peer → ℕ → Key} {counts others : Peer → ℕ} {left right : Key}
    (first : Latest history counts left) (second : Latest history others right)
    (same : ∀ peer, counts peer = others peer) : left = right :=
  IsGreatest.unique first (covered_congr same ▸ second)

omit [DecidableEq Peer] in
theorem Latest.merge {history : Peer → ℕ → Key} {counts others : Peer → ℕ} {left right : Key}
    (first : Latest history counts left) (second : Latest history others right) :
    Latest history (fun peer => max (counts peer) (others peer)) (max left right) := by
  unfold Latest
  rw [covered_max]
  exact IsGreatest.union first second

omit [DecidableEq Peer] in
/-- Counters that dominate already cover the other register's write. -/
theorem Latest.le_of_le {history : Peer → ℕ → Key} {counts others : Peer → ℕ} {left right : Key}
    (first : Latest history counts left) (second : Latest history others right)
    (below : ∀ peer, counts peer ≤ others peer) : left ≤ right :=
  second.2 (covered_mono history below first.1)

theorem Latest.record_of_le {history : Peer → ℕ → Key} {author : Peer} {number : ℕ} {key other : Key}
    {counts : Peer → ℕ} (held : Latest history counts other) (unseen : counts author ≤ number) :
    Latest (record history author number key) counts other := by
  unfold Latest
  rwa [covered_record_of_le unseen]

theorem Latest.record_next {history : Peer → ℕ → Key} {author : Peer} {key other : Key}
    {counts others : Peer → ℕ} (held : Latest history counts other) (beats : other ≤ key)
    (advanced : ∀ peer, others peer = if peer = author then counts author + 1 else counts peer) :
    Latest (record history author (counts author) key) others key := by
  unfold Latest
  rw [covered_record_next advanced]
  simpa [max_eq_left beats] using IsGreatest.insert key held

theorem Latest.record_first {history : Peer → ℕ → Key} {author : Peer} {key : Key}
    {counts others : Peer → ℕ} (fresh : ∀ peer, counts peer = 0)
    (advanced : ∀ peer, others peer = if peer = author then counts author + 1 else counts peer) :
    Latest (record history author (counts author) key) others key := by
  have nothing : covered history counts = ∅ := by
    rw [Set.eq_empty_iff_forall_notMem]
    rintro written ⟨peer, index, below, _⟩
    simp [fresh peer] at below
  unfold Latest
  rw [covered_record_next advanced, nothing]
  simp

end Peerdup.Foundation.LastWriter
