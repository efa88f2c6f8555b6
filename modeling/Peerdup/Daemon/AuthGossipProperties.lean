import Peerdup.Daemon.AuthGossip
import Peerdup.AuthBystanders
import Peerdup.Reference

/-!
# Rejected operations in a payload

Operations inserted into a payload leave no trace as long as their turn never comes. When it comes,
the CRDT takes them, or rejects them and is cleared, unless it was the fresh one.
-/

set_option autoImplicit false

namespace Peerdup.Daemon

open Foundation Auth

variable {crdt : GroupCrdt} {crypto : Primitives}

variable (crypto) in
/-- The correctly signed operations of a payload. -/
def signedOps (payload : List Bytes) : List SignedOp :=
  (payload.filterMap SignedOp.decode).filter fun op => (op.verify crypto).isOk

theorem mem_signedOps {payload : List Bytes} {op : SignedOp} :
    op ∈ signedOps crypto payload ↔
      (∃ raw ∈ payload, SignedOp.decode raw = some op) ∧ op.verify crypto = .ok () := by
  rw [signedOps, List.mem_filter, List.mem_filterMap]
  refine and_congr_right fun _ => ?_
  cases op.verify crypto with
  | error failure => simp [Except.isOk, Except.toBool]
  | ok value => simp [Except.isOk, Except.toBool]

theorem signedOps_append (front back : List Bytes) :
    signedOps crypto (front ++ back) = signedOps crypto front ++ signedOps crypto back := by
  rw [signedOps, List.filterMap_append, List.filter_append]
  rfl

theorem applyRaw_state (applied : Nat) (state : AuthState crdt) (raw : Bytes) :
    (applyRaw crypto applied state raw).2 = (applyRaw crypto 0 state raw).2 := by
  unfold applyRaw
  cases SignedOp.decode raw with
  | none => rfl
  | some op =>
      dsimp only
      rcases state.applyRemote crypto op with ⟨result, next⟩
      rcases result with failure | value
      · rfl
      · cases value <;> rfl

theorem applyRaw_undecoded {applied : Nat} {state : AuthState crdt} {raw : Bytes}
    (undecoded : SignedOp.decode raw = none) : applyRaw crypto applied state raw = (applied, state) := by
  rw [applyRaw, undecoded]

theorem applyRaw_decoded {applied : Nat} {state : AuthState crdt} {raw : Bytes} {op : SignedOp}
    (decoded : SignedOp.decode raw = some op) :
    (applyRaw crypto applied state raw).2 = (state.applyRemote crypto op).2 := by
  rw [applyRaw, decoded]
  dsimp only
  rcases state.applyRemote crypto op with ⟨result, next⟩
  rcases result with failure | value
  · rfl
  · cases value <;> rfl

/-- Calls with one result count alike. -/
theorem applyRaw_counts {applied : Nat} {state other : AuthState crdt} {raw : Bytes} {op : SignedOp}
    (decoded : SignedOp.decode raw = some op)
    (same : (other.applyRemote crypto op).1 = (state.applyRemote crypto op).1) :
    (applyRaw crypto applied other raw).1 = (applyRaw crypto applied state raw).1 := by
  rw [applyRaw, applyRaw, decoded]
  dsimp only
  revert same
  rcases state.applyRemote crypto op with ⟨result, next⟩
  rcases other.applyRemote crypto op with ⟨again, after⟩
  intro same
  cases same
  rcases result with failure | value
  · rfl
  · cases value <;> rfl

variable (crdt crypto) in
/-- What is no signed operation is skipped. -/
theorem signed_or_skipped (raw : Bytes) :
    (∃ op, SignedOp.decode raw = some op ∧ op.verify crypto = .ok () ∧
      signedOps crypto [raw] = [op]) ∨
    signedOps crypto [raw] = [] ∧ ∀ applied (state : AuthState crdt),
      applyRaw crypto applied state raw = (applied, state) := by
  cases decoded : SignedOp.decode raw with
  | none =>
      refine .inr ⟨?_, fun _ _ => applyRaw_undecoded decoded⟩
      rw [signedOps, List.filterMap_cons_none decoded]
      rfl
  | some op =>
      have listed : signedOps crypto [raw] = [op].filter fun op => (op.verify crypto).isOk := by
        rw [signedOps, List.filterMap_cons_some decoded]
        rfl
      cases signed : op.verify crypto with
      | ok value =>
          refine .inl ⟨op, rfl, signed, listed.trans (List.filter_cons_of_pos ?_)⟩
          rw [signed]
          rfl
      | error failure =>
          refine .inr ⟨listed.trans (List.filter_cons_of_neg ?_), fun applied state => ?_⟩
          · rw [signed]
            simp [Except.isOk, Except.toBool]
          · rw [applyRaw, decoded]
            dsimp only
            rw [AuthState.applyRemote_unsigned signed]

theorem applyRaw_uncounted {applied : Nat} {state : AuthState crdt} {raw : Bytes} {op : SignedOp}
    (decoded : SignedOp.decode raw = some op) (unapplied : (state.applyRemote crypto op).1 ≠ .ok true) :
    (applyRaw crypto applied state raw).1 = applied := by
  rw [applyRaw, decoded]
  dsimp only
  revert unapplied
  rcases state.applyRemote crypto op with ⟨result, next⟩
  intro unapplied
  rcases result with failure | value
  · rfl
  · cases value with
    | false => rfl
    | true => exact absurd rfl unapplied

theorem applyPayload_cons (applied : Nat) (state : AuthState crdt) (raw : Bytes)
    (payload : List Bytes) :
    applyPayload crypto applied state (raw :: payload) =
      applyPayload crypto (applyRaw crypto applied state raw).1
        (applyRaw crypto applied state raw).2 payload := rfl

theorem applyPayload_append (applied : Nat) (state : AuthState crdt) (front back : List Bytes) :
    applyPayload crypto applied state (front ++ back) =
      applyPayload crypto (applyPayload crypto applied state front).1
        (applyPayload crypto applied state front).2 back := by
  induction front generalizing applied state with
  | nil => rfl
  | cons raw front ih =>
      rw [List.cons_append, applyPayload_cons, applyPayload_cons, ih]

theorem applyPayload_concat (applied : Nat) (state : AuthState crdt) (front : List Bytes)
    (raw : Bytes) :
    applyPayload crypto applied state (front ++ [raw]) =
      applyRaw crypto (applyPayload crypto applied state front).1
        (applyPayload crypto applied state front).2 raw :=
  applyPayload_append applied state front [raw]

theorem ops_applyRaw (applied : Nat) (state : AuthState crdt) (raw : Bytes) :
    state.ops <+: (applyRaw crypto applied state raw).2.ops := by
  cases decoded : SignedOp.decode raw with
  | none => rw [applyRaw_undecoded decoded]
  | some op =>
      rw [applyRaw_decoded decoded]
      exact AuthState.ops_applyRemote state op

theorem ops_applyPayload (applied : Nat) (state : AuthState crdt) (payload : List Bytes) :
    state.ops <+: (applyPayload crypto applied state payload).2.ops := by
  induction payload generalizing applied state with
  | nil => exact List.prefix_refl _
  | cons raw payload ih =>
      rw [applyPayload_cons]
      exact (ops_applyRaw applied state raw).trans (ih _ _)

theorem draws_applyRaw {start offered : List SignedOp} (applied : Nat) {state : AuthState crdt}
    (draws : state.Draws crypto start offered) {raw : Bytes}
    (offers : signedOps crypto [raw] ⊆ offered) :
    (applyRaw crypto applied state raw).2.Draws crypto start offered := by
  rcases signed_or_skipped crdt crypto raw with ⟨op, decoded, _, listed⟩ | ⟨_, skipped⟩
  · rw [applyRaw_decoded decoded]
    exact draws.applyRemote fun _ => offers (listed ▸ List.mem_singleton_self op)
  · rw [skipped]
    exact draws

/-- A payload gets nothing applied whose turn could not come. -/
theorem draws_applyPayload {start offered : List SignedOp} (applied : Nat) {state : AuthState crdt}
    (draws : state.Draws crypto start offered) {payload : List Bytes}
    (offers : signedOps crypto payload ⊆ offered) :
    (applyPayload crypto applied state payload).2.Draws crypto start offered := by
  induction payload generalizing applied state with
  | nil => exact draws
  | cons raw payload ih =>
      rw [← List.singleton_append, signedOps_append, List.append_subset] at offers
      rw [applyPayload_cons]
      exact ih _ (draws_applyRaw applied draws offers.1) offers.2

/-- Where no operation reaches the CRDT, the payload leaves it alone. -/
theorem untouched_applyPayload (applied : Nat) (state : AuthState crdt) {payload : List Bytes}
    (none : ∀ op ∈ signedOps crypto payload, ¬ state.Reaches crypto op) :
    let final := (applyPayload crypto applied state payload).2
    final.ops = state.ops ∧ final.crdt = state.crdt ∧ state.pending ⊆ final.pending := by
  dsimp only
  induction payload using List.reverseRecOn with
  | nil => exact ⟨rfl, rfl, List.Subset.refl _⟩
  | append_singleton front raw ih =>
      rw [signedOps_append, List.forall_mem_append] at none
      obtain ⟨ops, crdtState, pending⟩ := ih none.1
      rw [applyPayload_concat]
      rcases signed_or_skipped crdt crypto raw with ⟨op, decoded, signed, listed⟩ | ⟨_, skipped⟩
      swap
      · rw [skipped]
        exact ⟨ops, crdtState, pending⟩
      rw [applyRaw_decoded decoded]
      have stopped : ¬ (applyPayload crypto applied state front).2.Reaches crypto op := by
        intro reaches
        refine none.2 op (listed ▸ List.mem_singleton_self op) ⟨signed, fun held member => ?_, ?_⟩
        · refine reaches.2.1 held ?_
          rw [ops]
          exact (List.mem_append.mp member).elim (List.mem_append_left _)
            fun waits => List.mem_append_right _ (pending waits)
        · rw [AuthState.opIds, ← ops]
          exact reaches.2.2
      rcases AuthState.applyRemote_stopped stopped with ⟨_, called⟩ | called | called
      · rw [called]
        exact ⟨ops, crdtState, pending⟩
      · rw [called]
        exact ⟨ops, crdtState, pending⟩
      · rw [called]
        exact ⟨ops, crdtState, fun _ member => List.mem_append_left _ (pending member)⟩

/-- One operation that both states are given goes by what only waits in the other one. -/
theorem shadows_applyRaw {extra : List SignedOp} (applied : Nat) {state other : AuthState crdt}
    {raw : Bytes} (shadows : state.Shadows crypto extra other) (apart : state.Apart crypto extra)
    (foreign : ∀ op ∈ signedOps crypto [raw], ∀ held ∈ extra,
      held.computeId crypto ≠ op.computeId crypto)
    (waits : ∀ held ∈ other.pending, held ∈ extra →
      ¬ Ready crypto (applyRaw crypto applied state raw).2.ops held) :
    (applyRaw crypto applied other raw).1 = (applyRaw crypto applied state raw).1 ∧
      (applyRaw crypto applied state raw).2.Shadows crypto extra
        (applyRaw crypto applied other raw).2 ∧
      ∀ held ∈ extra, held ∈ (applyRaw crypto applied other raw).2.pending ↔
        held ∈ other.pending := by
  rcases signed_or_skipped crdt crypto raw with ⟨op, decoded, signed, listed⟩ | ⟨_, skipped⟩
  swap
  · rw [skipped, skipped]
    exact ⟨rfl, shadows, fun _ _ => Iff.rfl⟩
  rw [applyRaw_decoded decoded] at waits
  rw [applyRaw_decoded decoded, applyRaw_decoded decoded]
  have different := foreign op (listed ▸ List.mem_singleton_self op)
  obtain ⟨result, later, kept⟩ := shadows.applyRemote different waits
  refine ⟨applyRaw_counts decoded result, later, fun held inside => ⟨fun member => ?_,
    fun member => kept held member inside⟩⟩
  rcases AuthState.mem_applyRemote (List.mem_append_right _ member) with earlier | same
  · refine (List.mem_append.mp earlier).resolve_left fun applied => ?_
    exact apart held inside held (List.mem_append_left _ (shadows.ops ▸ applied)) rfl
  · exact absurd (congrArg (·.computeId crypto) same) (different held inside)

/-- A payload in which the entries marked `true` were inserted by someone. -/
abbrev MarkedPayload := List (Bool × Bytes)

def MarkedPayload.full (marked : MarkedPayload) : List Bytes := marked.map Prod.snd

def MarkedPayload.original (marked : MarkedPayload) : List Bytes :=
  (marked.filter fun entry => !entry.1).map Prod.snd

def MarkedPayload.inserted (marked : MarkedPayload) : List Bytes :=
  (marked.filter Prod.fst).map Prod.snd

namespace MarkedPayload

theorem full_append (front back : MarkedPayload) :
    full (front ++ back) = front.full ++ back.full := List.map_append

theorem original_append (front back : MarkedPayload) :
    original (front ++ back) = front.original ++ back.original := by
  rw [original, List.filter_append, List.map_append]
  rfl

theorem inserted_append (front back : MarkedPayload) :
    inserted (front ++ back) = front.inserted ++ back.inserted := by
  rw [inserted, List.filter_append, List.map_append]
  rfl

@[simp] theorem full_concat (front : MarkedPayload) (mark : Bool) (raw : Bytes) :
    full (front ++ [(mark, raw)]) = front.full ++ [raw] := full_append front _

@[simp] theorem original_own (front : MarkedPayload) (raw : Bytes) :
    original (front ++ [(false, raw)]) = front.original ++ [raw] := original_append front _

@[simp] theorem original_inserted (front : MarkedPayload) (raw : Bytes) :
    original (front ++ [(true, raw)]) = front.original := by
  rw [original_append]
  exact List.append_nil _

theorem mem_full_of_mem_inserted {marked : MarkedPayload} {raw : Bytes}
    (member : raw ∈ marked.inserted) : raw ∈ marked.full := by
  obtain ⟨entry, listed, same⟩ := List.mem_map.mp member
  exact List.mem_map.mpr ⟨entry, List.mem_of_mem_filter listed, same⟩

theorem mem_full_of_mem_original {marked : MarkedPayload} {raw : Bytes}
    (member : raw ∈ marked.original) : raw ∈ marked.full := by
  obtain ⟨entry, listed, same⟩ := List.mem_map.mp member
  exact List.mem_map.mpr ⟨entry, List.mem_of_mem_filter listed, same⟩

end MarkedPayload

section Inserted

variable (crypto) (state : AuthState crdt) (marked : MarkedPayload)

/-- What could be applied if nothing had been inserted. -/
def onOffer : List SignedOp := state.pending ++ signedOps crypto marked.original

/-- The inserted entries are correctly signed operations that are nowhere else. Ids are hashes:
operations with one id name the same deps. -/
structure Inserts : Prop where
  signed : ∀ raw ∈ marked.inserted, ∃ op, SignedOp.decode raw = some op ∧ op.verify crypto = .ok ()
  apart : ∀ op ∈ signedOps crypto marked.inserted, ∀ held ∈ state.ops ++ onOffer crypto state marked,
    held.computeId crypto ≠ op.computeId crypto
  hashed : ∀ op ∈ state.ops ++ state.pending ++ signedOps crypto marked.full,
    ∀ held ∈ state.ops ++ state.pending ++ signedOps crypto marked.full,
      held.computeId crypto = op.computeId crypto → held.deps = op.deps

/-- The operation names one whose turn can never come. -/
def WaitsForGood (op : SignedOp) : Prop :=
  ∃ dep ∈ op.deps, ¬ Grounded crypto state.ops (onOffer crypto state marked) dep

/-- The operation is rejected at once, while the CRDT is still the fresh one. -/
def RefusedFresh (front : MarkedPayload) (op : SignedOp) : Prop :=
  state.RejectsOntoFresh op ∧ Ready crypto state.ops op ∧
    ∀ first ∈ signedOps crypto front.original, ¬ state.Reaches crypto first

/-- No inserted operation can do anything where it stands. -/
def InsertedIdle : Prop :=
  ∀ front raw back op, marked = front ++ (true, raw) :: back → SignedOp.decode raw = some op →
    WaitsForGood crypto state marked op ∨ RefusedFresh crypto state front op

/-- However far the payload has been worked off, the inserted entries make no difference. -/
def LeavesNoTrace : Prop :=
  ∀ authLog front back, marked = front ++ back →
    let full := applyAuthOps crypto state authLog front.full
    let original := applyAuthOps crypto state authLog front.original
    full.1 = original.1 ∧ full.2.1.ops = original.2.1.ops ∧ full.2.1.crdt = original.2.1.crdt ∧
      full.2.2 = original.2.2

/-- Without the inserted entries the CRDT rejects nothing. -/
def OriginalsTaken : Prop :=
  ∀ front raw back op, marked.original = front ++ raw :: back → SignedOp.decode raw = some op →
    let before := (applyPayload crypto 0 state front).2
    before.Reaches crypto op → crdt.Accepts before.crdt (before.arrivals crypto op)

end Inserted

section Beside

variable {state other : AuthState crdt} {marked front back : MarkedPayload} {raw : Bytes}
  {op : SignedOp}

theorem signedOps_mono {payload more : List Bytes} (within : payload ⊆ more) :
    signedOps crypto payload ⊆ signedOps crypto more := by
  intro op member
  obtain ⟨⟨raw, listed, decoded⟩, signed⟩ := mem_signedOps.mp member
  exact mem_signedOps.mpr ⟨⟨raw, within listed, decoded⟩, signed⟩

theorem Inserts.apart_of_draws (inserts : Inserts crypto state marked)
    (draws : other.Draws crypto state.ops (onOffer crypto state marked)) :
    other.Apart crypto (signedOps crypto marked.inserted) := by
  intro op inside held member
  refine inserts.apart op inside held ?_
  rcases List.mem_append.mp member with applied | waits
  · exact List.mem_append.mpr ((draws.applied held applied).imp_right And.left)
  · exact List.mem_append_right _ (draws.pending waits)

theorem WaitsForGood.unready (waits : WaitsForGood crypto state marked op)
    (draws : other.Draws crypto state.ops (onOffer crypto state marked)) :
    ¬ Ready crypto other.ops op := by
  obtain ⟨dep, named, never⟩ := waits
  exact fun ready => never (ready.grounded draws.grounded dep named)

variable (crypto state) in
/-- Without the inserted entries, nothing gets applied but what was on offer. -/
theorem draws_original (whole : marked = front ++ back) :
    (applyPayload crypto 0 state front.original).2.Draws crypto state.ops
      (onOffer crypto state marked) := by
  refine draws_applyPayload 0 (AuthState.draws_of_pending (List.subset_append_left _ _)) ?_
  refine List.Subset.trans (signedOps_mono ?_) (List.subset_append_right _ _)
  rw [whole, MarkedPayload.original_append]
  exact List.subset_append_left _ _

/-- An operation of the payload itself. -/
theorem Inserts.foreign (inserts : Inserts crypto state marked)
    (whole : marked = front ++ (false, raw) :: back) :
    ∀ op ∈ signedOps crypto [raw], ∀ held ∈ signedOps crypto marked.inserted,
      held.computeId crypto ≠ op.computeId crypto := by
  intro op member held inside
  refine (inserts.apart held inside op ?_).symm
  refine List.mem_append_right _ (List.mem_append_right _ (signedOps_mono ?_ member))
  rw [whole, MarkedPayload.original_append]
  exact fun _ listed => List.mem_append_right _ (List.mem_singleton.mp listed ▸ List.mem_cons_self)

theorem Inserts.inside (inserts : Inserts crypto state marked)
    (whole : marked = front ++ (true, raw) :: back) :
    ∃ op, SignedOp.decode raw = some op ∧ op.verify crypto = .ok () ∧
      op ∈ signedOps crypto marked.inserted := by
  have listed : raw ∈ marked.inserted := by
    rw [whole, MarkedPayload.inserted_append]
    exact List.mem_append_right _ List.mem_cons_self
  obtain ⟨op, decoded, signed⟩ := inserts.signed raw listed
  exact ⟨op, decoded, signed, mem_signedOps.mpr ⟨⟨raw, listed, decoded⟩, signed⟩⟩

/-- Deps go by the id, for an inserted operation and whatever is held. -/
theorem Inserts.same_deps (inserts : Inserts crypto state marked) {held : SignedOp}
    (inside : op ∈ signedOps crypto marked.inserted)
    (also : held ∈ signedOps crypto marked.inserted)
    (same : held.computeId crypto = op.computeId crypto) : held.deps = op.deps := by
  have within : signedOps crypto marked.inserted ⊆ signedOps crypto marked.full :=
    signedOps_mono fun _ => MarkedPayload.mem_full_of_mem_inserted
  exact inserts.hashed op (List.mem_append_right _ (within inside)) held
    (List.mem_append_right _ (within also)) same

/-- An inserted operation that is ready reaches the CRDT: of one with its id, none waits. -/
theorem Inserts.reaches (inserts : Inserts crypto state marked)
    (apart : other.Apart crypto (signedOps crypto marked.inserted)) {full : AuthState crdt}
    (shadows : other.Shadows crypto (signedOps crypto marked.inserted) full)
    (signed : op.verify crypto = .ok ()) (inside : op ∈ signedOps crypto marked.inserted)
    (ready : Ready crypto other.ops op) : full.Reaches crypto op := by
  refine ⟨signed, fun held member same => ?_, ?_⟩
  · by_cases also : held ∈ signedOps crypto marked.inserted
    · rcases List.mem_append.mp member with applied | waits
      · exact apart held also held (List.mem_append_left _ (shadows.ops ▸ applied)) rfl
      · refine shadows.waits held waits also fun dep named => ?_
        exact ready dep (inserts.same_deps inside also same ▸ named)
    · refine apart op inside held ?_ same
      rw [shadows.ops] at member
      refine (List.mem_append.mp member).elim (List.mem_append_left _) fun waits => ?_
      rw [← shadows.pending]
      exact List.mem_append_right _ (List.mem_filter.mpr ⟨waits, by simpa using also⟩)
  · rw [shadows.opIds]
    exact ready

/-- The state with the inserted entries is what it is without them, up to operations that wait. -/
def Beside (crypto : Primitives) (state : AuthState crdt) (marked front : MarkedPayload) : Prop :=
  (applyPayload crypto 0 state front.full).1 = (applyPayload crypto 0 state front.original).1 ∧
    (applyPayload crypto 0 state front.original).2.Shadows crypto
      (signedOps crypto marked.inserted) (applyPayload crypto 0 state front.full).2

theorem Inserts.beside_nil (inserts : Inserts crypto state marked) :
    Beside crypto state marked [] := by
  have draws := draws_original crypto state (List.nil_append marked).symm
  exact ⟨rfl, AuthState.Shadows.refl _ (inserts.apart_of_draws draws)⟩

/-- One entry of the payload itself, where it makes no inserted operation ready. -/
theorem Beside.own (beside : Beside crypto state marked front) (inserts : Inserts crypto state marked)
    (whole : marked = front ++ (false, raw) :: back)
    (waits : ∀ held ∈ (applyPayload crypto 0 state front.full).2.pending,
      held ∈ signedOps crypto marked.inserted →
        ¬ Ready crypto (applyPayload crypto 0 state (front.original ++ [raw])).2.ops held) :
    Beside crypto state marked (front ++ [(false, raw)]) ∧
      ∀ held ∈ signedOps crypto marked.inserted,
        held ∈ (applyPayload crypto 0 state (front.full ++ [raw])).2.pending ↔
          held ∈ (applyPayload crypto 0 state front.full).2.pending := by
  have apart := inserts.apart_of_draws (draws_original crypto state whole)
  obtain ⟨counts, shadows⟩ := beside
  rw [applyPayload_concat] at waits
  obtain ⟨counted, later, kept⟩ := shadows_applyRaw _ shadows apart (inserts.foreign whole) waits
  unfold Beside
  rw [MarkedPayload.full_concat, MarkedPayload.original_own, applyPayload_concat,
    applyPayload_concat, counts]
  exact ⟨⟨counted, later⟩, kept⟩

/-- An inserted entry that is not ready waits. -/
theorem Beside.inserted (beside : Beside crypto state marked front)
    (inserts : Inserts crypto state marked) (whole : marked = front ++ (true, raw) :: back)
    (decoded : SignedOp.decode raw = some op) (signed : op.verify crypto = .ok ())
    (inside : op ∈ signedOps crypto marked.inserted)
    (unready : ¬ Ready crypto (applyPayload crypto 0 state front.original).2.ops op) :
    let full := (applyPayload crypto 0 state front.full).2
    let next := (applyPayload crypto 0 state (front.full ++ [raw])).2
    Beside crypto state marked (front ++ [(true, raw)]) ∧
      full.pending ⊆ next.pending ∧ (∀ held ∈ next.pending, held ∈ full.pending ∨ held = op) ∧
      ∃ held ∈ next.pending, held ∈ signedOps crypto marked.inserted ∧
        held.computeId crypto = op.computeId crypto := by
  have apart := inserts.apart_of_draws (draws_original crypto state whole)
  obtain ⟨counts, shadows⟩ := beside
  obtain ⟨result, later⟩ := shadows.applyRemote_extra signed inside apart unready
  dsimp only
  unfold Beside
  rw [MarkedPayload.full_concat, MarkedPayload.original_inserted, applyPayload_concat,
    applyRaw_decoded decoded, applyRaw_uncounted decoded (by rw [result]; simp)]
  exact ⟨⟨counts, later.1⟩, later.2⟩

/-- An inserted entry that the fresh CRDT rejects is gone. -/
theorem Beside.refused (beside : Beside crypto state marked front)
    (decoded : SignedOp.decode raw = some op)
    (reaches : (applyPayload crypto 0 state front.full).2.Reaches crypto op)
    (refused : (applyPayload crypto 0 state front.full).2.RejectsOntoFresh op) :
    Beside crypto state marked (front ++ [(true, raw)]) ∧
      (applyPayload crypto 0 state (front.full ++ [raw])).2 =
        (applyPayload crypto 0 state front.full).2 := by
  obtain ⟨⟨cause, rejected⟩, fresh⟩ := refused
  have called := AuthState.applyRemote_of_rejected reaches rejected
  rw [← fresh] at called
  unfold Beside
  rw [MarkedPayload.full_concat, MarkedPayload.original_inserted, applyPayload_concat,
    applyRaw_decoded decoded, applyRaw_uncounted decoded (by rw [called]; simp), called]
  exact ⟨beside, rfl⟩

/-- While the inserted operations are idle, the state is what it would be without them, and those
that wait wait for good. -/
theorem beside_of_idle (inserts : Inserts crypto state marked)
    (idle : InsertedIdle crypto state marked) (whole : marked = front ++ back) :
    Beside crypto state marked front ∧
      ∀ held ∈ signedOps crypto marked.inserted,
        held ∈ (applyPayload crypto 0 state front.full).2.pending →
          WaitsForGood crypto state marked held := by
  induction front using List.reverseRecOn generalizing back with
  | nil =>
      have apart := inserts.apart_of_draws (draws_original crypto state whole)
      refine ⟨inserts.beside_nil, fun held inside member => ?_⟩
      exact absurd rfl (apart held inside held (List.mem_append_right _ member))
  | append_singleton front entry ih =>
      obtain ⟨mark, raw⟩ := entry
      rw [List.append_assoc, List.singleton_append] at whole
      obtain ⟨beside, waits⟩ := ih whole
      have draws := draws_original crypto state whole
      rw [MarkedPayload.full_concat]
      cases mark with
      | false =>
          have after : marked = (front ++ [(false, raw)]) ++ back := by simpa using whole
          obtain ⟨later, kept⟩ := beside.own inserts whole fun held member inside => by
            refine (waits held inside member).unready ?_
            rw [← MarkedPayload.original_own]
            exact draws_original crypto state after
          exact ⟨later, fun held inside member => waits held inside ((kept held inside).mp member)⟩
      | true =>
          obtain ⟨op, decoded, signed, inside⟩ := inserts.inside whole
          rcases idle front raw back op whole decoded with forGood | ⟨fresh, ready, none⟩
          · obtain ⟨later, _, added, _⟩ :=
              beside.inserted inserts whole decoded signed inside (forGood.unready draws)
            refine ⟨later, fun held also member => ?_⟩
            rcases added held member with earlier | rfl
            · exact waits held also earlier
            · exact forGood
          · obtain ⟨ops, crdtState, _⟩ := untouched_applyPayload 0 state none
            have reaches := inserts.reaches (inserts.apart_of_draws draws) beside.2 signed inside
              (by rwa [ops])
            obtain ⟨later, same⟩ := beside.refused decoded reaches
              (by rwa [AuthState.RejectsOntoFresh, beside.2.crdt, crdtState])
            rw [same]
            exact ⟨later, waits⟩

/-- Without the inserted entries, as far as the payload has been worked off: all that was on offer
is held, what waits is not ready, and the CRDT is fresh only if nothing has reached it. -/
structure Going (crypto : Primitives) (state : AuthState crdt) (front : MarkedPayload) : Prop where
  exhausts : (applyPayload crypto 0 state front.original).2.Exhausts crypto
    (onOffer crypto state front)
  fresh : (applyPayload crypto 0 state front.original).2.crdt = crdt.new →
    ∀ first ∈ signedOps crypto front.original, ¬ state.Reaches crypto first

theorem Inserts.hashed_original (inserts : Inserts crypto state marked)
    (whole : marked = front ++ (false, raw) :: back) {op held : SignedOp}
    (member : op ∈ signedOps crypto [raw])
    (earlier : held ∈ (applyPayload crypto 0 state front.original).2.ops ++
      (applyPayload crypto 0 state front.original).2.pending)
    (same : held.computeId crypto = op.computeId crypto) : held.deps = op.deps := by
  have draws := draws_original crypto state whole
  have within : signedOps crypto marked.original ⊆ signedOps crypto marked.full :=
    signedOps_mono fun _ => MarkedPayload.mem_full_of_mem_original
  have known : ∀ held, held ∈ state.ops ∨ held ∈ onOffer crypto state marked →
      held ∈ state.ops ++ state.pending ++ signedOps crypto marked.full := by
    rintro held (there | offer)
    · exact List.mem_append_left _ (List.mem_append_left _ there)
    · rcases List.mem_append.mp offer with waits | arrives
      · exact List.mem_append_left _ (List.mem_append_right _ waits)
      · exact List.mem_append_right _ (within arrives)
  refine inserts.hashed op (known op (.inr ?_)) held (known held ?_) same
  · refine List.mem_append_right _ (signedOps_mono ?_ member)
    rw [whole, MarkedPayload.original_append]
    exact fun _ listed => List.mem_append_right _ (List.mem_singleton.mp listed ▸ List.mem_cons_self)
  · rcases List.mem_append.mp earlier with applied | waits
    · exact (draws.applied held applied).imp_right And.left
    · exact .inr (draws.pending waits)

/-- One entry of the payload itself that the CRDT takes if it reaches it. -/
theorem Going.own (going : Going crypto state front) (never : crdt.NeverFresh)
    (inserts : Inserts crypto state marked) (taken : OriginalsTaken crypto state marked)
    (whole : marked = front ++ (false, raw) :: back) :
    Going crypto state (front ++ [(false, raw)]) := by
  have more : onOffer crypto state (front ++ [(false, raw)]) =
      onOffer crypto state front ++ signedOps crypto [raw] := by
    rw [onOffer, MarkedPayload.original_own, signedOps_append, onOffer, List.append_assoc]
  rcases signed_or_skipped crdt crypto raw with ⟨op, decoded, signed, listed⟩ | ⟨empty, skipped⟩
  swap
  · constructor
    · rw [more, empty, List.append_nil, MarkedPayload.original_own, applyPayload_concat, skipped]
      exact going.exhausts
    · rw [MarkedPayload.original_own, applyPayload_concat, skipped, signedOps_append, empty,
        List.append_nil]
      exact going.fresh
  have accepts := taken front.original raw back.original op
    (by rw [whole, MarkedPayload.original_append]; rfl) decoded
  have deps : ∀ held ∈ (applyPayload crypto 0 state front.original).2.ops ++
      (applyPayload crypto 0 state front.original).2.pending,
      held.computeId crypto = op.computeId crypto → held.deps = op.deps :=
    fun held => inserts.hashed_original whole (listed ▸ List.mem_singleton_self op)
  constructor
  · rw [more, listed, MarkedPayload.original_own, applyPayload_concat, applyRaw_decoded decoded]
    exact going.exhausts.applyRemote signed deps accepts
  · rw [MarkedPayload.original_own, applyPayload_concat, applyRaw_decoded decoded,
      signedOps_append, listed, List.forall_mem_append, List.forall_mem_singleton]
    intro fresh
    by_cases reaches : (applyPayload crypto 0 state front.original).2.Reaches crypto op
    · obtain ⟨next, final, accepted, drained, called⟩ :=
        AuthState.applyRemote_of_taken reaches (accepts reaches)
      rw [called] at fresh
      exact absurd fresh (AuthState.crdt_drainRounds_ne never _ (never _ _ _ accepted) drained)
    have still : (applyPayload crypto 0 state front.original).2.crdt = crdt.new := by
      rcases AuthState.applyRemote_stopped reaches with ⟨_, called⟩ | called | called <;>
      · rw [called] at fresh
        exact fresh
    have none := going.fresh still
    obtain ⟨ops, _, _⟩ := untouched_applyPayload 0 state none
    refine ⟨none, fun earlier => reaches ⟨signed, fun held member same => ?_, ?_⟩⟩
    · rcases List.mem_append.mp member with applied | waits
      · exact earlier.2.1 held (List.mem_append_left _ (ops ▸ applied)) same
      · refine going.exhausts.stuck held waits fun dep named => ?_
        rw [ops]
        exact earlier.2.2 dep (deps held member same ▸ named)
    · rw [AuthState.opIds, ops]
      exact earlier.2.2

theorem going_of_taken (never : crdt.NeverFresh) (inserts : Inserts crypto state marked)
    (stuck : takeReady (state.opIds crypto) state.pending = none)
    (taken : OriginalsTaken crypto state marked) (whole : marked = front ++ back) :
    Going crypto state front := by
  induction front using List.reverseRecOn generalizing back with
  | nil =>
      refine ⟨⟨fun op offer => ⟨op, ?_, rfl, rfl⟩, takeReady_eq_none_iff.mp stuck⟩, fun _ _ => ?_⟩
      · exact List.mem_append_right _ (List.append_nil state.pending ▸ offer)
      · exact fun member => absurd member List.not_mem_nil
  | append_singleton front entry ih =>
      obtain ⟨mark, raw⟩ := entry
      rw [List.append_assoc, List.singleton_append] at whole
      have going := ih whole
      cases mark with
      | true =>
          have same : onOffer crypto state (front ++ [(true, raw)]) = onOffer crypto state front := by
            rw [onOffer, MarkedPayload.original_inserted, onOffer]
          constructor
          · rw [same, MarkedPayload.original_inserted]
            exact going.exhausts
          · rw [MarkedPayload.original_inserted]
            exact going.fresh
      | false => exact going.own never inserts taken whole

/-- An inserted operation that is ready leaves no trace only where the fresh CRDT rejects it. -/
theorem Beside.refused_of_same (beside : Beside crypto state marked front)
    (going : Going crypto state front) (inserts : Inserts crypto state marked)
    (whole : marked = front ++ (true, raw) :: back) (signed : op.verify crypto = .ok ())
    (inside : op ∈ signedOps crypto marked.inserted)
    (ready : Ready crypto (applyPayload crypto 0 state front.original).2.ops op)
    (sameOps : ((applyPayload crypto 0 state front.full).2.applyRemote crypto op).2.ops =
      (applyPayload crypto 0 state front.original).2.ops)
    (sameCrdt : ((applyPayload crypto 0 state front.full).2.applyRemote crypto op).2.crdt =
      (applyPayload crypto 0 state front.original).2.crdt) :
    RefusedFresh crypto state front op ∧
      (applyPayload crypto 0 state front.full).2.Reaches crypto op ∧
      (applyPayload crypto 0 state front.full).2.RejectsOntoFresh op := by
  have apart := inserts.apart_of_draws (draws_original crypto state whole)
  have reaches := inserts.reaches apart beside.2 signed inside ready
  cases processed : crdt.process (applyPayload crypto 0 state front.full).2.crdt op with
  | ok next =>
      -- An operation that the CRDT takes is in the log, where the original has none.
      have longer := (AuthState.ops_applyRemote_of_accepted reaches processed).length_le
      rw [sameOps, beside.2.ops, List.length_append, List.length_singleton] at longer
      exact absurd longer (Nat.not_succ_le_self _)
  | error cause =>
      rw [AuthState.applyRemote_of_rejected reaches processed] at sameCrdt
      have fresh : (applyPayload crypto 0 state front.original).2.crdt = crdt.new := sameCrdt.symm
      have none := going.fresh fresh
      obtain ⟨ops, crdtState, _⟩ := untouched_applyPayload 0 state none
      have start := beside.2.crdt.trans crdtState
      refine ⟨⟨⟨⟨cause, start ▸ processed⟩, crdtState.symm.trans fresh⟩, ops ▸ ready, none⟩,
        reaches, ⟨cause, processed⟩, ?_⟩
      rw [beside.2.crdt, fresh]

theorem split_concat {Entry : Type} {front earlier later : List Entry} {last entry : Entry}
    (whole : front ++ [last] = earlier ++ entry :: later) :
    (front = earlier ∧ last = entry) ∨ ∃ rest, front = earlier ++ entry :: rest := by
  rcases List.eq_nil_or_concat later with none | ⟨rest, final, same⟩
  · rw [none] at whole
    obtain ⟨fronts, lasts⟩ := List.append_inj' whole rfl
    exact .inl ⟨fronts, List.singleton_inj.mp lasts⟩
  · rw [same, List.concat_eq_append, ← List.cons_append, ← List.append_assoc] at whole
    exact .inr ⟨rest, (List.append_inj' whole rfl).1⟩

/-- Every inserted operation so far was refused at once, or waits under its id. -/
def Excused (crypto : Primitives) (state : AuthState crdt) (marked front : MarkedPayload) : Prop :=
  ∀ earlier raw later op, front = earlier ++ (true, raw) :: later → SignedOp.decode raw = some op →
    RefusedFresh crypto state earlier op ∨
      ∃ held ∈ (applyPayload crypto 0 state front.full).2.pending,
        held ∈ signedOps crypto marked.inserted ∧ held.computeId crypto = op.computeId crypto

theorem Excused.concat (excused : Excused crypto state marked front) {mark : Bool}
    (kept : ∀ held ∈ signedOps crypto marked.inserted,
      held ∈ (applyPayload crypto 0 state front.full).2.pending →
        held ∈ (applyPayload crypto 0 state (front.full ++ [raw])).2.pending)
    (last : mark = true → ∀ op, SignedOp.decode raw = some op → RefusedFresh crypto state front op ∨
      ∃ held ∈ (applyPayload crypto 0 state (front.full ++ [raw])).2.pending,
        held ∈ signedOps crypto marked.inserted ∧ held.computeId crypto = op.computeId crypto) :
    Excused crypto state marked (front ++ [(mark, raw)]) := by
  intro earlier other later op split decoded
  rw [MarkedPayload.full_concat]
  rcases split_concat split with ⟨rfl, same⟩ | ⟨rest, before⟩
  · cases same
    exact last rfl op decoded
  · refine (excused earlier other rest op before decoded).imp_right ?_
    rintro ⟨held, waiting, inside, same⟩
    exact ⟨held, kept held inside waiting, inside, same⟩

/-- If nothing is to be seen of it however far the payload goes, an inserted operation was idle. -/
theorem beside_of_traceless (never : crdt.NeverFresh) (inserts : Inserts crypto state marked)
    (stuck : takeReady (state.opIds crypto) state.pending = none)
    (taken : OriginalsTaken crypto state marked) (traceless : LeavesNoTrace crypto state marked)
    (whole : marked = front ++ back) :
    Beside crypto state marked front ∧ Excused crypto state marked front := by
  induction front using List.reverseRecOn generalizing back with
  | nil => exact ⟨inserts.beside_nil, fun earlier _ _ _ whole => by simp at whole⟩
  | append_singleton front entry ih =>
      obtain ⟨mark, raw⟩ := entry
      rw [List.append_assoc, List.singleton_append] at whole
      obtain ⟨beside, excused⟩ := ih whole
      have after : marked = (front ++ [(mark, raw)]) ++ back := by simpa using whole
      have draws := draws_original crypto state whole
      have apart := inserts.apart_of_draws draws
      obtain ⟨_, sameOps, sameCrdt, _⟩ := traceless none _ _ after
      rw [applyAuthOps, applyAuthOps] at sameOps sameCrdt
      dsimp only at sameOps sameCrdt
      cases mark with
      | false =>
          rw [MarkedPayload.full_concat, MarkedPayload.original_own, applyPayload_concat,
            applyPayload_concat] at sameOps sameCrdt
          have waits : ∀ held ∈ (applyPayload crypto 0 state (MarkedPayload.full front)).2.pending,
              held ∈ signedOps crypto marked.inserted → ¬ Ready crypto
                (applyPayload crypto 0 state (MarkedPayload.original front ++ [raw])).2.ops held := by
            rw [applyPayload_concat]
            rcases signed_or_skipped crdt crypto raw with ⟨op, decoded, _, listed⟩ | ⟨_, skipped⟩
            · rw [applyRaw_decoded decoded, applyRaw_decoded decoded] at sameOps sameCrdt
              rw [applyRaw_decoded decoded]
              have accepts := taken (MarkedPayload.original front) raw (MarkedPayload.original back) op
                (by rw [whole, MarkedPayload.original_append]; rfl) decoded
              exact beside.2.waits_of_same apart never
                (inserts.foreign whole op (listed ▸ List.mem_singleton_self op)) accepts sameOps
                sameCrdt
            · rw [skipped]
              exact beside.2.waits
          obtain ⟨next, kept⟩ := beside.own inserts whole waits
          exact ⟨next, excused.concat (fun held inside => (kept held inside).mpr) nofun⟩
      | true =>
          rw [MarkedPayload.full_concat, MarkedPayload.original_inserted, applyPayload_concat]
            at sameOps sameCrdt
          obtain ⟨op, decoded, signed, inside⟩ := inserts.inside whole
          rw [applyRaw_decoded decoded] at sameOps sameCrdt
          have going := going_of_taken never inserts stuck taken whole
          by_cases ready : Ready crypto
            (applyPayload crypto 0 state (MarkedPayload.original front)).2.ops op
          · obtain ⟨refused, reaches, onto⟩ :=
              beside.refused_of_same going inserts whole signed inside ready sameOps sameCrdt
            obtain ⟨next, same⟩ := beside.refused decoded reaches onto
            refine ⟨next, excused.concat (fun held _ waiting => same ▸ waiting) fun _ first read => ?_⟩
            cases decoded.symm.trans read
            exact .inl refused
          · obtain ⟨next, stays, _, new⟩ := beside.inserted inserts whole decoded signed inside ready
            refine ⟨next, excused.concat (fun held _ waiting => stays waiting) fun _ first read => ?_⟩
            cases decoded.symm.trans read
            exact .inr new

theorem leavesNoTrace_of_idle (inserts : Inserts crypto state marked)
    (idle : InsertedIdle crypto state marked) : LeavesNoTrace crypto state marked := by
  intro authLog front back whole
  obtain ⟨⟨counts, shadows⟩, _⟩ := beside_of_idle inserts idle whole
  dsimp only
  rw [applyAuthOps, applyAuthOps]
  dsimp only
  rw [counts, shadows.ops]
  exact ⟨rfl, rfl, shadows.crdt, rfl⟩

theorem idle_of_leavesNoTrace (never : crdt.NeverFresh) (inserts : Inserts crypto state marked)
    (stuck : takeReady (state.opIds crypto) state.pending = none)
    (taken : OriginalsTaken crypto state marked) (traceless : LeavesNoTrace crypto state marked) :
    InsertedIdle crypto state marked := by
  intro front raw back op whole decoded
  have all := (List.append_nil marked).symm
  obtain ⟨⟨_, shadows⟩, excused⟩ := beside_of_traceless never inserts stuck taken traceless all
  have going := going_of_taken never inserts stuck taken all
  refine (excused front raw back op whole decoded).symm.imp_left ?_
  rintro ⟨held, waiting, also, same⟩
  obtain ⟨read, again, signed, inside⟩ := inserts.inside whole
  cases again.symm.trans decoded
  have deps := inserts.same_deps inside also same
  by_contra grounded
  refine shadows.waits held waiting also fun dep named => ?_
  refine going.exhausts.applied (ops_applyPayload 0 state _).subset ?_
  by_contra never
  exact grounded ⟨dep, deps ▸ named, never⟩

end Beside

variable (crdt crypto) in
/-- A failing call leaves the state alone exactly when no rejection can spoil it. Operations inserted
into a payload leave no trace exactly when they are idle, as long as the rest is not rejected. -/
theorem failures_leave_no_trace_iff :
    (∀ (state : AuthState crdt) (call : AuthCall crypto),
      (∀ failure next, state.call crypto call = (some failure, next) → next = state) ↔
        state.Unspoiled crypto call) ∧
    ∀ (state : AuthState crdt) (marked : MarkedPayload), Inserts crypto state marked →
      (InsertedIdle crypto state marked → LeavesNoTrace crypto state marked) ∧
      (crdt.NeverFresh → takeReady (state.opIds crypto) state.pending = none →
        OriginalsTaken crypto state marked → LeavesNoTrace crypto state marked →
          InsertedIdle crypto state marked) := by
  refine ⟨AuthState.call_clean_iff, fun state marked inserts => ⟨leavesNoTrace_of_idle inserts, ?_⟩⟩
  exact fun never stuck => idle_of_leavesNoTrace never inserts stuck

section Samples

open Reference

/-- Correctly signed, but the stranger has no access. -/
def strangerRemoval (state : AuthState sequentialGroup) : SignedOp :=
  state.authored cleartext stranger docs (.remove (.individual founder.val))

/-- The stranger removes the founder, on top of a creation that never gets out. -/
def strandedRemoval : SignedOp :=
  strangerRemoval (AuthState.empty.createGroup cleartext stranger docs).2

/-- The removal comes first and waits, and then the founder lets the guest in. -/
def strandedPayload : MarkedPayload :=
  [(true, strandedRemoval.encode), (false, AuthState.admission.encode)]

theorem strandedPayload_inserts : Inserts cleartext founded strandedPayload where
  signed := by
    intro raw member
    have only : raw = strandedRemoval.encode := by simpa [strandedPayload, MarkedPayload.inserted]
      using member
    exact ⟨strandedRemoval, by rw [only]; decide +kernel, by decide +kernel⟩
  apart := by decide +kernel
  hashed := by decide +kernel

theorem strandedRemoval_waits : WaitsForGood cleartext founded strandedPayload strandedRemoval := by
  have nowhere : ∃ group ∈ strandedRemoval.deps,
      group ∉ founded.ops.map (·.computeId cleartext) ++
        (onOffer cleartext founded strandedPayload).map (·.computeId cleartext) := by decide +kernel
  obtain ⟨group, named, absent⟩ := nowhere
  refine ⟨group, named, fun grounded => absent ?_⟩
  refine grounded.mem_of_closed (List.subset_append_left _ _) fun op offer _ => ?_
  exact List.mem_append_right _ (List.mem_map_of_mem offer)

theorem strandedPayload_idle : InsertedIdle cleartext founded strandedPayload := by
  intro front raw back op whole decoded
  have listed : raw ∈ MarkedPayload.inserted strandedPayload := by
    rw [whole, MarkedPayload.inserted_append]
    exact List.mem_append_right _ List.mem_cons_self
  have only : MarkedPayload.inserted strandedPayload = [strandedRemoval.encode] := rfl
  rw [only, List.mem_singleton] at listed
  have read : SignedOp.decode strandedRemoval.encode = some strandedRemoval := by decide +kernel
  rw [listed, read] at decoded
  cases decoded
  exact .inl strandedRemoval_waits

/-- The CRDT takes the guest's admission. -/
theorem strandedPayload_taken : OriginalsTaken cleartext founded strandedPayload := by
  intro front raw back op whole decoded before _
  cases front with
  | cons first front =>
      have length := congrArg List.length whole
      simp [strandedPayload, MarkedPayload.original] at length
  | nil =>
      cases whole
      have read : SignedOp.decode AuthState.admission.encode = some AuthState.admission := by
        decide +kernel
      cases read.symm.trans decoded
      have accepted : (sequentialGroup.process founded.crdt AuthState.admission).isOk = true := by
        decide +kernel
      revert accepted
      change (sequentialGroup.process founded.crdt AuthState.admission).isOk = true → _
      cases processed : sequentialGroup.process founded.crdt AuthState.admission with
      | error cause => exact fun contra => by cases contra
      | ok next => exact fun _ => ⟨next, processed, trivial⟩

/-- A removal that waits for good makes no difference to the guest's admission. -/
theorem strandedPayload_leaves_no_trace :
    LeavesNoTrace cleartext founded strandedPayload ∧
      InsertedIdle cleartext founded strandedPayload := by
  have exactly := (failures_leave_no_trace_iff sequentialGroup cleartext).2 founded strandedPayload
    strandedPayload_inserts
  have traceless := exactly.1 strandedPayload_idle
  exact ⟨traceless, exactly.2 sequentialGroup_neverFresh (by decide +kernel)
    strandedPayload_taken traceless⟩

/-- One rejected operation from a stranger, and the founder is no member any more. -/
theorem strangerRemoval_wipes_members :
    (founded.call cleartext (.applyRemote (strangerRemoval founded))).1 =
        some ["auth crdt error: author is no manager"] ∧
      founded.members docs = [(founder.val, .owner)] ∧
      (founded.call cleartext (.applyRemote (strangerRemoval founded))).2.members docs = [] ∧
      (applyAuthOps cleartext founded none [(strangerRemoval founded).encode]).2.1.members docs =
        [] := by
  decide +kernel

end Samples

end Peerdup.Daemon
