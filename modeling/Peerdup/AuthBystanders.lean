import Peerdup.AuthLog

/-!
# Operations whose turn can come

What gets applied was on offer, with deps that got applied before it. Two states that differ in
operations that only wait go through the same calls alike, until the turn of such an operation
comes.
-/

set_option autoImplicit false

namespace Peerdup.Auth

open Foundation

variable {crypto : Primitives} {crdt : GroupCrdt}

theorem Ready.mono {taken more : List SignedOp} {op : SignedOp} (ready : Ready crypto taken op)
    (within : taken ⊆ more) : Ready crypto more op :=
  fun dep named => List.map_subset _ within (ready dep named)

/-- Accepting an operation never gives back the state of a CRDT without any. -/
def GroupCrdt.NeverFresh (crdt : GroupCrdt) : Prop :=
  ∀ state op next, crdt.process state op = .ok next → next ≠ crdt.new

/-- The operation with the id has been applied, or it is on offer and its turn can come. -/
abbrev Grounded (crypto : Primitives) (start offered : List SignedOp) : OpId → Prop :=
  CausalOrder.Grounded (·.computeId crypto) SignedOp.deps (start.map (·.computeId crypto)) offered

theorem takeReady_filter {taken extra pending : List SignedOp}
    (waits : ∀ op ∈ pending, op ∈ extra → ¬ Ready crypto taken op) :
    takeReady (taken.map (·.computeId crypto)) (pending.filter (· ∉ extra)) =
      (takeReady (taken.map (·.computeId crypto)) pending).map fun (op, rest) =>
        (op, rest.filter (· ∉ extra)) := by
  induction pending with
  | nil => rfl
  | cons first pending ih =>
      obtain ⟨here, others⟩ := List.forall_mem_cons.mp waits
      by_cases inserted : first ∈ extra
      · have stuck : ¬ first.deps.all (· ∈ taken.map (·.computeId crypto)) = true :=
          mt (ready_iff first).mp (here inserted)
        rw [List.filter_cons_of_neg (by simpa using inserted), ih others, takeReady, if_neg stuck]
        cases takeReady (taken.map (·.computeId crypto)) pending with
        | none => rfl
        | some found => simp [inserted]
      · rw [List.filter_cons_of_pos (by simpa using inserted), takeReady, takeReady, ih others]
        split
        · rfl
        · cases takeReady (taken.map (·.computeId crypto)) pending with
          | none => rfl
          | some found => simp [inserted]

namespace AuthState

variable {state other : AuthState crdt} {extra : List SignedOp} {op : SignedOp}

section Calls

theorem applyRemote_unsigned {failure : Failure} (unsigned : op.verify crypto = .error failure) :
    state.applyRemote crypto op = (.error ("verifying remote auth op" :: failure), state) := by
  rw [applyRemote, unsigned]

theorem applyRemote_of_held (signed : op.verify crypto = .ok ())
    (held : ∃ held ∈ state.ops ++ state.pending, held.computeId crypto = op.computeId crypto) :
    state.applyRemote crypto op = (.ok false, state) := by
  obtain ⟨held, member, same⟩ := held
  rw [applyRemote, signed]
  refine if_pos ?_
  rw [Bool.or_eq_true, List.any_eq_true, List.any_eq_true]
  exact (List.mem_append.mp member).imp (fun applied => ⟨held, applied, decide_eq_true same⟩)
    fun waits => ⟨held, waits, decide_eq_true same⟩

theorem applyRemote_of_unready (signed : op.verify crypto = .ok ())
    (fresh : ∀ held ∈ state.ops ++ state.pending, held.computeId crypto ≠ op.computeId crypto)
    (unready : ¬ Ready crypto state.ops op) :
    state.applyRemote crypto op =
      (.ok false, { state with pending := state.pending ++ [op] }) := by
  rw [applyRemote, signed]
  refine (if_neg ?_).trans (if_pos ?_)
  · simpa [or_imp, forall_and] using fresh
  · rw [Bool.not_eq_true', ← Bool.not_eq_true]
    exact mt (ready_iff op).mp unready

variable (state) in
/-- What becomes of a signed operation: it is held already, or it waits, or it reaches the CRDT. -/
theorem applyRemote_signed_cases (signed : op.verify crypto = .ok ()) :
    (∃ held ∈ state.ops ++ state.pending, held.computeId crypto = op.computeId crypto) ∨
      ((∀ held ∈ state.ops ++ state.pending, held.computeId crypto ≠ op.computeId crypto) ∧
        ¬ Ready crypto state.ops op) ∨
      state.Reaches crypto op := by
  by_cases held : ∃ held ∈ state.ops ++ state.pending, held.computeId crypto = op.computeId crypto
  · exact .inl held
  have fresh : ∀ held ∈ state.ops ++ state.pending, held.computeId crypto ≠ op.computeId crypto :=
    fun other member same => held ⟨other, member, same⟩
  by_cases ready : Ready crypto state.ops op
  · exact .inr (.inr ⟨signed, fresh, ready⟩)
  · exact .inr (.inl ⟨fresh, ready⟩)

theorem mem_drainRounds (rounds : Nat) {state : AuthState crdt} {held : SignedOp}
    (member : held ∈ (state.drainRounds crypto rounds).2.ops ++
      (state.drainRounds crypto rounds).2.pending) : held ∈ state.ops ++ state.pending := by
  induction rounds generalizing state with
  | zero => exact member
  | succ rounds ih =>
      rcases drainRounds_cases crypto rounds state with
        ⟨_, done⟩ | ⟨op, rest, found, ⟨_, _, done⟩ | ⟨next, _, done⟩⟩
      · rwa [done] at member
      · have perm := (takeReady_some found).2
        rw [done] at member
        refine List.mem_append.mpr ((List.mem_append.mp member).imp_right fun inside => ?_)
        exact perm.subset (List.mem_cons_of_mem _ inside)
      · have perm := (takeReady_some found).2
        rw [done] at member
        have inside := ih member
        rw [List.append_assoc] at inside
        exact ((perm.append_left state.ops).subset inside)

theorem drainRounds_of_none (rounds : Nat) {state : AuthState crdt}
    (stuck : takeReady (state.opIds crypto) state.pending = none) :
    state.drainRounds crypto rounds = (.ok (), state) := by
  cases rounds with
  | zero => rfl
  | succ rounds => rw [drainRounds, stuck]

/-- The state that draining starts from. -/
def taking (state : AuthState crdt) (next : crdt.State) (op : SignedOp) : AuthState crdt :=
  ⟨next, state.ops ++ [op], state.pending⟩

theorem applyRemote_of_accepted {next : crdt.State} (reaches : state.Reaches crypto op)
    (accepted : crdt.process state.crdt op = .ok next) :
    state.applyRemote crypto op =
      (((state.taking next op).drainPending crypto).1.map fun _ => true,
        ((state.taking next op).drainPending crypto).2) := by
  rw [applyRemote_of_reaches reaches, process, accepted]
  dsimp only [taking]
  rcases AuthState.drainPending crypto ⟨next, state.ops ++ [op], state.pending⟩ with ⟨result, final⟩
  cases result with
  | error failure => rfl
  | ok value => rfl

theorem mem_applyRemote {held : SignedOp}
    (member : held ∈ (state.applyRemote crypto op).2.ops ++
      (state.applyRemote crypto op).2.pending) : held ∈ state.ops ++ state.pending ∨ held = op := by
  by_cases reaches : state.Reaches crypto op
  · cases processed : crdt.process state.crdt op with
    | error cause =>
        rw [applyRemote_of_rejected reaches processed] at member
        exact .inl member
    | ok next =>
        rw [applyRemote_of_accepted reaches processed] at member
        have before := mem_drainRounds _ member
        simp only [taking, List.mem_append, List.mem_singleton] at before ⊢
        tauto
  · rcases applyRemote_stopped reaches with ⟨_, called⟩ | called | called
    · rw [called] at member
      exact .inl member
    · rw [called] at member
      exact .inl member
    · rw [called] at member
      simp only [List.mem_append, List.mem_singleton] at member ⊢
      tauto

theorem crdt_drainRounds_ne (never : crdt.NeverFresh) (rounds : Nat) (older : state.crdt ≠ crdt.new)
    {final : AuthState crdt} (drained : state.drainRounds crypto rounds = (.ok (), final)) :
    final.crdt ≠ crdt.new := by
  induction rounds generalizing state with
  | zero =>
      cases drained
      exact older
  | succ rounds ih =>
      rcases drainRounds_cases crypto rounds state with
        ⟨_, done⟩ | ⟨op, rest, _, ⟨_, _, done⟩ | ⟨next, accepted, done⟩⟩
      · cases done.symm.trans drained
        exact older
      · cases done.symm.trans drained
      · exact ih (never _ _ _ accepted) (done.symm.trans drained)

theorem crdt_drainRounds_error (rounds : Nat) {failure : Failure} {final : AuthState crdt}
    (drained : state.drainRounds crypto rounds = (.error failure, final)) :
    final.crdt = crdt.new := by
  induction rounds generalizing state with
  | zero => cases drained
  | succ rounds ih =>
      rcases drainRounds_cases crypto rounds state with
        ⟨_, done⟩ | ⟨op, rest, _, ⟨_, _, done⟩ | ⟨next, accepted, done⟩⟩
      · cases done.symm.trans drained
      · cases done.symm.trans drained
        rfl
      · exact ih (done.symm.trans drained)

/-- A call that the CRDT takes, with all that it makes ready, drains to the end. -/
theorem applyRemote_of_taken (reaches : state.Reaches crypto op)
    (accepts : crdt.Accepts state.crdt (state.arrivals crypto op)) :
    ∃ next final, crdt.process state.crdt op = .ok next ∧
      (state.taking next op).drainPending crypto = (.ok (), final) ∧
      state.applyRemote crypto op = (.ok true, final) := by
  obtain ⟨next, accepted, later⟩ := accepts
  have drains := (drainRounds_ok_iff crypto state.pending.length (state.taking next op)).mpr
  simp only [taking, opIds, List.map_append, List.map_cons, List.map_nil] at drains
  obtain ⟨value, drained⟩ := drains later
  refine ⟨next, (drainPending crypto (state.taking next op)).2, accepted, ?_, ?_⟩
  · exact Prod.ext drained rfl
  · have result : ((state.taking next op).drainPending crypto).1 = .ok value := drained
    rw [applyRemote_of_accepted reaches accepted, result]
    rfl

end Calls

section Offers

variable {start offered : List SignedOp}

/-- What has been applied was there at the start, or was on offer and its turn could come. What
waits was on offer. -/
structure Draws (crypto : Primitives) (start offered : List SignedOp) (state : AuthState crdt) :
    Prop where
  applied : ∀ op ∈ state.ops,
    op ∈ start ∨ op ∈ offered ∧ ∀ dep ∈ op.deps, Grounded crypto start offered dep
  pending : state.pending ⊆ offered

theorem draws_of_pending (pending : state.pending ⊆ offered) : Draws crypto state.ops offered state :=
  ⟨fun _ => .inl, pending⟩

theorem Draws.grounded (draws : Draws crypto start offered state) :
    ∀ held ∈ state.ops, Grounded crypto start offered (held.computeId crypto) := by
  intro held member
  rcases draws.applied held member with there | ⟨offer, deps⟩
  · exact .taken (List.mem_map_of_mem there)
  · exact .offered offer deps

theorem Draws.concat (draws : Draws crypto start offered state) (offer : op ∈ offered)
    (ready : Ready crypto state.ops op) (next : crdt.State) {rest : List SignedOp}
    (waiting : rest ⊆ state.pending) :
    Draws crypto start offered (⟨next, state.ops ++ [op], rest⟩ : AuthState crdt) := by
  refine ⟨List.forall_mem_append.mpr ⟨draws.applied, List.forall_mem_singleton.mpr ?_⟩, ?_⟩
  · exact .inr ⟨offer, ready.grounded draws.grounded⟩
  · exact fun _ member => draws.pending (waiting member)

theorem Draws.drainRounds (rounds : Nat) (draws : Draws crypto start offered state) :
    Draws crypto start offered (state.drainRounds crypto rounds).2 := by
  induction rounds generalizing state with
  | zero => exact draws
  | succ rounds ih =>
      rcases drainRounds_cases crypto rounds state with
        ⟨_, done⟩ | ⟨op, rest, found, ⟨_, _, done⟩ | ⟨next, _, done⟩⟩
      · exact done ▸ draws
      · have perm := (takeReady_some found).2
        rw [done]
        exact ⟨draws.applied, fun _ member => draws.pending (perm.subset (.tail _ member))⟩
      · obtain ⟨ready, perm⟩ := takeReady_some found
        rw [done]
        exact ih (draws.concat (draws.pending (perm.subset List.mem_cons_self)) ready next
          fun _ member => perm.subset (.tail _ member))

/-- A call adds nothing whose turn could not come. -/
theorem Draws.applyRemote (draws : Draws crypto start offered state)
    (offer : op.verify crypto = .ok () → op ∈ offered) :
    Draws crypto start offered (state.applyRemote crypto op).2 := by
  cases signed : op.verify crypto with
  | error failure =>
      rw [applyRemote_unsigned signed]
      exact draws
  | ok value =>
      rcases applyRemote_signed_cases state signed with held | ⟨fresh, unready⟩ | reaches
      · rw [applyRemote_of_held signed held]
        exact draws
      · rw [applyRemote_of_unready signed fresh unready]
        refine ⟨draws.applied, List.append_subset.mpr ⟨draws.pending, ?_⟩⟩
        exact List.cons_subset.mpr ⟨offer signed, List.nil_subset _⟩
      · cases processed : crdt.process state.crdt op with
        | error cause =>
            rw [applyRemote_of_rejected reaches processed]
            exact ⟨draws.applied, draws.pending⟩
        | ok next =>
            rw [applyRemote_of_accepted reaches processed]
            exact (draws.concat (offer signed) reaches.2.2 next (List.Subset.refl _)).drainRounds _

theorem ops_applyRemote_of_accepted {next : crdt.State} (reaches : state.Reaches crypto op)
    (accepted : crdt.process state.crdt op = .ok next) :
    state.ops ++ [op] <+: (state.applyRemote crypto op).2.ops := by
  rw [applyRemote_of_accepted reaches accepted]
  exact ops_drainRounds crypto _ (state.taking next op)

theorem ops_applyRemote (state : AuthState crdt) (op : SignedOp) :
    state.ops <+: (state.applyRemote crypto op).2.ops := by
  by_cases reaches : state.Reaches crypto op
  · cases processed : crdt.process state.crdt op with
    | error cause => rw [applyRemote_of_rejected reaches processed]
    | ok next =>
        exact (List.prefix_append _ _).trans (ops_applyRemote_of_accepted reaches processed)
  · rcases applyRemote_stopped reaches with ⟨_, called⟩ | called | called <;> rw [called]

/-- Everything on offer is held, and nothing that waits is ready. -/
structure Exhausts (crypto : Primitives) (offered : List SignedOp) (state : AuthState crdt) :
    Prop where
  holds : ∀ op ∈ offered, ∃ held ∈ state.ops ++ state.pending,
    held.computeId crypto = op.computeId crypto ∧ held.deps = op.deps
  stuck : ∀ op ∈ state.pending, ¬ Ready crypto state.ops op

/-- Then every turn that can come has come. -/
theorem Exhausts.applied (exhausts : Exhausts crypto offered state) (kept : start ⊆ state.ops)
    {dep : OpId} (grounded : Grounded crypto start offered dep) : dep ∈ state.opIds crypto := by
  refine grounded.mem_of_closed (List.map_subset _ kept) fun op offer ready => ?_
  obtain ⟨held, member, same, deps⟩ := exhausts.holds op offer
  rcases List.mem_append.mp member with applied | waits
  · exact same ▸ List.mem_map_of_mem applied
  · exact absurd (fun dep named => ready dep (deps ▸ named)) (exhausts.stuck held waits)

theorem Exhausts.holds_concat (exhausts : Exhausts crypto offered state) {next : AuthState crdt}
    (still : ∀ held ∈ state.ops ++ state.pending, held ∈ next.ops ++ next.pending)
    (there : ∃ held ∈ next.ops ++ next.pending,
      held.computeId crypto = op.computeId crypto ∧ held.deps = op.deps) :
    ∀ other ∈ offered ++ [op], ∃ held ∈ next.ops ++ next.pending,
      held.computeId crypto = other.computeId crypto ∧ held.deps = other.deps := by
  refine List.forall_mem_append.mpr ⟨fun other offer => ?_, List.forall_mem_singleton.mpr there⟩
  obtain ⟨held, member, same⟩ := exhausts.holds other offer
  exact ⟨held, still held member, same⟩

theorem Exhausts.applyRemote (exhausts : Exhausts crypto offered state)
    (signed : op.verify crypto = .ok ())
    (apart : ∀ held ∈ state.ops ++ state.pending, held.computeId crypto = op.computeId crypto →
      held.deps = op.deps)
    (taken : state.Reaches crypto op → crdt.Accepts state.crdt (state.arrivals crypto op)) :
    Exhausts crypto (offered ++ [op]) (state.applyRemote crypto op).2 := by
  rcases applyRemote_signed_cases state signed with held | ⟨fresh, unready⟩ | reaches
  · rw [applyRemote_of_held signed held]
    obtain ⟨held, member, same⟩ := held
    exact ⟨exhausts.holds_concat (fun _ => id) ⟨held, member, same, apart held member same⟩,
      exhausts.stuck⟩
  · rw [applyRemote_of_unready signed fresh unready]
    refine ⟨exhausts.holds_concat (fun held member => ?_) ⟨op, ?_, rfl, rfl⟩,
      List.forall_mem_append.mpr ⟨exhausts.stuck, List.forall_mem_singleton.mpr unready⟩⟩
    · rw [← List.append_assoc]
      exact List.mem_append_left _ member
    · exact List.mem_append_right _ (List.mem_append_right _ List.mem_cons_self)
  · obtain ⟨next, final, _, drained, called⟩ := applyRemote_of_taken reaches (taken reaches)
    rw [called]
    obtain ⟨_, takes⟩ := takes_of_drainRounds drained
    have still : ∀ held ∈ state.ops ++ [op] ++ state.pending, held ∈ final.ops ++ final.pending :=
      fun held => takes.held.mem_iff.mpr
    refine ⟨exhausts.holds_concat (fun held member => still held ?_) ⟨op, still op ?_, rfl, rfl⟩,
      takeReady_eq_none_iff.mp (takeReady_drainRounds (Nat.le_refl _) drained)⟩
    · rcases List.mem_append.mp member with applied | waits
      · exact List.mem_append_left _ (List.mem_append_left _ applied)
      · exact List.mem_append_right _ waits
    · exact List.mem_append_left _ (List.mem_append_right _ List.mem_cons_self)

end Offers

/-- The other state has the same log and CRDT, and what more it holds only waits. -/
structure Shadows (crypto : Primitives) (extra : List SignedOp) (state other : AuthState crdt) :
    Prop where
  ops : other.ops = state.ops
  crdt : other.crdt = state.crdt
  pending : other.pending.filter (· ∉ extra) = state.pending
  waits : ∀ op ∈ other.pending, op ∈ extra → ¬ Ready crypto state.ops op

/-- The operations have other ids than whatever the state holds. -/
def Apart (crypto : Primitives) (extra : List SignedOp) (state : AuthState crdt) : Prop :=
  ∀ op ∈ extra, ∀ held ∈ state.ops ++ state.pending, held.computeId crypto ≠ op.computeId crypto

theorem Shadows.refl (extra : List SignedOp) (apart : Apart crypto extra state) :
    Shadows crypto extra state state := by
  have others : ∀ op ∈ state.pending, op ∉ extra := fun op member inside =>
    apart op inside op (List.mem_append_right _ member) rfl
  refine ⟨rfl, rfl, List.filter_eq_self.mpr ?_, fun op member inside => ?_⟩
  · exact fun op member => by simpa using others op member
  · exact absurd inside (others op member)

theorem Shadows.opIds (shadows : Shadows crypto extra state other) :
    other.opIds crypto = state.opIds crypto := by
  rw [AuthState.opIds, AuthState.opIds, shadows.ops]

/-- What the one takes next of what it holds the other one takes. -/
theorem Shadows.takeReady_eq (shadows : Shadows crypto extra state other) :
    takeReady (state.opIds crypto) state.pending =
      (takeReady (other.opIds crypto) other.pending).map fun (op, rest) =>
        (op, rest.filter (· ∉ extra)) := by
  have filtered := takeReady_filter shadows.waits
  rw [shadows.pending] at filtered
  rw [shadows.opIds]
  exact filtered

section Taken

variable {rest : List SignedOp}

/-- What waits is never taken. -/
theorem Shadows.mem_rest (shadows : Shadows crypto extra state other)
    (found : takeReady (other.opIds crypto) other.pending = some (op, rest)) :
    rest ⊆ other.pending ∧ ∀ held ∈ other.pending, held ∈ extra → held ∈ rest := by
  rw [shadows.opIds] at found
  obtain ⟨ready, perm⟩ := takeReady_some found
  refine ⟨fun held member => perm.subset (List.mem_cons_of_mem _ member), ?_⟩
  intro held member inside
  rcases List.mem_cons.mp (perm.symm.subset member) with rfl | later
  · exact absurd ready (shadows.waits held member inside)
  · exact later

theorem Shadows.rejected (shadows : Shadows crypto extra state other)
    (found : takeReady (other.opIds crypto) other.pending = some (op, rest)) :
    Shadows crypto extra ⟨crdt.new, state.ops, rest.filter (· ∉ extra)⟩
      ⟨crdt.new, other.ops, rest⟩ :=
  ⟨shadows.ops, rfl, rfl, fun held member => shadows.waits held ((shadows.mem_rest found).1 member)⟩

theorem Shadows.accepted (shadows : Shadows crypto extra state other)
    (found : takeReady (other.opIds crypto) other.pending = some (op, rest)) (next : crdt.State)
    (waits : ∀ held ∈ other.pending, held ∈ extra → ¬ Ready crypto (state.ops ++ [op]) held) :
    Shadows crypto extra ⟨next, state.ops ++ [op], rest.filter (· ∉ extra)⟩
      ⟨next, other.ops ++ [op], rest⟩ :=
  ⟨by rw [shadows.ops], rfl, rfl, fun held member => waits held ((shadows.mem_rest found).1 member)⟩

end Taken

/-- Draining passes over what only waits, and keeps it. -/
theorem Shadows.drainRounds (shadows : Shadows crypto extra state other) (rounds more : Nat)
    (enough : state.pending.length ≤ rounds) (moreEnough : other.pending.length ≤ more)
    (waits : ∀ op ∈ other.pending, op ∈ extra →
      ¬ Ready crypto (state.drainRounds crypto rounds).2.ops op) :
    (other.drainRounds crypto more).1 = (state.drainRounds crypto rounds).1 ∧
      Shadows crypto extra (state.drainRounds crypto rounds).2 (other.drainRounds crypto more).2 ∧
      ∀ op ∈ other.pending, op ∈ extra → op ∈ (other.drainRounds crypto more).2.pending := by
  induction rounds generalizing state other more with
  | zero =>
      have same := shadows.takeReady_eq
      rw [List.eq_nil_of_length_eq_zero (Nat.le_zero.mp enough)] at same
      rw [drainRounds_of_none more (Option.map_eq_none_iff.mp same.symm)]
      exact ⟨rfl, shadows, fun _ member _ => member⟩
  | succ rounds ih =>
      have same := shadows.takeReady_eq
      cases found : takeReady (other.opIds crypto) other.pending with
      | none =>
          rw [found] at same
          rw [drainRounds_of_none more found, drainRounds_of_none _ same]
          exact ⟨rfl, shadows, fun _ member _ => member⟩
      | some taken =>
          obtain ⟨op, rest⟩ := taken
          rw [found] at same
          obtain ⟨within, remain⟩ := shadows.mem_rest found
          have fewer := length_of_takeReady same
          have moreFewer := length_of_takeReady found
          cases more with
          | zero => omega
          | succ more =>
              rcases drainRounds_cases crypto more other with
                ⟨stuck, _⟩ | ⟨first, after, takenOther, outcomeOther⟩
              · cases found.symm.trans stuck
              cases found.symm.trans takenOther
              rcases drainRounds_cases crypto rounds state with
                ⟨stuck, _⟩ | ⟨first, after, takenState, outcomeState⟩
              · cases same.symm.trans stuck
              cases same.symm.trans takenState
              rw [shadows.crdt] at outcomeOther
              -- Both CRDTs are one, and do the same.
              rcases outcomeState with ⟨cause, rejected, done⟩ | ⟨next, accepted, done⟩
              · rcases outcomeOther with ⟨again, rejectedAgain, doneOther⟩ | ⟨_, accepted, _⟩
                · cases rejected.symm.trans rejectedAgain
                  rw [done, doneOther]
                  exact ⟨rfl, shadows.rejected found, remain⟩
                · cases rejected.symm.trans accepted
              · rcases outcomeOther with ⟨_, rejected, _⟩ | ⟨again, acceptedAgain, doneOther⟩
                · cases accepted.symm.trans rejected
                cases accepted.symm.trans acceptedAgain
                rw [done] at waits ⊢
                rw [doneOther]
                have grows := ops_drainRounds crypto rounds
                  (⟨next, state.ops ++ [op], rest.filter (· ∉ extra)⟩ : AuthState crdt)
                have onward := shadows.accepted found next fun held member inside ready =>
                  waits held member inside (ready.mono grows.subset)
                obtain ⟨result, later, kept⟩ := ih onward more (by dsimp only; omega)
                  (by dsimp only; omega) fun held member => waits held (within member)
                exact ⟨result, later, fun held member inside =>
                  kept held (remain held member inside) inside⟩

theorem Shadows.fresh_iff (shadows : Shadows crypto extra state other)
    (apart : ∀ held ∈ extra, held.computeId crypto ≠ op.computeId crypto) :
    (∀ held ∈ other.ops ++ other.pending, held.computeId crypto ≠ op.computeId crypto) ↔
      ∀ held ∈ state.ops ++ state.pending, held.computeId crypto ≠ op.computeId crypto := by
  rw [List.forall_mem_append, List.forall_mem_append, shadows.ops, ← shadows.pending]
  refine and_congr_right fun _ => ⟨fun fresh held member => ?_, fun fresh held member => ?_⟩
  · exact fresh held (List.mem_of_mem_filter member)
  · by_cases inside : held ∈ extra
    · exact apart held inside
    · exact fresh held (List.mem_filter.mpr ⟨member, by simpa using inside⟩)

theorem Shadows.reaches_iff (shadows : Shadows crypto extra state other)
    (apart : ∀ held ∈ extra, held.computeId crypto ≠ op.computeId crypto) :
    other.Reaches crypto op ↔ state.Reaches crypto op := by
  rw [Reaches, Reaches, shadows.fresh_iff apart, shadows.opIds]

/-- A call goes by what only waits. -/
theorem Shadows.applyRemote (shadows : Shadows crypto extra state other)
    (apart : ∀ held ∈ extra, held.computeId crypto ≠ op.computeId crypto)
    (waits : ∀ held ∈ other.pending, held ∈ extra →
      ¬ Ready crypto (state.applyRemote crypto op).2.ops held) :
    (other.applyRemote crypto op).1 = (state.applyRemote crypto op).1 ∧
      Shadows crypto extra (state.applyRemote crypto op).2 (other.applyRemote crypto op).2 ∧
      ∀ held ∈ other.pending, held ∈ extra → held ∈ (other.applyRemote crypto op).2.pending := by
  have foreign : op ∉ extra := fun inside => apart op inside rfl
  cases signed : op.verify crypto with
  | error failure =>
      rw [applyRemote_unsigned signed, applyRemote_unsigned signed]
      exact ⟨rfl, shadows, fun _ member _ => member⟩
  | ok value =>
      rcases applyRemote_signed_cases state signed with held | ⟨fresh, unready⟩ | reaches
      · have otherHeld : ∃ held ∈ other.ops ++ other.pending,
            held.computeId crypto = op.computeId crypto := by
          by_contra none
          push Not at none
          obtain ⟨held, member, same⟩ := held
          exact (shadows.fresh_iff apart).mp none held member same
        rw [applyRemote_of_held signed held, applyRemote_of_held signed otherHeld]
        exact ⟨rfl, shadows, fun _ member _ => member⟩
      · have otherUnready : ¬ Ready crypto other.ops op := by rwa [shadows.ops]
        rw [applyRemote_of_unready signed fresh unready,
          applyRemote_of_unready signed ((shadows.fresh_iff apart).mpr fresh) otherUnready]
        refine ⟨rfl, ⟨shadows.ops, shadows.crdt, ?_, ?_⟩, fun _ member _ =>
          List.mem_append_left _ member⟩
        · rw [List.filter_append, shadows.pending]
          simp [foreign]
        · refine List.forall_mem_append.mpr ⟨shadows.waits, List.forall_mem_singleton.mpr ?_⟩
          exact fun inside => absurd inside foreign
      have otherReaches := (shadows.reaches_iff apart).mpr reaches
      cases processed : crdt.process state.crdt op with
      | error cause =>
          rw [applyRemote_of_rejected reaches processed,
            applyRemote_of_rejected otherReaches (shadows.crdt.symm ▸ processed)]
          exact ⟨rfl, ⟨shadows.ops, rfl, shadows.pending, shadows.waits⟩, fun _ member _ => member⟩
      | ok next =>
          rw [applyRemote_of_accepted reaches processed] at waits ⊢
          rw [applyRemote_of_accepted otherReaches (shadows.crdt.symm ▸ processed)]
          have grows := ops_drainRounds crypto state.pending.length (state.taking next op)
          have onward : Shadows crypto extra (state.taking next op) (other.taking next op) := by
            refine ⟨by rw [taking, taking, shadows.ops], rfl, shadows.pending,
              fun held member inside ready => ?_⟩
            exact waits held member inside (ready.mono grows.subset)
          obtain ⟨result, later, kept⟩ := onward.drainRounds state.pending.length
            other.pending.length (Nat.le_refl _) (Nat.le_refl _) waits
          exact ⟨congrArg (Except.map fun _ => true) result, later, kept⟩

/-- Where an operation would have to wait, it waits, and the states differ in it alone. -/
theorem Shadows.applyRemote_extra (shadows : Shadows crypto extra state other)
    (signed : op.verify crypto = .ok ()) (inside : op ∈ extra)
    (apart : Apart crypto extra state)
    (unready : ¬ Ready crypto state.ops op) :
    (other.applyRemote crypto op).1 = .ok false ∧
      Shadows crypto extra state (other.applyRemote crypto op).2 ∧
      other.pending ⊆ (other.applyRemote crypto op).2.pending ∧
      (∀ held ∈ (other.applyRemote crypto op).2.pending, held ∈ other.pending ∨ held = op) ∧
      ∃ held ∈ (other.applyRemote crypto op).2.pending, held ∈ extra ∧
        held.computeId crypto = op.computeId crypto := by
  have otherUnready : ¬ Ready crypto other.ops op := by rwa [shadows.ops]
  rcases applyRemote_signed_cases other signed with held | ⟨fresh, _⟩ | reaches
  · rw [applyRemote_of_held signed held]
    refine ⟨rfl, shadows, List.Subset.refl _, fun _ => .inl, ?_⟩
    obtain ⟨held, member, same⟩ := held
    rcases List.mem_append.mp member with applied | waits
    · refine absurd same (apart op inside held (List.mem_append_left _ ?_))
      exact shadows.ops ▸ applied
    · refine ⟨held, waits, ?_, same⟩
      by_contra own
      refine apart op inside held (List.mem_append_right _ ?_) same
      rw [← shadows.pending]
      exact List.mem_filter.mpr ⟨waits, by simpa using own⟩
  · rw [applyRemote_of_unready signed fresh otherUnready]
    refine ⟨rfl, ⟨shadows.ops, shadows.crdt, ?_, ?_⟩, List.subset_append_left _ _, ?_, ?_⟩
    · rw [List.filter_append, shadows.pending]
      simp [inside]
    · exact List.forall_mem_append.mpr
        ⟨shadows.waits, List.forall_mem_singleton.mpr fun _ => unready⟩
    · intro held member
      exact (List.mem_append.mp member).imp_right List.mem_singleton.mp
    · exact ⟨op, List.mem_append_right _ List.mem_cons_self, inside, rfl⟩
  · exact absurd reaches.2.2 otherUnready

theorem Apart.applyRemote (apart : Apart crypto extra state)
    (different : ∀ held ∈ extra, held.computeId crypto ≠ op.computeId crypto) :
    Apart crypto extra (state.applyRemote crypto op).2 := by
  intro inserted inside held member
  rcases mem_applyRemote member with earlier | rfl
  · exact apart inserted inside held earlier
  · exact (different inserted inside).symm

/-- A call whose turn it makes for an operation that the other state does not hold is not the
same there. -/
theorem Shadows.waits_of_same (shadows : Shadows crypto extra state other)
    (apart : Apart crypto extra state) (never : crdt.NeverFresh)
    (different : ∀ held ∈ extra, held.computeId crypto ≠ op.computeId crypto)
    (taken : state.Reaches crypto op → crdt.Accepts state.crdt (state.arrivals crypto op))
    (sameOps : (other.applyRemote crypto op).2.ops = (state.applyRemote crypto op).2.ops)
    (sameCrdt : (other.applyRemote crypto op).2.crdt = (state.applyRemote crypto op).2.crdt) :
    ∀ held ∈ other.pending, held ∈ extra →
      ¬ Ready crypto (state.applyRemote crypto op).2.ops held := by
  intro held member inside ready
  by_cases reaches : state.Reaches crypto op
  swap
  · have unchanged : (state.applyRemote crypto op).2.ops = state.ops := by
      rcases applyRemote_stopped reaches with ⟨_, called⟩ | called | called <;> rw [called]
    rw [unchanged] at ready
    exact shadows.waits held member inside ready
  obtain ⟨next, final, accepted, drained, called⟩ := applyRemote_of_taken reaches (taken reaches)
  have later := apart.applyRemote different
  have otherReaches := (shadows.reaches_iff different).mpr reaches
  rw [called] at sameOps sameCrdt ready later
  rw [applyRemote_of_accepted otherReaches (shadows.crdt.symm ▸ accepted)] at sameOps sameCrdt
  dsimp only at sameOps sameCrdt ready later
  rcases outcome : (other.taking next op).drainPending crypto with ⟨result, after⟩
  rw [outcome] at sameOps sameCrdt
  dsimp only at sameOps sameCrdt
  cases result with
  | error failure =>
      -- A rejection leaves the CRDT fresh, which it is not where the call goes through.
      have fresh := sameCrdt.symm.trans (crdt_drainRounds_error _ outcome)
      exact crdt_drainRounds_ne never _ (never _ _ _ accepted) drained fresh
  | ok value =>
      obtain ⟨_, takes⟩ := takes_of_drainRounds outcome
      have still : held ∈ after.ops ++ after.pending :=
        takes.held.mem_iff.mpr (List.mem_append_right _ member)
      rcases List.mem_append.mp still with applied | waits
      · exact later held inside held (List.mem_append_left _ (sameOps ▸ applied)) rfl
      · have none := takeReady_eq_none_iff.mp (takeReady_drainRounds (Nat.le_refl _) outcome)
        exact none held waits (sameOps ▸ ready)

end AuthState

section Reference

open Reference

theorem sequentialGroup_neverFresh : sequentialGroup.NeverFresh := by
  intro state op next accepted fresh
  have one : sequentialGroup.processAll state [op] = .ok next := by
    rw [GroupCrdt.processAll, accepted]
    rfl
  have listed := processed_of_processAll one
  rw [fresh] at listed
  cases (List.append_eq_nil_iff.mp listed.symm).2

end Reference

end Peerdup.Auth
