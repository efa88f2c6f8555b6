import Peerdup.Auth

/-!
# When membership calls fail cleanly

A failing call should leave the membership as it was. `process` takes the CRDT state
out before it can fail, so a rejected operation clears the CRDT, and a rejection
while draining also leaves what was applied before it.
-/

set_option autoImplicit false

namespace Peerdup.Auth

open Foundation

theorem length_of_takeReady {known : List OpId} {pending rest : List SignedOp} {op : SignedOp}
    (taken : takeReady known pending = some (op, rest)) : pending.length = rest.length + 1 := by
  induction pending generalizing rest with
  | nil => cases taken
  | cons head pending ih =>
      simp only [takeReady] at taken
      split at taken
      · cases taken
        rfl
      · obtain ⟨⟨ready, others⟩, earlier, same⟩ := Option.map_eq_some_iff.mp taken
        cases same
        rw [List.length_cons, List.length_cons, ih earlier]

/-- The pending operations that become ready once `known` is applied, in that order. -/
def readyOrder (crypto : Primitives) : Nat → List OpId → List SignedOp → List SignedOp
  | 0, _, _ => []
  | rounds + 1, known, pending =>
      match takeReady known pending with
      | none => []
      | some (op, rest) => op :: readyOrder crypto rounds (known ++ [op.computeId crypto]) rest

/-- The CRDT takes the operations one after another. -/
def GroupCrdt.Accepts (crdt : GroupCrdt) : crdt.State → List SignedOp → Prop
  | _, [] => True
  | state, op :: ops => ∃ next, crdt.process state op = .ok next ∧ crdt.Accepts next ops

/-- The calls that change an `AuthState`. -/
inductive AuthCall (crypto : Primitives) where
  | applyRemote (op : SignedOp)
  | createGroup (myKey : crypto.PrivateKey) (groupId : MemberId)
  | addMember (myKey : crypto.PrivateKey) (groupId newMember : MemberId) (role : AuthRole)
  | removeMember (myKey : crypto.PrivateKey) (groupId member : MemberId)

namespace AuthState

variable {crdt : GroupCrdt} {crypto : Primitives}

theorem process_error {state next : AuthState crdt} {op : SignedOp} {failure : Failure}
    (failed : state.process op = (.error failure, next)) :
    (∃ cause, crdt.process state.crdt op = .error cause) ∧ next = { state with crdt := crdt.new } := by
  unfold process at failed
  split at failed
  · next cause rejected =>
      cases failed
      exact ⟨⟨cause, rejected⟩, rfl⟩
  · cases failed

theorem process_ok {state next : AuthState crdt} {op : SignedOp} {value : Unit}
    (accepted : state.process op = (.ok value, next)) :
    ∃ after, crdt.process state.crdt op = .ok after ∧
      next = { state with crdt := after, ops := state.ops ++ [op] } := by
  unfold process at accepted
  split at accepted
  · cases accepted
  · next after taken =>
      cases accepted
      exact ⟨after, taken, rfl⟩

/-- A rejection leaves no members at all. -/
theorem flat_process {state : AuthState crdt} {op : SignedOp} (flat : crdt.Flat state.crdt)
    (addsNoGroup : op.payload.action.AddsNoGroup) : crdt.Flat (state.process op).2.crdt := by
  unfold process
  split
  · exact .new
  next accepted => exact flat.process addsNoGroup accepted

theorem flat_author {state : AuthState crdt} {groupId : MemberId} {action : GroupAction}
    (flat : crdt.Flat state.crdt) (addsNoGroup : action.AddsNoGroup)
    (myKey : crypto.PrivateKey) :
    crdt.Flat (state.author crypto myKey groupId action).2.crdt := by
  have after : crdt.Flat (state.process (state.authored crypto myKey groupId action)).2.crdt :=
    flat_process flat addsNoGroup
  unfold author
  dsimp only
  revert after
  rcases state.process (state.authored crypto myKey groupId action) with ⟨result, next⟩
  cases result with
  | error failure => exact id
  | ok value => exact id

variable (crypto) in
/-- One round of draining: nothing is ready, or the CRDT refuses what is, or takes it. -/
theorem drainRounds_cases (rounds : Nat) (state : AuthState crdt) :
    (takeReady (state.opIds crypto) state.pending = none ∧
      state.drainRounds crypto (rounds + 1) = (.ok (), state)) ∨
    ∃ op rest, takeReady (state.opIds crypto) state.pending = some (op, rest) ∧
      ((∃ cause, crdt.process state.crdt op = .error cause ∧
        state.drainRounds crypto (rounds + 1) =
          (.error ["auth crdt error: " ++ cause], ⟨crdt.new, state.ops, rest⟩)) ∨
      ∃ next, crdt.process state.crdt op = .ok next ∧
        state.drainRounds crypto (rounds + 1) =
          drainRounds crypto rounds ⟨next, state.ops ++ [op], rest⟩) := by
  rw [drainRounds]
  cases takeReady (state.opIds crypto) state.pending with
  | none => exact .inl ⟨rfl, rfl⟩
  | some ready =>
      obtain ⟨op, rest⟩ := ready
      refine .inr ⟨op, rest, rfl, ?_⟩
      dsimp only
      rw [process]
      cases processed : crdt.process state.crdt op with
      | error cause => exact .inl ⟨cause, rfl, rfl⟩
      | ok next => exact .inr ⟨next, rfl, rfl⟩

variable (crypto) in
theorem drainRounds_ok_iff (rounds : Nat) (state : AuthState crdt) :
    (∃ value, (state.drainRounds crypto rounds).1 = .ok value) ↔
      crdt.Accepts state.crdt (readyOrder crypto rounds (state.opIds crypto) state.pending) := by
  induction rounds generalizing state with
  | zero => exact ⟨fun _ => trivial, fun _ => ⟨(), rfl⟩⟩
  | succ rounds ih =>
      rw [readyOrder]
      rcases drainRounds_cases crypto rounds state with
        ⟨stuck, done⟩ | ⟨op, rest, found, ⟨cause, rejected, done⟩ | ⟨next, accepted, done⟩⟩
      · rw [stuck, done]
        exact ⟨fun _ => trivial, fun _ => ⟨(), rfl⟩⟩
      · rw [found, done]
        constructor
        · rintro ⟨_, contra⟩
          cases contra
        · rintro ⟨_, accepted, _⟩
          cases rejected.symm.trans accepted
      · have later := ih ⟨next, state.ops ++ [op], rest⟩
        simp only [opIds, List.map_append, List.map_cons, List.map_nil] at later
        rw [found, done, later]
        constructor
        · exact fun rest => ⟨next, accepted, rest⟩
        · rintro ⟨_, same, rest⟩
          cases accepted.symm.trans same
          exact rest

variable (crypto) in
theorem ops_drainRounds (rounds : Nat) (state : AuthState crdt) :
    state.ops <+: (state.drainRounds crypto rounds).2.ops := by
  induction rounds generalizing state with
  | zero => exact List.prefix_refl _
  | succ rounds ih =>
      rcases drainRounds_cases crypto rounds state with
        ⟨_, done⟩ | ⟨op, rest, _, ⟨_, _, done⟩ | ⟨next, _, done⟩⟩
      · exact done.symm ▸ List.prefix_refl _
      · exact done.symm ▸ List.prefix_refl _
      · rw [done]
        exact (List.prefix_append _ _).trans (ih ⟨next, state.ops ++ [op], rest⟩)

/-- Fuel equal to the queue's length is enough: draining stops with nothing ready. -/
theorem takeReady_drainRounds {rounds : Nat} {state final : AuthState crdt} {value : Unit}
    (enough : state.pending.length ≤ rounds)
    (drained : state.drainRounds crypto rounds = (.ok value, final)) :
    takeReady (final.opIds crypto) final.pending = none := by
  induction rounds generalizing state with
  | zero =>
      cases drained
      rw [List.eq_nil_of_length_eq_zero (Nat.le_zero.mp enough)]
      rfl
  | succ rounds ih =>
      rcases drainRounds_cases crypto rounds state with
        ⟨stuck, done⟩ | ⟨op, rest, found, ⟨_, _, done⟩ | ⟨next, _, done⟩⟩
      · cases done.symm.trans drained
        exact stuck
      · cases done.symm.trans drained
      · have shorter := length_of_takeReady found
        exact ih (by simp only; omega) (done.symm.trans drained)

variable (crypto) in
/-- Run a call for its error and the state it leaves. -/
def call (state : AuthState crdt) : AuthCall crypto → Option Failure × AuthState crdt
  | .applyRemote op => failing (state.applyRemote crypto op)
  | .createGroup myKey groupId => failing (state.createGroup crypto myKey groupId)
  | .addMember myKey groupId newMember role =>
      failing (state.addMember crypto myKey groupId newMember role)
  | .removeMember myKey groupId member =>
      failing (state.removeMember crypto myKey groupId member)
where
  failing {Value : Type} : Except Failure Value × AuthState crdt → Option Failure × AuthState crdt
    | (.error failure, state) => (some failure, state)
    | (.ok _, state) => (none, state)

/-- Nothing is lost when the CRDT rejects: it was still the fresh one. -/
def RejectsOntoFresh (state : AuthState crdt) (op : SignedOp) : Prop :=
  (∃ cause, crdt.process state.crdt op = .error cause) ∧ state.crdt = crdt.new

variable (crypto) in
/-- The operation reaches `process`: it is signed, new, and its deps are applied. -/
def Reaches (state : AuthState crdt) (op : SignedOp) : Prop :=
  op.verify crypto = .ok () ∧
    (∀ held ∈ state.ops ++ state.pending, held.computeId crypto ≠ op.computeId crypto) ∧
    ∀ dep ∈ op.deps, dep ∈ state.opIds crypto

variable (crypto) in
/-- The operation and then everything that it makes ready. -/
def arrivals (state : AuthState crdt) (op : SignedOp) : List SignedOp :=
  op :: readyOrder crypto state.pending.length (state.opIds crypto ++ [op.computeId crypto])
    state.pending

variable (crypto) in
/-- No CRDT rejection can spoil the call. -/
def Unspoiled (state : AuthState crdt) : AuthCall crypto → Prop
  | .applyRemote op =>
      state.Reaches crypto op →
        crdt.Accepts state.crdt (state.arrivals crypto op) ∨ state.RejectsOntoFresh op
  | .createGroup myKey groupId =>
      state.ops = [] →
        let op := state.authored crypto myKey groupId (createAction (crypto.publicKey myKey))
        crdt.Accepts state.crdt [op] ∨ state.RejectsOntoFresh op
  | .addMember myKey groupId newMember role =>
      let op := state.authored crypto myKey groupId (.add (.individual newMember) role.toAccess)
      crdt.Accepts state.crdt [op] ∨ state.RejectsOntoFresh op
  | .removeMember myKey groupId member =>
      let op := state.authored crypto myKey groupId (.remove (.individual member))
      crdt.Accepts state.crdt [op] ∨ state.RejectsOntoFresh op

/-- An operation that does not reach the CRDT is refused, or known already, or waits. -/
theorem applyRemote_stopped {state : AuthState crdt} {op : SignedOp}
    (stopped : ¬ state.Reaches crypto op) :
    (∃ failure, state.applyRemote crypto op = (.error failure, state)) ∨
      state.applyRemote crypto op = (.ok false, state) ∨
      state.applyRemote crypto op = (.ok false, { state with pending := state.pending ++ [op] }) := by
  unfold applyRemote
  split
  · exact .inl ⟨_, rfl⟩
  next verified =>
    dsimp only
    split
    · exact .inr (.inl rfl)
    next fresh =>
      split
      · exact .inr (.inr rfl)
      next ready =>
        refine absurd ⟨verified, ?_, ?_⟩ stopped
        · simpa [or_imp, forall_and] using fresh
        · simpa using ready

theorem applyRemote_of_not_reaches {state next : AuthState crdt} {op : SignedOp}
    {failure : Failure} (stopped : ¬ state.Reaches crypto op)
    (failed : state.applyRemote crypto op = (.error failure, next)) : next = state := by
  rcases applyRemote_stopped stopped with ⟨_, called⟩ | called | called
  · exact (Prod.mk.inj (failed.symm.trans called)).2
  · cases failed.symm.trans called
  · cases failed.symm.trans called

theorem applyRemote_of_reaches {state : AuthState crdt} {op : SignedOp}
    (reaches : state.Reaches crypto op) :
    state.applyRemote crypto op =
      match state.process op with
      | (.error failure, state) => (.error failure, state)
      | (.ok (), state) =>
          match state.drainPending crypto with
          | (.error failure, state) => (.error failure, state)
          | (.ok (), state) => (.ok true, state) := by
  obtain ⟨verified, fresh, ready⟩ := reaches
  unfold applyRemote
  rw [verified]
  dsimp only
  refine (if_neg ?_).trans (if_neg ?_)
  · simpa [or_imp, forall_and] using fresh
  · simpa using ready

theorem process_clean_iff (state : AuthState crdt) (op : SignedOp) :
    (∀ failure next, state.process op = (.error failure, next) → next = state) ↔
      crdt.Accepts state.crdt [op] ∨ state.RejectsOntoFresh op := by
  unfold process
  cases processed : crdt.process state.crdt op with
  | error cause =>
      constructor
      · intro clean
        exact .inr ⟨⟨cause, processed⟩, congrArg AuthState.crdt (clean _ _ rfl).symm⟩
      · rintro (⟨_, accepted, _⟩ | ⟨_, fresh⟩)
        · exact absurd (processed.symm.trans accepted) (by simp)
        · intro failure next failed
          cases failed
          rw [← fresh]
  | ok after =>
      constructor
      · exact fun _ => .inl ⟨after, processed, trivial⟩
      · intro _ failure next failed
        cases failed

theorem applyRemote_of_rejected {state : AuthState crdt} {op : SignedOp} {cause : String}
    (reaches : state.Reaches crypto op) (rejected : crdt.process state.crdt op = .error cause) :
    state.applyRemote crypto op =
      (.error ["auth crdt error: " ++ cause], { state with crdt := crdt.new }) := by
  rw [applyRemote_of_reaches reaches, process, rejected]

theorem author_clean_iff (state : AuthState crdt) (myKey : crypto.PrivateKey) (groupId : MemberId)
    (action : GroupAction) :
    (∀ failure next, state.author crypto myKey groupId action = (.error failure, next) →
      next = state) ↔
      crdt.Accepts state.crdt [state.authored crypto myKey groupId action] ∨
        state.RejectsOntoFresh (state.authored crypto myKey groupId action) := by
  rw [← process_clean_iff, author]
  rcases processed : state.process (state.authored crypto myKey groupId action) with ⟨result, after⟩
  cases result with
  | error cause =>
      constructor
      · intro clean failure next failed
        cases failed
        exact clean _ _ rfl
      · intro clean failure next failed
        cases failed
        exact clean _ _ rfl
  | ok value =>
      constructor
      · intro _ failure next failed
        cases failed
      · intro _ failure next failed
        cases failed

theorem applyRemote_clean_iff (state : AuthState crdt) (op : SignedOp) :
    (∀ failure next, state.applyRemote crypto op = (.error failure, next) → next = state) ↔
      (state.Reaches crypto op →
        crdt.Accepts state.crdt (state.arrivals crypto op) ∨
          state.RejectsOntoFresh op) := by
  by_cases reaches : state.Reaches crypto op
  swap
  · exact ⟨fun _ contra => absurd contra reaches,
      fun _ _ _ failed => applyRemote_of_not_reaches reaches failed⟩
  rw [applyRemote_of_reaches reaches]
  simp only [reaches, forall_const]
  rcases processed : state.process op with ⟨result, after⟩
  cases result with
  | error cause =>
      obtain ⟨⟨cause, rejected⟩, rfl⟩ := process_error processed
      have clean := process_clean_iff state op
      rw [processed] at clean
      constructor
      · intro kept
        refine .inr ((clean.mp ?_).resolve_left ?_)
        · intro failure next failed
          cases failed
          exact kept _ _ rfl
        · rintro ⟨_, accepted, _⟩
          exact absurd (rejected.symm.trans accepted) (by simp)
      · rintro (⟨_, accepted, _⟩ | fresh) failure next failed
        · exact absurd (rejected.symm.trans accepted) (by simp)
        · cases failed
          exact clean.mpr (.inr fresh) _ _ rfl
  | ok value =>
      obtain ⟨next, accepted, rfl⟩ := process_ok processed
      have drains := drainRounds_ok_iff crypto state.pending.length
        { state with crdt := next, ops := state.ops ++ [op] }
      simp only [opIds, List.map_append, List.map_cons, List.map_nil] at drains
      have kept := ops_drainRounds crypto state.pending.length
        { state with crdt := next, ops := state.ops ++ [op] }
      dsimp only [drainPending]
      revert drains kept
      rcases AuthState.drainRounds crypto state.pending.length
        { state with crdt := next, ops := state.ops ++ [op] } with ⟨outcome, final⟩
      intro drains kept
      cases outcome with
      | error failure =>
          constructor
          · intro clean
            cases clean failure final rfl
            exact absurd kept.length_le (by simp)
          · rintro (⟨_, same, later⟩ | ⟨⟨cause, rejected⟩, _⟩)
            · cases accepted.symm.trans same
              obtain ⟨_, contra⟩ := drains.mpr later
              cases contra
            · exact absurd (accepted.symm.trans rejected) (by simp)
      | ok value =>
          constructor
          · exact fun _ => .inl ⟨next, accepted, drains.mp ⟨value, rfl⟩⟩
          · intro _ failure next failed
            cases failed

private theorem failing_clean_iff {Value : Type} (state : AuthState crdt)
    (outcome : Except Failure Value × AuthState crdt) :
    (∀ failure next, call.failing outcome = (some failure, next) → next = state) ↔
      ∀ failure next, outcome = (.error failure, next) → next = state := by
  rcases outcome with ⟨result, after⟩
  cases result with
  | error cause =>
      constructor <;>
      · intro clean failure next failed
        cases failed
        exact clean _ _ rfl
  | ok value =>
      constructor <;>
      · intro _ failure next failed
        cases failed

theorem call_clean_iff (state : AuthState crdt) (call : AuthCall crypto) :
    (∀ failure next, state.call crypto call = (some failure, next) → next = state) ↔
      state.Unspoiled crypto call := by
  cases call with
  | applyRemote op => rw [AuthState.call, failing_clean_iff, applyRemote_clean_iff, Unspoiled]
  | addMember myKey groupId newMember role =>
      rw [AuthState.call, failing_clean_iff, addMember, author_clean_iff, Unspoiled]
  | removeMember myKey groupId member =>
      rw [AuthState.call, failing_clean_iff, removeMember, author_clean_iff, Unspoiled]
  | createGroup myKey groupId =>
      rw [AuthState.call, failing_clean_iff, createGroup, Unspoiled]
      by_cases none : state.ops = []
      · rw [if_neg (by simp [none]), author_clean_iff]
        simp [none]
      · rw [if_pos (by simpa using none)]
        refine ⟨fun _ contra => absurd contra none, ?_⟩
        intro _ failure next failed
        cases failed
        rfl

end AuthState

end Peerdup.Auth
