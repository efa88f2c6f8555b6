import Peerdup.AuthDelivery

/-!
# What `auth.log` brings back

The log holds the applied operations in the order in which they were applied. As long
as the CRDT has rejected nothing, replaying them rebuilds the state.
-/

set_option autoImplicit false

namespace Peerdup.Auth

open Foundation

/-- Heads are operations that have been processed. -/
def GroupCrdt.HeadsProcessed (crypto : Primitives) (crdt : GroupCrdt) : Prop :=
  ∀ ops state, crdt.processAll crdt.new ops = .ok state →
    ∀ id ∈ crdt.heads state, id ∈ ops.map (·.computeId crypto)

namespace AuthState

variable {crypto : Primitives} {crdt : GroupCrdt} {state : AuthState crdt}

/-- What became of a state whose call returned `Ok`: some of what waited has been applied,
and the rest waits. -/
structure Takes (crypto : Primitives) (state : AuthState crdt) (taken : List SignedOp)
    (next : AuthState crdt) : Prop where
  ops : next.ops = state.ops ++ taken
  processed : crdt.processAll state.crdt taken = .ok next.crdt
  ordered : CausallyOrdered crypto state.ops → CausallyOrdered crypto next.ops
  waiting : (taken ++ next.pending).Perm state.pending

theorem takes_permuted {next : AuthState crdt} (crdtState : next.crdt = state.crdt)
    (ops : next.ops = state.ops) (perm : next.pending.Perm state.pending) :
    Takes crypto state [] next where
  ops := by rw [ops, List.append_nil]
  processed := by
    rw [crdtState]
    rfl
  ordered := fun ordered => ops ▸ ordered
  waiting := perm

theorem Takes.cons {op : SignedOp} {rest taken : List SignedOp} {middle : crdt.State}
    {next : AuthState crdt} (perm : (op :: rest).Perm state.pending)
    (ready : Ready crypto state.ops op) (accepted : crdt.process state.crdt op = .ok middle)
    (later : Takes crypto { state with crdt := middle, ops := state.ops ++ [op], pending := rest }
      taken next) : Takes crypto state (op :: taken) next where
  ops := by
    rw [later.ops, List.append_assoc]
    rfl
  processed := by
    rw [GroupCrdt.processAll, accepted]
    exact later.processed
  ordered := fun ordered => later.ordered (ordered.concat ready)
  waiting := (later.waiting.cons op).trans perm

theorem Takes.held {taken : List SignedOp} {next : AuthState crdt}
    (takes : Takes crypto state taken next) :
    (next.ops ++ next.pending).Perm (state.ops ++ state.pending) := by
  rw [takes.ops, List.append_assoc]
  exact takes.waiting.append_left state.ops

theorem takes_of_drainRounds {rounds : Nat} {final : AuthState crdt}
    (drained : state.drainRounds crypto rounds = (.ok (), final)) :
    ∃ taken, Takes crypto state taken final := by
  induction rounds generalizing state with
  | zero =>
      cases drained
      exact ⟨[], takes_permuted rfl rfl (List.Perm.refl _)⟩
  | succ rounds ih =>
      rcases drainRounds_cases crypto rounds state with
        ⟨_, done⟩ | ⟨op, rest, found, ⟨_, _, done⟩ | ⟨middle, accepted, done⟩⟩
      · cases done.symm.trans drained
        exact ⟨[], takes_permuted rfl rfl (List.Perm.refl _)⟩
      · cases done.symm.trans drained
      · obtain ⟨ready, perm⟩ := takeReady_some found
        obtain ⟨taken, later⟩ := ih (done.symm.trans drained)
        exact ⟨op :: taken, later.cons perm ready accepted⟩

variable (crypto) in
/-- The operation is signed and its id is not that of one held. -/
def IsNew (state : AuthState crdt) (op : SignedOp) : Prop :=
  op.verify crypto = .ok () ∧
    op.computeId crypto ∉ (state.ops ++ state.pending).map (·.computeId crypto)

/-- A call that returned `Ok` has let in the operation if it is new, and then taken what was
ready. Where it says that nothing was applied, nothing was taken. -/
theorem applyRemote_ok {op : SignedOp} {applied : Bool} {next : AuthState crdt}
    (called : state.applyRemote crypto op = (.ok applied, next)) :
    ∃ arrived taken, (arrived = [] ∨ arrived = [op] ∧ state.IsNew crypto op) ∧
      Takes crypto { state with pending := arrived ++ state.pending } taken next ∧
      (applied = false → taken = []) := by
  unfold AuthState.applyRemote at called
  split at called
  · cases called
  next signed =>
    dsimp only at called
    split at called
    · cases called
      exact ⟨[], [], .inl rfl, takes_permuted rfl rfl (List.Perm.refl _), fun _ => rfl⟩
    next absent =>
      have new : state.IsNew crypto op := by
        refine ⟨signed, fun listed => absent ?_⟩
        rw [Bool.or_eq_true, List.any_eq_true, List.any_eq_true]
        obtain ⟨held, member, same⟩ := List.mem_map.mp listed
        rcases List.mem_append.mp member with applied | waits
        · exact .inl ⟨held, applied, decide_eq_true same⟩
        · exact .inr ⟨held, waits, decide_eq_true same⟩
      split at called
      · cases called
        refine ⟨[op], [], .inr ⟨rfl, new⟩, takes_permuted rfl rfl ?_, fun _ => rfl⟩
        exact List.perm_append_singleton op state.pending
      next all =>
        have ready : Ready crypto state.ops op := by
          rw [Bool.not_eq_true', Bool.not_eq_false] at all
          exact (ready_iff op).mp all
        split at called
        · cases called
        next processed =>
          obtain ⟨middle, accepted, same⟩ := process_ok processed
          split at called
          · cases called
          next drained =>
            rw [same] at drained
            cases called
            obtain ⟨taken, later⟩ := takes_of_drainRounds drained
            refine ⟨[op], op :: taken, .inr ⟨rfl, new⟩, ?_, fun contra => by cases contra⟩
            exact later.cons (List.Perm.refl _) ready accepted

/-- The log holds what the CRDT has processed, deps first, and everything held is signed. -/
structure Logged (crypto : Primitives) (state : AuthState crdt) : Prop where
  processed : crdt.processAll crdt.new state.ops = .ok state.crdt
  ordered : CausallyOrdered crypto state.ops
  verified : ∀ op ∈ state.ops ++ state.pending, op.verify crypto = .ok ()

theorem logged_empty : Logged crypto (.empty : AuthState crdt) where
  processed := rfl
  ordered := CausalOrder.ordered_nil _ _
  verified _ member := absurd member List.not_mem_nil

theorem Logged.enqueue {arrived : List SignedOp} (logged : Logged crypto state)
    (signed : ∀ op ∈ arrived, op.verify crypto = .ok ()) :
    Logged crypto { state with pending := arrived ++ state.pending } where
  processed := logged.processed
  ordered := logged.ordered
  verified op member := by
    rcases List.mem_append.mp member with applied | waits
    · exact logged.verified op (List.mem_append_left _ applied)
    · rcases List.mem_append.mp waits with new | old
      · exact signed op new
      · exact logged.verified op (List.mem_append_right _ old)

theorem Logged.takes {taken : List SignedOp} {next : AuthState crdt}
    (logged : Logged crypto state) (takes : Takes crypto state taken next) :
    Logged crypto next where
  processed := by
    rw [takes.ops]
    exact GroupCrdt.processAll_append_iff.mpr ⟨state.crdt, logged.processed, takes.processed⟩
  ordered := takes.ordered logged.ordered
  verified op member := logged.verified op (takes.held.mem_iff.mp member)

theorem Logged.applyRemote {op : SignedOp} {applied : Bool} {next : AuthState crdt}
    (logged : Logged crypto state) (called : state.applyRemote crypto op = (.ok applied, next)) :
    Logged crypto next := by
  obtain ⟨arrived, taken, either, takes, _⟩ := applyRemote_ok called
  refine (logged.enqueue ?_).takes takes
  intro other member
  rcases either with none_ | ⟨one, signed, _⟩
  · rw [none_] at member
    cases member
  · rw [one] at member
    rw [List.mem_singleton.mp member]
    exact signed

theorem verify_authored (lawful : crypto.Lawful) (state : AuthState crdt)
    (myKey : crypto.PrivateKey) (groupId : MemberId) (action : GroupAction) :
    (state.authored crypto myKey groupId action).verify crypto = .ok () := by
  rw [SignedOp.verify, authored]
  dsimp only
  rw [lawful.isPoint_publicKey, SignedOp.canonicalBytes]
  dsimp only
  rw [lawful.verify_sign]
  rfl

/-- An operation of one's own lets itself in, since its deps are the heads. -/
theorem Logged.takes_authored (heads : crdt.HeadsProcessed crypto) (logged : Logged crypto state)
    (myKey : crypto.PrivateKey) (groupId : MemberId) (action : GroupAction) {next : crdt.State}
    (accepted : crdt.process state.crdt (state.authored crypto myKey groupId action) = .ok next) :
    Takes crypto
      { state with pending := [state.authored crypto myKey groupId action] ++ state.pending }
      [state.authored crypto myKey groupId action]
      { state with crdt := next, ops := state.ops ++ [state.authored crypto myKey groupId action] } := by
  have ready : Ready crypto state.ops (state.authored crypto myKey groupId action) :=
    heads state.ops state.crdt logged.processed
  exact Takes.cons (List.Perm.refl _) ready accepted (takes_permuted rfl rfl (List.Perm.refl _))

/-- Replaying the applied operations gives the CRDT state. Whatever waits is signed and
new, so it may follow them. -/
structure Replayable (crypto : Primitives) (state : AuthState crdt) : Prop where
  processed : crdt.processAll crdt.new state.ops = .ok state.crdt
  ordered : CausallyOrdered crypto state.ops
  verified : ∀ op ∈ state.ops ++ state.pending, op.verify crypto = .ok ()
  distinct : ((state.ops ++ state.pending).map (·.computeId crypto)).Nodup

theorem Replayable.logged (replayable : Replayable crypto state) : Logged crypto state :=
  ⟨replayable.processed, replayable.ordered, replayable.verified⟩

theorem Logged.replayable (logged : Logged crypto state)
    (distinct : ((state.ops ++ state.pending).map (·.computeId crypto)).Nodup) :
    Replayable crypto state :=
  ⟨logged.processed, logged.ordered, logged.verified, distinct⟩

theorem replayable_empty : Replayable crypto (.empty : AuthState crdt) :=
  logged_empty.replayable List.nodup_nil

theorem Replayable.takes {arrived taken : List SignedOp} {next : AuthState crdt}
    (replayable : Replayable crypto state) (logged : Logged crypto next)
    (new : (arrived.map (·.computeId crypto)).Nodup ∧ ∀ op ∈ arrived,
      op.computeId crypto ∉ (state.ops ++ state.pending).map (·.computeId crypto))
    (takes : Takes crypto { state with pending := arrived ++ state.pending } taken next) :
    Replayable crypto next := by
  have front : (next.ops ++ next.pending).Perm (arrived ++ (state.ops ++ state.pending)) := by
    refine takes.held.trans ?_
    rw [← List.append_assoc, ← List.append_assoc]
    exact List.perm_append_comm.append_right _
  refine logged.replayable ((front.map _).nodup_iff.mpr ?_)
  rw [List.map_append, List.nodup_append]
  refine ⟨new.1, replayable.distinct, ?_⟩
  intro left member right held same
  obtain ⟨op, arrived, rfl⟩ := List.mem_map.mp member
  exact new.2 op arrived (same ▸ held)

/-- After a call that returned `Ok`. Where nothing was applied, only the queue may have
grown. -/
theorem Replayable.applyRemote {op : SignedOp} {applied : Bool} {next : AuthState crdt}
    (replayable : Replayable crypto state)
    (called : state.applyRemote crypto op = (.ok applied, next)) :
    Replayable crypto next ∧ (applied = false → next.ops = state.ops ∧ next.crdt = state.crdt) := by
  have logged := replayable.logged.applyRemote called
  obtain ⟨arrived, taken, either, takes, unapplied⟩ := applyRemote_ok called
  refine ⟨replayable.takes logged ?_ takes, ?_⟩
  · rcases either with none_ | ⟨one, _, fresh⟩
    · rw [none_]
      exact ⟨List.nodup_nil, fun _ member => absurd member List.not_mem_nil⟩
    · rw [one]
      exact ⟨List.nodup_singleton _, fun other member => List.mem_singleton.mp member ▸ fresh⟩
  · intro same
    have processed := takes.processed
    rw [unapplied same] at processed
    refine ⟨?_, (Except.ok.inj processed).symm⟩
    rw [takes.ops, unapplied same, List.append_nil]

theorem Replayable.author (lawful : crypto.Lawful) (heads : crdt.HeadsProcessed crypto)
    (replayable : Replayable crypto state) (myKey : crypto.PrivateKey) (groupId : MemberId)
    (action : GroupAction) {next : crdt.State}
    (accepted : crdt.process state.crdt (state.authored crypto myKey groupId action) = .ok next)
    (fresh : (state.authored crypto myKey groupId action).computeId crypto ∉
      (state.ops ++ state.pending).map (·.computeId crypto)) :
    Replayable crypto { state with
      crdt := next, ops := state.ops ++ [state.authored crypto myKey groupId action] } := by
  have takes := replayable.logged.takes_authored heads myKey groupId action accepted
  have signed := verify_authored lawful state myKey groupId action
  refine replayable.takes ((replayable.logged.enqueue ?_).takes takes) ⟨?_, ?_⟩ takes
  · intro other member
    rw [List.mem_singleton.mp member]
    exact signed
  · exact List.nodup_singleton _
  · intro other member
    rw [List.mem_singleton.mp member]
    exact fresh

theorem Replayable.replay {context : String} {ops : List SignedOp} {final : AuthState crdt}
    (replayable : Replayable crypto state)
    (replayed : state.replay crypto context ops = .ok final) : Replayable crypto final := by
  induction ops generalizing state with
  | nil =>
      cases replayed
      exact replayable
  | cons op ops ih =>
      rw [AuthState.replay] at replayed
      split at replayed
      · cases replayed
      · next called => exact ih (replayable.applyRemote called).1 replayed

theorem replayable_of_load {authLog : Option (List SignedOp)} {loaded : AuthState crdt}
    (read : load crypto authLog = .ok loaded) : Replayable crypto loaded := by
  unfold load at read
  split at read
  · cases read
    exact replayable_empty
  · split at read
    · cases read
    · next replayed =>
        split at read
        · cases read
        · cases read
          exact replayable_empty.replay replayed

/-- A replay holds nothing but what it was given. -/
theorem mem_of_replay {context : String} {ops : List SignedOp} {final : AuthState crdt}
    (replayed : state.replay crypto context ops = .ok final) :
    ∀ op ∈ final.ops ++ final.pending, op ∈ state.ops ++ state.pending ++ ops := by
  induction ops generalizing state with
  | nil =>
      cases replayed
      rw [List.append_nil]
      exact fun _ member => member
  | cons first ops ih =>
      rw [AuthState.replay] at replayed
      split at replayed
      · cases replayed
      next called =>
        obtain ⟨arrived, taken, either, takes, _⟩ := applyRemote_ok called
        intro op member
        rcases List.mem_append.mp (ih replayed op member) with held | later
        · rcases List.mem_append.mp (takes.held.mem_iff.mp held) with applied | waits
          · exact List.mem_append_left _ (List.mem_append_left _ applied)
          rcases List.mem_append.mp waits with new | old
          · rcases either with none_ | ⟨one, _⟩
            · rw [none_] at new
              cases new
            · rw [one] at new
              rw [List.mem_singleton.mp new]
              exact List.mem_append_right _ List.mem_cons_self
          · exact List.mem_append_left _ (List.mem_append_right _ old)
        · exact List.mem_append_right _ (List.mem_cons_of_mem _ later)

theorem mem_of_load {log : List SignedOp} {loaded : AuthState crdt}
    (read : load crypto (some log) = .ok loaded) : ∀ op ∈ loaded.ops, op ∈ log := by
  unfold load at read
  dsimp only at read
  split at read
  · cases read
  next replayed =>
    split at read
    · cases read
    · cases read
      intro op member
      exact mem_of_replay replayed op (List.mem_append_left _ member)

/-- Replaying what is left of the log, onto what its front has built. -/
theorem Replayable.replay_back (replayable : Replayable crypto state) (context : String)
    {front back : List SignedOp} (whole : state.ops = front ++ back) {middle : crdt.State}
    (built : crdt.processAll crdt.new front = .ok middle) :
    AuthState.replay crypto context ⟨middle, front, []⟩ back = .ok ⟨state.crdt, state.ops, []⟩ := by
  induction back generalizing front middle with
  | nil =>
      rw [List.append_nil] at whole
      have processed := replayable.processed
      rw [whole, built] at processed
      cases processed
      rw [whole]
      rfl
  | cons op back ih =>
      have processed := replayable.processed
      rw [whole] at processed
      obtain ⟨again, same, rest⟩ := GroupCrdt.processAll_append_iff.mp processed
      cases built.symm.trans same
      rw [GroupCrdt.processAll] at rest
      cases accepted : crdt.process middle op with
      | error cause =>
          rw [accepted] at rest
          cases rest
      | ok next =>
          have member : op ∈ state.ops ++ state.pending := by
            rw [whole]
            exact List.mem_append_left _ (List.mem_append_right _ List.mem_cons_self)
          have reaches : Reaches crypto (⟨middle, front, []⟩ : AuthState crdt) op := by
            refine ⟨replayable.verified op member, ?_, replayable.ordered front op back whole⟩
            intro held earlier equal
            rw [List.append_nil] at earlier
            have distinct := replayable.distinct
            rw [whole, List.append_assoc, List.map_append, List.nodup_append] at distinct
            exact distinct.2.2 _ (List.mem_map_of_mem earlier) _ List.mem_cons_self equal
          have called : AuthState.applyRemote crypto ⟨middle, front, []⟩ op =
              (.ok true, ⟨next, front ++ [op], []⟩) := by
            rw [applyRemote_of_reaches reaches, AuthState.process, accepted]
            rfl
          rw [AuthState.replay, called]
          exact ih (by rw [whole, List.append_assoc]; rfl)
            (GroupCrdt.processAll_concat built accepted)

/-- What `save` writes, `load` reads back, without what still waits. -/
theorem Replayable.load_ops (replayable : Replayable crypto state) :
    load crypto (some state.ops) = .ok (⟨state.crdt, state.ops, []⟩ : AuthState crdt) := by
  have built : crdt.processAll crdt.new [] = .ok crdt.new := rfl
  have replayed := replayable.replay_back "replaying op from auth.log" (List.nil_append _).symm built
  unfold load
  dsimp only
  rw [show (AuthState.empty : AuthState crdt) = ⟨crdt.new, [], []⟩ from rfl, replayed]
  rfl

end AuthState

section Reference

open Reference

theorem processed_of_processAll {ops : List SignedOp} {state final : sequentialGroup.State}
    (processed : sequentialGroup.processAll state ops = .ok final) :
    (Sequential.processed final).map Prod.fst =
      (Sequential.processed state).map Prod.fst ++ ops.map (·.computeId cleartext) := by
  induction ops generalizing state with
  | nil =>
      cases processed
      simp
  | cons op ops ih =>
      rw [GroupCrdt.processAll] at processed
      cases accepted : sequentialGroup.process state op with
      | error cause =>
          rw [accepted] at processed
          cases processed
      | ok next =>
          rw [accepted] at processed
          have listed : Sequential.processed next =
              Sequential.processed state ++ [(op.computeId cleartext, op.deps)] := by
            change Sequential.process cleartext state op = .ok next at accepted
            unfold Sequential.process at accepted
            dsimp only at accepted
            split at accepted
            · cases accepted
            · split at accepted
              · cases accepted
              · split at accepted
                · cases accepted
                · cases accepted
                  rfl
          rw [ih processed, listed]
          simp

theorem sequentialGroup_headsProcessed : sequentialGroup.HeadsProcessed cleartext := by
  intro ops state processed id head
  have listed := processed_of_processAll processed
  rw [← List.nil_append (ops.map _)]
  exact listed ▸ List.mem_of_mem_filter head

end Reference

end Peerdup.Auth
