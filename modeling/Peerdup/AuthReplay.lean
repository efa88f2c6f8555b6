import Peerdup.AuthLog

/-!
# A saved log is the state it was saved from

Calls that return `Ok` leave a log that the CRDT has processed, each operation once and
after its deps, whatever arrived early, twice or from this peer itself.
-/

set_option autoImplicit false

namespace Peerdup.Auth

open Foundation

/-- An id that has been processed is not processed again. -/
def GroupCrdt.RejectsProcessed (crypto : Primitives) (crdt : GroupCrdt) : Prop :=
  ∀ ops state, crdt.processAll crdt.new ops = .ok state →
    ∀ op, op.computeId crypto ∈ ops.map (·.computeId crypto) →
      ∃ cause, crdt.process state op = .error cause

theorem nodup_of_processAll {crypto : Primitives} {crdt : GroupCrdt}
    (rejects : crdt.RejectsProcessed crypto) {ops : List SignedOp} {state : crdt.State}
    (processed : crdt.processAll crdt.new ops = .ok state) :
    (ops.map (·.computeId crypto)).Nodup := by
  induction ops using List.reverseRecOn generalizing state with
  | nil => exact List.nodup_nil
  | append_singleton ops op ih =>
      obtain ⟨middle, earlier, last⟩ := GroupCrdt.processAll_append_iff.mp processed
      rw [List.map_append, List.map_singleton, List.nodup_append]
      refine ⟨ih earlier, List.nodup_singleton _, ?_⟩
      intro left member right listed same
      rw [List.mem_singleton.mp listed] at same
      obtain ⟨cause, rejected⟩ := rejects ops middle earlier op (same ▸ member)
      rw [GroupCrdt.processAll, rejected] at last
      cases last

namespace AuthState

variable {crypto : Primitives} {crdt : GroupCrdt} {state : AuthState crdt}

variable (crypto) in
/-- Calls one after another, as long as each returns `Ok`. -/
def caller : Machine (AuthState crdt) (AuthCall crypto) where
  step state call :=
    match state.call crypto call with
    | (some _, _) => none
    | (none, next) => some next

theorem author_ok {myKey : crypto.PrivateKey} {groupId : MemberId} {action : GroupAction}
    {op : SignedOp} {next : AuthState crdt}
    (called : state.author crypto myKey groupId action = (.ok op, next)) :
    op = state.authored crypto myKey groupId action ∧
      ∃ after, crdt.process state.crdt op = .ok after ∧
        next = { state with crdt := after, ops := state.ops ++ [op] } := by
  unfold author at called
  dsimp only at called
  split at called
  · cases called
  · next processed =>
      cases called
      exact ⟨rfl, process_ok processed⟩

/-- A call that fails is no step, and the others are deliveries and own operations. -/
theorem caller_step {call : AuthCall crypto} {next : AuthState crdt}
    (stepped : (caller crypto).step state call = some next) :
    (∃ op applied, call = .applyRemote op ∧
      state.applyRemote crypto op = (.ok applied, next)) ∨
    ∃ myKey groupId action op, state.author crypto myKey groupId action = (.ok op, next) := by
  have succeeded {Value : Type} {outcome : Except Failure Value × AuthState crdt}
      (ran : (match AuthState.call.failing outcome with
        | (some _, _) => none
        | (none, next) => some next) = some next) : ∃ value, outcome = (.ok value, next) := by
    obtain ⟨result, after⟩ := outcome
    cases result with
    | error failure => cases ran
    | ok value =>
        cases ran
        exact ⟨value, rfl⟩
  cases call with
  | applyRemote op =>
      obtain ⟨applied, called⟩ := succeeded stepped
      exact .inl ⟨op, applied, rfl, called⟩
  | createGroup myKey groupId =>
      obtain ⟨op, called⟩ := succeeded stepped
      unfold createGroup at called
      split at called
      · cases called
      · exact .inr ⟨myKey, groupId, _, op, called⟩
  | addMember myKey groupId newMember role =>
      obtain ⟨op, called⟩ := succeeded stepped
      exact .inr ⟨myKey, groupId, _, op, called⟩
  | removeMember myKey groupId member =>
      obtain ⟨op, called⟩ := succeeded stepped
      exact .inr ⟨myKey, groupId, _, op, called⟩

theorem Logged.author (lawful : crypto.Lawful) (heads : crdt.HeadsProcessed crypto)
    (logged : Logged crypto state) {myKey : crypto.PrivateKey} {groupId : MemberId}
    {action : GroupAction} {op : SignedOp} {next : AuthState crdt}
    (called : state.author crypto myKey groupId action = (.ok op, next)) : Logged crypto next := by
  obtain ⟨same, after, accepted, result⟩ := author_ok called
  rw [same] at accepted result
  have takes := logged.takes_authored heads myKey groupId action accepted
  rw [result]
  refine (logged.enqueue ?_).takes takes
  intro other member
  rw [List.mem_singleton.mp member]
  exact verify_authored lawful state myKey groupId action

theorem logged_of_run (lawful : crypto.Lawful) (heads : crdt.HeadsProcessed crypto)
    {calls : List (AuthCall crypto)} (ran : (caller crypto).run .empty calls = some state) :
    Logged crypto state := by
  have preserved : ∀ (earlier : AuthState crdt) call next, Logged crypto earlier →
      (caller crypto).step earlier call = some next → Logged crypto next := by
    intro earlier call next logged stepped
    rcases caller_step stepped with ⟨op, applied, _, called⟩ | ⟨_, _, _, op, called⟩
    · exact logged.applyRemote called
    · exact logged.author lawful heads called
  exact (caller crypto).run_invariant preserved logged_empty ran

/-- Without its queue, whatever waits in it, the state is the one its log replays to. -/
theorem Logged.replayable_ops (rejects : crdt.RejectsProcessed crypto)
    (logged : Logged crypto state) :
    Replayable crypto (⟨state.crdt, state.ops, []⟩ : AuthState crdt) where
  processed := logged.processed
  ordered := logged.ordered
  verified op member := by
    rw [List.append_nil] at member
    exact logged.verified op (List.mem_append_left _ member)
  distinct := by
    rw [List.append_nil]
    exact nodup_of_processAll rejects logged.processed

section Sample

open Reference

theorem sequentialGroup_rejectsProcessed : sequentialGroup.RejectsProcessed cleartext := by
  intro ops state processed op known
  have listed := processed_of_processAll processed
  have held : op.computeId cleartext ∈ (Sequential.processed state).map Prod.fst := by
    rw [listed]
    exact List.mem_append_right _ known
  exact ⟨"already processed", if_pos held⟩

/-- The founder reads back its group, the admission first and twice, and adds a member. -/
def rejoined : List (AuthCall cleartext) :=
  [.applyRemote admission, .applyRemote creation, .applyRemote admission,
    .addMember founder docs stranger.val .reader]

end Sample

end AuthState

end Peerdup.Auth
