import Peerdup.Daemon.DiskMirror

/-!
# Which group the operations of a log belong to

`apply_remote` never looks at `group_id`. A signed operation of another group gets into the
log like any other once its deps are there, and from there into every ticket.
-/

set_option autoImplicit false

namespace Peerdup.Daemon

open Foundation Auth Crypto Rotation

variable {crdt : GroupCrdt} {crypto : Primitives}

namespace ShareLoop

section Scope

variable (crypto) (config : ShareConfig) (identity : crypto.PrivateKey)

/-- The operation is one of the share's own group. -/
def OwnOp (op : SignedOp) : Prop := op.payload.groupId = groupIdFor crypto config.id

/-- In memory and on the disk. -/
structure LogUnmixed (loop : ShareLoop crdt) : Prop where
  ops : ∀ op ∈ loop.authState.ops, OwnOp crypto config op
  authLog : ∀ log, loop.dir.authLog = some log → ∀ op ∈ log, OwnOp crypto config op

/-- A share's loop and the tickets it has handed out. -/
structure Issued (crdt : GroupCrdt) where
  loop : ShareLoop crdt
  tickets : List Ticket

structure Unmixed (state : Issued crdt) : Prop extends LogUnmixed crypto config state.loop where
  tickets : ∀ ticket ∈ state.tickets, ∀ op ∈ ticket.authLog, OwnOp crypto config op

def ticketsOf (loop : ShareLoop crdt) : LoopEvent → List Ticket
  | .invite invitee authRole suggestedRole =>
      match (loop.handleInvite crypto config identity invitee authRole suggestedRole).1 with
      | .ok ticket => [ticket]
      | .error _ => []
  | _ => []

/-- The life of a share with the tickets on record. -/
def issuing : Machine (Issued crdt) LoopEvent where
  step state event :=
    ((life crypto config identity).step state.loop event).map fun next =>
      ⟨next, state.tickets ++ state.loop.ticketsOf crypto config identity event⟩

/-- What can be applied when a payload comes in: what waits already, and what it brings. -/
def Issued.offered (state : Issued crdt) (payload : List Bytes) : List SignedOp :=
  state.loop.authState.pending ++ signedOps crypto payload

/-- An operation of another group that a payload comes with or finds waiting names one that is
neither applied nor on offer with all that it names. -/
def OffersOwn (state : Issued crdt) : LoopEvent → Prop
  | .authOps payload =>
      ∀ op ∈ state.offered crypto payload,
        (∀ dep ∈ op.deps,
          Grounded crypto state.loop.authState.ops (state.offered crypto payload) dep) →
          OwnOp crypto config op
  | _ => True

end Scope

variable {config : ShareConfig} {identity : crypto.PrivateKey} {loop after : ShareLoop crdt}

/-- The membership and its log are what they were. -/
def SameAuth (before after : ShareLoop crdt) : Prop :=
  after.authState = before.authState ∧ after.dir.authLog = before.dir.authLog

theorem SameAuth.refl (loop : ShareLoop crdt) : SameAuth loop loop := ⟨rfl, rfl⟩

theorem SameAuth.trans {middle : ShareLoop crdt} (first : SameAuth loop middle)
    (second : SameAuth middle after) : SameAuth loop after :=
  ⟨second.1.trans first.1, second.2.trans first.2⟩

theorem sameAuth_tryInstallRotation (loop : ShareLoop crdt) (created : Key)
    (rotation : SignedRotation) :
    SameAuth loop (loop.tryInstallRotation crypto config identity created rotation).2 := by
  unfold tryInstallRotation
  dsimp only
  split
  · split
    · exact ⟨rfl, rfl⟩
    · split
      · exact ⟨rfl, rfl⟩
      · exact ⟨rfl, rfl⟩
    · exact ⟨rfl, rfl⟩
    · exact ⟨rfl, rfl⟩
    · exact ⟨rfl, rfl⟩
  · exact ⟨rfl, rfl⟩
  · exact ⟨rfl, rfl⟩
  · exact ⟨rfl, rfl⟩
  · exact ⟨rfl, rfl⟩

theorem sameAuth_applyKeyRotation (loop : ShareLoop crdt) (created : Key)
    (rotation : SignedRotation) :
    SameAuth loop (loop.applyKeyRotation crypto config identity created rotation).2 := by
  have keeps : InstallsKeep crypto config identity created (fun _ => True) (SameAuth loop) :=
    ⟨fun _ _ _ _ => trivial, fun _ _ same _ => same,
      fun later rotation same _ => same.trans (sameAuth_tryInstallRotation later created rotation)⟩
  exact keeps.applyKeyRotation (SameAuth.refl loop) trivial

theorem LogUnmixed.sameAuth (unmixed : LogUnmixed crypto config loop) (same : SameAuth loop after) :
    LogUnmixed crypto config after := by
  obtain ⟨state, log⟩ := same
  exact ⟨state ▸ unmixed.ops, log ▸ unmixed.authLog⟩

theorem LogUnmixed.afterOp (unmixed : LogUnmixed crypto config loop) {op : SignedOp}
    (own : OwnOp crypto config op) (next : crdt.State) :
    LogUnmixed crypto config (loop.afterOp next op) := by
  have ops : ∀ held ∈ loop.authState.ops ++ [op], OwnOp crypto config held :=
    List.forall_mem_append.mpr ⟨unmixed.ops, List.forall_mem_singleton.mpr own⟩
  refine ⟨ops, fun log same => ?_⟩
  cases same
  exact ops

variable (identity) in
theorem LogUnmixed.invite (unmixed : LogUnmixed crypto config loop) (invitee : MemberId)
    (authRole : AuthRole) (suggestedRole : ShareRole) :
    let outcome := loop.handleInvite crypto config identity invitee authRole suggestedRole
    LogUnmixed crypto config outcome.2 ∧
      ∀ ticket, outcome.1 = .ok ticket → ∀ op ∈ ticket.authLog, OwnOp crypto config op := by
  dsimp only
  rw [handleInvite_eq]
  split
  · exact ⟨unmixed, fun _ contra => by cases contra⟩
  split
  · exact ⟨unmixed, fun _ contra => by cases contra⟩
  dsimp only
  split
  · exact ⟨⟨unmixed.ops, unmixed.authLog⟩, fun _ contra => by cases contra⟩
  next next _ =>
    have own : OwnOp crypto config (loop.addition crypto config identity invitee authRole) := rfl
    have added := unmixed.afterOp own next
    refine ⟨added, fun ticket made => ?_⟩
    cases made
    exact added.ops

variable (identity) in
theorem LogUnmixed.revoke (unmixed : LogUnmixed crypto config loop) (entropy : Entropy)
    (target : MemberId) :
    LogUnmixed crypto config (loop.handleRevoke crypto config identity entropy target).2 := by
  have removed := fun next => unmixed.afterOp
    (show OwnOp crypto config (loop.removal crypto config identity target) from rfl) next
  rcases handleRevoke_cases crypto config identity loop entropy target with
    ⟨_, done⟩ | ⟨_, done⟩ | ⟨next, _, ⟨_, _, _, done⟩ | ⟨_, _, _, ⟨_, done⟩ | ⟨_, _, _, _, done⟩⟩⟩
  · rw [done]
    exact unmixed
  · rw [done]
    exact ⟨unmixed.ops, unmixed.authLog⟩
  · rw [done]
    exact (removed next).sameAuth ⟨rfl, rfl⟩
  · rw [done]
    exact (removed next).sameAuth ⟨rfl, rfl⟩
  · rw [done]
    exact (removed next).sameAuth ⟨rfl, rfl⟩

theorem sameAuth_rotateKey (loop : ShareLoop crdt) (entropy : Entropy) :
    SameAuth loop (loop.handleRotateKey entropy).2 := by
  rw [handleRotateKey_eq]
  split <;> exact ⟨rfl, rfl⟩

/-- A task that starts knows nothing but the log it loads. -/
theorem logUnmixed_of_spawn {created : Key} {dir : ShareDir}
    (spawned : spawnShareTask crypto created dir = .ok loop)
    (own : ∀ log, dir.authLog = some log → ∀ op ∈ log, OwnOp crypto config op) :
    LogUnmixed crypto config loop := by
  unfold spawnShareTask at spawned
  split at spawned
  · cases spawned
  split at spawned
  · cases spawned
  next loaded =>
    cases spawned
    refine ⟨fun op member => ?_, own⟩
    cases log : dir.authLog with
    | none =>
        rw [log] at loaded
        cases loaded
        cases member
    | some ops =>
        rw [log] at loaded
        exact own ops log op (AuthState.mem_of_load loaded op member)

/-- A payload adds only what was on offer and could be applied. -/
theorem LogUnmixed.authOps {state : Issued crdt} (unmixed : LogUnmixed crypto config state.loop)
    {payload : List Bytes} (offersOwn : OffersOwn crypto config state (.authOps payload)) :
    LogUnmixed crypto config (ShareNetwork.receiveAuthOps crypto state.loop payload) := by
  have draws := draws_applyPayload 0
    (AuthState.draws_of_pending (List.subset_append_left _ (signedOps crypto payload)))
    (List.subset_append_right state.loop.authState.pending (signedOps crypto payload))
  have own : ∀ held ∈ (applyPayload crypto 0 state.loop.authState payload).2.ops,
      OwnOp crypto config held := by
    intro held member
    rcases draws.applied held member with there | ⟨offer, deps⟩
    · exact unmixed.ops held there
    · exact offersOwn held offer deps
  refine ⟨own, fun log written => ?_⟩
  change (if (applyPayload crypto 0 state.loop.authState payload).1 > 0 then
    some (applyPayload crypto 0 state.loop.authState payload).2.ops
    else state.loop.dir.authLog) = some log at written
  split at written
  · cases written
    exact own
  · exact unmixed.authLog log written

theorem Unmixed.step {state next : Issued crdt} {event : LoopEvent}
    (unmixed : Unmixed crypto config state) (offersOwn : OffersOwn crypto config state event)
    (stepped : (issuing crypto config identity).step state event = some next) :
    Unmixed crypto config next := by
  obtain ⟨after, moved, same⟩ := Option.map_eq_some_iff.mp stepped
  rw [← same]
  -- Only an invitation hands out a ticket.
  have quiet : state.loop.ticketsOf crypto config identity event = [] →
      LogUnmixed crypto config after → Unmixed crypto config ⟨after,
        state.tickets ++ state.loop.ticketsOf crypto config identity event⟩ := by
    intro none_ log
    rw [none_, List.append_nil]
    exact ⟨log, unmixed.tickets⟩
  cases event with
  | invite invitee authRole suggestedRole =>
      cases moved
      obtain ⟨log, tickets⟩ := unmixed.toLogUnmixed.invite identity invitee authRole suggestedRole
      refine ⟨log, List.forall_mem_append.mpr ⟨unmixed.tickets, fun ticket member => ?_⟩⟩
      unfold ticketsOf at member
      dsimp only at member
      split at member
      · next issued =>
          rw [List.mem_singleton.mp member]
          exact tickets _ issued
      · cases member
  | revoke entropy target =>
      cases moved
      exact quiet rfl (unmixed.toLogUnmixed.revoke identity entropy target)
  | rotateKey entropy =>
      cases moved
      exact quiet rfl (unmixed.toLogUnmixed.sameAuth (sameAuth_rotateKey _ entropy))
  | keyRotation created rotation =>
      cases moved
      exact quiet rfl (unmixed.toLogUnmixed.sameAuth (sameAuth_applyKeyRotation _ created rotation))
  | restart created =>
      unfold life at moved
      dsimp only at moved
      split at moved
      · cases moved
      · next spawned =>
          cases moved
          exact quiet rfl (logUnmixed_of_spawn spawned unmixed.authLog)
  | authOps payload =>
      cases moved
      exact quiet rfl (unmixed.toLogUnmixed.authOps offersOwn)

/-- Log and tickets stay with the share's own group as long as gossip offers no operation of
another group whose turn could come. -/
theorem authLog_unmixed (crypto : Primitives) (crdt : GroupCrdt) (config : ShareConfig)
    (identity : crypto.PrivateKey) (created : Key) (dir : ShareDir) (start : ShareLoop crdt)
    (spawned : spawnShareTask crypto created dir = .ok start)
    (own : ∀ log, dir.authLog = some log → ∀ op ∈ log, OwnOp crypto config op)
    (events : List LoopEvent)
    (met : (issuing crypto config identity).Along (OffersOwn crypto config) ⟨start, []⟩ events) :
    ∀ front back reached, events = front ++ back →
      (issuing crypto config identity).run ⟨start, []⟩ front = some reached →
        Unmixed crypto config reached := by
  intro front back reached whole ran
  refine (issuing crypto config identity).run_along_invariant
    (fun _ _ _ unmixed offersOwn => unmixed.step offersOwn) ?_
    (Machine.along_append_iff _ |>.mp (whole ▸ met)).1 ran
  exact ⟨logUnmixed_of_spawn spawned own, fun _ contra => by cases contra⟩

section Samples

open Reference

/-- A group of the stranger's own, for another share. -/
def otherCreation : SignedOp :=
  (AuthState.empty : AuthState sequentialGroup).authored cleartext stranger
    (groupIdFor cleartext "other") (AuthState.createAction stranger.val)

/-- The stranger's group arrives, and then the guest is invited. -/
def otherAndInvite : List LoopEvent :=
  [.authOps [otherCreation.encode], .invite guest.val .writer .sync]

/-- The stranger's operation is in the log, in memory and on the disk, and in the guest's
ticket. -/
theorem otherCreation_mixes : ∃ reached,
    (issuing cleartext docsConfig founder).run ⟨docsLoop founded, []⟩ otherAndInvite =
        some reached ∧
      otherCreation.verify cleartext = .ok () ∧
      otherCreation ∈ reached.loop.authState.ops ∧
      (∃ log, reached.loop.dir.authLog = some log ∧ otherCreation ∈ log) ∧
      (∃ ticket ∈ reached.tickets, otherCreation ∈ ticket.authLog) ∧
      ¬ OwnOp cleartext docsConfig otherCreation ∧
      ¬ Unmixed cleartext docsConfig reached := by
  have checked : ((issuing cleartext docsConfig founder).run
      (⟨docsLoop founded, []⟩ : Issued sequentialGroup) otherAndInvite).any (fun reached =>
        decide (otherCreation ∈ reached.loop.authState.ops ∧
          otherCreation ∈ reached.loop.dir.authLog.getD [] ∧
          ∃ ticket ∈ reached.tickets, otherCreation ∈ ticket.authLog)) = true := by
    decide +kernel
  have foreign : ¬ OwnOp cleartext docsConfig otherCreation := by
    unfold OwnOp
    decide +kernel
  obtain ⟨reached, ran, found⟩ := (Option.any_eq_true _ _).mp checked
  obtain ⟨applied, saved, ticket⟩ := of_decide_eq_true found
  refine ⟨reached, ran, by decide +kernel, applied, ?_, ticket, foreign, ?_⟩
  · cases log : reached.loop.dir.authLog with
    | none =>
        rw [log] at saved
        cases saved
    | some ops =>
        rw [log] at saved
        exact ⟨ops, rfl, saved⟩
  · exact fun unmixed => foreign (unmixed.ops otherCreation applied)

/-- The stranger's group lets the guest in, and that is all that arrives of it. -/
def otherAdmission : SignedOp :=
  ((AuthState.empty : AuthState sequentialGroup).createGroup cleartext stranger
    (groupIdFor cleartext "other")).2.authored cleartext stranger (groupIdFor cleartext "other")
      (.add (.individual guest.val) AuthRole.writer.toAccess)

def incompleteAndInvite : List LoopEvent :=
  [.authOps [otherAdmission.encode], .invite guest.val .writer .sync]

/-- An operation that keeps waiting for its group does not get into the log. -/
theorem otherAdmission_waits : ∃ reached,
    (issuing cleartext docsConfig founder).run ⟨docsLoop founded, []⟩ incompleteAndInvite =
        some reached ∧ Unmixed cleartext docsConfig reached := by
  have own : ∀ log, (docsLoop founded).dir.authLog = some log →
      ∀ op ∈ log, OwnOp cleartext docsConfig op := by
    intro log same
    cases same
    unfold OwnOp
    decide +kernel
  have waits : (issuing cleartext docsConfig founder).Along (OffersOwn cleartext docsConfig)
      (⟨docsLoop founded, []⟩ : Issued sequentialGroup) incompleteAndInvite := by
    refine ⟨fun op offer ready => ?_, fun _ _ => ⟨trivial, fun _ _ => trivial⟩⟩
    have offered : Issued.offered cleartext (⟨docsLoop founded, []⟩ : Issued sequentialGroup)
        [otherAdmission.encode] = [otherAdmission] := by decide +kernel
    have nowhere : ∃ group ∈ otherAdmission.deps,
        group ∉ founded.ops.map (·.computeId cleartext) ++ [otherAdmission.computeId cleartext] := by
      decide +kernel
    rw [offered] at offer ready
    rw [List.mem_singleton.mp offer] at ready
    obtain ⟨group, named, absent⟩ := nowhere
    refine absurd ((ready group named).mem_of_closed (List.subset_append_left _ _)
      fun other member _ => ?_) absent
    rw [List.mem_singleton.mp member]
    exact List.mem_append_right _ (List.mem_singleton_self _)
  obtain ⟨reached, ran⟩ : ∃ reached, (issuing cleartext docsConfig founder).run
      (⟨docsLoop founded, []⟩ : Issued sequentialGroup) incompleteAndInvite = some reached :=
    ⟨_, rfl⟩
  exact ⟨reached, ran, authLog_unmixed cleartext sequentialGroup docsConfig founder
    (.ofBytes 32 [9]) _ _ (spawn_docsLoop _) own incompleteAndInvite waits _ [] reached
      (List.append_nil _).symm ran⟩

end Samples

end ShareLoop

end Peerdup.Daemon
