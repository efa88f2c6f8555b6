import Peerdup.AuthLog
import Peerdup.Daemon.AuthGossipProperties
import Peerdup.Daemon.RevokeProperties
import Peerdup.Daemon.ShareNetwork

/-!
# Memory and disk of a share loop

A restart loads the membership, the keyring and the queued rotations that the loop had
in memory, unless the CRDT has rejected an operation: that clears it in memory alone.
-/

set_option autoImplicit false

namespace Peerdup.Crypto

open Foundation

theorem flatMap_readKeys (count : Nat) (raw : Bytes) (long : count * keyLen ≤ raw.length) :
    (readKeys count raw).flatMap Octets.bytes = raw.take (count * keyLen) := by
  induction count generalizing raw with
  | zero => simp [readKeys]
  | succ count ih =>
      have whole : count * keyLen + keyLen = (count + 1) * keyLen := (Nat.succ_mul _ _).symm
      have rest : count * keyLen ≤ (raw.drop keyLen).length := by
        rw [List.length_drop]
        omega
      have first : (Octets.ofBytes keyLen raw).bytes = raw.take keyLen := by
        have enough : keyLen ≤ raw.length := by omega
        simp [Octets.ofBytes, enough]
      rw [readKeys, List.flatMap_cons, ih _ rest, first, ← whole, Nat.add_comm, List.take_add]

theorem fileBytes_of_parseKeys {raw : Bytes} {ring : KeyRing} (parsed : parseKeys raw = .ok ring) :
    ring.fileBytes = raw := by
  obtain ⟨_, multiple⟩ := (parseKeys_ok_iff raw).mp ⟨ring, parsed⟩
  have keys : ring.keys = readKeys (raw.length / keyLen) raw := by
    unfold parseKeys at parsed
    split at parsed
    · cases parsed
    · cases parsed
      rfl
  have length : raw.length / keyLen * keyLen = raw.length :=
    Nat.div_mul_cancel (Nat.dvd_of_mod_eq_zero multiple)
  rw [KeyRing.fileBytes, keys, flatMap_readKeys _ _ length.le, length, List.take_length]

theorem file_of_loadOrCreateKeyring {created : Key} {keysBin after : Option Bytes} {ring : KeyRing}
    (loaded : loadOrCreateKeyring created keysBin = (.ok ring, after)) :
    after = some ring.fileBytes := by
  unfold loadOrCreateKeyring at loaded
  cases keysBin with
  | none =>
      cases loaded
      rfl
  | some raw =>
      have parsed : parseKeys raw = .ok ring := congrArg Prod.fst loaded
      have same : some raw = after := congrArg Prod.snd loaded
      rw [← same, fileBytes_of_parseKeys parsed]

end Peerdup.Crypto

namespace Peerdup.Rotation

theorem sortByEpoch_concat (rotations : List SignedRotation) (last : SignedRotation)
    (below : ∀ rotation ∈ rotations, rotation.epoch ≤ last.epoch) :
    sortByEpoch (rotations ++ [last]) = sortByEpoch rotations ++ [last] := by
  have inserted : ∀ (first : SignedRotation) (sorted : List SignedRotation),
      first.epoch ≤ last.epoch →
      (sorted ++ [last]).orderedInsert (fun left right => left.epoch ≤ right.epoch) first =
        sorted.orderedInsert (fun left right => left.epoch ≤ right.epoch) first ++ [last] := by
    intro first sorted lower
    induction sorted with
    | nil => simp [lower]
    | cons head sorted ih =>
        rw [List.cons_append, List.orderedInsert, List.orderedInsert]
        by_cases before : first.epoch ≤ head.epoch
        · rw [if_pos before, if_pos before]
          rfl
        · rw [if_neg before, if_neg before, ih, List.cons_append]
  induction rotations with
  | nil => rfl
  | cons first rotations ih =>
      obtain ⟨lower, others⟩ := List.forall_mem_cons.mp below
      rw [List.cons_append, sortByEpoch, List.insertionSort_cons, ← sortByEpoch, ih others,
        inserted first _ lower]
      rfl

theorem loadPending_savePending {pending : List SignedRotation} {rotation : SignedRotation}
    (below : ∀ queued ∈ pending, queued.epoch < rotation.epoch) :
    loadPending (savePending pending rotation) = loadPending pending ++ [rotation] := by
  have kept : pending.filter (·.epoch ≠ rotation.epoch) = pending := by
    refine List.filter_eq_self.mpr fun queued member => ?_
    exact decide_eq_true (below queued member).ne
  rw [loadPending, savePending, kept, sortByEpoch_concat]
  · rfl
  · exact fun queued member => (below queued member).le

end Peerdup.Rotation

namespace Peerdup.Daemon

open Foundation Auth Crypto Rotation

namespace ShareLoop

variable {crdt : GroupCrdt} (crypto : Primitives)

/-- A restart would load what the loop has in memory. -/
structure Mirrored (loop : ShareLoop crdt) : Prop where
  auth : ∃ loaded : AuthState crdt, AuthState.load crypto loop.dir.authLog = .ok loaded ∧
    loaded.ops = loop.authState.ops ∧
    ∀ groupId, loaded.members groupId = loop.authState.members groupId
  key : ∀ created, loadOrCreateKeyring created loop.dir.keysBin = (.ok loop.key, loop.dir.keysBin)
  pending : loadPending loop.dir.pendingRotations = loop.pendingRotations

end ShareLoop

/-- What a share loop is given to do, and a stop and start of the daemon. -/
inductive LoopEvent where
  | invite (invitee : MemberId) (authRole : AuthRole) (suggestedRole : ShareRole)
  | revoke (entropy : Entropy) (target : MemberId)
  | rotateKey (entropy : Entropy)
  | authOps (payload : List Bytes)
  | keyRotation (created : Key) (rotation : SignedRotation)
  | restart (created : Key)

namespace ShareLoop

section Life

variable {crdt : GroupCrdt} (crypto : Primitives) (config : ShareConfig)
  (identity : crypto.PrivateKey)

/-- One share over the daemon's life. A handler's error leaves the state it got to. -/
def life : Machine (ShareLoop crdt) LoopEvent where
  step loop
    | .invite invitee authRole suggestedRole =>
        some (loop.handleInvite crypto config identity invitee authRole suggestedRole).2
    | .revoke entropy target => some (loop.handleRevoke crypto config identity entropy target).2
    | .rotateKey entropy => some (loop.handleRotateKey entropy).2
    | .authOps payload => some (ShareNetwork.receiveAuthOps crypto loop payload)
    | .keyRotation created rotation =>
        some (loop.applyKeyRotation crypto config identity created rotation).2
    | .restart created =>
        match spawnShareTask crypto created loop.dir with
        | .error _ => none
        | .ok next => some next

/-- No operation of the payload is rejected by a CRDT that has something to lose. -/
def PayloadUnspoiled : AuthState crdt → List Bytes → Prop
  | _, [] => True
  | state, raw :: payload =>
      (∀ op, SignedOp.decode raw = some op → state.Unspoiled crypto (.applyRemote op)) ∧
        PayloadUnspoiled (applyRaw crypto 0 state raw).2 payload

/-- The id of the operation is not that of one held. -/
def NewId (loop : ShareLoop crdt) (op : SignedOp) : Prop :=
  op.computeId crypto ∉
    (loop.authState.ops ++ loop.authState.pending).map (·.computeId crypto)

/-- The CRDT does not reject what the event hands it, save onto its fresh state, and a
command's own operation is new. -/
def Unrejected (loop : ShareLoop crdt) : LoopEvent → Prop
  | .invite invitee authRole _ =>
      loop.authState.isEmpty = false →
        loop.authState.isMember (groupIdFor crypto config.id) invitee = false →
        loop.authState.Unspoiled crypto
            (.addMember identity (groupIdFor crypto config.id) invitee authRole) ∧
          loop.NewId crypto (loop.addition crypto config identity invitee authRole)
  | .revoke _ target =>
      loop.authState.isEmpty = false →
        loop.authState.isMember (groupIdFor crypto config.id) target = true →
        loop.authState.Unspoiled crypto
            (.removeMember identity (groupIdFor crypto config.id) target) ∧
          loop.NewId crypto (loop.removal crypto config identity target)
  | .authOps payload => PayloadUnspoiled crypto loop.authState payload
  | .rotateKey _ | .keyRotation _ _ | .restart _ => True

end Life

variable {crdt : GroupCrdt} {crypto : Primitives} {config : ShareConfig}
  {identity : crypto.PrivateKey} {loop : ShareLoop crdt}

/-- The log replays to the membership in memory. -/
structure LogKept (crypto : Primitives) (authLog : Option (List SignedOp))
    (authState : AuthState crdt) : Prop where
  replayable : authState.Replayable crypto
  loads : ∃ loaded : AuthState crdt, AuthState.load crypto authLog = .ok loaded ∧
    loaded.ops = authState.ops ∧ loaded.crdt = authState.crdt

/-- What every step keeps. Rotations are queued for epochs of the ring only. -/
structure Kept (crypto : Primitives) (loop : ShareLoop crdt) : Prop where
  log : LogKept crypto loop.dir.authLog loop.authState
  synced : loop.Synced
  pending : loadPending loop.dir.pendingRotations = loop.pendingRotations
  queued : ∀ rotation ∈ loop.dir.pendingRotations, rotation.epoch ≤ loop.key.currentEpoch

theorem Kept.mirrored (kept : Kept crypto loop) : loop.Mirrored crypto where
  auth := by
    obtain ⟨loaded, read, ops, crdtState⟩ := kept.log.loads
    refine ⟨loaded, read, ops, fun groupId => ?_⟩
    rw [AuthState.members, AuthState.members, crdtState]
  key created := by
    rw [kept.synced]
    exact loadOrCreateKeyring_fileBytes created loop.key
  pending := kept.pending

theorem logKept_saved {authState : AuthState crdt} (replayable : authState.Replayable crypto) :
    LogKept crypto (some authState.ops) authState :=
  ⟨replayable, _, replayable.load_ops, rfl, rfl⟩

theorem kept_of_spawn {created : Key} {dir : ShareDir}
    (spawned : spawnShareTask crypto created dir = .ok loop)
    (queued : ∀ rotation ∈ dir.pendingRotations, rotation.epoch ≤ loop.key.currentEpoch) :
    Kept crypto loop := by
  unfold spawnShareTask at spawned
  split at spawned
  · cases spawned
  · next loadedKey =>
      split at spawned
      · cases spawned
      · next loadedAuth =>
          cases spawned
          exact ⟨⟨AuthState.replayable_of_load loadedAuth, _, loadedAuth, rfl, rfl⟩,
            file_of_loadOrCreateKeyring loadedKey, rfl, queued⟩

theorem Kept.restart (kept : Kept crypto loop) (created : Key) :
    ∃ next : ShareLoop crdt, spawnShareTask crypto created loop.dir = .ok next ∧
      Kept crypto next := by
  obtain ⟨loaded, read, _⟩ := kept.log.loads
  have key := loadOrCreateKeyring_fileBytes created loop.key
  have spawned : spawnShareTask crypto created loop.dir =
      .ok ⟨loaded, loop.key, loadPending loop.dir.pendingRotations, [],
        { loop.dir with keysBin := some loop.key.fileBytes }⟩ := by
    unfold spawnShareTask
    rw [kept.synced, key]
    dsimp only
    rw [read]
  exact ⟨_, spawned, kept_of_spawn spawned kept.queued⟩

theorem Kept.withRing (kept : Kept crypto loop) {ring : KeyRing}
    (longer : loop.key.currentEpoch ≤ ring.currentEpoch) : Kept crypto (loop.withRing ring) where
  log := kept.log
  synced := rfl
  pending := kept.pending
  queued rotation member := (kept.queued rotation member).trans longer

theorem Kept.queueRotation (kept : Kept crypto loop) {rotation : SignedRotation}
    (current : rotation.epoch = loop.key.currentEpoch)
    (new : ∀ queued ∈ loop.dir.pendingRotations, queued.epoch < rotation.epoch) :
    Kept crypto (loop.queueRotation rotation) where
  log := kept.log
  synced := kept.synced
  pending := by
    change loadPending (savePending loop.dir.pendingRotations rotation) =
      loop.pendingRotations ++ [rotation]
    rw [loadPending_savePending new, kept.pending]
  queued queued member := by
    change queued ∈ savePending loop.dir.pendingRotations rotation at member
    change queued.epoch ≤ loop.key.currentEpoch
    rcases List.mem_append.mp member with earlier | last
    · exact kept.queued queued (List.mem_of_mem_filter earlier)
    · rw [List.mem_singleton.mp last, current]

/-- A command's operation is in, in memory and in the log. -/
theorem Kept.afterOp (lawful : crypto.Lawful) (heads : crdt.HeadsProcessed crypto)
    (kept : Kept crypto loop) (groupId : MemberId) (action : GroupAction) {next : crdt.State}
    (accepted : crdt.process loop.authState.crdt
      (loop.authState.authored crypto identity groupId action) = .ok next)
    (new : loop.NewId crypto (loop.authState.authored crypto identity groupId action)) :
    Kept crypto (loop.afterOp next (loop.authState.authored crypto identity groupId action)) := by
  have replayable := kept.log.replayable.author lawful heads identity groupId action accepted new
  exact ⟨logKept_saved replayable, kept.synced, kept.pending, kept.queued⟩

/-- A rejection that spoils nothing is one onto the fresh CRDT, and leaves the loop as it was. -/
theorem withAuth_wiped {op : SignedOp} {cause : String}
    (unspoiled : crdt.Accepts loop.authState.crdt [op] ∨ loop.authState.RejectsOntoFresh op)
    (rejected : crdt.process loop.authState.crdt op = .error cause) :
    loop.withAuth loop.authState.wiped = loop := by
  rcases unspoiled with ⟨next, accepted, _⟩ | fresh
  · cases rejected.symm.trans accepted
  · rw [withAuth, AuthState.wiped, ← fresh.2]

theorem Kept.invite (lawful : crypto.Lawful) (heads : crdt.HeadsProcessed crypto)
    (kept : Kept crypto loop) {invitee : MemberId} {authRole : AuthRole} {suggestedRole : ShareRole}
    (clean : loop.Unrejected crypto config identity (.invite invitee authRole suggestedRole)) :
    Kept crypto (loop.handleInvite crypto config identity invitee authRole suggestedRole).2 := by
  rw [handleInvite_eq]
  by_cases empty : loop.authState.isEmpty = true
  · rw [if_pos empty]
    exact kept
  rw [if_neg empty]
  by_cases present : loop.authState.isMember (groupIdFor crypto config.id) invitee = true
  · rw [if_pos present]
    exact kept
  rw [if_neg present]
  obtain ⟨unspoiled, new⟩ := clean (Bool.eq_false_iff.mpr empty) (Bool.eq_false_iff.mpr present)
  dsimp only
  cases processed : crdt.process loop.authState.crdt
      (loop.addition crypto config identity invitee authRole) with
  | ok next => exact kept.afterOp lawful heads _ _ processed new
  | error cause =>
      dsimp only
      rw [withAuth_wiped unspoiled processed]
      exact kept

theorem Kept.revoke (lawful : crypto.Lawful) (heads : crdt.HeadsProcessed crypto)
    (kept : Kept crypto loop) {entropy : Entropy} {target : MemberId}
    (clean : loop.Unrejected crypto config identity (.revoke entropy target)) :
    Kept crypto (loop.handleRevoke crypto config identity entropy target).2 := by
  rw [handleRevoke_eq]
  by_cases empty : loop.authState.isEmpty = true
  · rw [if_pos empty]
    exact kept
  rw [if_neg empty]
  by_cases absent : (!loop.authState.isMember (groupIdFor crypto config.id) target) = true
  · rw [if_pos absent]
    exact kept
  rw [if_neg absent]
  obtain ⟨unspoiled, new⟩ := clean (Bool.eq_false_iff.mpr empty) (by simpa using absent)
  dsimp only
  cases processed : crdt.process loop.authState.crdt
      (loop.removal crypto config identity target) with
  | error cause =>
      dsimp only
      rw [withAuth_wiped unspoiled processed]
      exact kept
  | ok next =>
      have removed : Kept crypto (loop.afterOp next (loop.removal crypto config identity target)) :=
        kept.afterOp lawful heads _ _ processed new
      have current : (loop.afterOp next (loop.removal crypto config identity target)).key =
        loop.key := rfl
      dsimp only
      rw [kept.synced, loadOrCreateKeyring_fileBytes]
      dsimp only
      have longer : (loop.afterOp next (loop.removal crypto config identity target)).key.currentEpoch ≤
          (loop.key.push entropy.newKey).currentEpoch := by
        rw [current, KeyRing.currentEpoch_push]
        exact Nat.le_succ _
      have rotated := removed.withRing longer
      cases built : buildSignedRotation crypto identity entropy.envelope (loop.key.currentEpoch + 1)
        entropy.newKey ((loop.afterOp next
          (loop.removal crypto config identity target)).remaining crypto config target) with
      | error failure => exact rotated
      | ok rotation =>
          obtain ⟨epoch, _⟩ := carries_of_buildSignedRotation built
          refine rotated.queueRotation ?_ ?_
          · exact epoch.trans (KeyRing.currentEpoch_push loop.key entropy.newKey).symm
          · intro queued member
            rw [epoch]
            exact Nat.lt_succ_of_le (kept.queued queued member)

theorem Kept.rotateKey (kept : Kept crypto loop) (entropy : Entropy) :
    Kept crypto (loop.handleRotateKey entropy).2 := by
  rw [handleRotateKey_synced kept.synced]
  exact kept.withRing (by rw [KeyRing.currentEpoch_push]; exact Nat.le_succ _)

variable (config identity) in
theorem Kept.tryInstallRotation (kept : Kept crypto loop) (created : Key)
    (rotation : SignedRotation) :
    Kept crypto (loop.tryInstallRotation crypto config identity created rotation).2 := by
  rcases tryInstallRotation_cases crypto config identity kept.synced created rotation with
    ⟨newKey, _, _, installed⟩ | ⟨result, _, installed⟩
  · rw [installed]
    exact kept.withRing (by rw [KeyRing.currentEpoch_push]; exact Nat.le_succ _)
  · rw [installed]
    exact kept

theorem Kept.withBuffer (kept : Kept crypto loop) (buffer : List SignedRotation) :
    Kept crypto (loop.withBuffer buffer) where
  log := kept.log
  synced := kept.synced
  pending := kept.pending
  queued := kept.queued

theorem Kept.keyRotation (kept : Kept crypto loop) (created : Key) (rotation : SignedRotation) :
    Kept crypto (loop.applyKeyRotation crypto config identity created rotation).2 := by
  have keeps : InstallsKeep crypto config identity created (fun _ => True)
      (Kept crypto : ShareLoop crdt → Prop) :=
    ⟨fun _ _ _ _ => trivial, fun _ buffer kept _ => kept.withBuffer buffer,
      fun _ rotation kept _ => kept.tryInstallRotation config identity created rotation⟩
  exact keeps.applyKeyRotation kept trivial

/-- A call that no rejection spoils leaves a state that can be replayed. Unless it counts
as applied, the applied operations are those from before. -/
theorem applyRaw_replayable {state : AuthState crdt} {raw : Bytes}
    (unspoiled : ∀ op, SignedOp.decode raw = some op → state.Unspoiled crypto (.applyRemote op))
    (replayable : state.Replayable crypto) (applied : Nat) :
    (applyRaw crypto applied state raw).2.Replayable crypto ∧
      applied ≤ (applyRaw crypto applied state raw).1 ∧
      ((applyRaw crypto applied state raw).1 = applied →
        (applyRaw crypto applied state raw).2.ops = state.ops ∧
          (applyRaw crypto applied state raw).2.crdt = state.crdt) := by
  unfold applyRaw
  cases decoded : SignedOp.decode raw with
  | none => exact ⟨replayable, Nat.le_refl _, fun _ => ⟨rfl, rfl⟩⟩
  | some op =>
      dsimp only
      have clean := (AuthState.applyRemote_clean_iff state op).mpr (unspoiled op decoded)
      rcases called : state.applyRemote crypto op with ⟨result, next⟩
      cases result with
      | error failure =>
          rw [clean failure next called]
          exact ⟨replayable, Nat.le_refl _, fun _ => ⟨rfl, rfl⟩⟩
      | ok fresh =>
          obtain ⟨after, unchanged⟩ := replayable.applyRemote called
          cases fresh with
          | true => exact ⟨after, Nat.le_succ _, fun same => absurd same (Nat.succ_ne_self _)⟩
          | false => exact ⟨after, Nat.le_refl _, fun _ => unchanged rfl⟩

theorem applyPayload_replayable {payload : List Bytes} {state : AuthState crdt}
    (unspoiled : PayloadUnspoiled crypto state payload) (replayable : state.Replayable crypto)
    (applied : Nat) :
    (applyPayload crypto applied state payload).2.Replayable crypto ∧
      applied ≤ (applyPayload crypto applied state payload).1 ∧
      ((applyPayload crypto applied state payload).1 = applied →
        (applyPayload crypto applied state payload).2.ops = state.ops ∧
          (applyPayload crypto applied state payload).2.crdt = state.crdt) := by
  induction payload generalizing state applied with
  | nil => exact ⟨replayable, Nat.le_refl _, fun _ => ⟨rfl, rfl⟩⟩
  | cons raw payload ih =>
      obtain ⟨here, later⟩ := unspoiled
      obtain ⟨first, grew, unchanged⟩ := applyRaw_replayable here replayable applied
      rw [← applyRaw_state applied] at later
      obtain ⟨whole, further, still⟩ := ih later first (applyRaw crypto applied state raw).1
      rw [applyPayload]
      refine ⟨whole, grew.trans further, fun same => ?_⟩
      have stayed : (applyRaw crypto applied state raw).1 = applied :=
        Nat.le_antisymm (further.trans same.le) grew
      obtain ⟨opsFirst, crdtFirst⟩ := unchanged stayed
      obtain ⟨opsLater, crdtLater⟩ := still (same.trans stayed.symm)
      exact ⟨opsLater.trans opsFirst, crdtLater.trans crdtFirst⟩

/-- The log is saved exactly when it has fallen behind. -/
theorem Kept.authOps (kept : Kept crypto loop) {payload : List Bytes}
    (clean : PayloadUnspoiled crypto loop.authState payload) :
    Kept crypto (ShareNetwork.receiveAuthOps crypto loop payload) := by
  obtain ⟨replayable, _, unchanged⟩ := applyPayload_replayable clean kept.log.replayable 0
  refine ⟨?_, kept.synced, kept.pending, kept.queued⟩
  change LogKept crypto (if (applyPayload crypto 0 loop.authState payload).1 > 0 then
    some (applyPayload crypto 0 loop.authState payload).2.ops else loop.dir.authLog)
    (applyPayload crypto 0 loop.authState payload).2
  by_cases some_ : (applyPayload crypto 0 loop.authState payload).1 > 0
  · rw [if_pos some_]
    exact logKept_saved replayable
  · rw [if_neg some_]
    obtain ⟨ops, crdtState⟩ := unchanged (Nat.eq_zero_of_not_pos some_)
    obtain ⟨loaded, read, loadedOps, loadedCrdt⟩ := kept.log.loads
    exact ⟨replayable, loaded, read, loadedOps.trans ops.symm, loadedCrdt.trans crdtState.symm⟩

theorem Kept.step (lawful : crypto.Lawful) (heads : crdt.HeadsProcessed crypto) {event : LoopEvent}
    {next : ShareLoop crdt} (kept : Kept crypto loop)
    (clean : loop.Unrejected crypto config identity event)
    (stepped : (life crypto config identity).step loop event = some next) : Kept crypto next := by
  cases event with
  | invite invitee authRole suggestedRole =>
      cases stepped
      exact kept.invite lawful heads clean
  | revoke entropy target =>
      cases stepped
      exact kept.revoke lawful heads clean
  | rotateKey entropy =>
      cases stepped
      exact kept.rotateKey entropy
  | authOps payload =>
      cases stepped
      exact kept.authOps clean
  | keyRotation created rotation =>
      cases stepped
      exact kept.keyRotation created rotation
  | restart created =>
      obtain ⟨again, spawned, keptAgain⟩ := kept.restart created
      unfold life at stepped
      dsimp only at stepped
      rw [spawned] at stepped
      cases stepped
      exact keptAgain

/-- From any start, as long as the CRDT rejects nothing, a restart at any point would load
what is in memory. -/
theorem memory_mirrors_disk (crypto : Primitives) (lawful : crypto.Lawful) (crdt : GroupCrdt)
    (heads : crdt.HeadsProcessed crypto) (config : ShareConfig) (identity : crypto.PrivateKey)
    (created : Key) (dir : ShareDir) (start final : ShareLoop crdt)
    (spawned : spawnShareTask crypto created dir = .ok start)
    (queued : ∀ rotation ∈ dir.pendingRotations, rotation.epoch ≤ start.key.currentEpoch)
    (events : List LoopEvent)
    (clean : (life crypto config identity).Along (Unrejected crypto config identity) start events)
    (ran : (life crypto config identity).run start events = some final) : final.Mirrored crypto := by
  have preserved : ∀ (loop : ShareLoop crdt) (event : LoopEvent) (next : ShareLoop crdt),
      Kept crypto loop → loop.Unrejected crypto config identity event →
      (life crypto config identity).step loop event = some next → Kept crypto next :=
    fun _ _ _ kept clean stepped => kept.step lawful heads clean stepped
  exact ((life crypto config identity).run_along_invariant preserved
    (kept_of_spawn spawned queued) clean ran).mirrored

section Samples

open Reference

theorem founded_replayable : founded.Replayable cleartext := by
  let creation := (AuthState.empty : AuthState sequentialGroup).authored cleartext founder docs
    (AuthState.createAction founder.val)
  have taken : (sequentialGroup.process sequentialGroup.new creation).isOk = true := by
    decide +kernel
  cases accepted : sequentialGroup.process sequentialGroup.new creation with
  | error cause =>
      rw [accepted] at taken
      cases taken
  | ok next =>
      have same : founded = (AuthState.empty : AuthState sequentialGroup).applied next creation := by
        have built := AuthState.author_eq cleartext (AuthState.empty : AuthState sequentialGroup)
          founder docs (AuthState.createAction founder.val)
        change ((AuthState.empty : AuthState sequentialGroup).author cleartext founder docs
          (AuthState.createAction founder.val)).2 = _
        rw [built, show sequentialGroup.process (AuthState.empty : AuthState sequentialGroup).crdt
          creation = .ok next from accepted]
      rw [same]
      exact AuthState.replayable_empty.author cleartext_lawful sequentialGroup_headsProcessed
        founder docs _ accepted List.not_mem_nil

/-- The founder's daemon starts over the log of a new group. -/
theorem spawn_docsLoop (created : Key) :
    spawnShareTask cleartext created (docsLoop founded).dir = .ok (docsLoop founded) := by
  have read := founded_replayable.load_ops
  have key := loadOrCreateKeyring_fileBytes created (docsLoop founded).key
  unfold spawnShareTask
  rw [docsLoop_synced, key]
  dsimp only
  rw [show (docsLoop founded).dir.authLog = some founded.ops from rfl, read]
  rfl

/-- The founder invites the guest and stops the daemon. -/
def inviteAndRestart : List LoopEvent :=
  [.invite guest.val .writer .sync, .restart (.ofBytes 32 [9])]

theorem inviteAndRestart_unrejected : (life cleartext docsConfig founder).Along
    (Unrejected cleartext docsConfig founder) (docsLoop founded) inviteAndRestart := by
  refine ⟨fun _ _ => ⟨.inl ?_, ?_⟩, fun _ _ => ⟨trivial, fun _ _ => trivial⟩⟩
  · have taken : (sequentialGroup.process founded.crdt (founded.authored cleartext founder docs
        (.add (.individual guest.val) AuthRole.writer.toAccess))).isOk = true := by decide +kernel
    cases accepted : sequentialGroup.process founded.crdt (founded.authored cleartext founder docs
        (.add (.individual guest.val) AuthRole.writer.toAccess)) with
    | error cause =>
        rw [accepted] at taken
        cases taken
    | ok next => exact ⟨next, accepted, trivial⟩
  · unfold NewId
    decide +kernel

theorem inviteAndRestart_mirrored : ∃ final,
    (life cleartext docsConfig founder).run (docsLoop founded) inviteAndRestart = some final ∧
      final.Mirrored cleartext := by
  have kept := kept_of_spawn (spawn_docsLoop (.ofBytes 32 [9]))
    (fun _ member => absurd member List.not_mem_nil)
  have invited := kept.invite cleartext_lawful sequentialGroup_headsProcessed
    inviteAndRestart_unrejected.1
  obtain ⟨final, spawned, _⟩ := invited.restart (.ofBytes 32 [9])
  have ran : (life cleartext docsConfig founder).run (docsLoop founded) inviteAndRestart =
      some final := by
    refine (Machine.run_cons_iff _).mpr ⟨_, rfl, (Machine.run_cons_iff _).mpr ⟨final, ?_, rfl⟩⟩
    unfold life
    dsimp only
    rw [spawned]
  exact ⟨final, ran, memory_mirrors_disk cleartext cleartext_lawful sequentialGroup
    sequentialGroup_headsProcessed docsConfig founder (.ofBytes 32 [9]) _ _ final
    (spawn_docsLoop _) (fun _ member => absurd member List.not_mem_nil) inviteAndRestart
    inviteAndRestart_unrejected ran⟩

/-- One rejected operation: the loop knows no member any more, and a restart would. -/
theorem strangerRemoval_unmirrored : ∃ final,
    (life cleartext docsConfig founder).run (docsLoop founded)
        [.authOps [(strangerRemoval founded).encode]] = some final ∧ ¬ final.Mirrored cleartext := by
  refine ⟨_, rfl, fun mirrored => ?_⟩
  obtain ⟨loaded, read, _, members⟩ := mirrored.auth
  have cleared : (ShareNetwork.receiveAuthOps cleartext (docsLoop founded)
      [(strangerRemoval founded).encode]).authState.members docs = [] := by decide +kernel
  have unsaved : (ShareNetwork.receiveAuthOps cleartext (docsLoop founded)
      [(strangerRemoval founded).encode]).dir.authLog = some founded.ops := by decide +kernel
  have listed : founded.members docs = [(founder.val, .owner)] := by decide +kernel
  rw [unsaved] at read
  have same := Except.ok.inj (read.symm.trans founded_replayable.load_ops)
  have both := (members docs).symm.trans (congrArg (fun state => state.members docs) same)
  rw [cleared] at both
  exact absurd (both.trans listed) (by simp)

end Samples

end ShareLoop

end Peerdup.Daemon
