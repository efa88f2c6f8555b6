import Peerdup.AuthReplay
import Peerdup.Daemon.DirectCommands
import Peerdup.Daemon.DiskMirror

/-!
# Commands with and without a daemon

A running loop and the direct commands answer alike, since what the loop has in memory is
what its share's files load to after every command. Only starting the loop may write a file
that no command has asked for.
-/

set_option autoImplicit false

namespace Peerdup.Auth.AuthState

variable {crypto : Primitives} {crdt : GroupCrdt} {state : AuthState crdt}

theorem pending_of_load {authLog : Option (List SignedOp)}
    (read : load crypto authLog = .ok state) : state.pending = [] := by
  unfold load at read
  split at read
  · cases read
    rfl
  split at read
  · cases read
  split at read
  · cases read
  next drained =>
    cases read
    simpa using drained

/-- An operation authored on a loaded log is loaded back with it. -/
theorem load_authored (lawful : crypto.Lawful) (heads : crdt.HeadsProcessed crypto)
    (rejects : crdt.RejectsProcessed crypto) {authLog : Option (List SignedOp)}
    (read : load crypto authLog = .ok state) (myKey : crypto.PrivateKey) (groupId : MemberId)
    (action : GroupAction) {next : crdt.State}
    (accepted : crdt.process state.crdt (state.authored crypto myKey groupId action) = .ok next) :
    load crypto (some (state.applied next (state.authored crypto myKey groupId action)).ops) =
      .ok (state.applied next (state.authored crypto myKey groupId action)) := by
  have called := author_eq crypto state myKey groupId action
  rw [accepted] at called
  have logged := (replayable_of_load read).logged.author lawful heads called
  have reloaded := (logged.replayable_ops rejects).load_ops
  have drained : state.pending = [] := pending_of_load read
  rw [reloaded, ← drained]
  rfl

end Peerdup.Auth.AuthState

namespace Peerdup.Daemon

open Foundation Auth Crypto Rotation

section Agreement

variable {crypto : Primitives} {crdt : GroupCrdt} {created : Key} {dir : ShareDir}
  {loop : ShareLoop crdt}

/-- The loop has in memory what the directory loads to. -/
structure LoadedFrom (crypto : Primitives) (created : Key) (dir : ShareDir)
    (loop : ShareLoop crdt) : Prop where
  auth : AuthState.load crypto dir.authLog = .ok loop.authState
  key : loadOrCreateKeyring created dir.keysBin = (.ok loop.key, some loop.key.fileBytes)
  written : loop.dir = { dir with keysBin := some loop.key.fileBytes }

theorem loadedFrom_of_spawn (spawned : spawnShareTask crypto created dir = .ok loop) :
    LoadedFrom crypto created dir loop := by
  unfold spawnShareTask at spawned
  split at spawned
  · cases spawned
  next loadedKey =>
    split at spawned
    · cases spawned
    next loadedAuth =>
      obtain rfl := file_of_loadOrCreateKeyring loadedKey
      cases spawned
      exact ⟨loadedAuth, loadedKey, rfl⟩

/-- Where `keys.bin` is there, no key is created. -/
theorem LoadedFrom.recreate (loaded : LoadedFrom crypto created dir loop) {other : Key}
    (same : dir.keysBin = none → other = created) : LoadedFrom crypto other dir loop := by
  refine ⟨loaded.auth, ?_, loaded.written⟩
  have key := loaded.key
  cases file : dir.keysBin with
  | none => rw [same file, ← file, key]
  | some raw =>
      rw [file] at key
      exact key

/-- The directory is the loop's own, and loads to what the loop has in memory. -/
structure Reflects (crypto : Primitives) (dir : ShareDir) (loop : ShareLoop crdt) : Prop where
  written : loop.dir = dir
  auth : AuthState.load crypto dir.authLog = .ok loop.authState
  synced : loop.Synced

theorem Reflects.loadedFrom (reflects : Reflects crypto dir loop) (created : Key) :
    LoadedFrom crypto created dir loop := by
  obtain ⟨rfl, auth, synced⟩ := reflects
  refine ⟨auth, ?_, ?_⟩
  · rw [synced]
    exact loadOrCreateKeyring_fileBytes created loop.key
  · rw [← synced]

/-- Once `keys.bin` is written as it was loaded. -/
theorem LoadedFrom.reflects (loaded : LoadedFrom crypto created dir loop) :
    Reflects crypto { dir with keysBin := some loop.key.fileBytes } loop where
  written := loaded.written
  auth := loaded.auth
  synced := by
    unfold ShareLoop.Synced
    rw [loaded.written]

theorem LoadedFrom.keysBin_eq (loaded : LoadedFrom crypto created dir loop)
    (present : dir.keysBin ≠ none) : dir.keysBin = some loop.key.fileBytes := by
  have key := loaded.key
  cases file : dir.keysBin with
  | none => exact absurd file present
  | some raw =>
      rw [file] at key
      exact congrArg Prod.snd key

section Commands

variable (lawful : crypto.Lawful) (heads : crdt.HeadsProcessed crypto)
  (rejects : crdt.RejectsProcessed crypto) {config : ShareConfig} {identity : crypto.PrivateKey}

include lawful heads rejects in
/-- What a command has authored, in memory and on the disk. -/
theorem LoadedFrom.afterOp (loaded : LoadedFrom crypto created dir loop) (groupId : MemberId)
    (action : GroupAction) {next : crdt.State}
    (accepted : crdt.process loop.authState.crdt
      (loop.authState.authored crypto identity groupId action) = .ok next) :
    LoadedFrom crypto created
      { dir with authLog := some (loop.authState.applied next
          (loop.authState.authored crypto identity groupId action)).ops }
      (loop.afterOp next (loop.authState.authored crypto identity groupId action)) where
  auth := AuthState.load_authored lawful heads rejects loaded.auth identity groupId action accepted
  key := loaded.key
  written := by
    change ShareDir.mk _ loop.dir.keysBin loop.dir.pendingRotations = _
    rw [loaded.written]
    rfl

theorem LoadedFrom.withRing (loaded : LoadedFrom crypto created dir loop) (ring : KeyRing) :
    Reflects crypto { dir with keysBin := some ring.fileBytes } (loop.withRing ring) where
  written := by
    change ShareDir.mk loop.dir.authLog (some ring.fileBytes) loop.dir.pendingRotations = _
    rw [loaded.written]
  auth := loaded.auth
  synced := rfl

theorem Reflects.queueRotation (reflects : Reflects crypto dir loop) (rotation : SignedRotation) :
    Reflects crypto { dir with pendingRotations := savePending dir.pendingRotations rotation }
      (loop.queueRotation rotation) where
  written := by
    change ShareDir.mk loop.dir.authLog loop.dir.keysBin
      (savePending loop.dir.pendingRotations rotation) = _
    rw [reflects.written]
  auth := reflects.auth
  synced := reflects.synced

include lawful heads rejects in
theorem inviteOnDisk_alike (loaded : LoadedFrom crypto created dir loop) (inviteePubkeyHex : String)
    (invitee : MemberId) (role : ShareRole) (authRole : AuthRole) :
    Service.Alike (Reflects crypto)
      (succeeded .ticket (inviteOnDisk crypto crdt config identity created dir config.id
        inviteePubkeyHex invitee role authRole))
      (succeeded .ticket (loop.handleInvite crypto config identity invitee authRole role)) := by
  rw [ShareLoop.handleInvite_eq]
  unfold inviteOnDisk
  rw [loaded.auth]
  dsimp only
  by_cases empty : loop.authState.isEmpty = true
  · rw [if_pos empty, if_pos empty]
    exact .none
  rw [if_neg empty, if_neg empty]
  by_cases present : loop.authState.isMember (groupIdFor crypto config.id) invitee = true
  · rw [if_pos present, if_pos present]
    exact .none
  rw [if_neg present, if_neg present, AuthState.addMember, AuthState.author_eq]
  unfold ShareLoop.addition
  cases accepted : crdt.process loop.authState.crdt (loop.authState.authored crypto identity
      (groupIdFor crypto config.id) (.add (.individual invitee) authRole.toAccess)) with
  | error cause => exact .none
  | ok next =>
      dsimp only
      rw [loaded.key]
      have authored := loaded.afterOp lawful heads rejects _ _ accepted
      exact .some ⟨rfl, authored.reflects⟩

private theorem remaining_afterOp (next : crdt.State) (op : SignedOp) (target : MemberId) :
    (loop.afterOp next op).remaining crypto config target =
      sortIds ((((loop.authState.applied next op).members (groupIdFor crypto config.id)).map
        Prod.fst).filter fun member => member ≠ target) := rfl

include lawful heads rejects in
theorem revokeOnDisk_alike {entropy : Entropy} (loaded : LoadedFrom crypto entropy.created dir loop)
    (peerPubkeyHex : String) (target : MemberId) :
    Service.Alike (Reflects crypto)
      (succeeded .epoch (revokeOnDisk crypto crdt identity entropy dir config.id peerPubkeyHex
        target))
      (succeeded .epoch (loop.handleRevoke crypto config identity entropy target)) := by
  have synced := loaded.reflects.synced
  rw [ShareLoop.handleRevoke_eq, synced, loadOrCreateKeyring_fileBytes]
  unfold revokeOnDisk
  rw [loaded.auth]
  dsimp only
  by_cases empty : loop.authState.isEmpty = true
  · rw [if_pos empty, if_pos empty]
    exact .none
  rw [if_neg empty, if_neg empty]
  by_cases absent : (!loop.authState.isMember (groupIdFor crypto config.id) target) = true
  · rw [if_pos absent, if_pos absent]
    exact .none
  rw [if_neg absent, if_neg absent, AuthState.removeMember, AuthState.author_eq]
  unfold ShareLoop.removal
  cases accepted : crdt.process loop.authState.crdt (loop.authState.authored crypto identity
      (groupIdFor crypto config.id) (.remove (.individual target))) with
  | error cause => exact .none
  | ok next =>
      have removed := loaded.afterOp lawful heads rejects _ _ accepted
      dsimp only
      rw [rotateKeyring_of_load loaded.key]
      dsimp only
      rw [loadOrCreateKeyring_fileBytes]
      dsimp only
      rw [KeyRing.keyForEpoch_push_current]
      dsimp only
      rw [remaining_afterOp]
      generalize buildSignedRotation crypto identity entropy.envelope _ entropy.newKey _ = built
      cases built with
      | error failure => exact .none
      | ok rotation =>
          exact .some ⟨rfl, (removed.withRing (loop.key.push entropy.newKey)).queueRotation rotation⟩

theorem cmdShareRotateKeyDirect_alike {configs : List ShareConfig}
    (listed : configs.any (·.id = config.id) = true) {entropy : Entropy}
    (loaded : LoadedFrom crypto entropy.created dir loop) :
    Service.Alike (Reflects crypto)
      (succeeded .epoch (cmdShareRotateKeyDirect (.ok configs) entropy dir config.id))
      (succeeded .epoch (loop.handleRotateKey entropy)) := by
  have unfailing : ¬ (!configs.any (·.id = config.id)) = true := by simp [listed]
  rw [ShareLoop.handleRotateKey_synced loaded.reflects.synced, cmdShareRotateKeyDirect,
    if_neg unfailing, rotateKeyring_of_load loaded.key]
  exact .some ⟨rfl, loaded.withRing _⟩

include lawful heads rejects in
/-- One command, where the CLI finds the configuration that the loop runs with. -/
theorem command_alike {configs : List ShareConfig}
    (listed : configs.find? (·.id = config.id) = some config) {entropy : Entropy}
    (loaded : LoadedFrom crypto entropy.created dir loop) (request : ShareRequest) :
    Service.Alike (Reflects crypto)
      ((directCommands crypto crdt (.ok configs) (.ok identity) config.id).call dir
        (entropy, request))
      ((loopCommands crypto config identity).call loop (entropy, request)) := by
  have known : configs.any (·.id = config.id) = true :=
    List.any_eq_true.mpr ⟨config, List.mem_of_find?_eq_some listed, by simp⟩
  cases request with
  | rotateKey => exact cmdShareRotateKeyDirect_alike known loaded
  | invite inviteePubkey role authRole =>
      dsimp only [directCommands, loopCommands, cmdShareInviteDirect, shareInvite]
      rw [listed]
      dsimp only
      cases fromHex inviteePubkey with
      | none => exact .none
      | some parsed =>
          cases parsed with
          | error failure => exact .none
          | ok invitee =>
              exact inviteOnDisk_alike lawful heads rejects loaded inviteePubkey invitee role
                authRole
  | revoke peerPubkey =>
      have unfailing : ¬ (!configs.any (·.id = config.id)) = true := by simp [known]
      dsimp only [directCommands, loopCommands, cmdShareRevokeDirect, shareRevoke]
      rw [if_neg unfailing]
      cases fromHex peerPubkey with
      | none => exact .none
      | some parsed =>
          cases parsed with
          | error failure => exact .none
          | ok target => exact revokeOnDisk_alike lawful heads rejects loaded peerPubkey target

include lawful heads rejects in
/-- After the first command the loop's directory is the one the commands have left. -/
theorem commands_alike {configs : List ShareConfig}
    (listed : configs.find? (·.id = config.id) = some config) {entropy : Entropy}
    (loaded : LoadedFrom crypto entropy.created dir loop) (request : ShareRequest)
    (requests : List (Entropy × ShareRequest)) :
    Service.Alike (Reflects crypto)
      ((directCommands crypto crdt (.ok configs) (.ok identity) config.id).serve dir
        ((entropy, request) :: requests))
      ((loopCommands crypto config identity).serve loop ((entropy, request) :: requests)) := by
  apply Service.serve_cons_alike (command_alike lawful heads rejects listed loaded request)
  intro next mirrored reflects
  refine Service.serve_alike ?_ reflects requests
  intro dir loop request reflects
  exact command_alike lawful heads rejects listed (reflects.loadedFrom request.1.created) request.2

end Commands

end Agreement

/-- The commands of one share, run directly on its files and handled by a loop that was
started on them, with the same random values: one run succeeds exactly if the other does, with
the same tickets and epochs, and they leave the same `auth.log` and queued rotations. They
leave the same `keys.bin` exactly if there was a command, or a `keys.bin` before. -/
theorem directCommands_agree (crypto : Primitives) (lawful : crypto.Lawful) (crdt : GroupCrdt)
    (heads : crdt.HeadsProcessed crypto) (rejects : crdt.RejectsProcessed crypto)
    (configs : List ShareConfig) (config : ShareConfig)
    (listed : configs.find? (·.id = config.id) = some config) (identity : crypto.PrivateKey)
    (created : Key) (dir : ShareDir) (loop : ShareLoop crdt)
    (spawned : spawnShareTask crypto created dir = .ok loop)
    (requests : List (Entropy × ShareRequest))
    (sameKey : dir.keysBin = none → ∀ first ∈ requests.head?, first.1.created = created) :
    let direct := (directCommands crypto crdt (.ok configs) (.ok identity) config.id).serve dir
      requests
    let handled := (loopCommands crypto config identity).serve loop requests
    (∀ replies, (∃ after, direct = some (replies, after)) ↔
      ∃ final, handled = some (replies, final)) ∧
    ∀ replies after final, direct = some (replies, after) → handled = some (replies, final) →
      after.authLog = final.dir.authLog ∧ after.pendingRotations = final.dir.pendingRotations ∧
      (after.keysBin = final.dir.keysBin ↔ requests ≠ [] ∨ dir.keysBin ≠ none) := by
  dsimp only
  have loaded := loadedFrom_of_spawn spawned
  cases requests with
  | nil =>
      refine ⟨fun replies => by simp [Service.serve], ?_⟩
      intro replies after final direct handled
      cases direct
      cases handled
      rw [loaded.written]
      refine ⟨rfl, rfl, fun same => ?_, fun either => ?_⟩
      · right
        rw [same]
        exact Option.some_ne_none _
      · exact loaded.keysBin_eq (either.resolve_left fun nonempty => nonempty rfl)
  | cons first requests =>
      obtain ⟨entropy, request⟩ := first
      have mirrored := loaded.recreate fun absent => sameKey absent (entropy, request) rfl
      have alike : Service.Alike (Reflects crypto)
          ((directCommands crypto crdt (.ok configs) (.ok identity) config.id).serve dir _)
          ((loopCommands crypto config identity).serve loop _) :=
        commands_alike lawful heads rejects listed mirrored request requests
      refine ⟨alike.answers_iff, ?_⟩
      intro replies after final direct handled
      have reflects := alike.states direct handled
      rw [reflects.written]
      exact ⟨rfl, rfl, fun _ => .inl (List.cons_ne_nil _ _), fun _ => rfl⟩

section Samples

open Reference ShareLoop

/-- The founder's share, whose keyring nobody has needed yet. -/
def unkeyedDir : ShareDir := { (docsLoop founded).dir with keysBin := none }

def unkeyedLoop : ShareLoop sequentialGroup :=
  (docsLoop founded).withRing ⟨[docsEntropy.created], singleton_ne_nil _⟩

theorem spawn_unkeyedLoop :
    spawnShareTask cleartext docsEntropy.created unkeyedDir = .ok unkeyedLoop := by
  have read := founded_replayable.load_ops
  unfold spawnShareTask
  rw [show unkeyedDir.keysBin = none from rfl, loadOrCreateKeyring]
  dsimp only
  rw [show unkeyedDir.authLog = some founded.ops from rfl, read]
  rfl

/-- The guest is invited and revoked again, with a new epoch in between. -/
def guestVisit : List (Entropy × ShareRequest) :=
  [(docsEntropy, .invite (toHex guest.val) .sync .writer), (docsEntropy, .rotateKey),
    (docsEntropy, .revoke (toHex guest.val))]

theorem guestVisit_agrees : ∃ replies after final,
    (directCommands cleartext sequentialGroup (.ok [docsConfig]) (.ok founder) docsConfig.id).serve
        unkeyedDir guestVisit = some (replies, after) ∧
      (loopCommands cleartext docsConfig founder).serve unkeyedLoop guestVisit =
        some (replies, final) ∧
      after.keysBin = final.dir.keysBin := by
  have succeeds : ((directCommands cleartext sequentialGroup (.ok [docsConfig]) (.ok founder)
      docsConfig.id).serve unkeyedDir guestVisit).isSome = true := by decide +kernel
  obtain ⟨⟨replies, after⟩, direct⟩ := Option.isSome_iff_exists.mp succeeds
  have agreed := directCommands_agree cleartext cleartext_lawful sequentialGroup
    sequentialGroup_headsProcessed AuthState.sequentialGroup_rejectsProcessed [docsConfig]
    docsConfig rfl founder docsEntropy.created unkeyedDir unkeyedLoop
    spawn_unkeyedLoop guestVisit (fun _ _ first => by cases first; rfl)
  obtain ⟨final, handled⟩ := (agreed.1 replies).mp ⟨after, direct⟩
  obtain ⟨_, _, keys⟩ := agreed.2 replies after final direct handled
  exact ⟨replies, after, final, direct, handled, keys.mpr (.inl (List.cons_ne_nil _ _))⟩

/-- Without any command, only the daemon has given the share a key. -/
theorem unkeyedDir_keyed : ∃ final : ShareLoop sequentialGroup,
    spawnShareTask cleartext docsEntropy.created unkeyedDir = .ok unkeyedLoop ∧
    (directCommands cleartext sequentialGroup (.ok [docsConfig]) (.ok founder) docsConfig.id).serve
        unkeyedDir [] = some ([], unkeyedDir) ∧
      (loopCommands cleartext docsConfig founder).serve unkeyedLoop [] = some ([], final) ∧
      unkeyedDir.keysBin = none ∧ final.dir.keysBin ≠ none :=
  ⟨unkeyedLoop, spawn_unkeyedLoop, rfl, rfl, rfl, Option.some_ne_none _⟩

end Samples

end Peerdup.Daemon
