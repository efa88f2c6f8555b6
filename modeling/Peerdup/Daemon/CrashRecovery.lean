import Mathlib.Logic.Relation
import Peerdup.Daemon.CommandAgreement
import Peerdup.Daemon.CrashSaves

/-!
# A share after a crash

Every handler of a share loop saves its files one after the other. Wherever the process dies,
the share starts again from what the saves so far have left.
-/

set_option autoImplicit false

namespace Peerdup.Daemon

open Foundation Auth Crypto Rotation ShareFiles

/-- The keyring that a load creates where there is none. -/
def keyringSaves (created : Key) : Option Bytes → List DirSave
  | some _ => []
  | none => [.keysBin ⟨[created], singleton_ne_nil created⟩]

def rotateKeyringSaves (created fresh : Key) (keysBin : Option Bytes) : List DirSave :=
  keyringSaves created keysBin ++
    match loadOrCreateKeyring created keysBin with
    | (.error _, _) => []
    | (.ok ring, _) => [.keysBin (ring.push fresh)]

namespace ShareLoop

section Saves

variable {crdt : GroupCrdt} (crypto : Primitives) (config : ShareConfig)
  (identity : crypto.PrivateKey) (loop : ShareLoop crdt)

def inviteSaves (invitee : MemberId) (authRole : AuthRole) : List DirSave :=
  let groupId := groupIdFor crypto config.id
  if loop.authState.isEmpty then []
  else if loop.authState.isMember groupId invitee then []
  else
    match loop.authState.addMember crypto identity groupId invitee authRole with
    | (.error _, _) => []
    | (.ok _, authState) => [.authLog authState.ops]

def revokeSaves (entropy : Entropy) (target : MemberId) : List DirSave :=
  let groupId := groupIdFor crypto config.id
  if loop.authState.isEmpty then []
  else if !loop.authState.isMember groupId target then []
  else
    match loop.authState.removeMember crypto identity groupId target with
    | (.error _, _) => []
    | (.ok _, authState) =>
        .authLog authState.ops ::
          (rotateKeyringSaves entropy.created entropy.newKey loop.dir.keysBin ++
            match loadOrCreateKeyring entropy.created loop.dir.keysBin with
            | (.error _, _) => []
            | (.ok ring, _) =>
                let remaining := sortIds
                  (((authState.members groupId).map Prod.fst).filter fun member => member ≠ target)
                match buildSignedRotation crypto identity entropy.envelope (ring.currentEpoch + 1)
                    entropy.newKey remaining with
                | .error _ => []
                | .ok rotation => [.pending rotation])

def authOpsSaves (payload : List Bytes) : List DirSave :=
  let (applied, authState) := applyPayload crypto 0 loop.authState payload
  if applied > 0 then [.authLog authState.ops] else []

def installSaves (created : Key) (rotation : SignedRotation) : List DirSave :=
  match verifyAndDecrypt crypto rotation loop.authState (groupIdFor crypto config.id) identity with
  | .okForUs _ =>
      keyringSaves created loop.dir.keysBin ++
        match loop.tryInstallRotation crypto config identity created rotation with
        | (.ok .applied, next) => [.keysBin next.key]
        | _ => []
  | _ => []

def drainSaves (created : Key) : Nat → ShareLoop crdt → List DirSave
  | 0, _ => []
  | rounds + 1, loop =>
      match sortByEpoch loop.rotationBuffer with
      | [] => []
      | candidate :: rest =>
          (loop.withBuffer rest).installSaves crypto config identity created candidate ++
            match tryInstallRotation crypto config identity (loop.withBuffer rest) created candidate with
            | (.ok .buffered, _) => []
            | (_, loop) => drainSaves created rounds loop

def keyRotationSaves (created : Key) (rotation : SignedRotation) : List DirSave :=
  loop.installSaves crypto config identity created rotation ++
    match loop.tryInstallRotation crypto config identity created rotation with
    | (.ok .applied, loop) => drainSaves crypto config identity created loop.rotationBuffer.length loop
    | _ => []

/-- The files that the handling of an event saves, in order. -/
def saves : LoopEvent → List DirSave
  | .invite invitee authRole _ => loop.inviteSaves crypto config identity invitee authRole
  | .revoke entropy target => loop.revokeSaves crypto config identity entropy target
  | .rotateKey entropy => rotateKeyringSaves entropy.created entropy.newKey loop.dir.keysBin
  | .authOps payload => loop.authOpsSaves crypto payload
  | .keyRotation created rotation => loop.keyRotationSaves crypto config identity created rotation
  | .restart created => keyringSaves created loop.dir.keysBin

end Saves

variable {crdt : GroupCrdt} {crypto : Primitives} {config : ShareConfig}
  {identity : crypto.PrivateKey} {loop middle next : ShareLoop crdt}

theorem inviteSaves_of_added {invitee : MemberId} {authRole : AuthRole}
    (created : loop.authState.isEmpty = false)
    (absent : loop.authState.isMember (groupIdFor crypto config.id) invitee = false)
    (added : (loop.authState.addMember crypto identity (groupIdFor crypto config.id) invitee
      authRole).1.isOk = true) :
    ∃ ops, loop.inviteSaves crypto config identity invitee authRole = [.authLog ops] := by
  rw [inviteSaves, created, absent]
  revert added
  rcases loop.authState.addMember crypto identity (groupIdFor crypto config.id) invitee authRole with
    ⟨result, authState⟩
  cases result with
  | error failure => exact fun added => by cases added
  | ok op => exact fun _ => ⟨authState.ops, rfl⟩

/-- Save by save, a restart would load what some loop had in memory. -/
inductive Keeps (crypto : Primitives) : ShareLoop crdt → List DirSave → ShareLoop crdt → Prop where
  | done {first last} : Kept crypto last → last.dir = first.dir → Keeps crypto first [] last
  | save {first second last move moves} : Kept crypto second → second.dir = first.dir.save move →
      Keeps crypto second moves last → Keeps crypto first (move :: moves) last

theorem Keeps.kept {moves : List DirSave} (keeps : Keeps crypto loop moves next) :
    Kept crypto next := by
  induction keeps with
  | done kept _ => exact kept
  | save _ _ _ ih => exact ih

theorem Keeps.dir_eq {moves : List DirSave} (keeps : Keeps crypto loop moves next) :
    next.dir = moves.foldl ShareDir.save loop.dir := by
  induction keeps with
  | done _ same => exact same
  | save _ saved _ ih => rw [List.foldl_cons, ← saved, ih]

theorem Keeps.append {front back : List DirSave} (first : Keeps crypto loop front middle)
    (second : Keeps crypto middle back next) : Keeps crypto loop (front ++ back) next := by
  induction first with
  | done kept same =>
      cases second with
      | done after unchanged => exact .done after (unchanged.trans same)
      | save after saved rest => exact .save after (same ▸ saved) rest
  | save kept saved _ ih => exact .save kept saved (ih second)

/-- So it is after the first few saves. -/
theorem Keeps.cut {front moves : List DirSave} (keeps : Keeps crypto loop moves next)
    (kept : Kept crypto loop) (above : front <+: moves) :
    ∃ middle : ShareLoop crdt, Kept crypto middle ∧ middle.dir = front.foldl ShareDir.save loop.dir := by
  obtain ⟨rest, rfl⟩ := above
  induction front generalizing loop with
  | nil => exact ⟨loop, kept, rfl⟩
  | cons move front ih =>
      cases keeps with
      | save after saved keeps =>
          obtain ⟨middle, keptMiddle, same⟩ := ih after keeps
          exact ⟨middle, keptMiddle, by rw [same, saved, List.foldl_cons]⟩

theorem Kept.keyringSaves (kept : Kept crypto loop) (created : Key) :
    keyringSaves created loop.dir.keysBin = [] := by
  rw [kept.synced]
  rfl

theorem Kept.rotateKeyringSaves (kept : Kept crypto loop) (created fresh : Key) :
    rotateKeyringSaves created fresh loop.dir.keysBin = [.keysBin (loop.key.push fresh)] := by
  rw [Daemon.rotateKeyringSaves, kept.keyringSaves, kept.synced, loadOrCreateKeyring_fileBytes]
  rfl

theorem Kept.push (kept : Kept crypto loop) (newKey : Key) :
    Kept crypto (loop.withRing (loop.key.push newKey)) :=
  kept.withRing (by rw [KeyRing.currentEpoch_push]; exact Nat.le_succ _)

theorem keeps_invite (lawful : crypto.Lawful) (heads : crdt.HeadsProcessed crypto)
    (kept : Kept crypto loop) {invitee : MemberId} {authRole : AuthRole} {suggestedRole : ShareRole}
    (clean : loop.Unrejected crypto config identity (.invite invitee authRole suggestedRole)) :
    Keeps crypto loop (loop.inviteSaves crypto config identity invitee authRole)
      (loop.handleInvite crypto config identity invitee authRole suggestedRole).2 := by
  have after := kept.invite lawful heads clean
  revert after
  rw [handleInvite_eq, inviteSaves]
  by_cases empty : loop.authState.isEmpty = true
  · rw [if_pos empty, if_pos empty]
    exact fun after => .done after rfl
  rw [if_neg empty, if_neg empty]
  by_cases present : loop.authState.isMember (groupIdFor crypto config.id) invitee = true
  · rw [if_pos present, if_pos present]
    exact fun after => .done after rfl
  rw [if_neg present, if_neg present, AuthState.addMember, AuthState.author_eq]
  dsimp only [addition]
  cases crdt.process loop.authState.crdt (loop.authState.authored crypto identity
      (groupIdFor crypto config.id) (.add (.individual invitee) authRole.toAccess)) with
  | error cause => exact fun after => .done after rfl
  | ok next => exact fun after => .save after rfl (.done after rfl)

theorem keeps_revoke (lawful : crypto.Lawful) (heads : crdt.HeadsProcessed crypto)
    (kept : Kept crypto loop) {entropy : Entropy} {target : MemberId}
    (clean : loop.Unrejected crypto config identity (.revoke entropy target)) :
    Keeps crypto loop (loop.revokeSaves crypto config identity entropy target)
      (loop.handleRevoke crypto config identity entropy target).2 := by
  have after := kept.revoke lawful heads clean
  revert after
  rw [handleRevoke_eq, revokeSaves]
  by_cases empty : loop.authState.isEmpty = true
  · rw [if_pos empty, if_pos empty]
    exact fun after => .done after rfl
  rw [if_neg empty, if_neg empty]
  dsimp only
  by_cases absent : (!loop.authState.isMember (groupIdFor crypto config.id) target) = true
  · rw [if_pos absent, if_pos absent]
    exact fun after => .done after rfl
  rw [if_neg absent, if_neg absent, AuthState.removeMember, AuthState.author_eq,
    kept.rotateKeyringSaves]
  obtain ⟨_, new⟩ := clean (Bool.eq_false_iff.mpr empty) (by simpa using absent)
  dsimp only [removal] at new ⊢
  cases processed : crdt.process loop.authState.crdt (loop.authState.authored crypto identity
      (groupIdFor crypto config.id) (.remove (.individual target))) with
  | error cause => exact fun after => .done after rfl
  | ok next =>
      have removed := kept.afterOp lawful heads _ _ processed new
      have rotated := removed.push entropy.newKey
      dsimp only
      rw [kept.synced, loadOrCreateKeyring_fileBytes]
      dsimp only [remaining, afterOp, withAuth, ShareLoop.saveAuth]
      generalize buildSignedRotation crypto identity entropy.envelope (loop.key.currentEpoch + 1)
        entropy.newKey _ = outcome
      cases outcome with
      | error failure => exact fun after => .save removed rfl (.save rotated rfl (.done after rfl))
      | ok rotation =>
          exact fun after => .save removed rfl (.save rotated rfl (.save after rfl (.done after rfl)))

theorem keeps_rotateKey (kept : Kept crypto loop) (entropy : Entropy) :
    Keeps crypto loop (rotateKeyringSaves entropy.created entropy.newKey loop.dir.keysBin)
      (loop.handleRotateKey entropy).2 := by
  rw [kept.rotateKeyringSaves, handleRotateKey_synced kept.synced]
  exact .save (kept.push entropy.newKey) rfl (.done (kept.push entropy.newKey) rfl)

theorem keeps_authOps (kept : Kept crypto loop) {payload : List Bytes}
    (clean : PayloadUnspoiled crypto loop.authState payload) :
    Keeps crypto loop (loop.authOpsSaves crypto payload)
      (ShareNetwork.receiveAuthOps crypto loop payload) := by
  have after := kept.authOps clean
  revert after
  rw [authOpsSaves, ShareNetwork.receiveAuthOps, applyAuthOps]
  dsimp only
  by_cases some_ : (applyPayload crypto 0 loop.authState payload).1 > 0
  · rw [if_pos some_, if_pos some_]
    exact fun after => .save after rfl (.done after rfl)
  · rw [if_neg some_, if_neg some_]
    exact fun after => .done after rfl

variable (config identity) in
theorem keeps_install (kept : Kept crypto loop) (created : Key) (rotation : SignedRotation) :
    Keeps crypto loop (loop.installSaves crypto config identity created rotation)
      (loop.tryInstallRotation crypto config identity created rotation).2 := by
  rw [installSaves, kept.keyringSaves]
  rcases tryInstallRotation_cases crypto config identity kept.synced created rotation with
    ⟨newKey, opened, _, installed⟩ | ⟨result, other, installed⟩
  · rw [opened, installed]
    exact .save (kept.push newKey) rfl (.done (kept.push newKey) rfl)
  · rw [installed]
    have none_ : (match (result, loop) with
        | (.ok AppliedOrBuffered.applied, next) => [DirSave.keysBin next.key]
        | _ => []) = [] := by
      split
      · next same => exact absurd (congrArg Prod.fst same) other
      · rfl
    rw [none_]
    cases verifyAndDecrypt crypto rotation loop.authState (groupIdFor crypto config.id) identity <;>
      exact .done kept rfl

theorem keeps_drain (created : Key) (rounds : Nat) (kept : Kept crypto loop) :
    Keeps crypto loop (drainSaves crypto config identity created rounds loop)
      (loop.drainRounds crypto config identity created rounds) := by
  induction rounds generalizing loop with
  | zero => exact .done kept rfl
  | succ rounds ih =>
      rw [drainSaves, drainRounds]
      cases sorted : sortByEpoch loop.rotationBuffer with
      | nil => exact .done kept rfl
      | cons candidate rest =>
          have tried := keeps_install config identity (kept.withBuffer rest) created candidate
          have rebuffered : Keeps crypto loop [] (loop.withBuffer rest) :=
            .done (kept.withBuffer rest) rfl
          dsimp only
          refine (rebuffered.append tried).append ?_
          have after := tried.kept
          revert after
          rcases (loop.withBuffer rest).tryInstallRotation crypto config identity created candidate
            with ⟨result, next⟩
          intro after
          cases result with
          | error failure => exact ih after
          | ok outcome =>
              cases outcome with
              | applied => exact ih after
              | idempotent => exact ih after
              | stale => exact ih after
              | buffered => exact .done (after.withBuffer _) rfl

theorem keeps_keyRotation (kept : Kept crypto loop) (created : Key) (rotation : SignedRotation) :
    Keeps crypto loop (loop.keyRotationSaves crypto config identity created rotation)
      (loop.applyKeyRotation crypto config identity created rotation).2 := by
  have tried := keeps_install config identity kept created rotation
  rw [keyRotationSaves, applyKeyRotation]
  refine tried.append ?_
  have after := tried.kept
  revert after
  rcases loop.tryInstallRotation crypto config identity created rotation with ⟨result, next⟩
  intro after
  cases result with
  | error failure => exact .done after rfl
  | ok outcome =>
      cases outcome with
      | applied => exact keeps_drain created _ after
      | idempotent => exact .done after rfl
      | stale => exact .done after rfl
      | buffered => exact .done (after.withBuffer _) rfl

/-- Whatever the loop handles, its saves lead from its directory to that of the loop after. -/
theorem keeps_step (lawful : crypto.Lawful) (heads : crdt.HeadsProcessed crypto)
    (kept : Kept crypto loop) {event : LoopEvent}
    (clean : loop.Unrejected crypto config identity event)
    (stepped : (life crypto config identity).step loop event = some next) :
    Keeps crypto loop (loop.saves crypto config identity event) next := by
  cases event with
  | invite invitee authRole suggestedRole =>
      cases stepped
      exact keeps_invite lawful heads kept clean
  | revoke entropy target =>
      cases stepped
      exact keeps_revoke lawful heads kept clean
  | rotateKey entropy =>
      cases stepped
      exact keeps_rotateKey kept entropy
  | authOps payload =>
      cases stepped
      exact keeps_authOps kept clean
  | keyRotation created rotation =>
      cases stepped
      exact keeps_keyRotation kept created rotation
  | restart created =>
      have after := kept.step lawful heads clean stepped
      rw [saves, kept.keyringSaves]
      refine .done after ?_
      unfold life at stepped
      dsimp only at stepped
      split at stepped
      · cases stepped
      · next again spawned =>
          cases stepped
          have loaded := loadedFrom_of_spawn spawned
          have key := loaded.key
          rw [kept.synced, loadOrCreateKeyring_fileBytes] at key
          have file : some loop.key.fileBytes = some next.key.fileBytes := congrArg Prod.snd key
          rw [loaded.written, ← file, ← kept.synced]

variable (config identity) in
theorem Kept.steps (kept : Kept crypto loop) (event : LoopEvent) :
    ∃ next, (life crypto config identity).step loop event = some next := by
  cases event with
  | invite invitee authRole suggestedRole => exact ⟨_, rfl⟩
  | revoke entropy target => exact ⟨_, rfl⟩
  | rotateKey entropy => exact ⟨_, rfl⟩
  | authOps payload => exact ⟨_, rfl⟩
  | keyRotation created rotation => exact ⟨_, rfl⟩
  | restart created =>
      obtain ⟨next, spawned, _⟩ := kept.restart created
      exact ⟨next, by unfold life; dsimp only; rw [spawned]⟩

end ShareLoop

namespace ShareFiles

open FileTree RawPath

variable {crdt : GroupCrdt} {crypto : Primitives} {config : ShareConfig} {dataDir : RawPath}
  {id : String} {dir : ShareDir} {tree after : FileTree} {created : Key}
  {loop next : ShareLoop crdt}

/-- What the share's task starts with from the disk. -/
structure Restarts (crypto : Primitives) (dataDir : RawPath) (id : String) (created : Key)
    (tree : FileTree) (loop : ShareLoop crdt) : Prop where
  holds : OnDisk dataDir id loop.dir tree
  task : spawnTask tree crdt crypto (shareDir dataDir id) created =
    (.ok (loop.key, loop.authState), tree)
  pending : loadPending tree dataDir id = .ok loop.pendingRotations
  idle : loop.rotationBuffer = []

theorem OnDisk.loadAuth (holds : OnDisk dataDir id dir tree) {authState : AuthState crdt}
    (read : AuthState.load crypto dir.authLog = .ok authState) :
    ShareFiles.loadAuth crypto tree (shareDir dataDir id) = .ok authState := by
  have file := holds.authLog
  cases log : dir.authLog with
  | none =>
      rw [log] at file read
      have absent : tree.existsAt (shareDir dataDir id ++ [ascii "auth.log"]) = false := by
        rw [holds.present.existsAt_eq (by decide), file]
        rfl
      cases read
      rw [ShareFiles.loadAuth, absent]
      rfl
  | some ops =>
      rw [log] at file read
      obtain ⟨short, holdable⟩ := holds.log ops log
      obtain ⟨there, bytes⟩ := readAt_of_look (by decide) holds.present.walked file
      exact loadAuth_of_read there bytes short holdable read

theorem OnDisk.loadKeyring (holds : OnDisk dataDir id dir tree) {raw : Bytes}
    (file : dir.keysBin = some raw) {ring : KeyRing} (parsed : parseKeys raw = .ok ring) (created : Key) :
    ShareFiles.loadKeyring tree (shareDir dataDir id) created = (.ok ring, tree) := by
  have held := holds.keysBin
  rw [file] at held
  obtain ⟨there, bytes⟩ := readAt_of_look (by decide) holds.present.walked held
  rw [ShareFiles.loadKeyring]
  dsimp only
  rw [if_pos there, bytes]
  dsimp only
  rw [parsed]

theorem queue_of_spawn (spawned : spawnShareTask crypto created dir = .ok loop) :
    loop.pendingRotations = Rotation.loadPending dir.pendingRotations ∧ loop.rotationBuffer = [] := by
  unfold spawnShareTask at spawned
  split at spawned
  · cases spawned
  · split at spawned
    · cases spawned
    · cases spawned
      exact ⟨rfl, rfl⟩

/-- A loop that starts over a directory starts from the disk that holds it. -/
theorem OnDisk.restarts (holds : OnDisk dataDir id dir tree) {raw : Bytes}
    (file : dir.keysBin = some raw) (spawned : spawnShareTask crypto created dir = .ok loop) :
    Restarts crypto dataDir id created tree loop ∧ loop.dir = dir := by
  have loaded := loadedFrom_of_spawn spawned
  obtain ⟨queue, idle⟩ := queue_of_spawn spawned
  have key := loaded.key
  rw [file] at key
  have parsed : parseKeys raw = .ok loop.key := congrArg Prod.fst key
  have same : some raw = some loop.key.fileBytes := congrArg Prod.snd key
  have written : loop.dir = dir := by rw [loaded.written, ← same, ← file]
  refine ⟨⟨written ▸ holds, ?_, ?_, idle⟩, written⟩
  · rw [spawnTask, holds.loadKeyring file parsed]
    dsimp only
    rw [holds.loadAuth loaded.auth]
  · rw [queue]
    exact holds.pending.load holds.rotations holds.distinct

theorem encode_log_injective {left right : List SignedOp} (leftHolds : HoldableLog left)
    (rightHolds : HoldableLog right)
    (same : (Codec.seq signedOpCodec).encode left = (Codec.seq signedOpCodec).encode right) :
    left = right := by
  have decoded := decode_log leftHolds.1 leftHolds.2 []
  rw [same, decode_log rightHolds.1 rightHolds.2 []] at decoded
  exact (congrArg Prod.fst (Option.some.inj decoded)).symm

/-- The disk says which log and which keyring it holds. -/
theorem OnDisk.unique {other : ShareDir} (holds : OnDisk dataDir id dir tree)
    (again : OnDisk dataDir id other tree) : other.authLog = dir.authLog ∧ other.keysBin = dir.keysBin := by
  have logs := again.authLog.symm.trans holds.authLog
  have rings := again.keysBin.symm.trans holds.keysBin
  refine ⟨?_, Option.map_injective (fun _ _ => Node.file.inj) rings⟩
  have left := again.log
  have right := holds.log
  revert logs left right
  cases other.authLog with
  | none =>
      cases dir.authLog with
      | none => exact fun _ _ _ => rfl
      | some ops => exact fun logs _ _ => by cases logs
  | some ops =>
      cases dir.authLog with
      | none => exact fun logs _ _ => by cases logs
      | some held =>
          intro logs left right
          exact congrArg some (encode_log_injective (left _ rfl) (right _ rfl)
            (Node.file.inj (Option.some.inj logs)))

theorem Restarts.agree (first : Restarts crypto dataDir id created tree loop)
    (second : Restarts crypto dataDir id created tree next) :
    next.authState = loop.authState ∧ next.key = loop.key ∧
      next.pendingRotations = loop.pendingRotations := by
  have tasks := second.task.symm.trans first.task
  have pending := second.pending.symm.trans first.pending
  obtain ⟨keys, states⟩ := Prod.mk.inj (Except.ok.inj (congrArg Prod.fst tasks))
  exact ⟨states, keys, Except.ok.inj pending⟩

/-- What starts from the disk mirrors it, if something that started there does. -/
theorem Restarts.kept (first : Restarts crypto dataDir id created tree loop)
    (second : Restarts crypto dataDir id created tree next) (kept : loop.Kept crypto) :
    next.Kept crypto := by
  obtain ⟨states, keys, pending⟩ := first.agree second
  obtain ⟨logs, rings⟩ := first.holds.unique second.holds
  have loaded := second.holds.pending.load second.holds.rotations second.holds.distinct
  have queue : Rotation.loadPending next.dir.pendingRotations = next.pendingRotations :=
    Except.ok.inj (loaded.symm.trans second.pending)
  refine ⟨?_, ?_, queue, ?_⟩
  · rw [logs, states]
    exact kept.log
  · rw [ShareLoop.Synced, rings, keys]
    exact kept.synced
  · intro rotation member
    rw [keys]
    refine kept.queued rotation ?_
    have listed : rotation ∈ Rotation.loadPending next.dir.pendingRotations :=
      ShareLoop.mem_sortByEpoch.mpr member
    rw [queue, pending, ← kept.pending] at listed
    exact ShareLoop.mem_sortByEpoch.mp listed

end ShareFiles

section Life

variable {crdt : GroupCrdt} (crypto : Primitives) (config : ShareConfig)
  (identity : crypto.PrivateKey) (dataDir : RawPath)

/-- What the handling of an event calls on the disk. -/
def eventCalls (loop : ShareLoop crdt) (event : LoopEvent) : List (Call FileTree SyncFailure) :=
  (loop.saves crypto config identity event).flatMap (·.calls dataDir config.id)

/-- An event that the CRDT has nothing against, of values within their types. -/
structure Admissible (loop : ShareLoop crdt) (event : LoopEvent) : Prop where
  unrejected : loop.Unrejected crypto config identity event
  holdable : ∀ save ∈ loop.saves crypto config identity event, save.Holdable

/-- A share's loop and disk: an event is handled, or the process dies on the way and the share
starts again. -/
inductive CrashStep : ShareLoop crdt × FileTree → ShareLoop crdt × FileTree → Prop where
  | handled {loop next tree after event} : Admissible crypto config identity loop event →
      (ShareLoop.life crypto config identity).step loop event = some next →
      Call.runAll (eventCalls crypto config identity dataDir loop event) tree = (.ok (), after) →
      CrashStep (loop, tree) (next, after)
  | crashed {loop next tree after event created} : Admissible crypto config identity loop event →
      Call.Crashed (eventCalls crypto config identity dataDir loop event) tree after →
      Restarts crypto dataDir config.id created after next → CrashStep (loop, tree) (next, after)

variable {crypto config identity dataDir}

/-- The memory mirrors the disk. -/
structure Durable (crypto : Primitives) (config : ShareConfig) (dataDir : RawPath)
    (state : ShareLoop crdt × FileTree) : Prop where
  kept : state.1.Kept crypto
  holds : OnDisk dataDir config.id state.1.dir state.2

/-- Where a crash comes, a restart finds the first few saves and no others. -/
theorem Durable.recovers {state : ShareLoop crdt × FileTree} {event : LoopEvent} {after : FileTree}
    (durable : Durable crypto config dataDir state) (lawful : crypto.Lawful)
    (heads : crdt.HeadsProcessed crypto)
    (admissible : Admissible crypto config identity state.1 event)
    (crashed : Call.Crashed (eventCalls crypto config identity dataDir state.1 event) state.2 after)
    (created : Key) :
    ∃ (front : List DirSave) (next : ShareLoop crdt),
      front <+: state.1.saves crypto config identity event ∧
      next.dir = front.foldl ShareDir.save state.1.dir ∧
      Restarts crypto dataDir config.id created after next ∧ next.Kept crypto := by
  obtain ⟨front, above, holds⟩ := crashed_saves durable.holds admissible.holdable crashed
  obtain ⟨finished, stepped⟩ := durable.kept.steps config identity event
  have keeps := ShareLoop.keeps_step lawful heads durable.kept admissible.unrejected stepped
  obtain ⟨middle, kept, dir⟩ := keeps.cut durable.kept above
  obtain ⟨next, spawned, restarted⟩ := kept.restart created
  rw [← dir] at holds
  obtain ⟨restarts, same⟩ := holds.restarts kept.synced spawned
  exact ⟨front, next, above, same.trans dir, restarts, restarted⟩

theorem Durable.step {state next : ShareLoop crdt × FileTree}
    (durable : Durable crypto config dataDir state) (lawful : crypto.Lawful)
    (heads : crdt.HeadsProcessed crypto)
    (stepped : CrashStep crypto config identity dataDir state next) :
    Durable crypto config dataDir next := by
  cases stepped with
  | handled admissible stepped ran =>
      have keeps := ShareLoop.keeps_step lawful heads durable.kept admissible.unrejected stepped
      refine ⟨keeps.kept, ?_⟩
      rw [keeps.dir_eq]
      exact ran_saves durable.holds admissible.holdable ran
  | crashed admissible crashed restarts =>
      obtain ⟨_, _, _, _, recovered, kept⟩ := durable.recovers lawful heads admissible crashed _
      exact ⟨recovered.kept restarts kept, restarts.holds⟩

theorem Durable.run {state final : ShareLoop crdt × FileTree}
    (durable : Durable crypto config dataDir state) (lawful : crypto.Lawful)
    (heads : crdt.HeadsProcessed crypto)
    (ran : Relation.ReflTransGen (CrashStep crypto config identity dataDir) state final) :
    Durable crypto config dataDir final := by
  induction ran with
  | refl => exact durable
  | tail _ stepped ih => exact ih.step lawful heads stepped

/-- In every run of handled events and crashes, the memory mirrors the disk, and wherever the
process dies next, the share starts again from the files saved so far. -/
theorem share_survivesCrashes (crypto : Primitives) (lawful : crypto.Lawful) (crdt : GroupCrdt)
    (heads : crdt.HeadsProcessed crypto) (config : ShareConfig) (identity : crypto.PrivateKey)
    (dataDir : RawPath) (created : Key) (dir : ShareDir) (start final : ShareLoop crdt)
    (tree disk : FileTree) (spawned : spawnShareTask crypto created dir = .ok start)
    (queued : ∀ rotation ∈ dir.pendingRotations, rotation.epoch ≤ start.key.currentEpoch)
    (holds : OnDisk dataDir config.id start.dir tree)
    (ran : Relation.ReflTransGen (CrashStep crypto config identity dataDir) (start, tree) (final, disk)) :
    final.Mirrored crypto ∧ OnDisk dataDir config.id final.dir disk ∧
      ∀ event after created, Admissible crypto config identity final event →
        Call.Crashed (eventCalls crypto config identity dataDir final event) disk after →
        ∃ (front : List DirSave) (next : ShareLoop crdt),
          front <+: final.saves crypto config identity event ∧
          next.dir = front.foldl ShareDir.save final.dir ∧
          Restarts crypto dataDir config.id created after next ∧ next.Mirrored crypto := by
  have begun : Durable crypto config dataDir (start, tree) :=
    ⟨ShareLoop.kept_of_spawn spawned queued, holds⟩
  have durable := begun.run lawful heads ran
  refine ⟨durable.kept.mirrored, durable.holds, ?_⟩
  intro event after created admissible crashed
  obtain ⟨front, next, above, dir, restarts, kept⟩ :=
    durable.recovers lawful heads admissible crashed created
  exact ⟨front, next, above, dir, restarts, kept.mirrored⟩

end Life

section Sample

open Reference FileTree RawPath ShareLoop

/-- The founder's data directory with one share in it. -/
def docsDisk : FileTree :=
  .ofFiles [([ascii "data", ascii "shares", ascii "docs", ascii "auth.log"],
      (Codec.seq signedOpCodec).encode founded.ops),
    ([ascii "data", ascii "shares", ascii "docs", ascii "keys.bin"], (docsLoop founded).key.fileBytes)]

theorem docsDisk_holds : OnDisk sampleDataDir "docs" (docsLoop founded).dir docsDisk := by
  have present : Present docsDisk (shareDir sampleDataDir "docs") :=
    ⟨by decide +kernel, by decide +kernel⟩
  have none_ : NoPending docsDisk sampleDataDir "docs" := by
    have absent : docsDisk.look (resolve [] (pendingDir sampleDataDir "docs")) = none := by
      decide +kernel
    refine ⟨.inl present, fun content file => ?_, fun name _ => look_below_none absent⟩
    rw [absent] at file
    cases file
  refine ⟨?_, nofun, present, by decide +kernel, by decide +kernel, none_.files, List.nodup_nil⟩
  intro ops same
  cases same
  decide +kernel

theorem guestInvitation_admissible :
    Admissible cleartext ⟨"docs", "team docs"⟩ founder (docsLoop founded)
      (.invite guest.val .writer .sync) :=
  ⟨inviteAndRestart_unrejected.1, by decide +kernel⟩

theorem guestInvitation_saves : ∃ ops,
    (docsLoop founded).inviteSaves cleartext docsConfig founder guest.val .writer = [.authLog ops] :=
  inviteSaves_of_added (by decide +kernel) (by decide +kernel) (by decide +kernel)

/-- The process dies before a byte of the log that invites the guest is written. -/
theorem tornInvitation_survived : ∃ (after : FileTree) (final : ShareLoop sequentialGroup),
    Call.Crashed (eventCalls cleartext docsConfig founder sampleDataDir (docsLoop founded)
      (.invite guest.val .writer .sync)) docsDisk after ∧
    Restarts cleartext sampleDataDir "docs" (.ofBytes 32 [9]) after final ∧
    final.Mirrored cleartext := by
  have present := docsDisk_holds.present
  have survives := share_survivesCrashes cleartext cleartext_lawful sequentialGroup
    sequentialGroup_headsProcessed docsConfig founder sampleDataDir (.ofBytes 32 [9])
    (docsLoop founded).dir (docsLoop founded) (docsLoop founded) docsDisk docsDisk
    (spawn_docsLoop _) (fun _ member => absurd member List.not_mem_nil) docsDisk_holds .refl
  have free : docsDisk.look (resolve [] (shareDir sampleDataDir "docs") ++ [ascii "auth.log.tmp"]) ≠
      some .directory := by decide +kernel
  obtain ⟨after, wrote, _⟩ := present.writes (by decide) free []
  have crashed : Call.Crashed (eventCalls cleartext docsConfig founder sampleDataDir
      (docsLoop founded) (.invite guest.val .writer .sync)) docsDisk after := by
    obtain ⟨ops, saves⟩ := guestInvitation_saves
    rw [eventCalls, ShareLoop.saves, saves]
    have created : (createDirs ((shareDir sampleDataDir "docs").rdropWhile isDot)).run docsDisk =
        (.ok (), docsDisk) := by
      dsimp only [createDirs]
      rw [present.creates (List.rdropWhile_prefix isDot _)]
    exact .later created (.inside ⟨[], List.nil_prefix, wrote⟩)
  obtain ⟨_, final, _, _, restarts, mirrored⟩ :=
    survives.2.2 _ after (.ofBytes 32 [9]) guestInvitation_admissible crashed
  exact ⟨after, final, crashed, restarts, mirrored⟩

end Sample

end Peerdup.Daemon
