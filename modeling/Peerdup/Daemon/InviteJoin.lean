import Peerdup.Daemon.AuthFile
import Peerdup.Daemon.RevokeProperties

/-!
# From an invitation to the share it becomes

The ticket carries the inviter's log and keyring, and the join that decodes it replays the
one and installs the other.
-/

set_option autoImplicit false

namespace Peerdup.Auth

/-- An accepted addition makes the member appear with its access. -/
def GroupCrdt.AddAppears (crdt : GroupCrdt) : Prop :=
  ∀ {state next : crdt.State} {op : SignedOp} {groupId member access},
    op.deps = crdt.heads state → op.payload = ⟨groupId, .add (.individual member) access⟩ →
    member ∉ (crdt.members state groupId).map Prod.fst → crdt.process state op = .ok next →
    (member, access) ∈ crdt.members next groupId

end Peerdup.Auth

namespace Peerdup.Daemon.ShareFiles

open Foundation Auth Crypto FileTree RawPath

variable {formats : FileFormats} {tree : FileTree} {dataDir joinPath : RawPath} {crdt : GroupCrdt}
  {crypto : Primitives} {config : ShareConfig} {ticket : Ticket} {now : Timestamp}

/-- The data directory does not know the share, and the shares it knows can be read. -/
structure Unknown (formats : FileFormats) (tree : FileTree) (dataDir : RawPath)
    (running : List String) (id : String) : Prop where
  configs : ∃ configs, loadAll formats tree dataDir = .ok configs ∧
    configs.any (·.id = id) = false
  idle : id ∉ running
  keyless : tree.look (resolve [] (shareDir dataDir id) ++ [ascii "keys.bin"]) = none

/-- The directories and files of a join can be created, each on top of the earlier ones. -/
def FilesSucceed (formats : FileFormats) (tree : FileTree) (dataDir joinPath : RawPath)
    (ticket : Ticket) (now : Timestamp) : Prop :=
  let dir := shareDir dataDir ticket.shareId
  ∃ made saved keyed after, tree.createDirAllAt joinPath = (.ok (), made) ∧
    StoredConfig.save formats made dataDir
      ⟨⟨ticket.shareId, ticket.topic⟩, joinPath, ticket.role, now⟩ = (.ok (), saved) ∧
    saveFile saved dir (ascii "keys.bin.tmp") (ascii "keys.bin")
      (ticket.keys.flatMap Octets.bytes) = (.ok (), keyed) ∧
    saveAuth keyed dir ticket.authLog = (.ok (), after)

/-- The share's files hold what the ticket brought. -/
structure TicketOnDisk (formats : FileFormats) (dataDir joinPath : RawPath) (ticket : Ticket)
    (now : Timestamp) (after : FileTree) : Prop where
  walked : after.walk [] (shareDir dataDir ticket.shareId) =
    some (resolve [] (shareDir dataDir ticket.shareId))
  config : ∃ json,
    formats.configJson ⟨⟨ticket.shareId, ticket.topic⟩, joinPath, ticket.role, now⟩ = .ok json ∧
      after.look (resolve [] (shareDir dataDir ticket.shareId) ++ [ascii "share.json"]) =
        some (.file json)
  keyring : after.look (resolve [] (shareDir dataDir ticket.shareId) ++ [ascii "keys.bin"]) =
    some (.file (ticket.keys.flatMap Octets.bytes))
  authLog : after.look (resolve [] (shareDir dataDir ticket.shareId) ++ [ascii "auth.log"]) =
    some (.file ((Codec.seq signedOpCodec).encode ticket.authLog))

theorem save_files {stored : StoredConfig} {after : FileTree}
    (saved : stored.save formats tree dataDir = (.ok (), after)) :
    (∃ json, formats.configJson stored = .ok json ∧
        after.look (resolve [] (shareDir dataDir stored.id) ++ [ascii "share.json"]) =
          some (.file json)) ∧
      ∀ path, path ≠ resolve [] (shareDir dataDir stored.id) ++ [ascii "share.json"] →
        after.look path = tree.look path ∨
          tree.look path = none ∧ after.look path = some .directory := by
  unfold StoredConfig.save at saved
  have created := createDirAllAt_creates tree (shareDir dataDir stored.id)
  dsimp only at saved
  split at saved
  · cases saved
  next made outcome =>
    rw [outcome] at created
    split at saved
    · cases saved
    next json written =>
      split at saved
      · cases saved
      next wrote =>
        cases saved
        have look := look_write (writeAt_ok wrote).2.2
        refine ⟨⟨json, written, by rw [look, if_pos rfl]⟩, fun path other => ?_⟩
        rw [look, if_neg other]
        exact (created path).imp_right fun ⟨absent, directory, _⟩ => ⟨absent, directory⟩

/-- Nothing on the way creates a keyring: a directory in its place would stay. -/
theorem keyless_of_saved {stored : StoredConfig} {made saved keyed : FileTree} {content : Bytes}
    (keyless : tree.look (resolve [] (shareDir dataDir stored.id) ++ [ascii "keys.bin"]) = none)
    (creates : CreatesDirs tree made [] joinPath)
    (configured : stored.save formats made dataDir = (.ok (), saved))
    (installed : saveFile saved (shareDir dataDir stored.id) (ascii "keys.bin.tmp")
      (ascii "keys.bin") content = (.ok (), keyed)) :
    saved.existsAt (shareDir dataDir stored.id ++ [ascii "keys.bin"]) = false := by
  have written : (saveFile saved (shareDir dataDir stored.id) (ascii "keys.bin.tmp")
      (ascii "keys.bin") content).2.look
        (resolve [] (shareDir dataDir stored.id) ++ [ascii "keys.bin"]) = some (.file content) :=
    (saveFile_spec (by decide) saved (shareDir dataDir stored.id) content).written (by rw [installed])
  rw [installed] at written
  have undirected : saved.look (resolve [] (shareDir dataDir stored.id) ++ [ascii "keys.bin"]) ≠
      some .directory := by
    intro directory
    cases written.symm.trans ((directories_of_saveFile installed).2 _ directory)
  have apart : resolve [] (shareDir dataDir stored.id) ++ [ascii "keys.bin"] ≠
      resolve [] (shareDir dataDir stored.id) ++ [ascii "share.json"] := names_apart (by decide)
  have absent : saved.look (resolve [] (shareDir dataDir stored.id) ++ [ascii "keys.bin"]) = none := by
    rcases (save_files configured).2 _ apart with same | ⟨_, directory⟩
    · rcases creates (resolve [] (shareDir dataDir stored.id) ++ [ascii "keys.bin"]) with
        unmoved | ⟨_, directory, _⟩
      · rw [same, unmoved, keyless]
      · exact absurd (same.trans directory) undirected
    · exact absurd directory undirected
  rw [existsAt]
  split
  · rfl
  · next path reached =>
      have there := walk_resolve reached
      rw [resolve_append, resolve_of_legal _ (by decide)] at there
      rw [← there, absent]
      rfl

theorem joinOnDisk_of_files {identity : crypto.PrivateKey} {authState : AuthState crdt}
    (keyless : tree.look (resolve [] (shareDir dataDir ticket.shareId) ++ [ascii "keys.bin"]) = none)
    (keys : ticket.keys ≠ []) (files : FilesSucceed formats tree dataDir joinPath ticket now)
    (replayed : (AuthState.empty : AuthState crdt).replay crypto
      ("applying auth op while joining " ++ ticket.shareId) ticket.authLog = .ok authState)
    (whole : authState.ops = ticket.authLog)
    (member : authState.isMember (groupIdFor crypto ticket.shareId) (crypto.publicKey identity) =
      true) :
    ∃ after, joinOnDisk formats tree dataDir crypto identity ticket joinPath now =
        (.ok authState, after) ∧ TicketOnDisk formats dataDir joinPath ticket now after := by
  obtain ⟨made, saved, keyed, after, creating, configured, installed, logged⟩ := files
  have creates := createDirAllAt_creates tree joinPath
  rw [creating] at creates
  have free := keyless_of_saved keyless creates configured installed
  refine ⟨after, ?_, ?_⟩
  · unfold joinOnDisk
    dsimp only
    rw [creating]
    dsimp only
    rw [configured]
    dsimp only
    rw [installKeyring, if_neg (by rw [free]; decide), dif_neg keys, saveKeyring, KeyRing.fileBytes,
      installed]
    dsimp only
    rw [replayed]
    dsimp only
    rw [if_neg (by rw [member]; decide), whole, logged]
  · have keyrings : SavesFile saved (shareDir dataDir ticket.shareId) (ascii "keys.bin.tmp")
        (ascii "keys.bin") _ _ _ := saveFile_spec (by decide) saved _
          (ticket.keys.flatMap Octets.bytes)
    have logs : SavesFile keyed (shareDir dataDir ticket.shareId) (ascii "auth.log.tmp")
        (ascii "auth.log") _ _ _ := saveFile_spec (by decide) keyed _
          ((Codec.seq signedOpCodec).encode ticket.authLog)
    rw [← saveAuth, logged] at logs
    rw [installed] at keyrings
    have kept : ∀ name content, name ≠ ascii "auth.log.tmp" → name ≠ ascii "auth.log" →
        keyed.look (resolve [] (shareDir dataDir ticket.shareId) ++ [name]) = some (.file content) →
        after.look (resolve [] (shareDir dataDir ticket.shareId) ++ [name]) = some (.file content) := by
      intro name content notTmp notLog found
      exact logs.keeps _ content (names_apart notTmp) (names_apart notLog) found
    refine ⟨(directories_of_saveFile logged).1, ?_, ?_, logs.written rfl⟩
    · obtain ⟨json, written, stored⟩ := (save_files configured).1
      exact ⟨json, written, kept _ _ (by decide) (by decide)
        (keyrings.keeps _ _ (names_apart (by decide)) (names_apart (by decide)) stored)⟩
    · exact kept _ _ (by decide) (by decide) (keyrings.written rfl)

theorem handleInvite_ok {loop after : ShareLoop crdt} {inviter : crypto.PrivateKey}
    {invitee : MemberId} {authRole : AuthRole} {suggestedRole : ShareRole}
    (invited : loop.handleInvite crypto config inviter invitee authRole suggestedRole =
      (.ok ticket, after)) :
    let op := loop.addition crypto config inviter invitee authRole
    ∃ next, crdt.process loop.authState.crdt op = .ok next ∧
      loop.authState.isMember (groupIdFor crypto config.id) invitee = false ∧
      ticket = ⟨ticketVersion, config.id, config.topic, loop.key.keys,
        loop.authState.ops ++ [op], invitee, suggestedRole⟩ ∧
      after = loop.afterOp next op := by
  rw [ShareLoop.handleInvite_eq] at invited
  dsimp only at invited ⊢
  split at invited
  · cases invited
  split at invited
  · cases invited
  next absent =>
    split at invited
    · cases invited
    next next accepted =>
      cases invited
      exact ⟨next, accepted, Bool.eq_false_iff.mpr absent, rfl, rfl⟩

/-- A replay of the whole log rebuilds the state, whatever the context of its errors. -/
theorem replay_whole {state : AuthState crdt} (replayable : state.Replayable crypto)
    (drained : state.pending = []) (context : String) :
    (AuthState.empty : AuthState crdt).replay crypto context state.ops = .ok state := by
  obtain ⟨crdtState, ops, pending⟩ := state
  cases drained
  exact replayable.replay_back context (List.nil_append ops).symm rfl

/-- The inviter's state after an invitation, read back from its log. -/
structure Invited (crypto : Primitives) (config : ShareConfig) (invitee : MemberId)
    (authRole : AuthRole) (state : AuthState crdt) : Prop where
  replayable : state.Replayable crypto
  drained : state.pending = []
  listed : (invitee, authRole) ∈ state.members (groupIdFor crypto config.id)

theorem invited_of_handleInvite (lawful : crypto.Lawful) (heads : crdt.HeadsProcessed crypto)
    (rejects : crdt.RejectsProcessed crypto) (appears : crdt.AddAppears)
    {loop after : ShareLoop crdt} (logged : loop.authState.Logged crypto)
    {inviter : crypto.PrivateKey} {invitee : MemberId} {authRole : AuthRole}
    {suggestedRole : ShareRole}
    (invited : loop.handleInvite crypto config inviter invitee authRole suggestedRole =
      (.ok ticket, after)) :
    Invited crypto config invitee authRole
      (⟨after.authState.crdt, after.authState.ops, []⟩ : AuthState crdt) := by
  obtain ⟨next, accepted, absent, _, same⟩ := handleInvite_ok invited
  have added : loop.authState.author crypto inviter (groupIdFor crypto config.id)
      (.add (.individual invitee) authRole.toAccess) =
        (.ok (loop.addition crypto config inviter invitee authRole), after.authState) := by
    change crdt.process loop.authState.crdt (loop.authState.authored crypto inviter
      (groupIdFor crypto config.id) (.add (.individual invitee) authRole.toAccess)) = .ok next at accepted
    rw [AuthState.author_eq, accepted, same]
    rfl
  refine ⟨(logged.author lawful heads added).replayable_ops rejects, rfl, ?_⟩
  have outside : invitee ∉ (crdt.members loop.authState.crdt (groupIdFor crypto config.id)).map
      Prod.fst := by
    rw [← AuthState.map_fst_members, ← AuthState.isMember_iff, absent]
    exact Bool.false_ne_true
  have listed := appears rfl rfl outside accepted
  rw [same]
  refine List.mem_map.mpr ⟨(invitee, authRole.toAccess), listed, ?_⟩
  dsimp only
  rw [AuthRole.fromAccess_toAccess]

/-- Whoever holds the invited key joins with the ticket, and gets the inviter's keyring, log
and members, with itself among them. -/
theorem inviteJoin_reproduces (crypto : Primitives) (lawful : crypto.Lawful) (crdt : GroupCrdt)
    (heads : crdt.HeadsProcessed crypto) (rejects : crdt.RejectsProcessed crypto)
    (appears : crdt.AddAppears) (calls : List (AuthCall crypto)) (loop after : ShareLoop crdt)
    (reached : (AuthState.caller crypto).run .empty calls = some loop.authState)
    (config : ShareConfig) (inviter guest : crypto.PrivateKey) (authRole : AuthRole)
    (suggestedRole : ShareRole) (ticket : Ticket)
    (invited : loop.handleInvite crypto config inviter (crypto.publicKey guest) authRole
      suggestedRole = (.ok ticket, after))
    (holdable : ticket.Holdable) (formats : FileFormats) (tree : FileTree)
    (dataDir joinPath : RawPath) (created : Key) (now : Timestamp) (running : List String)
    (cwd : Except SyncFailure RawPath) (path : Bytes)
    (unknown : Unknown formats tree dataDir running config.id)
    (absolute : absolutePath cwd path = .ok joinPath)
    (files : FilesSucceed formats tree dataDir joinPath ticket now) :
    ∃ joined, shareJoin formats tree dataDir crypto guest crdt created now running cwd
        (Ticket.decode ticket.encode) path =
          (.ok config.id, running ++ [config.id], joined) ∧
      joined.look (resolve [] (shareDir dataDir config.id) ++ [ascii "keys.bin"]) =
        some (.file loop.key.fileBytes) ∧
      joined.look (resolve [] (shareDir dataDir config.id) ++ [ascii "auth.log"]) =
        some (.file ((Codec.seq signedOpCodec).encode after.authState.ops)) ∧
      (∃ json, formats.configJson ⟨config, joinPath, suggestedRole, now⟩ = .ok json ∧
        joined.look (resolve [] (shareDir dataDir config.id) ++ [ascii "share.json"]) =
          some (.file json)) ∧
      ∃ state : AuthState crdt, loadAuth crypto joined (shareDir dataDir config.id) = .ok state ∧
        state.ops = after.authState.ops ∧ state.pending = [] ∧
        (∀ groupId, state.members groupId = after.authState.members groupId) ∧
        (crypto.publicKey guest, authRole) ∈ state.members (groupIdFor crypto config.id) := by
  have logged := AuthState.logged_of_run lawful heads reached
  have whole := invited_of_handleInvite lawful heads rejects appears logged invited
  obtain ⟨next, _, _, same, afterwards⟩ := handleInvite_ok invited
  have ops : ticket.authLog = after.authState.ops := by
    rw [afterwards, same]
    rfl
  have id : ticket.shareId = config.id := by rw [same]
  have keyring : ticket.keys.flatMap Octets.bytes = loop.key.fileBytes := by
    rw [same]
    rfl
  have keys : ticket.keys ≠ [] := by
    rw [same]
    exact loop.key.keys_ne_nil
  have nonempty : ticket.authLog ≠ [] := by
    rw [same]
    exact List.append_ne_nil_of_right_ne_nil _ (List.cons_ne_nil _ _)
  have member : (⟨after.authState.crdt, after.authState.ops, []⟩ : AuthState crdt).isMember
      (groupIdFor crypto ticket.shareId) (crypto.publicKey guest) = true := by
    rw [id, AuthState.isMember_iff]
    exact List.mem_map.mpr ⟨_, whole.listed, rfl⟩
  have replayed : (AuthState.empty : AuthState crdt).replay crypto
      ("applying auth op while joining " ++ ticket.shareId) ticket.authLog =
        .ok ⟨after.authState.crdt, after.authState.ops, []⟩ := by
    rw [ops]
    exact replay_whole whole.replayable rfl _
  have loads := whole.replayable.load_ops
  obtain ⟨joined, onDisk, holds⟩ :=
    joinOnDisk_of_files (id ▸ unknown.keyless) keys files replayed ops.symm member
  refine ⟨joined, ?_, ?_, ?_, ?_, ⟨after.authState.crdt, after.authState.ops, []⟩, ?_, rfl, rfl,
    fun _ => rfl, whole.listed⟩
  · obtain ⟨configs, loaded, others⟩ := unknown.configs
    have issued : ticket.inviteePubkey = crypto.publicKey guest := by rw [same]
    rw [Ticket.decode_encode holdable (by rw [same]) keys nonempty]
    unfold shareJoin
    dsimp only
    rw [absolute]
    dsimp only
    rw [if_neg (not_not.mpr issued), if_neg (id ▸ unknown.idle), loaded]
    dsimp only
    rw [id, others, if_neg Bool.false_ne_true, onDisk]
    dsimp only
    rw [spawnShareTask, keyring, loadOrCreateKeyring_fileBytes]
    dsimp only
    rw [loads]
  · rw [← id, ← keyring]
    exact holds.keyring
  · rw [← id, ← ops]
    exact holds.authLog
  · rw [← id]
    have stored := holds.config
    rw [show (⟨ticket.shareId, ticket.topic⟩ : ShareConfig) = config by rw [same],
      show ticket.role = suggestedRole by rw [same]] at stored
    exact stored
  · obtain ⟨there, read⟩ := readAt_of_look (by decide) holds.walked holds.authLog
    rw [ops] at read
    rw [← id]
    exact loadAuth_of_read there read (ops ▸ holdable.authLog) (ops ▸ holdable.ops) loads

section Sample

open Reference

theorem sequentialGroup_addAppears : sequentialGroup.AddAppears := by
  intro state next op groupId member access _ payload _ accepted
  have acted := @Sequential.process_ok cleartext state next op accepted
  rw [payload] at acted
  simp only [Sequential.act] at acted
  split at acted
  · cases acted
  split at acted
  · cases acted
  have added : Sequential.access state ++ [(groupId, member, access)] = Sequential.access next :=
    Except.ok.inj acted
  change (member, access) ∈ Sequential.inGroup next groupId
  unfold Sequential.inGroup
  rw [← added, List.filterMap_append]
  refine List.mem_append_right _ (List.mem_filterMap.mpr ⟨_, List.mem_singleton_self _, ?_⟩)
  exact if_pos rfl

theorem founded_reached :
    (AuthState.caller cleartext).run .empty [.createGroup founder docs] = some founded := by
  have accepted : ((AuthState.empty : AuthState sequentialGroup).createGroup cleartext founder
      docs).1.isOk = true := by decide +kernel
  have whole : founded = ((AuthState.empty : AuthState sequentialGroup).createGroup cleartext
      founder docs).2 := rfl
  rw [whole, Machine.run_cons_iff]
  refine ⟨_, ?_, rfl⟩
  change (match AuthState.call.failing ((AuthState.empty : AuthState sequentialGroup).createGroup
    cleartext founder docs) with
    | (some _, _) => none
    | (none, next) => some next) = _
  revert accepted
  rcases (AuthState.empty : AuthState sequentialGroup).createGroup cleartext founder docs with
    ⟨result, next⟩
  cases result with
  | error failure => exact fun contra => by cases contra
  | ok op => exact fun _ => rfl

/-- What the founder's loop hands to the guest. -/
def guestTicket : Ticket :=
  ⟨ticketVersion, "docs", "team docs", (ShareLoop.docsLoop founded).key.keys,
    founded.ops ++ [(ShareLoop.docsLoop founded).addition cleartext ShareLoop.docsConfig founder
      guest.val .writer], guest.val, .sync⟩

theorem guestTicket_reproduced : ∃ joined,
    shareJoin sampleFormats FileTree.empty sampleDataDir cleartext guest sequentialGroup
        (.ofBytes 32 []) 0 [] (.ok []) (Ticket.decode guestTicket.encode) (ascii "/home/docs") =
      (.ok "docs", ["docs"], joined) ∧
    ∃ state : AuthState sequentialGroup,
      loadAuth cleartext joined (shareDir sampleDataDir "docs") = .ok state ∧
        state.ops = guestTicket.authLog ∧
        (cleartext.publicKey guest, AuthRole.writer) ∈ state.members docs := by
  have made : ((ShareLoop.docsLoop founded).handleInvite cleartext ShareLoop.docsConfig founder
      guest.val .writer .sync).1 = .ok guestTicket ∧
      ((ShareLoop.docsLoop founded).handleInvite cleartext ShareLoop.docsConfig founder
        guest.val .writer .sync).2.authState.ops = guestTicket.authLog := by decide +kernel
  rcases invited : (ShareLoop.docsLoop founded).handleInvite cleartext ShareLoop.docsConfig founder
    guest.val .writer .sync with ⟨result, after⟩
  rw [invited] at made
  obtain ⟨rfl, logged⟩ := made
  have holdable : guestTicket.Holdable :=
    ⟨by decide +kernel, by decide +kernel, by decide +kernel, by decide +kernel, by decide +kernel⟩
  have unknown : Unknown sampleFormats FileTree.empty sampleDataDir [] "docs" :=
    ⟨⟨[], rfl, rfl⟩, List.not_mem_nil, by decide +kernel⟩
  have files : FilesSucceed sampleFormats FileTree.empty sampleDataDir
      [ascii "home", ascii "docs"] guestTicket 0 :=
    ⟨_, _, _, _, Prod.ext (by decide +kernel) rfl, Prod.ext (by decide +kernel) rfl,
      Prod.ext (by decide +kernel) rfl, Prod.ext (by decide +kernel) rfl⟩
  obtain ⟨joined, accepted, _, _, _, state, loads, ops, _, _, listed⟩ :=
    inviteJoin_reproduces cleartext cleartext_lawful sequentialGroup
      sequentialGroup_headsProcessed AuthState.sequentialGroup_rejectsProcessed
      sequentialGroup_addAppears [.createGroup founder docs] (ShareLoop.docsLoop founded)
      after founded_reached ShareLoop.docsConfig founder guest .writer .sync guestTicket
      invited holdable sampleFormats FileTree.empty sampleDataDir
      [ascii "home", ascii "docs"] (.ofBytes 32 []) 0 [] (.ok []) (ascii "/home/docs") unknown
      (by decide +kernel) files
  exact ⟨joined, accepted, state, loads, ops.trans logged, listed⟩

end Sample

end Peerdup.Daemon.ShareFiles
