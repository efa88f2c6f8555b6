import Peerdup.Daemon.PresentShare
import Peerdup.Daemon.ShareLoopProperties

/-!
# Adding a share that is there already

Nothing on the disk is asked before a share is added, so an add over an existing share is
refused for other reasons or not at all.
-/

set_option autoImplicit false

namespace Peerdup.Daemon.ShareFiles

open Foundation Auth Crypto Rotation FileTree RawPath

section Id

/-- Sixteen hexadecimal digits are a directory name. -/
theorem idFromTopic_legal (crypto : Primitives) (topic : String) :
    legalName (idBytes (idFromTopic crypto topic)) = true := by
  let digits := ((toHex (crypto.blake3 (idBytes topic))).toList.take 16)
  have digit : ∀ letter ∈ digits, ∃ value < 16, letter = Nat.digitChar value := by
    intro letter member
    have listed := List.mem_of_mem_take member
    rw [toHex, String.toList_ofList, List.mem_flatMap] at listed
    obtain ⟨byte, _, either⟩ := listed
    have small := byte.toNat_lt
    rcases List.mem_cons.mp either with high | low
    · exact ⟨byte.toNat / 16, by omega, high⟩
    · exact ⟨byte.toNat % 16, by omega, List.mem_singleton.mp low⟩
  have plain : ∀ value < 16, (Nat.digitChar value).utf8Size = 1 ∧
      (Nat.digitChar value).val.toUInt8 ≠ 0x2F ∧ (Nat.digitChar value).val.toUInt8 ≠ 0x00 := by decide
  have bytes : idBytes (idFromTopic crypto topic) = digits.map fun letter => letter.val.toUInt8 := by
    refine utf8_ofList fun letter member => ?_
    obtain ⟨value, small, rfl⟩ := digit letter member
    exact (plain value small).1
  have length : (idBytes (idFromTopic crypto topic)).length = 16 := by
    rw [bytes, List.length_map, List.length_take, toHex, String.toList_ofList, List.length_flatMap]
    simp [Octets.length_bytes]
  have short : ∀ other : Name, other.length < 16 → idBytes (idFromTopic crypto topic) ≠ other := by
    intro other less same
    rw [same] at length
    omega
  refine (legalName_iff _).mpr ⟨short _ (by decide), short _ (by decide), short _ (by decide),
    ?_, ?_, length.le.trans (by decide)⟩
  · rw [bytes, List.mem_map]
    rintro ⟨letter, member, slash⟩
    obtain ⟨value, small, rfl⟩ := digit letter member
    exact (plain value small).2.1 slash
  · rw [bytes, List.mem_map]
    rintro ⟨letter, member, null⟩
    obtain ⟨value, small, rfl⟩ := digit letter member
    exact (plain value small).2.2 null

end Id

section Creation

variable {crypto : Primitives} {crdt : GroupCrdt} {identity : crypto.PrivateKey} {id : String}

/-- The operation that creates a share's group. -/
def ownCreation (crdt : GroupCrdt) (crypto : Primitives) (identity : crypto.PrivateKey)
    (id : String) : SignedOp :=
  (AuthState.empty : AuthState crdt).authored crypto identity (groupIdFor crypto id)
    (AuthState.createAction (crypto.publicKey identity))

def CreationRejected (crdt : GroupCrdt) (crypto : Primitives) (identity : crypto.PrivateKey)
    (id : String) : Prop :=
  ∃ cause, crdt.process crdt.new (ownCreation crdt crypto identity id) = .error cause

/-- The content of a new group's `auth.log`. -/
def creationLog (crdt : GroupCrdt) (crypto : Primitives) (identity : crypto.PrivateKey)
    (id : String) : Bytes :=
  (Codec.seq signedOpCodec).encode [ownCreation crdt crypto identity id]

theorem createGroup_rejected (rejected : CreationRejected crdt crypto identity id) :
    ∃ failure after, (AuthState.empty : AuthState crdt).createGroup crypto identity
      (groupIdFor crypto id) = (.error failure, after) := by
  obtain ⟨cause, rejecting⟩ := rejected
  change ∃ failure after, AuthState.author .. = _
  rw [AuthState.author_eq]
  unfold ownCreation at rejecting
  change crdt.process (AuthState.empty : AuthState crdt).crdt _ = _ at rejecting
  rw [rejecting]
  exact ⟨_, _, rfl⟩

theorem not_creationRejected {next : crdt.State}
    (accepted : crdt.process crdt.new (ownCreation crdt crypto identity id) = .ok next) :
    ¬ CreationRejected crdt crypto identity id := by
  rintro ⟨cause, rejecting⟩
  cases accepted.symm.trans rejecting

theorem createGroup_accepted {next : crdt.State}
    (accepted : crdt.process crdt.new (ownCreation crdt crypto identity id) = .ok next) :
    (AuthState.empty : AuthState crdt).createGroup crypto identity (groupIdFor crypto id) =
      (.ok (ownCreation crdt crypto identity id),
        ⟨next, [ownCreation crdt crypto identity id], []⟩) := by
  change AuthState.author .. = _
  rw [AuthState.author_eq]
  unfold ownCreation at accepted
  change crdt.process (AuthState.empty : AuthState crdt).crdt _ = _ at accepted
  rw [accepted]
  rfl

theorem load_creation (lawful : crypto.Lawful) (heads : crdt.HeadsProcessed crypto)
    {next : crdt.State}
    (accepted : crdt.process crdt.new (ownCreation crdt crypto identity id) = .ok next) :
    AuthState.load crypto (some [ownCreation crdt crypto identity id]) =
      .ok (⟨next, [ownCreation crdt crypto identity id], []⟩ : AuthState crdt) := by
  have logged := AuthState.logged_empty.author lawful heads (createGroup_accepted accepted)
  exact (logged.replayable (List.nodup_singleton _)).load_ops

theorem holdable_creation (heads : crdt.HeadsProcessed crypto) :
    (ownCreation crdt crypto identity id).Holdable := by
  have known := heads [] crdt.new rfl
  have deps : (ownCreation crdt crypto identity id).deps = [] := by
    refine List.eq_nil_iff_forall_not_mem.mpr fun dep member => ?_
    exact List.not_mem_nil (known dep member)
  exact ⟨by rw [deps]; decide, by change 1 < 2 ^ 64; decide⟩

end Creation

section Existing

variable {tree : FileTree} {dir dataDir : RawPath} {crypto : Primitives} {crdt : GroupCrdt}
  {identity : crypto.PrivateKey} {created : Key} {id : String} {json log : Bytes}

/-- The directory of a share whose `auth.log` has an operation. -/
def HasLog (tree : FileTree) (dir : RawPath) : Prop :=
  ∃ content ops rest, tree.readAt (dir ++ [ascii "auth.log"]) = .ok content ∧
    (Codec.seq signedOpCodec).decode content = some (ops, rest) ∧ ops ≠ []

theorem hasLog_of_read (ops : List SignedOp) (short : ops.length < 2 ^ 64)
    (holdable : ∀ op ∈ ops, op.Holdable) (nonempty : ops ≠ [])
    (read : tree.readAt (dir ++ [ascii "auth.log"]) = .ok ((Codec.seq signedOpCodec).encode ops)) :
    HasLog tree dir := by
  have decoded := decode_log short holdable []
  rw [List.append_nil] at decoded
  exact ⟨_, ops, [], read, decoded, nonempty⟩

/-- The call is refused, and the share's log and configuration are what they were. -/
structure Spared (before after : FileTree) (dir : Path) {Value : Type}
    (result : Except SyncFailure Value) : Prop where
  refused : ∃ failure, result = .error failure
  authLog : after.look (dir ++ [ascii "auth.log"]) = before.look (dir ++ [ascii "auth.log"])
  config : after.look (dir ++ [ascii "share.json"]) = before.look (dir ++ [ascii "share.json"])

theorem spared_of_error {Value : Type} {dir : Path} {result : Except SyncFailure Value}
    (refused : ∃ failure, result = .error failure) : Spared tree tree dir result :=
  ⟨refused, rfl, rfl⟩

theorem spared_iff {Value : Type} {after : FileTree} {dir : Path} {result : Except SyncFailure Value}
    {authLog config : Option Node} (refused : ∃ failure, result = .error failure)
    (logged : after.look (dir ++ [ascii "auth.log"]) = authLog)
    (configured : after.look (dir ++ [ascii "share.json"]) = config) :
    Spared tree after dir result ↔ tree.look (dir ++ [ascii "auth.log"]) = authLog ∧
      tree.look (dir ++ [ascii "share.json"]) = config := by
  constructor
  · intro spared
    exact ⟨spared.authLog.symm.trans logged, spared.config.symm.trans configured⟩
  · intro ⟨sameLog, sameConfig⟩
    exact ⟨refused, logged.trans sameLog.symm, configured.trans sameConfig.symm⟩

/-- The task of a group that has just been created starts, unless it gets no keyring. -/
theorem spawnTask_creation (lawful : crypto.Lawful) (heads : crdt.HeadsProcessed crypto)
    (present : Present tree dir) {next : crdt.State}
    (accepted : crdt.process crdt.new (ownCreation crdt crypto identity id) = .ok next)
    (logged : tree.look (resolve [] dir ++ [ascii "auth.log"]) =
      some (.file (creationLog crdt crypto identity id))) (created : Key) :
    (KeyringUnloadable tree (resolve [] dir) →
      ∃ failure, spawnTask tree crdt crypto dir created = (.error failure, tree)) ∧
    (¬ KeyringUnloadable tree (resolve [] dir) →
      ∃ started after, spawnTask tree crdt crypto dir created = (.ok started, after)) := by
  constructor
  · intro unloadable
    obtain ⟨failure, loading⟩ := loadKeyring_unloadable present unloadable created
    rw [spawnTask, loading]
    exact ⟨_, rfl⟩
  · intro loadable
    obtain ⟨ring, after, loading, onward, look⟩ := loadKeyring_loadable present loadable created
    have short : [ownCreation crdt crypto identity id].length < 2 ^ 64 := by
      rw [List.length_singleton]
      decide
    have kept : after.look (resolve [] dir ++ [ascii "auth.log"]) =
        some (.file (creationLog crdt crypto identity id)) := by
      rw [look _ (names_apart (by decide)) (names_apart (by decide)), logged]
    obtain ⟨there, read⟩ := readAt_of_look (by decide) onward.walked kept
    have loads := loadAuth_of_read there read short
      (fun op member => List.mem_singleton.mp member ▸ holdable_creation heads)
      (load_creation lawful heads accepted)
    rw [spawnTask, loading]
    dsimp only
    rw [loads]
    exact ⟨_, _, rfl⟩

/-- When an add over an existing share does no harm: it stops before it writes, or what it
writes is there already and it stops then. -/
def LockedSpares (crdt : GroupCrdt) (crypto : Primitives) (identity : crypto.PrivateKey)
    (tree : FileTree) (dir : Path) (running : List String) (id : String)
    (json : Except String Bytes) : Prop :=
  id ∈ running ∨ CreationRejected crdt crypto identity id ∨ ConfigUnwritable tree dir json ∨
    ConfigStored tree dir json ∧
      (tree.look (dir ++ [ascii "auth.log.tmp"]) = some .directory ∨
        tree.look (dir ++ [ascii "auth.log"]) = some (.file (creationLog crdt crypto identity id)) ∧
          KeyringUnloadable tree dir)

theorem keyringUnloadable_congr {after : FileTree} {dir : Path}
    (keys : after.look (dir ++ [ascii "keys.bin"]) = tree.look (dir ++ [ascii "keys.bin"]))
    (temporary : after.look (dir ++ [ascii "keys.bin.tmp"]) =
      tree.look (dir ++ [ascii "keys.bin.tmp"])) :
    KeyringUnloadable after dir ↔ KeyringUnloadable tree dir := by
  rw [KeyringUnloadable, KeyringUnloadable, keys, temporary]

theorem addLocked_spared_iff (lawful : crypto.Lawful) (heads : crdt.HeadsProcessed crypto)
    (present : Present tree (shareDir dataDir id))
    (logged : tree.look (resolve [] (shareDir dataDir id) ++ [ascii "auth.log"]) = some (.file log))
    (created : Key) (running : List String) (json : Except String Bytes) :
    Spared tree (addLocked tree dataDir crypto crdt identity created running id json).2.2
        (resolve [] (shareDir dataDir id))
        (addLocked tree dataDir crypto crdt identity created running id json).1 ↔
      LockedSpares crdt crypto identity tree (resolve [] (shareDir dataDir id)) running id json := by
  unfold addLocked LockedSpares
  dsimp only
  generalize shareDir dataDir id = dir at present logged ⊢
  by_cases known : id ∈ running
  · rw [if_pos known]
    exact iff_of_true (spared_of_error ⟨_, rfl⟩) (.inl known)
  rw [if_neg known]
  cases creating : crdt.process crdt.new (ownCreation crdt crypto identity id) with
  | error cause =>
      obtain ⟨failure, after, rejected⟩ := createGroup_rejected ⟨cause, creating⟩
      rw [rejected]
      exact iff_of_true (spared_of_error ⟨_, rfl⟩) (.inr (.inl ⟨cause, creating⟩))
  | ok next =>
  have accepted := not_creationRejected creating
  rw [createGroup_accepted creating]
  dsimp only
  by_cases unwritable : ConfigUnwritable tree (resolve [] dir) json
  · obtain ⟨failure, saving⟩ := saveConfig_unwritable present unwritable
    rw [saving]
    exact iff_of_true (spared_of_error ⟨failure, rfl⟩) (.inr (.inr (.inl unwritable)))
  obtain ⟨bytes, saved, rfl, saving, onward, configured, kept⟩ :=
    saveConfig_writable present unwritable
  rw [saving]
  dsimp only
  have free : saved.look (resolve [] dir ++ [ascii "auth.log"]) ≠ some .directory := by
    rw [kept _ (names_apart (by decide)), logged]
    simp
  have saves := saveAuth_cases onward free [ownCreation crdt crypto identity id]
  rw [kept _ (names_apart (by decide)), ← creationLog] at saves
  rcases saves with ⟨blocked, failure, refused⟩ | ⟨blocked, written, writing, there, newLog, others⟩
  · rw [refused, spared_iff ⟨failure, rfl⟩ (kept _ (names_apart (by decide))) configured]
    simp [known, accepted, unwritable, blocked]
  have untouched : ∀ name, name ≠ ascii "share.json" → name ≠ ascii "auth.log.tmp" →
      name ≠ ascii "auth.log" →
      written.look (resolve [] dir ++ [name]) = tree.look (resolve [] dir ++ [name]) := by
    intro name notConfig notTmp notLog
    rw [others _ (names_apart notTmp) (names_apart notLog), kept _ (names_apart notConfig)]
  have keyring : KeyringUnloadable written (resolve [] dir) ↔ KeyringUnloadable tree (resolve [] dir) :=
    keyringUnloadable_congr (untouched _ (by decide) (by decide) (by decide))
      (untouched _ (by decide) (by decide) (by decide))
  have stillConfigured := (others _ (names_apart (by decide)) (names_apart (by decide))).trans configured
  obtain ⟨stops, starts⟩ := spawnTask_creation lawful heads there creating newLog created
  rw [writing]
  dsimp only
  by_cases unloadable : KeyringUnloadable tree (resolve [] dir)
  · obtain ⟨failure, stopped⟩ := stops (keyring.mpr unloadable)
    rw [stopped, spared_iff ⟨failure, rfl⟩ newLog stillConfigured]
    simp [known, accepted, unwritable, blocked, unloadable, and_comm]
  · obtain ⟨started, after, running⟩ := starts (mt keyring.mp unloadable)
    rw [running]
    refine iff_of_false (fun spared => ?_) ?_
    · obtain ⟨failure, refused⟩ := spared.refused
      cases refused
    · simp [known, accepted, unwritable, blocked, unloadable]

/-- When `share_add` over an existing share does no harm. -/
def AddSpares (formats : AddFormats) (crdt : GroupCrdt) (crypto : Primitives)
    (identity : crypto.PrivateKey) (tree : FileTree) (dir : Path) (running : List String)
    (now : Timestamp) (cwd : Except SyncFailure RawPath) (topic : String) (path : Bytes)
    (role : String) : Prop :=
  match parseShareRole role with
  | .error _ => True
  | .ok given =>
      (given = .seed ∧ givenExists tree cwd path = false) ∨
        LockedSpares crdt crypto identity tree dir running (idFromTopic crypto topic)
          (formats.addedJson ⟨idFromTopic crypto topic, topic⟩ path given now)

/-- When the command does none. It asks for no running task, and starts none. -/
def DirectAddSpares (formats : AddFormats) (crdt : GroupCrdt) {crypto : Primitives}
    (keys : KeyBytes crypto) (tree : FileTree) (dataDir dir : Path) (fresh : crypto.PrivateKey)
    (now : Timestamp) (cwd : Except SyncFailure RawPath) (topic : String) (path : Bytes)
    (role : ShareRole) : Prop :=
  match directPath cwd path with
  | .error _ => True
  | .ok root =>
      (role = .seed ∧ tree.existsAt root = false) ∨
        let json := formats.configJson ⟨⟨idFromTopic crypto topic, topic⟩, root, role, now⟩
        ConfigUnwritable tree dir json ∨
        ConfigStored tree dir json ∧
          (tree.look (dir ++ [ascii "auth.log.tmp"]) = some .directory ∨
            ∀ identity, identityAt keys tree dataDir fresh = some identity →
              CreationRejected crdt crypto identity (idFromTopic crypto topic))

theorem identityAt_congr {after : FileTree} {dataDir : Path} {keys : KeyBytes crypto}
    (same : after.look (dataDir ++ [ascii "identity.key"]) =
      tree.look (dataDir ++ [ascii "identity.key"])) (fresh : crypto.PrivateKey) :
    identityAt keys after dataDir fresh = identityAt keys tree dataDir fresh := by
  rw [identityAt, identityAt, same]

theorem present_dataDir {id : String} (legal : legalName (idBytes id) = true)
    (present : Present tree (shareDir dataDir id)) : Present tree dataDir := by
  rw [shareDir, join_of_legal _ legal, sharesDir, List.append_assoc] at present
  exact present.above

theorem shareAdd_spared_iff (lawful : crypto.Lawful) (heads : crdt.HeadsProcessed crypto)
    (formats : AddFormats) (identity : crypto.PrivateKey) (created : Key) (now : Timestamp)
    (running : List String) (cwd : Except SyncFailure RawPath) (topic : String) (path : Bytes)
    (role : String) (present : Present tree (shareDir dataDir (idFromTopic crypto topic)))
    (logged : tree.look (resolve [] (shareDir dataDir (idFromTopic crypto topic)) ++
      [ascii "auth.log"]) = some (.file log)) :
    Spared tree
        (shareAdd tree dataDir crypto formats crdt identity created now running cwd topic path role).2.2
        (resolve [] (shareDir dataDir (idFromTopic crypto topic)))
        (shareAdd tree dataDir crypto formats crdt identity created now running cwd topic path role).1 ↔
      AddSpares formats crdt crypto identity tree
        (resolve [] (shareDir dataDir (idFromTopic crypto topic))) running now cwd topic path role := by
  unfold shareAdd AddSpares
  cases parseShareRole role with
  | error cause => exact iff_of_true (spared_of_error ⟨_, rfl⟩) trivial
  | ok given =>
      dsimp only
      by_cases missing : given = .seed ∧ givenExists tree cwd path = false
      · rw [if_pos missing]
        exact iff_of_true (spared_of_error ⟨_, rfl⟩) (.inl missing)
      · rw [if_neg missing, or_iff_right missing]
        exact addLocked_spared_iff lawful heads present logged created running _

theorem cmdShareAddDirect_spared_iff (formats : AddFormats) (keys : KeyBytes crypto)
    (fresh : crypto.PrivateKey) (now : Timestamp) (cwd : Except SyncFailure RawPath)
    (topic : String) (path : Bytes) (role : ShareRole)
    (present : Present tree (shareDir dataDir (idFromTopic crypto topic)))
    (logged : tree.look (resolve [] (shareDir dataDir (idFromTopic crypto topic)) ++
      [ascii "auth.log"]) = some (.file log)) :
    Spared tree
        (cmdShareAddDirect tree dataDir crypto formats crdt keys fresh now cwd topic path role).2
        (resolve [] (shareDir dataDir (idFromTopic crypto topic)))
        (cmdShareAddDirect tree dataDir crypto formats crdt keys fresh now cwd topic path role).1 ↔
      DirectAddSpares formats crdt keys tree (resolve [] dataDir)
        (resolve [] (shareDir dataDir (idFromTopic crypto topic))) fresh now cwd topic path role := by
  have dataPresent := present_dataDir (idFromTopic_legal crypto topic) present
  unfold cmdShareAddDirect DirectAddSpares
  cases directPath cwd path with
  | error failure => exact iff_of_true (spared_of_error ⟨_, rfl⟩) trivial
  | ok root =>
  dsimp only
  by_cases missing : role = .seed ∧ tree.existsAt root = false
  · rw [if_pos missing]
    exact iff_of_true (spared_of_error ⟨_, rfl⟩) (.inl missing)
  rw [if_neg missing, or_iff_right missing, StoredConfig.save_eq]
  dsimp only
  generalize formats.configJson _ = json
  generalize shareDir dataDir (idFromTopic crypto topic) = dir at present logged ⊢
  by_cases unwritable : ConfigUnwritable tree (resolve [] dir) json
  · obtain ⟨failure, saving⟩ := saveConfig_unwritable present unwritable
    rw [saving]
    exact iff_of_true (spared_of_error ⟨failure, rfl⟩) (.inl unwritable)
  obtain ⟨bytes, saved, rfl, saving, onward, configured, kept⟩ :=
    saveConfig_writable present unwritable
  rw [saving]
  dsimp only
  have savedLog := kept (resolve [] dir ++ [ascii "auth.log"]) (names_apart (by decide))
  have savedData : Present saved dataDir := by
    refine dataPresent.mono fun path found => (kept path ?_).trans found
    intro same
    exact unwritable (.inr (same ▸ found))
  have spec := loadOrCreateIdentity_spec keys savedData fresh
  have identityKept : saved.look (resolve [] dataDir ++ [ascii "identity.key"]) =
      tree.look (resolve [] dataDir ++ [ascii "identity.key"]) := kept _ (names_apart (by decide))
  rw [identityAt_congr identityKept fresh] at spec
  cases found : identityAt keys tree (resolve [] dataDir) fresh with
  | none =>
      rw [found] at spec
      obtain ⟨failure, loading⟩ := spec
      rw [loading, spared_iff ⟨failure, rfl⟩ savedLog configured]
      simp [unwritable]
  | some identity =>
  rw [found] at spec
  obtain ⟨named, loading, directories, others⟩ := spec
  have namedLog := (others _ (names_apart (by decide))).trans savedLog
  have namedConfig := (others _ (names_apart (by decide))).trans configured
  rw [loading]
  dsimp only
  cases creating : crdt.process crdt.new
      (ownCreation crdt crypto identity (idFromTopic crypto topic)) with
  | error cause =>
      have rejected : CreationRejected crdt crypto identity (idFromTopic crypto topic) :=
        ⟨cause, creating⟩
      obtain ⟨failure, after, refused⟩ := createGroup_rejected rejected
      rw [refused, spared_iff ⟨_, rfl⟩ namedLog namedConfig]
      simp [unwritable, rejected]
  | ok next =>
  have accepted := not_creationRejected creating
  rw [createGroup_accepted creating]
  dsimp only
  have namedDir : Present named dir := onward.mono directories
  have temporary : named.look (resolve [] dir ++ [ascii "auth.log.tmp"]) =
      tree.look (resolve [] dir ++ [ascii "auth.log.tmp"]) :=
    (others _ (names_apart (by decide))).trans (kept _ (names_apart (by decide)))
  have free : named.look (resolve [] dir ++ [ascii "auth.log"]) ≠ some .directory := by
    rw [namedLog, logged]
    simp
  have saves := saveAuth_cases namedDir free
    [ownCreation crdt crypto identity (idFromTopic crypto topic)]
  rw [temporary] at saves
  rcases saves with ⟨blocked, failure, refused⟩ | ⟨blocked, written, writing, _⟩
  · rw [refused, spared_iff ⟨failure, rfl⟩ namedLog namedConfig]
    simp [unwritable, blocked]
  · rw [writing]
    refine iff_of_false (fun spared => ?_) ?_
    · obtain ⟨failure, refused⟩ := spared.refused
      cases refused
    · simp [unwritable, blocked, accepted]

end Existing

/-- An add over a share that has a log leaves its log and its configuration as they are, and is
refused, under these conditions and no others. -/
theorem existingShare_intact_iff (crypto : Primitives) (lawful : crypto.Lawful) (crdt : GroupCrdt)
    (heads : crdt.HeadsProcessed crypto) (formats : AddFormats) (tree : FileTree)
    (dataDir : RawPath) (topic : String)
    (existing : HasLog tree (shareDir dataDir (idFromTopic crypto topic))) :
    (∀ identity created now running cwd path role,
      Spared tree
          (shareAdd tree dataDir crypto formats crdt identity created now running cwd topic path
            role).2.2
          (resolve [] (shareDir dataDir (idFromTopic crypto topic)))
          (shareAdd tree dataDir crypto formats crdt identity created now running cwd topic path
            role).1 ↔
        AddSpares formats crdt crypto identity tree
          (resolve [] (shareDir dataDir (idFromTopic crypto topic))) running now cwd topic path role) ∧
    ∀ keys fresh now cwd path role,
      Spared tree
          (cmdShareAddDirect tree dataDir crypto formats crdt keys fresh now cwd topic path role).2
          (resolve [] (shareDir dataDir (idFromTopic crypto topic)))
          (cmdShareAddDirect tree dataDir crypto formats crdt keys fresh now cwd topic path role).1 ↔
        DirectAddSpares formats crdt keys tree (resolve [] dataDir)
          (resolve [] (shareDir dataDir (idFromTopic crypto topic))) fresh now cwd topic path role := by
  obtain ⟨content, ops, rest, read, _, _⟩ := existing
  obtain ⟨present, logged⟩ := present_of_readAt (by decide) read
  refine ⟨?_, ?_⟩
  · intro identity created now running cwd path role
    exact shareAdd_spared_iff lawful heads formats identity created now running cwd topic path role
      present logged
  · intro keys fresh now cwd path role
    exact cmdShareAddDirect_spared_iff formats keys fresh now cwd topic path role present logged

section Sample

open Reference

def topicDir : RawPath := shareDir sampleDataDir (idFromTopic cleartext "team docs")

/-- The founder's share on the guest's disk, joined under the id of its topic. -/
def joinedDisk : FileTree :=
  (saveAuth (saveConfig FileTree.empty topicDir (.ok (sampleJson docsConfig))).2 topicDir
    (grown [(cleartext.publicKey guest, .writer)]).ops).2

theorem joinedDisk_hasLog : HasLog joinedDisk topicDir :=
  hasLog_of_read (grown [(cleartext.publicKey guest, .writer)]).ops (by decide +kernel)
    (by decide +kernel) (by decide +kernel) (by decide +kernel)

/-- While its task runs, the share is safe. -/
theorem runningShare_intact :
    Spared joinedDisk
      (shareAdd joinedDisk sampleDataDir cleartext sampleAddFormats sequentialGroup guest
        (.ofBytes 32 []) 0 [idFromTopic cleartext "team docs"] (.ok []) "team docs"
        (ascii "/home/docs") "sync").2.2 (resolve [] topicDir)
      (shareAdd joinedDisk sampleDataDir cleartext sampleAddFormats sequentialGroup guest
        (.ofBytes 32 []) 0 [idFromTopic cleartext "team docs"] (.ok []) "team docs"
        (ascii "/home/docs") "sync").1 := by
  refine ((existingShare_intact_iff cleartext cleartext_lawful sequentialGroup
    sequentialGroup_headsProcessed sampleAddFormats joinedDisk sampleDataDir "team docs"
    joinedDisk_hasLog).1 guest (.ofBytes 32 []) 0 [idFromTopic cleartext "team docs"] (.ok [])
    (ascii "/home/docs") "sync").mpr ?_
  have parsed : parseShareRole "sync" = .ok .sync := by decide +kernel
  rw [AddSpares, parsed]
  exact .inr (.inl (List.mem_singleton_self _))

/-- While it does not, an add starts a group of its own in the share's place. -/
theorem stoppedShare_overwritten :
    HasLog joinedDisk topicDir ∧
      (shareAdd joinedDisk sampleDataDir cleartext sampleAddFormats sequentialGroup guest
        (.ofBytes 32 []) 0 [] (.ok []) "team docs" (ascii "/home/docs") "sync").1 =
          .ok (idFromTopic cleartext "team docs") ∧
      (shareAdd joinedDisk sampleDataDir cleartext sampleAddFormats sequentialGroup guest
        (.ofBytes 32 []) 0 [] (.ok []) "team docs" (ascii "/home/docs") "sync").2.2.look
          (resolve [] topicDir ++ [ascii "auth.log"]) =
        some (.file (creationLog sequentialGroup cleartext guest (idFromTopic cleartext "team docs"))) ∧
      joinedDisk.look (resolve [] topicDir ++ [ascii "auth.log"]) ≠
        some (.file (creationLog sequentialGroup cleartext guest (idFromTopic cleartext "team docs"))) :=
  ⟨joinedDisk_hasLog, by decide +kernel, by decide +kernel, by decide +kernel⟩

end Sample

end Peerdup.Daemon.ShareFiles
