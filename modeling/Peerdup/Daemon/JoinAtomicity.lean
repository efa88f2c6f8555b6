import Peerdup.Daemon.ConfiguredShares
import Peerdup.Daemon.ShareLoopProperties
import Peerdup.Daemon.ShareScope

/-!
# Joins that fail

A join writes the configuration and the keyring before it looks at the ticket's log, and it
takes nothing back.
-/

set_option autoImplicit false

namespace Peerdup.Daemon.ShareFiles

open Foundation Auth Crypto Rotation FileTree RawPath

variable {formats : FileFormats} {before tree made after : FileTree} {dataDir path : RawPath}
  {crdt : GroupCrdt} {crypto : Primitives} {identity : crypto.PrivateKey} {ticket : Ticket}
  {now : Timestamp} {id : String}

/-- Every share's directory is what it was, and so is the one that this id leads to. -/
structure SameShares (before after : FileTree) (dataDir : RawPath) (id : String) : Prop where
  found : after.existsAt (sharesDir dataDir) = before.existsAt (sharesDir dataDir)
  shares : ∀ path, sharesPath dataDir <+: path → after.look path = before.look path
  own : ∀ path, resolve [] (shareDir dataDir id) <+: path → after.look path = before.look path

theorem SameShares.congr (same : SameShares before tree dataDir id)
    (unmoved : ∀ path, after.look path = tree.look path) : SameShares before after dataDir id where
  found := (existsAt_congr unmoved _).trans same.found
  shares path below := (unmoved path).trans (same.shares path below)
  own path below := (unmoved path).trans (same.own path below)

theorem SameShares.configured (same : SameShares before after dataDir id) (config : StoredConfig) :
    Configured formats after dataDir config ↔ Configured formats before dataDir config := by
  have stored (name : Name) : after.look (configPath dataDir name) =
      before.look (configPath dataDir name) := by
    refine same.shares _ ?_
    rw [configPath, List.append_assoc]
    exact List.prefix_append _ _
  simp only [configured_iff, Readable, Lists, stored, same.found,
    same.shares _ (List.prefix_refl _)]

/-- The shares are as before a call: those that are configured, and every share's directory,
the ticket's among them. -/
structure LeavesShares (formats : FileFormats) (before after : FileTree) (dataDir : RawPath)
    (decoded : Except Failure Ticket) : Prop where
  configured : ∀ config, Configured formats after dataDir config ↔
    Configured formats before dataDir config
  found : after.existsAt (sharesDir dataDir) = before.existsAt (sharesDir dataDir)
  shares : ∀ path, sharesPath dataDir <+: path → after.look path = before.look path
  own : ∀ ticket, decoded = .ok ticket → ∀ path,
    resolve [] (shareDir dataDir ticket.shareId) <+: path → after.look path = before.look path

theorem leavesShares_refl (formats : FileFormats) (tree : FileTree) (dataDir : RawPath)
    (decoded : Except Failure Ticket) : LeavesShares formats tree tree dataDir decoded :=
  ⟨fun _ => Iff.rfl, rfl, fun _ _ => rfl, fun _ _ _ _ => rfl⟩

theorem leavesShares_iff : LeavesShares formats before after dataDir (.ok ticket) ↔
    SameShares before after dataDir ticket.shareId := by
  constructor
  · intro leaves
    exact ⟨leaves.found, leaves.shares, leaves.own ticket rfl⟩
  · intro same
    refine ⟨same.configured, same.found, same.shares, ?_⟩
    intro decoded known
    cases known
    exact same.own

/-- The ticket's log can be replayed and lists us. -/
def Accepted (crdt : GroupCrdt) (crypto : Primitives) (identity : crypto.PrivateKey)
    (ticket : Ticket) : Prop :=
  ∃ (context : String) (authState : AuthState crdt),
    (AuthState.empty : AuthState crdt).replay crypto context ticket.authLog = .ok authState ∧
      authState.isMember (groupIdFor crypto ticket.shareId) (crypto.publicKey identity) = true

/-- Why a keyring is not installed. -/
def KeyringRefused (tree : FileTree) (dir : Path) (keys : List Key) : Prop :=
  (tree.look (dir ++ [ascii "keys.bin"])).isSome = true ∨ keys = [] ∨
    tree.look (dir ++ [ascii "keys.bin.tmp"]) = some .directory

instance (tree : FileTree) (dir : Path) (keys : List Key) :
    Decidable (KeyringRefused tree dir keys) :=
  inferInstanceAs (Decidable (_ ∨ _ ∨ _))

/-- When a join that has its two directories is no harm if it fails. Either it does not fail,
or what it writes before it does was there already. -/
def FilesKeep (crdt : GroupCrdt) (crypto : Primitives) (identity : crypto.PrivateKey)
    (before made : FileTree) (dataDir : RawPath) (json : Except String Bytes) (ticket : Ticket) :
    Prop :=
  let dir := resolve [] (shareDir dataDir ticket.shareId)
  if ConfigUnwritable made dir json then SameShares before made dataDir ticket.shareId
  else if KeyringRefused made dir ticket.keys then
    SameShares before made dataDir ticket.shareId ∧ ConfigStored made dir json
  else
    Accepted crdt crypto identity ticket ∧
      made.look (dir ++ [ascii "auth.log.tmp"]) ≠ some .directory ∧
      made.look (dir ++ [ascii "auth.log"]) ≠ some .directory

/-- The same from the first directory on, for a join that has passed every check. -/
def JoinKeeps (formats : FileFormats) (crdt : GroupCrdt) (crypto : Primitives)
    (identity : crypto.PrivateKey) (before start : FileTree) (dataDir path : RawPath)
    (ticket : Ticket) (now : Timestamp) : Prop :=
  match start.createDirAllAt path with
  | (.error _, made) => SameShares before made dataDir ticket.shareId
  | (.ok (), made) =>
      match made.createDirAllAt (shareDir dataDir ticket.shareId) with
      | (.error _, made) => SameShares before made dataDir ticket.shareId
      | (.ok (), made) =>
          FilesKeep crdt crypto identity before made dataDir
            (formats.configJson ⟨⟨ticket.shareId, ticket.topic⟩, path, ticket.role, now⟩) ticket

/-- Everything that was there is still there, an identity apart. -/
def Extends (before after : FileTree) : Prop :=
  ∀ dir name node, name ≠ ascii "identity.key" → before.look (dir ++ [name]) = some node →
    after.look (dir ++ [name]) = some node

theorem Extends.created {raw : RawPath} {result : Except IoError Unit} (kept : Extends before tree)
    (created : tree.createDirAllAt raw = (result, made)) : Extends before made := by
  intro dir name node other found
  have creates := createDirAllAt_creates tree raw
  rw [created] at creates
  exact creates.keeps (kept dir name node other found)

theorem extends_identity (keys : KeyBytes crypto) (tree : FileTree) (dataDir : RawPath)
    (fresh : crypto.PrivateKey) : Extends tree (loadOrCreateIdentity tree keys dataDir fresh).2 := by
  have refl : Extends tree tree := fun _ _ _ _ found => found
  unfold loadOrCreateIdentity
  dsimp only
  split
  · split
    · exact refl
    · split
      · exact refl
      · exact refl
  · split
    · next created => exact refl.created created
    next made created =>
      split
      · exact refl.created created
      next wrote =>
        intro dir name node other found
        rw [look_write (writeAt_ok wrote).2.2, if_neg (names_apart other)]
        exact refl.created created dir name node other found

theorem replay_under {context other : String} {ops : List SignedOp} {state final : AuthState crdt}
    (replayed : state.replay crypto context ops = .ok final) :
    state.replay crypto other ops = .ok final := by
  induction ops generalizing state with
  | nil => exact replayed
  | cons op ops ih =>
      rw [AuthState.replay] at replayed ⊢
      split at replayed
      · cases replayed
      · exact ih replayed

section Files

theorem sameShares_saved_iff (kept : Extends before made) {json : Bytes}
    (written : after.look (resolve [] (shareDir dataDir id) ++ [ascii "share.json"]) =
      some (.file json))
    (others : ∀ path, path ≠ resolve [] (shareDir dataDir id) ++ [ascii "share.json"] →
      after.look path = made.look path) :
    SameShares before after dataDir id ↔ SameShares before made dataDir id ∧
      made.look (resolve [] (shareDir dataDir id) ++ [ascii "share.json"]) = some (.file json) := by
  have unmoved (there : made.look (resolve [] (shareDir dataDir id) ++ [ascii "share.json"]) =
      some (.file json)) : ∀ path, after.look path = made.look path := by
    intro path
    by_cases here : path = resolve [] (shareDir dataDir id) ++ [ascii "share.json"]
    · rw [here, written, there]
    · exact others path here
  constructor
  · intro same
    have stored := (same.own _ (List.prefix_append _ _)).symm.trans written
    have there := kept _ _ _ (by decide) stored
    exact ⟨same.congr fun path => (unmoved there path).symm, there⟩
  · intro ⟨same, there⟩
    exact same.congr (unmoved there)

/-- A keyring that is new cannot be explained away. -/
theorem not_sameShares_keyed (kept : Extends before made) {content : Bytes}
    (absent : made.look (resolve [] (shareDir dataDir id) ++ [ascii "keys.bin"]) = none)
    (keyed : after.look (resolve [] (shareDir dataDir id) ++ [ascii "keys.bin"]) =
      some (.file content)) : ¬ SameShares before after dataDir id := by
  intro same
  have stored := (same.own _ (List.prefix_append _ _)).symm.trans keyed
  cases absent.symm.trans (kept _ _ _ (by decide) stored)

/-- What is left of a join once its keyring is installed. -/
def joinLog (tree : FileTree) (crdt : GroupCrdt) (crypto : Primitives) (dir : RawPath)
    (applying notListed : String) (identity : crypto.PrivateKey) (ticket : Ticket) :
    Except SyncFailure (AuthState crdt) × FileTree :=
  match (AuthState.empty : AuthState crdt).replay crypto (applying ++ ticket.shareId)
      ticket.authLog with
  | .error failure => (.error (failure.map .text), tree)
  | .ok authState =>
      if !authState.isMember (groupIdFor crypto ticket.shareId) (crypto.publicKey identity) then
        (.error [.text notListed], tree)
      else
        match saveAuth tree dir authState.ops with
        | (.error failure, tree) => (.error failure, tree)
        | (.ok (), tree) => (.ok authState, tree)

theorem joinLog_spec {dir : RawPath} (present : Present tree dir) (crdt : GroupCrdt)
    (applying notListed : String) (identity : crypto.PrivateKey) (ticket : Ticket) :
    ∃ result after,
      joinLog tree crdt crypto dir applying notListed identity ticket = (result, after) ∧
        after.look (resolve [] dir ++ [ascii "keys.bin"]) =
          tree.look (resolve [] dir ++ [ascii "keys.bin"]) ∧
        ((∃ failure, result = .error failure) ↔ ¬ (Accepted crdt crypto identity ticket ∧
          tree.look (resolve [] dir ++ [ascii "auth.log.tmp"]) ≠ some .directory ∧
          tree.look (resolve [] dir ++ [ascii "auth.log"]) ≠ some .directory)) := by
  unfold joinLog
  cases replaying : (AuthState.empty : AuthState crdt).replay crypto (applying ++ ticket.shareId)
      ticket.authLog with
  | error failure =>
      refine ⟨_, _, rfl, rfl, iff_of_true ⟨_, rfl⟩ ?_⟩
      intro both
      obtain ⟨⟨context, authState, replayed, _⟩, _⟩ := both
      cases replaying.symm.trans (replay_under replayed)
  | ok authState =>
      dsimp only
      cases member : authState.isMember (groupIdFor crypto ticket.shareId)
          (crypto.publicKey identity) with
      | false =>
          refine ⟨_, _, rfl, rfl, iff_of_true ⟨_, rfl⟩ ?_⟩
          intro both
          obtain ⟨⟨context, other, replayed, listed⟩, _⟩ := both
          cases replaying.symm.trans (replay_under replayed)
          cases member.symm.trans listed
      | true =>
          have accepted : Accepted crdt crypto identity ticket := ⟨_, authState, replaying, member⟩
          rw [Bool.not_true, if_neg Bool.false_ne_true]
          by_cases blocked : tree.look (resolve [] dir ++ [ascii "auth.log"]) = some .directory
          · obtain ⟨failure, after, refused, others⟩ := saveFile_blocked (ascii "auth.log.tmp")
              present (by decide) (by decide) blocked ((Codec.seq signedOpCodec).encode authState.ops)
            rw [saveAuth, refused]
            refine ⟨_, _, rfl, others _ (names_apart (by decide)), ?_⟩
            exact iff_of_true ⟨_, rfl⟩ fun both => both.2.2 blocked
          rcases saveAuth_cases present blocked authState.ops with
            ⟨taken, failure, refused⟩ | ⟨taken, after, saved, _, _, others⟩
          · rw [refused]
            exact ⟨_, _, rfl, rfl, iff_of_true ⟨_, rfl⟩ fun both => both.2.1 taken⟩
          rw [saved]
          refine ⟨_, _, rfl, others _ (names_apart (by decide)) (names_apart (by decide)), ?_⟩
          refine iff_of_false ?_ fun stopped => stopped ⟨accepted, taken, blocked⟩
          rintro ⟨failure, failed⟩
          cases failed

theorem installKeyring_refused {dir : RawPath} {keys : List Key} (present : Present tree dir)
    (refused : KeyringRefused tree (resolve [] dir) keys) :
    ∃ failure, installKeyring tree dir keys = (.error failure, tree) := by
  rw [installKeyring, present.existsAt_eq (by decide)]
  by_cases there : (tree.look (resolve [] dir ++ [ascii "keys.bin"])).isSome = true
  · rw [if_pos there]
    exact ⟨_, rfl⟩
  rw [if_neg there]
  by_cases empty : keys = []
  · rw [dif_pos empty]
    exact ⟨_, rfl⟩
  rw [dif_neg empty]
  have taken := (refused.resolve_left there).resolve_left empty
  exact saveFile_taken (ascii "keys.bin") present taken (KeyRing.fileBytes ⟨keys, empty⟩)

theorem installKeyring_free {dir : RawPath} {keys : List Key} (present : Present tree dir)
    (free : ¬ KeyringRefused tree (resolve [] dir) keys) :
    ∃ content after, installKeyring tree dir keys = (.ok (), after) ∧ Present after dir ∧
      after.look (resolve [] dir ++ [ascii "keys.bin"]) = some (.file content) ∧
      ∀ path, path ≠ resolve [] dir ++ [ascii "keys.bin.tmp"] →
        path ≠ resolve [] dir ++ [ascii "keys.bin"] → after.look path = tree.look path := by
  unfold KeyringRefused at free
  rw [not_or, not_or] at free
  obtain ⟨absent, nonempty, untaken⟩ := free
  have unblocked : tree.look (resolve [] dir ++ [ascii "keys.bin"]) ≠ some .directory := by
    intro directory
    exact absent (directory ▸ rfl)
  obtain ⟨after, saved, onward, keyed, others⟩ := saveFile_free present (by decide) (by decide)
    (by decide) untaken unblocked (KeyRing.fileBytes ⟨keys, nonempty⟩)
  refine ⟨_, after, ?_, onward, keyed, others⟩
  rw [installKeyring, present.existsAt_eq (by decide), if_neg absent, dif_neg nonempty]
  exact saved

/-- A join from its `share.json` on. -/
def joinInto (tree : FileTree) (crdt : GroupCrdt) (crypto : Primitives) (dir : RawPath)
    (json : Except String Bytes) (applying notListed : String) (identity : crypto.PrivateKey)
    (ticket : Ticket) : Except SyncFailure (AuthState crdt) × FileTree :=
  match saveConfig tree dir json with
  | (.error failure, tree) => (.error failure, tree)
  | (.ok (), tree) =>
      match installKeyring tree dir ticket.keys with
      | (.error failure, tree) => (.error failure, tree)
      | (.ok (), tree) => joinLog tree crdt crypto dir applying notListed identity ticket

theorem joinInto_keeps_iff (kept : Extends before made)
    (present : Present made (shareDir dataDir ticket.shareId)) {json : Except String Bytes}
    {applying notListed : String} {result : Except SyncFailure (AuthState crdt)}
    (joined : joinInto made crdt crypto (shareDir dataDir ticket.shareId) json applying notListed
      identity ticket = (result, after)) :
    ((∃ failure, result = .error failure) → SameShares before after dataDir ticket.shareId) ↔
      FilesKeep crdt crypto identity before made dataDir json ticket := by
  unfold joinInto at joined
  unfold FilesKeep
  dsimp only
  by_cases unwritable :
      ConfigUnwritable made (resolve [] (shareDir dataDir ticket.shareId)) json
  · obtain ⟨failure, refused⟩ := saveConfig_unwritable present unwritable
    rw [refused] at joined
    cases joined
    rw [if_pos unwritable]
    exact ⟨fun keeps => keeps ⟨failure, rfl⟩, fun same _ => same⟩
  obtain ⟨bytes, saved, rfl, saving, onward, written, others⟩ :=
    saveConfig_writable present unwritable
  rw [saving] at joined
  rw [if_neg unwritable, configStored_ok]
  dsimp only at joined
  have beside {name : Name} (apart : name ≠ ascii "share.json") :
      saved.look (resolve [] (shareDir dataDir ticket.shareId) ++ [name]) =
        made.look (resolve [] (shareDir dataDir ticket.shareId) ++ [name]) :=
    others _ (names_apart apart)
  have blocked : KeyringRefused saved (resolve [] (shareDir dataDir ticket.shareId)) ticket.keys ↔
      KeyringRefused made (resolve [] (shareDir dataDir ticket.shareId)) ticket.keys := by
    rw [KeyringRefused, KeyringRefused, beside (by decide), beside (by decide)]
  by_cases refused : KeyringRefused made (resolve [] (shareDir dataDir ticket.shareId)) ticket.keys
  · obtain ⟨failure, stopped⟩ := installKeyring_refused onward (blocked.mpr refused)
    rw [stopped] at joined
    cases joined
    rw [if_pos refused, ← sameShares_saved_iff kept written others]
    exact ⟨fun keeps => keeps ⟨failure, rfl⟩, fun same _ => same⟩
  have absent : made.look (resolve [] (shareDir dataDir ticket.shareId) ++ [ascii "keys.bin"]) =
      none := by
    rw [← Option.not_isSome_iff_eq_none]
    exact fun there => refused (.inl there)
  obtain ⟨content, keyed, installed, there, keyring, untouched⟩ :=
    installKeyring_free onward (mt blocked.mp refused)
  obtain ⟨ended, left, outcome, keyringStays, fails⟩ :=
    joinLog_spec there crdt applying notListed identity ticket
  have same {name : Name} (notConfig : name ≠ ascii "share.json")
      (notTmp : name ≠ ascii "keys.bin.tmp") (notKeys : name ≠ ascii "keys.bin") :
      keyed.look (resolve [] (shareDir dataDir ticket.shareId) ++ [name]) =
        made.look (resolve [] (shareDir dataDir ticket.shareId) ++ [name]) :=
    (untouched _ (names_apart notTmp) (names_apart notKeys)).trans (beside notConfig)
  rw [same (by decide) (by decide) (by decide), same (by decide) (by decide) (by decide)] at fails
  rw [installed] at joined
  rw [if_neg refused]
  cases outcome.symm.trans joined
  rw [fails]
  constructor
  · intro keeps
    by_contra stops
    exact not_sameShares_keyed kept absent (keyringStays.trans keyring) (keeps stops)
  · intro passes stops
    exact absurd passes stops

theorem joinFiles_keeps_iff (kept : Extends before tree) {applying notListed : String}
    {result : Except SyncFailure (AuthState crdt)}
    (joined : joinFiles tree dataDir crypto formats applying notListed identity ticket path now =
      (result, after)) :
    ((∃ failure, result = .error failure) → SameShares before after dataDir ticket.shareId) ↔
      JoinKeeps formats crdt crypto identity before tree dataDir path ticket now := by
  unfold joinFiles at joined
  unfold JoinKeeps
  dsimp only at joined
  cases joining : tree.createDirAllAt path with
  | mk outcome joinable =>
  rw [joining] at joined
  cases outcome with
  | error error =>
      cases joined
      exact ⟨fun keeps => keeps ⟨_, rfl⟩, fun same _ => same⟩
  | ok done =>
  dsimp only at joined ⊢
  rw [StoredConfig.save_eq] at joined
  dsimp only at joined
  cases creating : joinable.createDirAllAt (shareDir dataDir ticket.shareId) with
  | mk outcome made =>
  cases outcome with
  | error error =>
      rw [saveConfig, creating] at joined
      cases joined
      exact ⟨fun keeps => keeps ⟨_, rfl⟩, fun same _ => same⟩
  | ok done =>
      obtain ⟨present, saving⟩ := saveConfig_of_created creating (formats.configJson
        ⟨⟨ticket.shareId, ticket.topic⟩, path, ticket.role, now⟩)
      rw [saving] at joined
      exact joinInto_keeps_iff ((kept.created joining).created creating) present joined

end Files

section Calls

/-- The task of a share that was just joined starts. -/
theorem spawn_of_joined {authState : AuthState crdt} (created : Key)
    (joined : joinOnDisk formats tree dataDir crypto identity ticket path now =
      (.ok authState, after)) :
    ∃ loop : ShareLoop crdt, spawnShareTask crypto created
      ⟨some authState.ops, some (ticket.keys.flatMap Octets.bytes), []⟩ = .ok loop := by
  obtain ⟨keys, replayed, _⟩ := joinOnDisk_authState joined
  have loads := (AuthState.replayable_empty.replay replayed).load_ops
  have ring : some (ticket.keys.flatMap Octets.bytes) =
      some (KeyRing.fileBytes ⟨ticket.keys, keys⟩) := rfl
  rw [spawnShareTask, ring, loadOrCreateKeyring_fileBytes]
  dsimp only
  rw [loads]
  exact ⟨_, rfl⟩

/-- The shares cannot be read, or the ticket's is among them. -/
def AlreadyConfigured (formats : FileFormats) (tree : FileTree) (dataDir : RawPath) (id : String) :
    Prop :=
  ∀ configs, loadAll formats tree dataDir = .ok configs → configs.any (·.id = id) = true

theorem alreadyConfigured_unread {id : String} {failure : SyncFailure}
    (unread : loadAll formats tree dataDir = .error failure) :
    AlreadyConfigured formats tree dataDir id := by
  intro configs loaded
  cases unread.symm.trans loaded

theorem alreadyConfigured_iff {id : String} {configs : List StoredConfig}
    (loaded : loadAll formats tree dataDir = .ok configs) :
    AlreadyConfigured formats tree dataDir id ↔ configs.any (·.id = id) = true := by
  constructor
  · exact fun already => already configs loaded
  · intro configured others again
    cases loaded.symm.trans again
    exact configured

/-- When `share_join` changes no share unless it succeeds. -/
def ShareJoinKeeps (formats : FileFormats) (crdt : GroupCrdt) (crypto : Primitives)
    (identity : crypto.PrivateKey) (tree : FileTree) (dataDir : RawPath) (now : Timestamp)
    (running : List String) (cwd : Except SyncFailure RawPath) (decoded : Except Failure Ticket)
    (path : Bytes) : Prop :=
  match decoded, absolutePath cwd path with
  | .error _, _ => True
  | _, .error _ => True
  | .ok ticket, .ok path =>
      ticket.inviteePubkey ≠ crypto.publicKey identity ∨ ticket.shareId ∈ running ∨
        AlreadyConfigured formats tree dataDir ticket.shareId ∨
        JoinKeeps formats crdt crypto identity tree tree dataDir path ticket now

/-- When the command changes none. It may have to create an identity first. -/
def DirectJoinKeeps (formats : FileFormats) (crdt : GroupCrdt) {crypto : Primitives}
    (keys : KeyBytes crypto) (fresh : crypto.PrivateKey) (tree : FileTree) (dataDir : RawPath)
    (now : Timestamp) (cwd : Except SyncFailure RawPath) (decoded : Except Failure Ticket)
    (path : Bytes) : Prop :=
  match decoded with
  | .error _ => True
  | .ok ticket =>
      AlreadyConfigured formats tree dataDir ticket.shareId ∨
        match loadOrCreateIdentity tree keys dataDir fresh with
        | (.error _, made) => SameShares tree made dataDir ticket.shareId
        | (.ok identity, identified) =>
            if ticket.inviteePubkey ≠ crypto.publicKey identity then
              SameShares tree identified dataDir ticket.shareId
            else
              match directPath cwd path with
              | .error _ => SameShares tree identified dataDir ticket.shareId
              | .ok path =>
                  JoinKeeps formats crdt crypto identity tree identified dataDir path ticket now

theorem shareJoin_keeps_iff (created : Key) (running : List String)
    (cwd : Except SyncFailure RawPath) (decoded : Except Failure Ticket) (path : Bytes) :
    ((∃ failure, (shareJoin formats tree dataDir crypto identity crdt created now running cwd decoded
          path).1 = .error failure) →
        LeavesShares formats tree (shareJoin formats tree dataDir crypto identity crdt created now
            running cwd decoded path).2.2 dataDir decoded ∧
          (shareJoin formats tree dataDir crypto identity crdt created now running cwd decoded
            path).2.1 = running) ↔
      ShareJoinKeeps formats crdt crypto identity tree dataDir now running cwd decoded path := by
  have untouched {failure : SyncFailure} {Value : Type} :
      (∃ reported, (.error failure : Except SyncFailure Value) = .error reported) →
        LeavesShares formats tree tree dataDir decoded ∧ running = running :=
    fun _ => ⟨leavesShares_refl formats tree dataDir decoded, rfl⟩
  unfold shareJoin ShareJoinKeeps
  cases decoded with
  | error failure => exact iff_of_true untouched trivial
  | ok ticket =>
  cases absolutePath cwd path with
  | error failure => exact iff_of_true untouched trivial
  | ok joinPath =>
  dsimp only
  by_cases stranger : ticket.inviteePubkey ≠ crypto.publicKey identity
  · rw [if_pos stranger]
    exact iff_of_true untouched (.inl stranger)
  rw [if_neg stranger]
  by_cases known : ticket.shareId ∈ running
  · rw [if_pos known]
    exact iff_of_true untouched (.inr (.inl known))
  rw [if_neg known]
  cases loaded : loadAll formats tree dataDir with
  | error failure =>
      exact iff_of_true untouched (.inr (.inr (.inl (alreadyConfigured_unread loaded))))
  | ok configs =>
  dsimp only
  rw [alreadyConfigured_iff loaded]
  by_cases configured : configs.any (·.id = ticket.shareId) = true
  · rw [if_pos configured]
    exact iff_of_true untouched (.inr (.inr (.inl configured)))
  rw [if_neg configured, or_iff_right stranger, or_iff_right known, or_iff_right configured]
  cases joined : (joinOnDisk formats tree dataDir crypto identity ticket joinPath now :
      Except SyncFailure (AuthState crdt) × FileTree) with
  | mk result after =>
  have keeps := joinFiles_keeps_iff (fun _ _ _ _ found => found)
    ((joinOnDisk_eq tree dataDir crypto formats identity ticket joinPath now).symm.trans joined)
  rw [← keeps]
  cases result with
  | error failure =>
      dsimp only
      constructor
      · intro leaves failed
        exact leavesShares_iff.mp (leaves ⟨failure, rfl⟩).1
      · intro same _
        exact ⟨leavesShares_iff.mpr (same ⟨failure, rfl⟩), rfl⟩
  | ok authState =>
      obtain ⟨loop, spawned⟩ := spawn_of_joined created joined
      dsimp only
      rw [spawned]
      exact iff_of_true (fun ⟨_, failed⟩ => by cases failed) (fun ⟨_, failed⟩ => by cases failed)

theorem cmdShareJoinDirect_keeps_iff (keys : KeyBytes crypto) (fresh : crypto.PrivateKey)
    (cwd : Except SyncFailure RawPath) (decoded : Except Failure Ticket) (path : Bytes) :
    ((∃ failure, (cmdShareJoinDirect tree dataDir crypto formats crdt keys fresh now cwd decoded
          path).1 = .error failure) →
        LeavesShares formats tree (cmdShareJoinDirect tree dataDir crypto formats crdt keys fresh now
          cwd decoded path).2 dataDir decoded) ↔
      DirectJoinKeeps formats crdt keys fresh tree dataDir now cwd decoded path := by
  have untouched {failure : SyncFailure} {Value : Type} :
      (∃ reported, (.error failure : Except SyncFailure Value) = .error reported) →
        LeavesShares formats tree tree dataDir decoded :=
    fun _ => leavesShares_refl formats tree dataDir decoded
  unfold cmdShareJoinDirect DirectJoinKeeps
  cases decoded with
  | error failure => exact iff_of_true untouched trivial
  | ok ticket =>
  dsimp only
  cases loaded : loadAll formats tree dataDir with
  | error failure => exact iff_of_true untouched (.inl (alreadyConfigured_unread loaded))
  | ok configs =>
  dsimp only
  rw [alreadyConfigured_iff loaded]
  by_cases configured : configs.any (·.id = ticket.shareId) = true
  · rw [if_pos configured]
    exact iff_of_true untouched (.inl configured)
  rw [if_neg configured, or_iff_right configured]
  have kept := extends_identity keys tree dataDir fresh
  have stops {failure : SyncFailure} {Value : Type} {made : FileTree} :
      ((∃ reported, (.error failure : Except SyncFailure Value) = .error reported) →
          LeavesShares formats tree made dataDir (.ok ticket)) ↔
        SameShares tree made dataDir ticket.shareId := by
    rw [leavesShares_iff]
    exact ⟨fun same => same ⟨_, rfl⟩, fun same _ => same⟩
  cases identifying : loadOrCreateIdentity tree keys dataDir fresh with
  | mk outcome identified =>
  rw [identifying] at kept
  cases outcome with
  | error failure => exact stops
  | ok identity =>
  dsimp only
  by_cases stranger : ticket.inviteePubkey ≠ crypto.publicKey identity
  · rw [if_pos stranger, if_pos stranger]
    exact stops
  rw [if_neg stranger, if_neg stranger]
  cases directPath cwd path with
  | error failure => exact stops
  | ok joinPath =>
      dsimp only
      rw [leavesShares_iff]
      exact joinFiles_keeps_iff kept rfl

/-- A join that fails leaves every share as it was exactly under these conditions. -/
theorem failedJoin_leavesShares_iff (formats : FileFormats) (tree : FileTree) (dataDir : RawPath)
    (crypto : Primitives) (crdt : GroupCrdt) (now : Timestamp) (cwd : Except SyncFailure RawPath)
    (decoded : Except Failure Ticket) (path : Bytes) :
    (∀ (identity : crypto.PrivateKey) (created : Key) (running : List String),
      ((∃ failure, (shareJoin formats tree dataDir crypto identity crdt created now running cwd
            decoded path).1 = .error failure) →
          LeavesShares formats tree (shareJoin formats tree dataDir crypto identity crdt created now
              running cwd decoded path).2.2 dataDir decoded ∧
            (shareJoin formats tree dataDir crypto identity crdt created now running cwd decoded
              path).2.1 = running) ↔
        ShareJoinKeeps formats crdt crypto identity tree dataDir now running cwd decoded path) ∧
    ∀ (keys : KeyBytes crypto) (fresh : crypto.PrivateKey),
      ((∃ failure, (cmdShareJoinDirect tree dataDir crypto formats crdt keys fresh now cwd decoded
            path).1 = .error failure) →
          LeavesShares formats tree (cmdShareJoinDirect tree dataDir crypto formats crdt keys fresh
            now cwd decoded path).2 dataDir decoded) ↔
        DirectJoinKeeps formats crdt keys fresh tree dataDir now cwd decoded path :=
  ⟨fun _ created running => shareJoin_keeps_iff created running cwd decoded path,
    fun keys fresh => cmdShareJoinDirect_keeps_iff keys fresh cwd decoded path⟩

end Calls

section Sample

open Reference

/-- A ticket whose log stops before its invitee is added. -/
def unlistedTicket : Ticket := { docsTicket with authLog := founded.ops }

/-- The disk after the refused join. -/
def refusedDisk : FileTree :=
  (shareJoin sampleFormats FileTree.empty sampleDataDir cleartext guest sequentialGroup
    (.ofBytes 32 []) 0 [] (.ok []) (.ok unlistedTicket) (ascii "/home/docs")).2.2

/-- The join is refused, its configuration and keyring stay, and the good ticket is then
refused because of them. The command does the same. -/
theorem unlistedTicket_staysConfigured :
    (shareJoin sampleFormats FileTree.empty sampleDataDir cleartext guest sequentialGroup
        (.ofBytes 32 []) 0 [] (.ok []) (.ok unlistedTicket) (ascii "/home/docs")).1 =
      .error [.text "ticket's auth log does not list us as a member"] ∧
    ¬ LeavesShares sampleFormats FileTree.empty refusedDisk sampleDataDir (.ok unlistedTicket) ∧
    (shareJoin sampleFormats refusedDisk sampleDataDir cleartext guest sequentialGroup
        (.ofBytes 32 []) 0 [] (.ok []) (.ok docsTicket) (ascii "/home/docs")).1 =
      .error [.text "share docs is already configured locally"] ∧
    ¬ LeavesShares sampleFormats FileTree.empty
      (cmdShareJoinDirect FileTree.empty sampleDataDir cleartext sampleFormats sequentialGroup
        sampleKeys guest 0 (.ok []) (.ok unlistedTicket) (ascii "/home/docs")).2 sampleDataDir
      (.ok unlistedTicket) := by
  have listed : sharesPath sampleDataDir <+: configPath sampleDataDir (ascii "docs") := by
    rw [configPath, List.append_assoc]
    exact List.prefix_append _ _
  refine ⟨by decide +kernel, ?_, by decide +kernel, ?_⟩
  · intro leaves
    exact absurd (leaves.shares _ listed) (by decide +kernel)
  · intro leaves
    exact absurd (leaves.shares _ listed) (by decide +kernel)

end Sample

end Peerdup.Daemon.ShareFiles
