import Peerdup.Daemon.CrashRecovery

/-!
# A crash in the middle of a revocation

`handle_revoke` saves the log, the keyring and the rotation in turn. A crash in between leaves
a share that has lost the member and has no rotation to publish, and the command that would
make one is refused from then on.
-/

set_option autoImplicit false

namespace Peerdup.Daemon

open Foundation Auth Crypto Rotation ShareFiles ShareLoop RawPath

variable {crdt : GroupCrdt} {crypto : Primitives} {config : ShareConfig}
  {identity : crypto.PrivateKey} {dataDir : RawPath} {loop next : ShareLoop crdt}
  {entropy : Entropy} {target : MemberId}

/-- The same share, as far as a restart can tell. -/
structure SameShare (left right : ShareLoop crdt) : Prop where
  ops : left.authState.ops = right.authState.ops
  members : ∀ groupId, left.authState.members groupId = right.authState.members groupId
  key : left.key = right.key
  pendingRotations : left.pendingRotations = right.pendingRotations

theorem SameShare.trans {left middle right : ShareLoop crdt} (first : SameShare left middle)
    (second : SameShare middle right) : SameShare left right where
  ops := first.ops.trans second.ops
  members groupId := (first.members groupId).trans (second.members groupId)
  key := first.key.trans second.key
  pendingRotations := first.pendingRotations.trans second.pendingRotations

theorem prefix_pair {front : List DirSave} {first second : DirSave}
    (above : front <+: [first, second]) : front = [] ∨ front = [first] ∨ front = [first, second] := by
  rcases List.prefix_concat_iff.mp (show front <+: [first] ++ [second] from above) with whole | inside
  · exact .inr (.inr whole)
  · rcases List.prefix_concat_iff.mp (show front <+: [] ++ [first] from inside) with whole | none_
    · exact .inr (.inl whole)
    · exact .inl (List.prefix_nil.mp none_)

theorem sameShare_of_dir (kept : loop.Kept crypto) (again : next.Kept crypto)
    (same : next.dir = loop.dir) : SameShare next loop := by
  obtain ⟨loaded, read, ops, members⟩ := kept.mirrored.auth
  obtain ⟨reloaded, reread, reops, remembers⟩ := again.mirrored.auth
  rw [same, read] at reread
  cases reread
  refine ⟨reops.symm.trans ops, fun groupId => (remembers groupId).symm.trans (members groupId), ?_, ?_⟩
  · have key := (again.mirrored.key loop.key.currentKey).symm.trans
      (same ▸ kept.mirrored.key loop.key.currentKey)
    exact Except.ok.inj (congrArg Prod.fst key)
  · rw [← again.pending, ← kept.pending, same]

variable (crypto config identity) in
/-- What a revocation saves, and the loop it leaves: nothing at all, or the log, the keyring and
mostly the rotation. -/
theorem revokeSaves_cases (kept : loop.Kept crypto) (entropy : Entropy) (target : MemberId) :
    loop.revokeSaves crypto config identity entropy target = [] ∨
    loop.authState.isMember (groupIdFor crypto config.id) target = true ∧
      loop.authState.isEmpty = false ∧
      ∃ next, crdt.process loop.authState.crdt (loop.removal crypto config identity target) =
          .ok next ∧
        let removed := loop.afterOp next (loop.removal crypto config identity target)
        let rotated := removed.withRing (loop.key.push entropy.newKey)
        let saves := [DirSave.authLog removed.authState.ops, .keysBin rotated.key]
        loop.revokeSaves crypto config identity entropy target = saves ∧
            (loop.handleRevoke crypto config identity entropy target).2 = rotated ∨
          ∃ rotation, loop.revokeSaves crypto config identity entropy target =
              saves ++ [.pending rotation] ∧
            (loop.handleRevoke crypto config identity entropy target).2 =
              rotated.queueRotation rotation := by
  rw [handleRevoke_eq, revokeSaves]
  by_cases empty : loop.authState.isEmpty = true
  · rw [if_pos empty]
    exact .inl rfl
  rw [if_neg empty, if_neg empty]
  dsimp only
  by_cases absent : (!loop.authState.isMember (groupIdFor crypto config.id) target) = true
  · rw [if_pos absent]
    exact .inl rfl
  rw [if_neg absent, if_neg absent, AuthState.removeMember, AuthState.author_eq,
    kept.rotateKeyringSaves]
  dsimp only [removal]
  cases crdt.process loop.authState.crdt (loop.authState.authored crypto identity
      (groupIdFor crypto config.id) (.remove (.individual target))) with
  | error cause => exact .inl rfl
  | ok next =>
      refine .inr ⟨by simpa using absent, Bool.eq_false_iff.mpr empty, next, rfl, ?_⟩
      dsimp only
      rw [kept.synced, loadOrCreateKeyring_fileBytes]
      dsimp only [remaining, afterOp, withAuth, ShareLoop.saveAuth]
      generalize buildSignedRotation crypto identity entropy.envelope (loop.key.currentEpoch + 1)
        entropy.newKey _ = outcome
      cases outcome with
      | error failure => exact .inl ⟨rfl, rfl⟩
      | ok rotation => exact .inr ⟨rotation, rfl, rfl⟩

/-- The member is out and nothing will be published for it: no new epoch is queued, and
revoking again is refused. -/
structure HalfRevoked (crypto : Primitives) (config : ShareConfig) (identity : crypto.PrivateKey)
    (loop : ShareLoop crdt) (entropy : Entropy) (target : MemberId) (next : ShareLoop crdt) :
    Prop where
  gone : ∀ member, next.authState.isMember (groupIdFor crypto config.id) member = true ↔
    member ≠ target ∧ loop.authState.isMember (groupIdFor crypto config.id) member = true
  key : next.key = loop.key ∨ next.key = loop.key.push entropy.newKey
  unqueued : next.pendingRotations = loop.pendingRotations
  older : ∀ rotation ∈ next.pendingRotations, rotation.epoch ≤ loop.key.currentEpoch
  refused : ∀ again, next.handleRevoke crypto config identity again target =
    (.error [toHex target ++ " is not a current member of share " ++ config.id], next)

/-- The share with the log of a removal, and a ring of which no rotation is queued. -/
theorem halfRevoked_of_same (group : crdt.Lawful)
    (out : loop.TakesOut crypto config identity target) (kept : loop.Kept crypto)
    {after : crdt.State} (accepted : crdt.process loop.authState.crdt
      (loop.removal crypto config identity target) = .ok after) {middle : ShareLoop crdt}
    (same : SameShare next middle)
    (auth : middle.authState =
      (loop.afterOp after (loop.removal crypto config identity target)).authState)
    (key : middle.key = loop.key ∨ middle.key = loop.key.push entropy.newKey)
    (unqueued : middle.pendingRotations = loop.pendingRotations) :
    HalfRevoked crypto config identity loop entropy target next := by
  have gone : ∀ member, next.authState.isMember (groupIdFor crypto config.id) member = true ↔
      member ≠ target ∧ loop.authState.isMember (groupIdFor crypto config.id) member = true := by
    intro member
    rw [AuthState.isMember_iff, same.members, auth, ← AuthState.isMember_iff]
    exact isMember_removed group out accepted member
  have queue : next.pendingRotations = loop.pendingRotations :=
    same.pendingRotations.trans unqueued
  refine ⟨gone, by rw [same.key]; exact key, queue, ?_, fun again => ?_⟩
  · intro rotation member
    rw [queue, ← kept.pending] at member
    exact kept.queued rotation (ShareLoop.mem_sortByEpoch.mp member)
  · have nonempty : next.authState.isEmpty = false := by
      rw [AuthState.isEmpty, same.ops, auth]
      exact List.isEmpty_eq_false_iff.mpr (List.append_ne_nil_of_right_ne_nil _ (List.cons_ne_nil _ _))
    have absent : next.authState.isMember (groupIdFor crypto config.id) target = false :=
      Bool.eq_false_iff.mpr fun held => ((gone target).mp held).1 rfl
    rw [handleRevoke_eq, nonempty, absent]
    rfl

/-- Wherever the process dies in a revocation, in any life of the share with any crashes
before, the share starts again as it was, as it would be, or half revoked. -/
theorem crashedRevocation_left (crypto : Primitives) (lawful : crypto.Lawful) (crdt : GroupCrdt)
    (group : crdt.Lawful) (heads : crdt.HeadsProcessed crypto) (config : ShareConfig)
    (identity : crypto.PrivateKey) (dataDir : RawPath) (created : Key) (dir : ShareDir)
    (start loop : ShareLoop crdt) (tree disk : FileTree)
    (spawned : spawnShareTask crypto created dir = .ok start)
    (queued : ∀ rotation ∈ dir.pendingRotations, rotation.epoch ≤ start.key.currentEpoch)
    (holds : OnDisk dataDir config.id start.dir tree)
    (ran : Relation.ReflTransGen (CrashStep crypto config identity dataDir) (start, tree) (loop, disk))
    (entropy : Entropy) (target : MemberId) (out : loop.TakesOut crypto config identity target)
    (admissible : Admissible crypto config identity loop (.revoke entropy target))
    (after : FileTree) (crashed : Call.Crashed
      (eventCalls crypto config identity dataDir loop (.revoke entropy target)) disk after)
    (other : Key) (next : ShareLoop crdt)
    (restarts : Restarts crypto dataDir config.id other after next) :
    SameShare next loop ∨
      SameShare next (loop.handleRevoke crypto config identity entropy target).2 ∨
      HalfRevoked crypto config identity loop entropy target next := by
  have begun : Durable crypto config dataDir (start, tree) :=
    ⟨kept_of_spawn spawned queued, holds⟩
  have durable := begun.run lawful heads ran
  obtain ⟨front, found, above, dir, recovered, keptFound⟩ :=
    durable.recovers lawful heads admissible crashed other
  have kept : loop.Kept crypto := durable.kept
  obtain ⟨states, keys, queue⟩ := recovered.agree restarts
  have same : SameShare next found :=
    ⟨by rw [states], fun groupId => by rw [states], keys, queue⟩
  have began : front = [] → SameShare next loop := by
    rintro rfl
    exact same.trans (sameShare_of_dir kept keptFound dir)
  rcases revokeSaves_cases crypto config identity kept entropy target with
    none_ | ⟨member, nonempty, state, accepted, outcome⟩
  · exact .inl (began (List.prefix_nil.mp (none_ ▸ above)))
  obtain ⟨_, new⟩ := admissible.unrejected nonempty member
  have removed := kept.afterOp lawful heads _ _ accepted new
  have rotated : ((loop.afterOp state (loop.removal crypto config identity target)).withRing
      (loop.key.push entropy.newKey)).Kept crypto := removed.push entropy.newKey
  have halfway : front <+: [DirSave.authLog (loop.afterOp state
      (loop.removal crypto config identity target)).authState.ops,
        .keysBin (loop.key.push entropy.newKey)] →
      SameShare next loop ∨ HalfRevoked crypto config identity loop entropy target next := by
    intro first
    rcases prefix_pair first with rfl | rfl | rfl
    · exact .inl (began rfl)
    · have unrotated := same.trans (sameShare_of_dir removed keptFound dir)
      exact .inr (halfRevoked_of_same group out kept accepted unrotated rfl (.inl rfl) rfl)
    · have unqueued := same.trans (sameShare_of_dir rotated keptFound dir)
      exact .inr (halfRevoked_of_same group out kept accepted unqueued rfl (.inr rfl) rfl)
  rcases outcome with ⟨saves, _⟩ | ⟨rotation, saves, finished⟩
  · exact (halfway (saves ▸ above)).imp_right .inr
  rw [ShareLoop.saves, saves] at above
  rcases List.prefix_concat_iff.mp above with whole | first
  · have outcomeKept := kept.revoke lawful heads admissible.unrejected
    refine .inr (.inl (same.trans (sameShare_of_dir outcomeKept keptFound ?_)))
    rw [dir, whole, finished]
    rfl
  · exact (halfway first).imp_right .inr

section Sample

open Reference FileTree

theorem revokeSaves_of_removed (created : loop.authState.isEmpty = false)
    (present : loop.authState.isMember (groupIdFor crypto config.id) target = true)
    (removed : (loop.authState.removeMember crypto identity (groupIdFor crypto config.id)
      target).1.isOk = true) :
    ∃ ops rest, loop.revokeSaves crypto config identity entropy target = .authLog ops :: rest := by
  rw [revokeSaves, created, present]
  revert removed
  rcases loop.authState.removeMember crypto identity (groupIdFor crypto config.id) target with
    ⟨result, authState⟩
  cases result with
  | error failure => exact fun removed => by cases removed
  | ok op => exact fun _ => ⟨_, _, rfl⟩

theorem log_saved {tree : FileTree} {id : String} {dir : ShareDir}
    (holds : OnDisk dataDir id dir tree)
    (tmpFree : tree.look (resolve [] (shareDir dataDir id) ++ [ascii "auth.log.tmp"]) ≠
      some .directory) (ops : List SignedOp) :
    ∃ after, Call.runAll (DirSave.calls dataDir id (.authLog ops)) tree = (.ok (), after) ∧
      after.look (resolve [] (shareDir dataDir id) ++ [ascii "auth.log.tmp"]) = none := by
  have free : tree.look (resolve [] (shareDir dataDir id) ++ [ascii "auth.log"]) ≠
      some .directory := by
    rw [holds.authLog]
    cases dir.authLog with
    | none => exact fun contra => by cases contra
    | some held => exact fun contra => by cases contra
  obtain ⟨after, saved, _⟩ := saveFile_free holds.present (by decide) (by decide) (by decide) tmpFree
    free ((Codec.seq signedOpCodec).encode ops)
  refine ⟨after, ?_, tmp_of_saveFile (by decide) saved⟩
  rw [DirSave.calls, runAll_saveCalls]
  exact saved

/-- The founder's share with the guest in it. -/
def invitedDocs : ShareLoop sequentialGroup :=
  ((docsLoop founded).handleInvite cleartext docsConfig founder guest.val .writer .sync).2

theorem invitedDocs_reached : ∃ disk, Relation.ReflTransGen
      (CrashStep cleartext docsConfig founder sampleDataDir) (docsLoop founded, docsDisk)
        (invitedDocs, disk) ∧
    disk.look (resolve [] (shareDir sampleDataDir "docs") ++ [ascii "auth.log.tmp"]) = none := by
  have free : docsDisk.look (resolve [] (shareDir sampleDataDir "docs") ++ [ascii "auth.log.tmp"]) ≠
      some .directory := by decide +kernel
  obtain ⟨ops, saves⟩ := guestInvitation_saves
  obtain ⟨disk, saved, cleaned⟩ := log_saved docsDisk_holds free ops
  refine ⟨disk, .single (.handled guestInvitation_admissible rfl ?_), cleaned⟩
  rw [eventCalls, ShareLoop.saves, saves, List.flatMap_singleton]
  exact saved

theorem guestRevocation_admissible : Admissible cleartext docsConfig founder invitedDocs
    (.revoke docsEntropy guest.val) := by
  refine ⟨fun _ _ => ⟨.inl ?_, ?_⟩, by decide +kernel⟩
  · have taken : (sequentialGroup.process invitedDocs.authState.crdt
        (invitedDocs.removal cleartext docsConfig founder guest.val)).isOk = true := by
      decide +kernel
    cases accepted : sequentialGroup.process invitedDocs.authState.crdt
        (invitedDocs.removal cleartext docsConfig founder guest.val) with
    | error cause =>
        rw [accepted] at taken
        cases taken
    | ok next => exact ⟨next, accepted, trivial⟩
  · unfold NewId
    decide +kernel

/-- The process dies once the log without the guest is saved. -/
theorem loggedRevocation_left : ∃ (disk after : FileTree) (next : ShareLoop sequentialGroup),
    Call.Crashed (eventCalls cleartext docsConfig founder sampleDataDir invitedDocs
      (.revoke docsEntropy guest.val)) disk after ∧
    Restarts cleartext sampleDataDir "docs" (.ofBytes 32 [9]) after next ∧
    (SameShare next invitedDocs ∨
      SameShare next (invitedDocs.handleRevoke cleartext docsConfig founder docsEntropy guest.val).2 ∨
      HalfRevoked cleartext docsConfig founder invitedDocs docsEntropy guest.val next) := by
  obtain ⟨disk, reached, cleaned⟩ := invitedDocs_reached
  have begun : Durable cleartext docsConfig sampleDataDir (docsLoop founded, docsDisk) :=
    ⟨kept_of_spawn (spawn_docsLoop (.ofBytes 32 [9])) (fun _ member => absurd member List.not_mem_nil),
      docsDisk_holds⟩
  have durable := begun.run cleartext_lawful sequentialGroup_headsProcessed reached
  have free : disk.look (resolve [] (shareDir sampleDataDir "docs") ++ [ascii "auth.log.tmp"]) ≠
      some .directory := by
    rw [cleaned]
    exact fun contra => by cases contra
  obtain ⟨ops, rest, saves⟩ : ∃ ops rest,
      invitedDocs.revokeSaves cleartext docsConfig founder docsEntropy guest.val =
        .authLog ops :: rest :=
    revokeSaves_of_removed (by decide +kernel) (by decide +kernel) (by decide +kernel)
  have holds : OnDisk sampleDataDir "docs" invitedDocs.dir disk := durable.holds
  obtain ⟨after, saved, _⟩ := log_saved holds free ops
  have crashed : Call.Crashed (eventCalls cleartext docsConfig founder sampleDataDir invitedDocs
      (.revoke docsEntropy guest.val)) disk after := by
    rw [eventCalls, ShareLoop.saves, saves, List.flatMap_cons]
    exact Call.crashed_of_front saved
  have recovers := @Durable.recovers sequentialGroup cleartext docsConfig founder sampleDataDir
    (invitedDocs, disk) (.revoke docsEntropy guest.val) after durable cleartext_lawful
    sequentialGroup_headsProcessed
  dsimp only at recovers
  obtain ⟨_, next, _, _, restarts, _⟩ :=
    recovers guestRevocation_admissible crashed (.ofBytes 32 [9])
  exact ⟨disk, after, next, crashed, restarts, crashedRevocation_left cleartext cleartext_lawful
    sequentialGroup sequentialGroup_lawful sequentialGroup_headsProcessed docsConfig founder
    sampleDataDir (.ofBytes 32 [9]) (docsLoop founded).dir (docsLoop founded) invitedDocs docsDisk
    disk (spawn_docsLoop _) (fun _ member => absurd member List.not_mem_nil) docsDisk_holds reached
    docsEntropy guest.val (sequentialGroup_takesOut _ _) guestRevocation_admissible after crashed
    (.ofBytes 32 [9]) next restarts⟩

end Sample

end Peerdup.Daemon
