import Peerdup.AuthEncoding
import Peerdup.AuthReplay
import Peerdup.Daemon.ShareScope
import Peerdup.Foundation.PresentPath

/-!
# `auth.log` on the disk

What `save` has written, `load` decodes and replays.
-/

set_option autoImplicit false

namespace Peerdup.Daemon.ShareFiles

open Foundation Auth FileTree RawPath

/-- `auth::load`. -/
def loadAuth {crdt : GroupCrdt} (crypto : Primitives) (tree : FileTree) (dir : RawPath) :
    Except SyncFailure (AuthState crdt) :=
  let path := dir ++ [ascii "auth.log"]
  if !tree.existsAt path then .ok .empty
  else
    match tree.readAt path with
    | .error error => .error [.about "reading" path, .cause error]
    | .ok bytes =>
        match (Codec.seq signedOpCodec).decode bytes with
        | none => .error [.about "decoding" path]
        | some (ops, _) =>
            match AuthState.load crypto (some ops) with
            | .error failure => .error (failure.map .text)
            | .ok state => .ok state

variable {tree after : FileTree} {dir : RawPath} {tmp name : Name} {content : Bytes}

theorem readAt_of_look (legal : legalName name = true)
    (walked : tree.walk [] dir = some (resolve [] dir))
    (written : tree.look (resolve [] dir ++ [name]) = some (.file content)) :
    tree.existsAt (dir ++ [name]) = true ∧ tree.readAt (dir ++ [name]) = .ok content := by
  have present : Present tree dir := ⟨walked, look_parent written⟩
  rw [present.existsAt_eq legal, present.readAt_eq legal, written]
  exact ⟨rfl, read_ok_iff.mpr written⟩

/-- Its directory is there, like every directory from before. -/
theorem directories_of_saveFile (saved : saveFile tree dir tmp name content = (.ok (), after)) :
    after.walk [] dir = some (resolve [] dir) ∧
      ∀ path, tree.look path = some .directory → after.look path = some .directory := by
  unfold saveFile at saved
  have created := createDirAllAt_creates tree (dir.rdropWhile isDot)
  dsimp only at saved
  split at saved
  · cases saved
  next made outcome =>
    rw [outcome] at created
    split at saved
    · cases saved
    next temporary wrote =>
      split at saved
      · cases saved
      next renamed =>
        cases saved
        obtain ⟨walked, _, written⟩ := writeAt_ok wrote
        have onward := walk_mono (fun _ found => directory_write written found) walked
        unfold renameAt at renamed
        rw [onward] at renamed
        refine ⟨walk_mono (fun _ found => directory_rename renamed found) onward, ?_⟩
        intro path found
        exact directory_rename renamed (directory_write written (created.keeps found))

/-- A file that has been saved is there to be read. -/
theorem readAt_of_saveFile (apart : tmp ≠ name) (legal : legalName name = true)
    (saved : saveFile tree dir tmp name content = (.ok (), after)) :
    after.existsAt (dir ++ [name]) = true ∧ after.readAt (dir ++ [name]) = .ok content := by
  have written : (saveFile tree dir tmp name content).2.look (resolve [] dir ++ [name]) =
      some (.file content) := (saveFile_spec apart tree dir content).written (by rw [saved])
  rw [saved] at written
  exact readAt_of_look legal (directories_of_saveFile saved).1 written

theorem loadAuth_of_read {crdt : GroupCrdt} {crypto : Primitives} {ops : List SignedOp}
    {loaded : AuthState crdt} (there : tree.existsAt (dir ++ [ascii "auth.log"]) = true)
    (read : tree.readAt (dir ++ [ascii "auth.log"]) = .ok ((Codec.seq signedOpCodec).encode ops))
    (short : ops.length < 2 ^ 64) (holdable : ∀ op ∈ ops, op.Holdable)
    (replays : AuthState.load crypto (some ops) = .ok loaded) :
    loadAuth crypto tree dir = .ok loaded := by
  have decoded := decode_log short holdable []
  rw [List.append_nil] at decoded
  unfold loadAuth
  dsimp only
  rw [there, read]
  dsimp only
  rw [decoded]
  dsimp only
  rw [if_neg (by decide), replays]

/-- Any calls that return `Ok` leave a log that is saved and loaded without loss. -/
theorem savedLog_replays (crypto : Primitives) (lawful : crypto.Lawful) (crdt : GroupCrdt)
    (heads : crdt.HeadsProcessed crypto) (rejects : crdt.RejectsProcessed crypto)
    (calls : List (AuthCall crypto)) (state : AuthState crdt)
    (ran : (AuthState.caller crypto).run .empty calls = some state) :
    (state.ops.map (·.computeId crypto)).Nodup ∧ CausallyOrdered crypto state.ops ∧
      crdt.processAll crdt.new state.ops = .ok state.crdt ∧
      ∀ tree dataDir id after, state.ops.length < 2 ^ 64 → (∀ op ∈ state.ops, op.Holdable) →
        saveAuth tree (shareDir dataDir id) state.ops = (.ok (), after) →
        loadAuth crypto after (shareDir dataDir id) =
          .ok (⟨state.crdt, state.ops, []⟩ : AuthState crdt) := by
  have logged := AuthState.logged_of_run lawful heads ran
  refine ⟨nodup_of_processAll rejects logged.processed, logged.ordered, logged.processed, ?_⟩
  intro tree dataDir id after short holdable saved
  obtain ⟨there, read⟩ := readAt_of_saveFile (by decide) (by decide) saved
  exact loadAuth_of_read there read short holdable (logged.replayable_ops rejects).load_ops

section Sample

open Reference AuthState

theorem rejoined_replays : ∃ state : AuthState sequentialGroup,
    (caller cleartext).run .empty rejoined = some state ∧
      (state.ops.map (·.computeId cleartext)).Nodup ∧ state.ops.length = 3 ∧
      loadAuth cleartext (saveAuth FileTree.empty (shareDir sampleDataDir "docs") state.ops).2
        (shareDir sampleDataDir "docs") = .ok ⟨state.crdt, state.ops, []⟩ := by
  have checked : ((caller cleartext).run (.empty : AuthState sequentialGroup) rejoined).all
      (fun state => decide (state.ops.length = 3 ∧ (∀ op ∈ state.ops, op.Holdable) ∧
        (saveAuth FileTree.empty (shareDir sampleDataDir "docs") state.ops).1 = .ok ())) = true ∧
      ((caller cleartext).run (.empty : AuthState sequentialGroup) rejoined).isSome = true := by
    decide +kernel
  obtain ⟨held, some_⟩ := checked
  obtain ⟨state, ran⟩ := Option.isSome_iff_exists.mp some_
  rw [ran] at held
  obtain ⟨count, holdable, saved⟩ := of_decide_eq_true held
  obtain ⟨nodup, _, _, loads⟩ := savedLog_replays cleartext cleartext_lawful sequentialGroup
    sequentialGroup_headsProcessed sequentialGroup_rejectsProcessed rejoined state ran
  have short : state.ops.length < 2 ^ 64 := by
    rw [count]
    decide
  exact ⟨state, ran, nodup, count, loads _ _ _ _ short holdable (Prod.ext saved rfl)⟩

end Sample

end Peerdup.Daemon.ShareFiles
