import Peerdup.Daemon.PendingFiles
import Peerdup.Foundation.Crash

/-!
# A share's saves and a crash of the process

`auth.log`, `keys.bin` and every pending rotation are written beside their place and renamed.
A process that dies on the way leaves the files from before, or the saved one. What it had
written stays.
-/

set_option autoImplicit false

namespace Peerdup.Daemon.ShareFiles

open Foundation FileTree RawPath Call
open Auth (SignedOp signedOpCodec)
open Crypto (KeyRing)
open Rotation (SignedRotation)

/-- A crash leaves the directories created so far. -/
def createDirs (dir : RawPath) : Call FileTree SyncFailure where
  run tree :=
    match tree.createDirAllAt dir with
    | (.error error, tree) => (.error [.about "create_dir_all" dir, .cause error], tree)
    | (.ok (), tree) => (.ok (), tree)
  torn tree after := ∃ front, front <+: dir ∧ after = (tree.createDirAllAt front).2

/-- A crash leaves the file with a part of its content, or none of it. -/
def writeTo (dir : RawPath) (name : Name) (content : Bytes) : Call FileTree SyncFailure where
  run tree :=
    match tree.writeAt dir name content with
    | .error error => (.error [.about "writing" (dir ++ [name]), .cause error], tree)
    | .ok tree => (.ok (), tree)
  torn tree after := ∃ part, part <+: content ∧ tree.writeAt dir name part = .ok after

/-- A rename is done or not. -/
def renameTo (dir : RawPath) (source target : Name) : Call FileTree SyncFailure where
  run tree :=
    match tree.renameAt dir source target with
    | .error error =>
        (.error [.moving "renaming" (dir ++ [source]) (dir ++ [target]), .cause error], tree)
    | .ok tree => (.ok (), tree)
  torn _ _ := False

def saveCalls (dir : RawPath) (tmp name : Name) (content : Bytes) :
    List (Call FileTree SyncFailure) :=
  [createDirs (dir.rdropWhile isDot), writeTo dir tmp content, renameTo dir tmp name]

theorem runAll_saveCalls (tree : FileTree) (dir : RawPath) (tmp name : Name) (content : Bytes) :
    runAll (saveCalls dir tmp name content) tree = saveFile tree dir tmp name content := by
  simp only [saveCalls, runAll, createDirs, saveFile]
  rcases tree.createDirAllAt (dir.rdropWhile isDot) with ⟨result, made⟩
  cases result with
  | error error => rfl
  | ok done =>
      dsimp only [writeTo]
      cases made.writeAt dir tmp content with
      | error error => rfl
      | ok temporary =>
          dsimp only [renameTo]
          cases temporary.renameAt dir tmp name <;> rfl

/-- The files a share loop saves while it runs. -/
inductive DirSave where
  | authLog (ops : List SignedOp)
  | keysBin (ring : KeyRing)
  | pending (rotation : SignedRotation)

/-- An `auth.log` of lengths and counters within their types. -/
def HoldableLog (ops : List SignedOp) : Prop := ops.length < 2 ^ 64 ∧ ∀ op ∈ ops, op.Holdable

def DirSave.Holdable : DirSave → Prop
  | .authLog ops => HoldableLog ops
  | .keysBin _ => True
  | .pending rotation => rotation.Holdable

instance (ops : List SignedOp) : Decidable (HoldableLog ops) := inferInstanceAs (Decidable (_ ∧ _))

instance : (save : DirSave) → Decidable save.Holdable
  | .authLog ops => inferInstanceAs (Decidable (HoldableLog ops))
  | .keysBin _ => inferInstanceAs (Decidable True)
  | .pending rotation => inferInstanceAs (Decidable rotation.Holdable)

end Peerdup.Daemon.ShareFiles

namespace Peerdup.Daemon

open ShareFiles in
/-- The share directory once a save is done. -/
def ShareDir.save (dir : ShareDir) : DirSave → ShareDir
  | .authLog ops => { dir with authLog := some ops }
  | .keysBin ring => { dir with keysBin := some ring.fileBytes }
  | .pending rotation =>
      { dir with pendingRotations := Rotation.savePending dir.pendingRotations rotation }

end Peerdup.Daemon

namespace Peerdup.Daemon.ShareFiles

open Foundation FileTree RawPath Call
open Auth (SignedOp signedOpCodec)
open Crypto (KeyRing)
open Rotation (SignedRotation)

def DirSave.calls (dataDir : RawPath) (id : String) : DirSave → List (Call FileTree SyncFailure)
  | .authLog ops =>
      saveCalls (shareDir dataDir id) (ascii "auth.log.tmp") (ascii "auth.log")
        ((Codec.seq signedOpCodec).encode ops)
  | .keysBin ring =>
      saveCalls (shareDir dataDir id) (ascii "keys.bin.tmp") (ascii "keys.bin") ring.fileBytes
  | .pending rotation =>
      saveCalls (pendingDir dataDir id) (pendingTmp rotation.epoch) (pendingName rotation.epoch)
        (Rotation.signedRotationCodec.encode rotation)

/-- The disk holds the files of a share directory. Temporaries may lie beside them. -/
structure OnDisk (dataDir : RawPath) (id : String) (dir : ShareDir) (tree : FileTree) : Prop where
  log : ∀ ops, dir.authLog = some ops → HoldableLog ops
  rotations : ∀ rotation ∈ dir.pendingRotations, rotation.Holdable
  present : Present tree (shareDir dataDir id)
  authLog : tree.look (resolve [] (shareDir dataDir id) ++ [ascii "auth.log"]) =
    dir.authLog.map fun ops => .file ((Codec.seq signedOpCodec).encode ops)
  keysBin : tree.look (resolve [] (shareDir dataDir id) ++ [ascii "keys.bin"]) =
    dir.keysBin.map .file
  pending : PendingFiles tree dataDir id dir.pendingRotations
  distinct : (dir.pendingRotations.map SignedRotation.epoch).Nodup

variable {tree after : FileTree} {dataDir : RawPath} {id : String} {dir : ShareDir}

/-- Some paths aside, the disk differs at most in directories created on the way to one. Every
directory stays. -/
structure Framed (tree after : FileTree) (dir : RawPath) (touched : Path → Prop) : Prop where
  directories : ∀ path, tree.look path = some .directory → after.look path = some .directory
  elsewhere : ∀ path, ¬ touched path → after.look path = tree.look path ∨
    tree.look path = none ∧ after.look path = some .directory ∧
      ∃ front, front <+: dir ∧ resolve [] front = path

section Frame

variable {file base : RawPath} {touched : Path → Prop} {tmp name : Name} {content : Bytes}

theorem framed_of_creates {front : RawPath} (creates : CreatesDirs tree after [] front)
    (above : front <+: file) (touched : Path → Prop) : Framed tree after file touched where
  directories _ found := creates.keeps found
  elsewhere path _ := (creates path).imp_right fun ⟨absent, made, way, below, leads⟩ =>
    ⟨absent, made, way, below.trans above, leads⟩

theorem Framed.write {made : FileTree} (framed : Framed tree made file touched)
    (wrote : made.writeAt file name content = .ok after)
    (own : touched (resolve [] file ++ [name])) : Framed tree after file touched where
  directories path found := directory_write (writeAt_ok wrote).2.2 (framed.directories path found)
  elsewhere path other := by
    have apart : path ≠ resolve [] file ++ [name] := fun same => other (same ▸ own)
    rw [look_write (writeAt_ok wrote).2.2, if_neg apart]
    exact framed.elsewhere path other

theorem framed_of_saveFile (apart : tmp ≠ name)
    (saved : saveFile tree file tmp name content = (.ok (), after)) :
    Framed tree after file fun path =>
      path = resolve [] file ++ [tmp] ∨ path = resolve [] file ++ [name] where
  directories := (directories_of_saveFile saved).2
  elsewhere path other := by
    obtain ⟨notTmp, notName⟩ := not_or.mp other
    unfold saveFile at saved
    have creates := createDirAllAt_creates tree (file.rdropWhile isDot)
    dsimp only at saved
    split at saved
    · cases saved
    next made created =>
      rw [created] at creates
      split at saved
      · cases saved
      next temporary wrote =>
        have look := look_write (writeAt_ok wrote).2.2
        split at saved
        · cases saved
        next renamed =>
          cases saved
          have inPlace : temporary.look (resolve [] file ++ [tmp]) = some (.file content) := by
            rw [look, if_pos rfl]
          rw [look_renameAt apart inPlace renamed, if_neg notTmp, if_neg notName, look, if_neg notTmp]
          have frame := framed_of_creates creates (List.rdropWhile_prefix isDot file) fun _ => False
          exact frame.elsewhere path not_false

theorem creates_of_createDirs {result : Except SyncFailure Unit}
    (ran : (createDirs base).run tree = (result, after)) : CreatesDirs tree after [] base := by
  have creates := createDirAllAt_creates tree base
  dsimp only [createDirs] at ran
  split at ran
  · next refused =>
      cases ran
      rwa [refused] at creates
  · next created =>
      cases ran
      rwa [created] at creates

theorem Framed.writeTo {result : Except SyncFailure Unit} {made : FileTree}
    (framed : Framed tree made file (· = resolve [] file ++ [tmp]))
    (ran : (writeTo file tmp content).run made = (result, after)) :
    Framed tree after file (· = resolve [] file ++ [tmp]) := by
  dsimp only [ShareFiles.writeTo] at ran
  split at ran
  · cases ran
    exact framed
  · next wrote =>
      cases ran
      exact framed.write wrote rfl

theorem of_renameTo_failed {cause : SyncFailure}
    (ran : (renameTo file tmp name).run tree = (.error cause, after)) : after = tree := by
  dsimp only [renameTo] at ran
  split at ran
  · exact (congrArg Prod.snd ran).symm
  · cases ran

/-- A crash leaves a stray temporary and directories at most, or the save is done. -/
theorem crashed_saveCalls (crashed : Crashed (saveCalls file tmp name content) tree after) :
    Framed tree after file (· = resolve [] file ++ [tmp]) ∨
      saveFile tree file tmp name content = (.ok (), after) := by
  rw [← runAll_saveCalls]
  have parent := List.rdropWhile_prefix isDot file
  cases crashed with
  | between => exact .inl (framed_of_creates (.refl tree [] []) List.nil_prefix _)
  | inside torn =>
      obtain ⟨front, above, rfl⟩ := torn
      exact .inl (framed_of_creates (createDirAllAt_creates tree front) (above.trans parent) _)
  | failed refused => exact .inl (framed_of_creates (creates_of_createDirs refused) parent _)
  | later created rest =>
      have framed := framed_of_creates (creates_of_createDirs created) parent
        (· = resolve [] file ++ [tmp])
      cases rest with
      | between => exact .inl framed
      | inside torn =>
          obtain ⟨part, _, wrote⟩ := torn
          exact .inl (framed.write wrote rfl)
      | failed refused => exact .inl (framed.writeTo refused)
      | later wrote rest =>
          cases rest with
          | between => exact .inl (framed.writeTo wrote)
          | inside torn => exact torn.elim
          | failed refused =>
              rw [of_renameTo_failed refused]
              exact .inl (framed.writeTo wrote)
          | later renamed rest =>
              cases rest
              exact .inr (runAll_cons_ok_iff.mpr ⟨_, created, runAll_cons_ok_iff.mpr
                ⟨_, wrote, runAll_cons_ok_iff.mpr ⟨_, renamed, rfl⟩⟩⟩)

/-- No directory is created on the way to one that is there. -/
theorem Framed.same (framed : Framed tree after file touched) (present : Present tree file)
    {path : Path} (other : ¬ touched path) : after.look path = tree.look path := by
  rcases framed.elsewhere path other with same | ⟨absent, _, front, ⟨rest, whole⟩, leads⟩
  · exact same
  · rw [← whole] at present
    have there := present.above.directory
    rw [leads, absent] at there
    cases there

/-- At most the last directory is created where the one above is there. -/
theorem Framed.same_above (framed : Framed tree after (base ++ [name]) touched)
    (present : Present tree base) {path : Path} (other : ¬ touched path)
    (apart : path ≠ resolve [] (base ++ [name])) : after.look path = tree.look path := by
  rcases framed.elsewhere path other with same | ⟨absent, _, front, above, leads⟩
  · exact same
  · rcases List.prefix_concat_iff.mp above with whole | inside
    · exact absurd (leads.symm.trans (congrArg _ whole)) apart
    · obtain ⟨rest, whole⟩ := inside
      rw [← whole] at present
      have there := present.above.directory
      rw [leads, absent] at there
      cases there

end Frame

section OnDisk

variable {touched : Path → Prop}

theorem PendingFiles.congr {pending : List SignedRotation}
    (holds : PendingFiles tree dataDir id pending)
    (directories : ∀ path, tree.look path = some .directory → after.look path = some .directory)
    (same : ∀ rest, after.look (resolve [] (pendingDir dataDir id) ++ rest) =
      tree.look (resolve [] (pendingDir dataDir id) ++ rest)) :
    PendingFiles after dataDir id pending where
  way := holds.way
  there some_ := (holds.there some_).mono directories
  notFile content := by
    have here := same []
    rw [List.append_nil] at here
    rw [here]
    exact holds.notFile content
  files name node bin := by
    rw [same]
    exact holds.files name node bin

/-- A stray temporary is no rotation. -/
theorem PendingFiles.framed {pending : List SignedRotation} {epoch : Nat}
    (holds : PendingFiles tree dataDir id pending)
    (framed : Framed tree after (pendingDir dataDir id)
      (· = resolve [] (pendingDir dataDir id) ++ [pendingTmp epoch])) :
    PendingFiles after dataDir id pending where
  way := holds.way
  there some_ := (holds.there some_).mono framed.directories
  notFile content file := by
    have apart : resolve [] (pendingDir dataDir id) ≠
        resolve [] (pendingDir dataDir id) ++ [pendingTmp epoch] := by simp
    rcases framed.elsewhere _ apart with same | ⟨_, directory, _⟩
    · exact holds.notFile content (same ▸ file)
    · cases file.symm.trans directory
  files name node bin := by
    rcases framed.elsewhere _ (names_apart (pendingTmp_ne bin epoch).symm) with
      same | ⟨_, _, front, above, leads⟩
    · rw [same]
      exact holds.files name node bin
    · exact absurd leads (holds.way front name above bin)

/-- Files right in the share's directory are not among the pending rotations. -/
theorem OnDisk.pending_framed (holds : OnDisk dataDir id dir tree)
    (framed : Framed tree after (shareDir dataDir id) touched)
    (outside : ∀ path, touched path → ∃ name, name ≠ ascii "pending_rotations" ∧
      path = resolve [] (shareDir dataDir id) ++ [name]) :
    PendingFiles after dataDir id dir.pendingRotations := by
  refine holds.pending.congr framed.directories fun rest => framed.same holds.present fun own => ?_
  obtain ⟨name, apart, same⟩ := outside _ own
  rw [resolve_pendingDir, List.append_assoc] at same
  have first := (List.cons.inj (List.append_cancel_left same)).1
  exact apart first.symm

/-- A stray temporary in the share's directory is none of its files. -/
theorem OnDisk.strayed (holds : OnDisk dataDir id dir tree) {tmp : Name}
    (framed : Framed tree after (shareDir dataDir id)
      (· = resolve [] (shareDir dataDir id) ++ [tmp]))
    (notLog : ascii "auth.log" ≠ tmp) (notKeys : ascii "keys.bin" ≠ tmp)
    (notPending : tmp ≠ ascii "pending_rotations") : OnDisk dataDir id dir after where
  log := holds.log
  rotations := holds.rotations
  present := holds.present.mono framed.directories
  authLog := by rw [framed.same holds.present (names_apart notLog), holds.authLog]
  keysBin := by rw [framed.same holds.present (names_apart notKeys), holds.keysBin]
  pending := holds.pending_framed framed fun _ own => ⟨tmp, notPending, own⟩
  distinct := holds.distinct

/-- The other files of the share are not among the pending rotations. -/
theorem OnDisk.same_of_pending (holds : OnDisk dataDir id dir tree) {touched : Path → Prop}
    (framed : Framed tree after (pendingDir dataDir id) touched)
    (inside : ∀ path, touched path → ∃ name, path = resolve [] (pendingDir dataDir id) ++ [name])
    {name : Name} (apart : name ≠ ascii "pending_rotations") :
    after.look (resolve [] (shareDir dataDir id) ++ [name]) =
      tree.look (resolve [] (shareDir dataDir id) ++ [name]) := by
  refine framed.same_above holds.present ?_ ?_
  · intro own
    obtain ⟨last, same⟩ := inside _ own
    rw [resolve_pendingDir, List.append_assoc] at same
    have shorter := congrArg List.length (List.append_cancel_left same)
    cases shorter
  · rw [← pendingDir, resolve_pendingDir]
    exact names_apart apart

theorem atomic_saveCalls {View : Type} {holds : View → FileTree → Prop} {step : View → View}
    {file : RawPath} {tmp name : Name} {content : Bytes}
    (strays : ∀ view tree after, holds view tree →
      Framed tree after file (· = resolve [] file ++ [tmp]) → holds view after)
    (saves : ∀ view tree after, holds view tree →
      saveFile tree file tmp name content = (.ok (), after) → holds (step view) after) :
    Atomic holds step (saveCalls file tmp name content) where
  done view disk after begins ran := by
    rw [runAll_saveCalls] at ran
    exact saves view disk after begins ran
  crashed view disk after begins crashed :=
    (crashed_saveCalls crashed).imp (strays view disk after begins) (saves view disk after begins)

/-- A file right in the share's directory is replaced, and the others are kept. -/
theorem OnDisk.replaced (holds : OnDisk dataDir id dir tree) {tmp name : Name} {content : Bytes}
    (apart : tmp ≠ name) (tmpLegal : legalName tmp = true) (legal : legalName name = true)
    (notPending : tmp ≠ ascii "pending_rotations" ∧ name ≠ ascii "pending_rotations")
    (saved : saveFile tree (shareDir dataDir id) tmp name content = (.ok (), after)) :
    Present after (shareDir dataDir id) ∧
      after.look (resolve [] (shareDir dataDir id) ++ [name]) = some (.file content) ∧
      (∀ other, other ≠ tmp → other ≠ name →
        after.look (resolve [] (shareDir dataDir id) ++ [other]) =
          tree.look (resolve [] (shareDir dataDir id) ++ [other])) ∧
      PendingFiles after dataDir id dir.pendingRotations := by
  obtain ⟨present, written, _⟩ := saveFile_ok holds.present apart tmpLegal legal saved
  have framed := framed_of_saveFile apart saved
  refine ⟨present, written, ?_, holds.pending_framed framed ?_⟩
  · intro other notTmp notName
    exact framed.same holds.present (not_or.mpr ⟨names_apart notTmp, names_apart notName⟩)
  · rintro path (own | own)
    · exact ⟨tmp, notPending.1, own⟩
    · exact ⟨name, notPending.2, own⟩

theorem atomic_authLog {ops : List SignedOp} (holdable : HoldableLog ops) :
    Atomic (OnDisk dataDir id) (·.save (.authLog ops)) (DirSave.calls dataDir id (.authLog ops)) := by
  refine atomic_saveCalls ?_ ?_
  · intro dir tree after holds framed
    exact holds.strayed framed (by decide) (by decide) (by decide)
  · intro dir tree after holds saved
    obtain ⟨present, written, others, pending⟩ :=
      holds.replaced (by decide) (by decide) (by decide) (by decide) saved
    refine ⟨?_, holds.rotations, present, written, ?_, pending, holds.distinct⟩
    · intro saved same
      cases same
      exact holdable
    rw [others _ (by decide) (by decide), holds.keysBin]
    rfl

theorem atomic_keysBin (ring : KeyRing) :
    Atomic (OnDisk dataDir id) (·.save (.keysBin ring)) (DirSave.calls dataDir id (.keysBin ring)) := by
  refine atomic_saveCalls ?_ ?_
  · intro dir tree after holds framed
    exact holds.strayed framed (by decide) (by decide) (by decide)
  · intro dir tree after holds saved
    obtain ⟨present, written, others, pending⟩ :=
      holds.replaced (by decide) (by decide) (by decide) (by decide) saved
    refine ⟨holds.log, holds.rotations, present, ?_, written, pending, holds.distinct⟩
    rw [others _ (by decide) (by decide), holds.authLog]
    rfl

theorem atomic_pending {rotation : SignedRotation} (holdable : rotation.Holdable) :
    Atomic (OnDisk dataDir id) (·.save (.pending rotation))
      (DirSave.calls dataDir id (.pending rotation)) := by
  refine atomic_saveCalls ?_ ?_
  · intro dir tree after holds framed
    have inside : ∀ path, path = resolve [] (pendingDir dataDir id) ++ [pendingTmp rotation.epoch] →
        ∃ name, path = resolve [] (pendingDir dataDir id) ++ [name] := fun _ own => ⟨_, own⟩
    refine ⟨holds.log, holds.rotations, holds.present.mono framed.directories, ?_, ?_,
      holds.pending.framed framed, holds.distinct⟩
    · rw [holds.same_of_pending framed inside (by decide), holds.authLog]
    · rw [holds.same_of_pending framed inside (by decide), holds.keysBin]
  · intro dir tree after holds saved
    have apart := pendingTmp_ne (extension_pendingName rotation.epoch) rotation.epoch
    have framed := framed_of_saveFile apart saved
    have inside : ∀ path, path = resolve [] (pendingDir dataDir id) ++ [pendingTmp rotation.epoch] ∨
        path = resolve [] (pendingDir dataDir id) ++ [pendingName rotation.epoch] →
          ∃ name, path = resolve [] (pendingDir dataDir id) ++ [name] := by
      rintro path (own | own)
      · exact ⟨_, own⟩
      · exact ⟨_, own⟩
    refine ⟨holds.log, ?_, holds.present.mono framed.directories, ?_, ?_, ?_,
      nodup_replaceLatest holds.distinct _⟩
    · intro other member
      rcases mem_replaceLatest.mp member with rfl | ⟨kept, _⟩
      · exact holdable
      · exact holds.rotations other kept
    · rw [holds.same_of_pending framed inside (by decide), holds.authLog]
      rfl
    · rw [holds.same_of_pending framed inside (by decide), holds.keysBin]
      rfl
    · rcases holds.pending.save holdable.1 with ⟨_, _, refused, _⟩ | ⟨_, again, files⟩
      · cases refused.symm.trans saved
      · cases again.symm.trans saved
        exact files

theorem atomic_save {save : DirSave} (holdable : save.Holdable) :
    Atomic (OnDisk dataDir id) (·.save save) (save.calls dataDir id) := by
  cases save with
  | authLog ops => exact atomic_authLog holdable
  | keysBin ring => exact atomic_keysBin ring
  | pending rotation => exact atomic_pending holdable

/-- A crash anywhere in a list of saves leaves what the first few of them make. -/
theorem crashed_saves {saves : List DirSave} (holds : OnDisk dataDir id dir tree)
    (holdable : ∀ save ∈ saves, save.Holdable)
    (crashed : Crashed (saves.flatMap (·.calls dataDir id)) tree after) :
    ∃ front, front <+: saves ∧ OnDisk dataDir id (front.foldl ShareDir.save dir) after :=
  crashed_prefix (fun save member => atomic_save (holdable save member)) holds crashed

theorem ran_saves {saves : List DirSave} (holds : OnDisk dataDir id dir tree)
    (holdable : ∀ save ∈ saves, save.Holdable)
    (ran : runAll (saves.flatMap (·.calls dataDir id)) tree = (.ok (), after)) :
    OnDisk dataDir id (saves.foldl ShareDir.save dir) after :=
  ran_all (fun save member => atomic_save (holdable save member)) holds ran

end OnDisk

end Peerdup.Daemon.ShareFiles
