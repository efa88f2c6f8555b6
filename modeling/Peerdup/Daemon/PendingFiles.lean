import Peerdup.Daemon.PresentShare
import Peerdup.Foundation.FileName
import Peerdup.Foundation.Latest
import Peerdup.RotationEncoding

/-!
# Pending rotations on the disk

`save_pending` writes one file per epoch. `load_pending` reads them all, in the order that
the directory lists them, and sorts what it has read.
-/

set_option autoImplicit false

namespace Peerdup.Daemon.ShareFiles

open Foundation FileTree RawPath
open Rotation (SignedRotation signedRotationCodec sortByEpoch)

def pendingDir (dataDir : RawPath) (id : String) : RawPath :=
  shareDir dataDir id ++ [ascii "pending_rotations"]

def pendingName (epoch : Nat) : Name := ascii (toString epoch ++ ".bin")

def pendingTmp (epoch : Nat) : Name := ascii (toString epoch ++ ".bin.tmp")

section Operations

variable (tree : FileTree) (dataDir : RawPath) (id : String)

def savePending (rotation : SignedRotation) : Except SyncFailure Unit × FileTree :=
  saveFile tree (pendingDir dataDir id) (pendingTmp rotation.epoch) (pendingName rotation.epoch)
    (signedRotationCodec.encode rotation)

def loadPendingEntry (out : List SignedRotation) (entry : Name × Node) :
    Except SyncFailure (List SignedRotation) :=
  let path := pendingDir dataDir id ++ [entry.1]
  if extension entry.1 ≠ some (ascii "bin") then .ok out
  else
    match tree.readAt path with
    | .error error => .error [.about "reading" path, .cause error]
    | .ok bytes =>
        match signedRotationCodec.decode bytes with
        | none => .error [.about "decoding" path]
        | some (rotation, _) => .ok (out ++ [rotation])

def loadPending : Except SyncFailure (List SignedRotation) :=
  let dir := pendingDir dataDir id
  if !tree.existsAt dir then .ok []
  else
    match tree.readDirAt dir with
    | .error error => .error [.about "read_dir" dir, .cause error]
    | .ok entries =>
        match entries.foldlM (loadPendingEntry tree dataDir id) [] with
        | .error failure => .error failure
        | .ok rotations => .ok (sortByEpoch rotations)

/-- Calls in order, and the rotations of those that returned `Ok`. -/
def savePendings (tree : FileTree) : List SignedRotation → List SignedRotation × FileTree
  | [] => ([], tree)
  | rotation :: rotations =>
      match savePending tree dataDir id rotation with
      | (.error _, tree) => savePendings tree rotations
      | (.ok (), tree) =>
          let (saved, tree) := savePendings tree rotations
          (rotation :: saved, tree)

end Operations

theorem pendingName_eq (epoch : Nat) :
    pendingName epoch = ascii (toString epoch) ++ 0x2E :: ascii "bin" := ascii_append _ _

theorem pendingTmp_eq (epoch : Nat) :
    pendingTmp epoch = (ascii (toString epoch) ++ ascii ".bin") ++ 0x2E :: ascii "tmp" := by
  rw [pendingTmp, ascii_append, List.append_assoc]
  rfl

theorem extension_pendingName (epoch : Nat) : extension (pendingName epoch) = some (ascii "bin") := by
  rw [pendingName_eq]
  exact extension_append (ascii_toString_ne_nil epoch) (by decide) (by decide)

theorem extension_pendingTmp (epoch : Nat) : extension (pendingTmp epoch) = some (ascii "tmp") := by
  rw [pendingTmp_eq]
  have named := List.append_ne_nil_of_left_ne_nil (ascii_toString_ne_nil epoch) (ascii ".bin")
  exact extension_append named (by decide) (by decide)

theorem pendingName_injective : Function.Injective pendingName := by
  intro left right same
  rw [pendingName_eq, pendingName_eq] at same
  exact ascii_toString_injective (List.append_cancel_right same)

/-- A temporary is not taken for a rotation. -/
theorem pendingTmp_ne {name : Name} (bin : extension name = some (ascii "bin")) (epoch : Nat) :
    pendingTmp epoch ≠ name := by
  rintro rfl
  rw [extension_pendingTmp] at bin
  revert bin
  decide

/-- With a short suffix, the name of an epoch is not too long. -/
theorem legalName_epoch {epoch : Nat} (small : epoch < 2 ^ 64) {suffix : Name}
    (long : 1 < suffix.length) (short : suffix.length ≤ 8) (slashless : 0x2F ∉ suffix)
    (nulless : 0x00 ∉ suffix) : legalName (ascii (toString epoch) ++ suffix) = true := by
  refine legalName_append (legalName_ascii_toString small) long slashless nulless ?_
  have digits := length_ascii_toString small
  rw [List.length_append, nameMax]
  omega

theorem legalName_pendingName {epoch : Nat} (small : epoch < 2 ^ 64) :
    legalName (pendingName epoch) = true := by
  rw [pendingName_eq]
  exact legalName_epoch small (by decide) (by decide) (by decide) (by decide)

theorem legalName_pendingTmp {epoch : Nat} (small : epoch < 2 ^ 64) :
    legalName (pendingTmp epoch) = true := by
  rw [pendingTmp, ascii_append]
  exact legalName_epoch small (by decide) (by decide) (by decide) (by decide)

/-- The directory holds these rotations' files and no others that a load would read. -/
structure PendingFiles (tree : FileTree) (dataDir : RawPath) (id : String)
    (pending : List SignedRotation) : Prop where
  /-- The directory's path does not lead through a directory of such a name. -/
  way : ∀ front name, front <+: pendingDir dataDir id → extension name = some (ascii "bin") →
    resolve [] front ≠ resolve [] (pendingDir dataDir id) ++ [name]
  there : pending ≠ [] → Present tree (pendingDir dataDir id)
  notFile : ∀ content, tree.look (resolve [] (pendingDir dataDir id)) ≠ some (.file content)
  files : ∀ name node, extension name = some (ascii "bin") →
    (tree.look (resolve [] (pendingDir dataDir id) ++ [name]) = some node ↔
      ∃ rotation ∈ pending, name = pendingName rotation.epoch ∧
        node = .file (signedRotationCodec.encode rotation))

variable {tree made after : FileTree} {dataDir : RawPath} {id : String}
  {pending : List SignedRotation} {rotation : SignedRotation}

theorem parent_pendingDir (dataDir : RawPath) (id : String) :
    (pendingDir dataDir id).rdropWhile isDot = pendingDir dataDir id :=
  List.rdropWhile_concat_neg isDot _ _ (by decide)

/-- Creating the directory creates none of the files. -/
theorem PendingFiles.created {result : Except IoError Unit}
    (holds : PendingFiles tree dataDir id pending)
    (created : tree.createDirAllAt (pendingDir dataDir id) = (result, made)) :
    PendingFiles made dataDir id pending := by
  have creates := createDirAllAt_creates tree (pendingDir dataDir id)
  rw [created] at creates
  refine ⟨holds.way, ?_, ?_, ?_⟩
  · exact fun some_ => (holds.there some_).mono fun _ found => creates.keeps found
  · intro content file
    rcases creates (resolve [] (pendingDir dataDir id)) with same | ⟨_, directory, _⟩
    · exact holds.notFile content (same ▸ file)
    · cases file.symm.trans directory
  · intro name node bin
    rcases creates (resolve [] (pendingDir dataDir id) ++ [name]) with same | ⟨_, _, front, above, leads⟩
    · rw [same]
      exact holds.files name node bin
    · exact absurd leads (holds.way front name above bin)

/-- The file of one epoch is replaced, and every other one is kept. -/
theorem PendingFiles.replace (holds : PendingFiles tree dataDir id pending)
    (present : Present after (pendingDir dataDir id))
    (written : after.look (resolve [] (pendingDir dataDir id) ++ [pendingName rotation.epoch]) =
      some (.file (signedRotationCodec.encode rotation)))
    (others : ∀ path,
      path ≠ resolve [] (pendingDir dataDir id) ++ [pendingTmp rotation.epoch] →
      path ≠ resolve [] (pendingDir dataDir id) ++ [pendingName rotation.epoch] →
        after.look path = tree.look path) :
    PendingFiles after dataDir id (Rotation.savePending pending rotation) := by
  refine ⟨holds.way, fun _ => present, ?_, ?_⟩
  · intro content file
    rw [present.directory] at file
    cases file
  intro name node bin
  have member : ∀ other, other ∈ Rotation.savePending pending rotation ↔
      other = rotation ∨ other ∈ pending ∧ rotation.epoch ≠ other.epoch := by
    intro other
    change other ∈ replaceLatest SignedRotation.epoch pending rotation ↔ _
    exact mem_replaceLatest
  by_cases own : name = pendingName rotation.epoch
  · rw [own, written, Option.some.injEq]
    constructor
    · rintro rfl
      exact ⟨rotation, (member rotation).mpr (.inl rfl), rfl, rfl⟩
    · rintro ⟨other, listed, same, rfl⟩
      rcases (member other).mp listed with rfl | ⟨_, apart⟩
      · rfl
      · exact absurd (pendingName_injective same) apart
  · rw [others _ (names_apart (pendingTmp_ne bin _).symm) (names_apart own), holds.files name node bin]
    constructor
    · rintro ⟨other, listed, rfl, rfl⟩
      refine ⟨other, (member other).mpr (.inr ⟨listed, ?_⟩), rfl, rfl⟩
      exact fun same => own (congrArg pendingName same.symm)
    · rintro ⟨other, listed, rfl, rfl⟩
      rcases (member other).mp listed with rfl | ⟨kept, _⟩
      · exact absurd rfl own
      · exact ⟨other, kept, rfl, rfl⟩

theorem savePending_of_created
    (created : tree.createDirAllAt (pendingDir dataDir id) = (.ok (), made))
    (present : Present made (pendingDir dataDir id)) (rotation : SignedRotation) :
    savePending tree dataDir id rotation = savePending made dataDir id rotation := by
  rw [savePending, savePending, saveFile, saveFile, parent_pendingDir, created,
    present.creates (List.prefix_refl _)]

/-- In a directory that is there, a save fails only over a directory that has the name of its
temporary. -/
theorem PendingFiles.save_present (holds : PendingFiles tree dataDir id pending)
    (present : Present tree (pendingDir dataDir id)) (small : rotation.epoch < 2 ^ 64) :
    (tree.look (resolve [] (pendingDir dataDir id) ++ [pendingTmp rotation.epoch]) =
        some .directory ∧
      ∃ failure, savePending tree dataDir id rotation = (.error failure, tree)) ∨
    ∃ after, savePending tree dataDir id rotation = (.ok (), after) ∧
      PendingFiles after dataDir id (Rotation.savePending pending rotation) ∧
      Present after (pendingDir dataDir id) ∧
      ∀ path, after.look path = some .directory → tree.look path = some .directory := by
  have bin := extension_pendingName rotation.epoch
  by_cases taken : tree.look (resolve [] (pendingDir dataDir id) ++ [pendingTmp rotation.epoch]) =
      some .directory
  · exact .inl ⟨taken, saveFile_taken (pendingName rotation.epoch) present taken
      (signedRotationCodec.encode rotation)⟩
  have free : tree.look (resolve [] (pendingDir dataDir id) ++ [pendingName rotation.epoch]) ≠
      some .directory := by
    intro directory
    obtain ⟨other, _, _, impossible⟩ := (holds.files _ _ bin).mp directory
    cases impossible
  obtain ⟨after, saved, there, written, others⟩ := saveFile_free present (pendingTmp_ne bin _)
    (legalName_pendingTmp small) (legalName_pendingName small) taken free
    (signedRotationCodec.encode rotation)
  refine .inr ⟨after, saved, holds.replace there written others, there, ?_⟩
  intro path directory
  by_cases temporary : path =
      resolve [] (pendingDir dataDir id) ++ [pendingTmp rotation.epoch]
  · rw [temporary, tmp_of_saveFile (pendingTmp_ne bin _) saved] at directory
    cases directory
  by_cases target : path = resolve [] (pendingDir dataDir id) ++ [pendingName rotation.epoch]
  · rw [target, written] at directory
    cases directory
  · rw [← others path temporary target]
    exact directory

/-- A save that returns `Ok` replaces one file, and any other leaves the files as they are. -/
theorem PendingFiles.save (holds : PendingFiles tree dataDir id pending)
    (small : rotation.epoch < 2 ^ 64) :
    (∃ failure after, savePending tree dataDir id rotation = (.error failure, after) ∧
      PendingFiles after dataDir id pending) ∨
    ∃ after, savePending tree dataDir id rotation = (.ok (), after) ∧
      PendingFiles after dataDir id (Rotation.savePending pending rotation) := by
  rcases created : tree.createDirAllAt (pendingDir dataDir id) with ⟨result, made⟩
  have kept := holds.created created
  cases result with
  | error error =>
      refine .inl ⟨[.about "create_dir_all" (pendingDir dataDir id), .cause error], made, ?_, kept⟩
      rw [savePending, saveFile, parent_pendingDir, created]
  | ok done =>
      have present : Present made (pendingDir dataDir id) :=
        ⟨(createDirAllAt_ok created).1, (createDirAllAt_ok created).2⟩
      rw [savePending_of_created created present rotation]
      rcases kept.save_present present small with ⟨_, failure, refused⟩ | ⟨after, saved, holds, _⟩
      · exact .inl ⟨failure, made, refused, kept⟩
      · exact .inr ⟨after, saved, holds⟩

/-- What the loop makes of any entries of the directory. -/
theorem PendingFiles.loadEntries (holds : PendingFiles tree dataDir id pending)
    (holdable : ∀ rotation ∈ pending, rotation.Holdable)
    (present : Present tree (pendingDir dataDir id)) {entries : List (Name × Node)}
    (listed : ∀ entry ∈ entries,
      tree.look (resolve [] (pendingDir dataDir id) ++ [entry.1]) = some entry.2)
    (out : List SignedRotation) :
    ∃ loaded, entries.foldlM (loadPendingEntry tree dataDir id) out = .ok (out ++ loaded) ∧
      loaded.map (fun rotation => pendingName rotation.epoch) =
        (entries.map Prod.fst).filter (fun name => extension name = some (ascii "bin")) ∧
      ∀ rotation ∈ loaded, rotation ∈ pending := by
  induction entries generalizing out with
  | nil => exact ⟨[], by rw [List.append_nil]; rfl, rfl, nofun⟩
  | cons entry entries ih =>
      obtain ⟨first, later⟩ := List.forall_mem_cons.mp listed
      rw [List.foldlM_cons, List.map_cons, List.filter_cons]
      by_cases bin : extension entry.1 = some (ascii "bin")
      · obtain ⟨rotation, member, name, node⟩ := (holds.files _ _ bin).mp first
        have legal : legalName entry.1 = true := name ▸ legalName_pendingName (holdable rotation member).1
        have read : tree.readAt (pendingDir dataDir id ++ [entry.1]) =
            .ok (signedRotationCodec.encode rotation) := by
          rw [present.readAt_eq legal]
          exact read_ok_iff.mpr (node ▸ first)
        have decoded := signedRotationCodec.decode_encode_nil
          (Rotation.signedRotationCodec_fits (holdable rotation member))
        have step : loadPendingEntry tree dataDir id out entry = .ok (out ++ [rotation]) := by
          rw [loadPendingEntry, if_neg (not_not.mpr bin), read]
          dsimp only
          rw [decoded]
        obtain ⟨loaded, ran, names, kept⟩ := ih later (out ++ [rotation])
        refine ⟨rotation :: loaded, ?_, ?_, List.forall_mem_cons.mpr ⟨member, kept⟩⟩
        · rw [step, List.append_cons out rotation loaded]
          exact ran
        · rw [if_pos (decide_eq_true bin), List.map_cons, names, name]
      · have step : loadPendingEntry tree dataDir id out entry = .ok out := by
          rw [loadPendingEntry, if_pos bin]
        obtain ⟨loaded, ran, names, kept⟩ := ih later out
        refine ⟨loaded, ?_, ?_, kept⟩
        · rw [step]
          exact ran
        · rw [if_neg (by simpa using bin), names]

/-- Every file is listed once, in whatever order. -/
theorem PendingFiles.perm_of_names (holds : PendingFiles tree dataDir id pending)
    (distinct : (pending.map SignedRotation.epoch).Nodup) {loaded : List SignedRotation}
    (names : loaded.map (fun rotation => pendingName rotation.epoch) =
      ((tree.children (resolve [] (pendingDir dataDir id))).map Prod.fst).filter
        (fun name => extension name = some (ascii "bin")))
    (kept : ∀ rotation ∈ loaded, rotation ∈ pending) : loaded.Perm pending := by
  have once : loaded.Nodup := by
    refine List.Nodup.of_map (fun rotation => pendingName rotation.epoch) ?_
    rw [names]
    exact (tree.children_nodup _).filter _
  refine (List.perm_ext_iff_of_nodup once (List.Nodup.of_map _ distinct)).mpr fun rotation => ?_
  refine ⟨kept rotation, fun member => ?_⟩
  have bin := extension_pendingName rotation.epoch
  have file := (holds.files _ _ bin).mpr ⟨rotation, member, rfl, rfl⟩
  have listed : pendingName rotation.epoch ∈
      loaded.map fun rotation => pendingName rotation.epoch := by
    rw [names]
    refine List.mem_filter.mpr ⟨?_, decide_eq_true bin⟩
    exact List.mem_map.mpr ⟨_, mem_children.mpr file, rfl⟩
  obtain ⟨other, found, same⟩ := List.mem_map.mp listed
  have twin := List.inj_on_of_nodup_map distinct (kept other found) member (pendingName_injective same)
  exact twin ▸ found

/-- A load reads back what the files are for, sorted by epoch. -/
theorem PendingFiles.load (holds : PendingFiles tree dataDir id pending)
    (holdable : ∀ rotation ∈ pending, rotation.Holdable)
    (distinct : (pending.map SignedRotation.epoch).Nodup) :
    loadPending tree dataDir id = .ok (Rotation.loadPending pending) := by
  by_cases exists_ : tree.existsAt (pendingDir dataDir id) = true
  swap
  · have empty : pending = [] := by
      by_contra some_
      have present := holds.there some_
      apply exists_
      rw [existsAt, present.walked]
      dsimp only
      rw [present.directory]
      rfl
    rw [loadPending, Bool.eq_false_iff.mpr exists_, empty]
    rfl
  have present : Present tree (pendingDir dataDir id) := by
    unfold existsAt at exists_
    split at exists_
    · cases exists_
    next path walked =>
      have leads := walk_resolve walked
      rw [← leads] at walked exists_
      refine ⟨walked, ?_⟩
      obtain ⟨node, there⟩ := Option.isSome_iff_exists.mp exists_
      cases node with
      | file content => exact absurd there (holds.notFile content)
      | directory => exact there
  have listing : tree.readDirAt (pendingDir dataDir id) =
      .ok (tree.children (resolve [] (pendingDir dataDir id))) := by
    rw [readDirAt, present.walked]
    dsimp only
    rw [readDir, present.directory]
  obtain ⟨loaded, ran, names, kept⟩ := holds.loadEntries holdable present
    (fun entry member => mem_children.mp member) []
  unfold loadPending
  dsimp only
  rw [exists_, listing]
  simp only [Bool.not_true, Bool.false_eq_true, if_false]
  rw [ran]
  exact congrArg Except.ok
    (insertionSort_eq_of_perm distinct (holds.perm_of_names distinct names kept))

/-- Nothing is pending yet, and the share's directory is there or has a path without `..`. -/
structure NoPending (tree : FileTree) (dataDir : RawPath) (id : String) : Prop where
  way : Present tree (shareDir dataDir id) ∨ Straight (pendingDir dataDir id)
  notFile : ∀ content, tree.look (resolve [] (pendingDir dataDir id)) ≠ some (.file content)
  unused : ∀ name, extension name = some (ascii "bin") →
    tree.look (resolve [] (pendingDir dataDir id) ++ [name]) = none

theorem NoPending.files (none_ : NoPending tree dataDir id) : PendingFiles tree dataDir id [] := by
  refine ⟨?_, fun some_ => absurd rfl some_, none_.notFile, ?_⟩
  · intro front name above bin leads
    rcases none_.way with present | straight
    · rcases List.prefix_concat_iff.mp above with whole | inside
      · rw [whole, ← pendingDir] at leads
        simp at leads
      · obtain ⟨rest, whole⟩ := inside
        rw [← whole] at present
        have directory := present.above.directory
        rw [leads, none_.unused name bin] at directory
        cases directory
    · obtain ⟨rest, whole⟩ := above
      have straightRest : Straight rest := fun name member =>
        straight name (whole ▸ List.mem_append_right _ member)
      have longer := (prefix_resolve straightRest (resolve [] front)).length_le
      rw [← resolve_append, whole, leads, List.length_append, List.length_singleton] at longer
      omega
  · intro name node bin
    rw [none_.unused name bin]
    simp

/-- The share's directory is there, and no directory has the name of a temporary. -/
structure Unobstructed (tree : FileTree) (dataDir : RawPath) (id : String) : Prop where
  share : Present tree (shareDir dataDir id)
  free : ∀ epoch, tree.look (resolve [] (pendingDir dataDir id) ++ [pendingTmp epoch]) ≠
    some .directory

theorem resolve_pendingDir (dataDir : RawPath) (id : String) :
    resolve [] (pendingDir dataDir id) =
      resolve [] (shareDir dataDir id) ++ [ascii "pending_rotations"] := by
  rw [pendingDir, resolve_append, resolve_of_legal _ (by decide)]

/-- The directory is there, or a save creates it and nothing else. -/
theorem Unobstructed.creates (unobstructed : Unobstructed tree dataDir id)
    (holds : PendingFiles tree dataDir id pending) :
    ∃ made, tree.createDirAllAt (pendingDir dataDir id) = (.ok (), made) ∧
      ∀ path, path ≠ resolve [] (pendingDir dataDir id) → made.look path = tree.look path := by
  have here := resolve_pendingDir dataDir id
  cases there : tree.look (resolve [] (pendingDir dataDir id)) with
  | none =>
      rw [here] at there
      obtain ⟨made, created, look⟩ := unobstructed.share.createsChild (by decide) there
      refine ⟨made, created, fun path apart => ?_⟩
      rw [look, if_neg (here ▸ apart)]
  | some node =>
      cases node with
      | file content => exact absurd there (holds.notFile content)
      | directory =>
          have walked : tree.walk [] (pendingDir dataDir id) =
              some (resolve [] (pendingDir dataDir id)) := by
            rw [here]
            exact unobstructed.share.reaches (by decide)
          exact ⟨tree, createDirAllAt_of_walk walked there, fun _ _ => rfl⟩

theorem Unobstructed.save (unobstructed : Unobstructed tree dataDir id)
    (holds : PendingFiles tree dataDir id pending) (small : rotation.epoch < 2 ^ 64) :
    ∃ after, savePending tree dataDir id rotation = (.ok (), after) ∧
      Unobstructed after dataDir id := by
  obtain ⟨made, created, others⟩ := unobstructed.creates holds
  have present : Present made (pendingDir dataDir id) :=
    ⟨(createDirAllAt_ok created).1, (createDirAllAt_ok created).2⟩
  rw [savePending_of_created created present rotation]
  rcases (holds.created created).save_present present small with
    ⟨taken, _⟩ | ⟨after, saved, _, there, directories⟩
  · rw [others _ (by simp)] at taken
    exact absurd taken (unobstructed.free rotation.epoch)
  · refine ⟨after, saved, there.above, fun epoch directory => unobstructed.free epoch ?_⟩
    rw [← others _ (by simp)]
    exact directories _ directory

/-- What is left of any calls are the files of those that returned `Ok`. -/
theorem PendingFiles.saves (holds : PendingFiles tree dataDir id pending)
    {rotations : List SignedRotation} (small : ∀ rotation ∈ rotations, rotation.epoch < 2 ^ 64) :
    PendingFiles (savePendings dataDir id tree rotations).2 dataDir id
        ((savePendings dataDir id tree rotations).1.foldl Rotation.savePending pending) ∧
      (savePendings dataDir id tree rotations).1.Sublist rotations := by
  induction rotations generalizing tree pending with
  | nil => exact ⟨holds, List.Sublist.refl []⟩
  | cons rotation rotations ih =>
      obtain ⟨first, later⟩ := List.forall_mem_cons.mp small
      rcases holds.save first with ⟨failure, after, saved, kept⟩ | ⟨after, saved, replaced⟩
      · rw [savePendings, saved]
        obtain ⟨files, fewer⟩ := ih kept later
        exact ⟨files, fewer.cons rotation⟩
      · rw [savePendings, saved]
        obtain ⟨files, fewer⟩ := ih replaced later
        exact ⟨files, fewer.cons_cons rotation⟩

theorem Unobstructed.saves (unobstructed : Unobstructed tree dataDir id)
    (holds : PendingFiles tree dataDir id pending) {rotations : List SignedRotation}
    (small : ∀ rotation ∈ rotations, rotation.epoch < 2 ^ 64) :
    (savePendings dataDir id tree rotations).1 = rotations := by
  induction rotations generalizing tree pending with
  | nil => rfl
  | cons rotation rotations ih =>
      obtain ⟨first, later⟩ := List.forall_mem_cons.mp small
      obtain ⟨after, saved, onward⟩ := unobstructed.save holds first
      rcases holds.save first with ⟨failure, other, refused, _⟩ | ⟨other, again, replaced⟩
      · cases refused.symm.trans saved
      · cases again.symm.trans saved
        rw [savePendings, saved]
        exact congrArg (rotation :: ·) (ih onward replaced later)

/-- The latest rotation saved for each epoch, in the order of the epochs. -/
structure LoadsLatest (saved loaded : List SignedRotation) : Prop where
  ascending : loaded.Pairwise fun left right => left.epoch < right.epoch
  latest : ∀ rotation, rotation ∈ loaded ↔ Latest SignedRotation.epoch saved rotation

/-- Whatever is saved, a load returns the latest rotations and nothing else. -/
theorem loadPending_latest (none_ : NoPending tree dataDir id) {rotations : List SignedRotation}
    (holdable : ∀ rotation ∈ rotations, rotation.Holdable) :
    ∃ loaded, loadPending (savePendings dataDir id tree rotations).2 dataDir id = .ok loaded ∧
      LoadsLatest (savePendings dataDir id tree rotations).1 loaded := by
  obtain ⟨files, fewer⟩ := none_.files.saves fun rotation member => (holdable rotation member).1
  have latest : ∀ rotation,
      rotation ∈ (savePendings dataDir id tree rotations).1.foldl Rotation.savePending [] ↔
        Latest SignedRotation.epoch (savePendings dataDir id tree rotations).1 rotation := by
    intro rotation
    refine (mem_foldl_replaceLatest : rotation ∈ List.foldl (replaceLatest SignedRotation.epoch) [] _ ↔
      _).trans ?_
    simp
  have distinct : (((savePendings dataDir id tree rotations).1.foldl Rotation.savePending []).map
      SignedRotation.epoch).Nodup :=
    nodup_foldl_replaceLatest (show ([].map SignedRotation.epoch).Nodup from List.nodup_nil) _
  have known : ∀ rotation ∈ (savePendings dataDir id tree rotations).1.foldl Rotation.savePending [],
      rotation.Holdable := by
    intro rotation member
    obtain ⟨earlier, later, whole, _⟩ := (latest rotation).mp member
    refine holdable rotation (fewer.subset ?_)
    rw [whole]
    exact List.mem_append_right _ List.mem_cons_self
  refine ⟨_, files.load known distinct, pairwise_lt_insertionSort distinct, fun rotation => ?_⟩
  rw [← latest rotation]
  exact List.mem_insertionSort _

end Peerdup.Daemon.ShareFiles
