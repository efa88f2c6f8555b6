import Peerdup.Daemon.CrashSaves
import Peerdup.Foundation.Slot

/-!
# Files written in their place

`identity.key` and `share.json` are written where they are read. A crash can leave a part of
one, which is an identity to no later start.
-/

set_option autoImplicit false

namespace Peerdup.Daemon.ShareFiles

open Foundation FileTree RawPath Call

/-- A file written in its place. A crash leaves a part of its content there. -/
def put (note : Context) (dir : RawPath) (name : Name) (content : Bytes) :
    Call FileTree SyncFailure where
  run tree :=
    match tree.writeAt dir name content with
    | .error error => (.error [note, .cause error], tree)
    | .ok tree => (.ok (), tree)
  torn tree after := ∃ part, part <+: content ∧ tree.writeAt dir name part = .ok after

/-- A failure that has nothing to do with the disk. -/
def refuse (failure : SyncFailure) : Call FileTree SyncFailure where
  run tree := (.error failure, tree)
  torn _ _ := False

variable {tree after : FileTree} {note : Context} {parent dir dataDir : RawPath} {name : Name}
  {content : Bytes} {calls : List (Call FileTree SyncFailure)}

/-- The directory may be new, or a part of the way to it. -/
theorem crashed_createDirs (crashed : Crashed (createDirs parent :: calls) tree after) :
    ∃ made, CreatesDirs tree made [] parent ∧ Crashed calls made after := by
  have shorter {front : RawPath} (above : front <+: parent)
      (creates : CreatesDirs tree (tree.createDirAllAt front).2 [] front) :
      CreatesDirs tree (tree.createDirAllAt front).2 [] parent := fun path =>
    (creates path).imp_right fun ⟨absent, made, way, below, leads⟩ =>
      ⟨absent, made, way, below.trans above, leads⟩
  cases crashed with
  | between => exact ⟨tree, .refl tree [] parent, .between⟩
  | inside torn =>
      obtain ⟨front, above, rfl⟩ := torn
      exact ⟨_, shorter above (createDirAllAt_creates tree front), .between⟩
  | failed refused => exact ⟨after, creates_of_createDirs refused, .between⟩
  | @later _ _ _ made _ created rest => exact ⟨made, creates_of_createDirs created, rest⟩

theorem crashed_refuse {failure : SyncFailure} (crashed : Crashed [refuse failure] tree after) :
    after = tree := by
  cases crashed with
  | between => rfl
  | inside torn => exact torn.elim
  | failed refused => exact (congrArg Prod.snd refused).symm
  | later ran => cases ran

/-- The file as it was, or a part of its new content, in a directory that may be new. -/
theorem crashed_put
    (crashed : Crashed [createDirs parent, put note dir name content] tree after) :
    ∃ made, CreatesDirs tree made [] parent ∧
      (after = made ∨ ∃ part, part <+: content ∧ made.writeAt dir name part = .ok after) := by
  obtain ⟨made, creates, rest⟩ := crashed_createDirs crashed
  refine ⟨made, creates, ?_⟩
  cases rest with
  | between => exact .inl rfl
  | inside torn => exact .inr torn
  | failed refused =>
      dsimp only [put] at refused
      split at refused
      · exact .inl (congrArg Prod.snd refused).symm
      · cases refused
  | later wrote rest =>
      cases rest with
      | between =>
          dsimp only [put] at wrote
          split at wrote
          · cases wrote
          · next written =>
              cases wrote
              exact .inr ⟨content, List.prefix_rfl, written⟩

section Identity

variable {crypto : Primitives} {keys : KeyBytes crypto}

/-- What `identity::load_or_create` does to the disk. -/
def identityCalls (keys : KeyBytes crypto) (tree : FileTree) (dataDir : RawPath)
    (fresh : crypto.PrivateKey) : List (Call FileTree SyncFailure) :=
  let path := dataDir ++ [ascii "identity.key"]
  if tree.existsAt path then []
  else
    [createDirs (dataDir.rdropWhile isDot),
      put (.about "writing" path) dataDir (ascii "identity.key") (keys.asBytes fresh).bytes]

theorem runAll_identityCalls (keys : KeyBytes crypto) (tree : FileTree) (dataDir : RawPath)
    (fresh : crypto.PrivateKey) :
    (runAll (identityCalls keys tree dataDir fresh) tree).2 =
      (loadOrCreateIdentity tree keys dataDir fresh).2 := by
  unfold identityCalls loadOrCreateIdentity
  dsimp only
  split
  · rw [runAll]
    split
    · rfl
    · split <;> rfl
  · simp only [runAll, createDirs]
    rcases tree.createDirAllAt (dataDir.rdropWhile isDot) with ⟨result, made⟩
    cases result with
    | error error => rfl
    | ok done =>
        dsimp only [put]
        cases made.writeAt dataDir (ascii "identity.key") (keys.asBytes fresh).bytes <;> rfl

def identityPath (dataDir : RawPath) : Path := resolve [] dataDir ++ [ascii "identity.key"]

/-- What is found in the identity's place. -/
def identitySlot (keys : KeyBytes crypto) (tree : FileTree) (dataDir : RawPath) :
    Slot crypto.PrivateKey :=
  match tree.look (identityPath dataDir) with
  | none => .empty
  | some .directory => .torn
  | some (.file raw) => if raw.length = 32 then .whole (keys.fromBytes (.ofBytes 32 raw)) else .torn

theorem identitySlot_congr
    (same : after.look (identityPath dataDir) = tree.look (identityPath dataDir)) :
    identitySlot keys after dataDir = identitySlot keys tree dataDir := by
  rw [identitySlot, identitySlot, same]

theorem identitySlot_whole {fresh : crypto.PrivateKey}
    (file : tree.look (identityPath dataDir) = some (.file (keys.asBytes fresh).bytes)) :
    identitySlot keys tree dataDir = .whole fresh := by
  have length := (keys.asBytes fresh).length_bytes
  rw [identitySlot, file]
  dsimp only
  rw [if_pos length, Octets.ofBytes_bytes, keys.fromBytes_asBytes]

/-- A part of the key, unless it is all of it, has the wrong length. -/
theorem identitySlot_part {fresh : crypto.PrivateKey} {part : Bytes}
    (above : part <+: (keys.asBytes fresh).bytes)
    (file : tree.look (identityPath dataDir) = some (.file part)) :
    Slot.Written fresh .empty (identitySlot keys tree dataDir) := by
  have length := (keys.asBytes fresh).length_bytes
  by_cases whole : part.length = 32
  · have same := above.eq_of_length (whole.trans length.symm)
    rw [identitySlot_whole (same ▸ file)]
    exact .all
  · rw [identitySlot, file]
    dsimp only
    rw [if_neg whole]
    exact .part

theorem loadOrCreateIdentity_slot (keys : KeyBytes crypto) (present : Present tree dataDir)
    (fresh : crypto.PrivateKey) :
    ∃ result after, loadOrCreateIdentity tree keys dataDir fresh = (result, after) ∧
      Present after dataDir ∧
      (identitySlot keys tree dataDir ≠ .empty → after = tree) ∧
      result.toOption = ((identitySlot keys tree dataDir).loadOrCreate fresh).1 ∧
      identitySlot keys after dataDir = ((identitySlot keys tree dataDir).loadOrCreate fresh).2 := by
  rw [loadOrCreateIdentity, present.existsAt_eq (by decide), present.readAt_eq (by decide),
    FileTree.read, ← identityPath]
  cases held : tree.look (identityPath dataDir) with
  | none =>
      have free : tree.look (identityPath dataDir) ≠ some .directory := by
        rw [held]
        simp
      have empty : identitySlot keys tree dataDir = .empty := by rw [identitySlot, held]
      obtain ⟨after, wrote, look⟩ := present.writes (by decide) free (keys.asBytes fresh).bytes
      dsimp only [Option.isSome_none]
      rw [if_neg Bool.false_ne_true, present.creates (List.rdropWhile_prefix isDot dataDir), empty]
      dsimp only
      rw [wrote]
      refine ⟨_, after, rfl, ?_, fun apart => absurd rfl apart, rfl, ?_⟩
      · exact present.mono fun path => directory_write (writeAt_ok wrote).2.2
      · refine identitySlot_whole ?_
        rw [look, identityPath, if_pos rfl]
  | some node =>
      cases node with
      | directory =>
          have torn : identitySlot keys tree dataDir = .torn := by rw [identitySlot, held]
          rw [torn]
          exact ⟨_, tree, rfl, present, fun _ => rfl, rfl, torn⟩
      | file raw =>
          dsimp only [Option.isSome_some]
          rw [if_pos rfl]
          by_cases whole : raw.length = 32
          · have found : identitySlot keys tree dataDir =
                .whole (keys.fromBytes (.ofBytes 32 raw)) := by
              rw [identitySlot, held]
              exact if_pos whole
            rw [if_pos whole, found]
            exact ⟨_, tree, rfl, present, fun _ => rfl, rfl, found⟩
          · have torn : identitySlot keys tree dataDir = .torn := by
              rw [identitySlot, held]
              exact if_neg whole
            rw [if_neg whole, torn]
            exact ⟨_, tree, rfl, present, fun _ => rfl, rfl, torn⟩

/-- A data directory, and the identities that starts got from it. -/
structure IdentityLife (crypto : Primitives) where
  tree : FileTree
  issued : List crypto.PrivateKey

/-- A start, a start that crashes, or something else that leaves the identity alone. -/
inductive IdentityStep (keys : KeyBytes crypto) (dataDir : RawPath) :
    IdentityLife crypto → IdentityLife crypto → Prop where
  | start {tree issued result after} (fresh : crypto.PrivateKey) :
      loadOrCreateIdentity tree keys dataDir fresh = (result, after) →
      IdentityStep keys dataDir ⟨tree, issued⟩ ⟨after, issued ++ result.toOption.toList⟩
  | crash {tree issued after} (fresh : crypto.PrivateKey) :
      Crashed (identityCalls keys tree dataDir fresh) tree after →
      IdentityStep keys dataDir ⟨tree, issued⟩ ⟨after, issued⟩
  | elsewhere {tree issued after} :
      after.look (identityPath dataDir) = tree.look (identityPath dataDir) →
      (Present tree dataDir → Present after dataDir) →
      IdentityStep keys dataDir ⟨tree, issued⟩ ⟨after, issued⟩

def IdentityLife.source (keys : KeyBytes crypto) (dataDir : RawPath) (life : IdentityLife crypto) :
    Slot.Source crypto.PrivateKey :=
  ⟨identitySlot keys life.tree dataDir, life.issued⟩

/-- The identity's place is as it was, or had nothing and has a part of the fresh key. -/
theorem crashed_identityCalls {fresh : crypto.PrivateKey} (present : Present tree dataDir)
    (crashed : Crashed (identityCalls keys tree dataDir fresh) tree after) :
    Present after dataDir ∧
      (after.look (identityPath dataDir) = tree.look (identityPath dataDir) ∨
        tree.look (identityPath dataDir) = none ∧ ∃ part, part <+: (keys.asBytes fresh).bytes ∧
          after.look (identityPath dataDir) = some (.file part)) := by
  unfold identityCalls at crashed
  dsimp only at crashed
  rw [present.existsAt_eq (by decide), ← identityPath] at crashed
  split at crashed
  · cases crashed
    exact ⟨present, .inl rfl⟩
  next missing =>
    rw [Bool.not_eq_true, Option.isSome_eq_false_iff, Option.isNone_iff_eq_none] at missing
    obtain ⟨made, creates, left⟩ := crashed_put crashed
    have framed := framed_of_creates creates (List.rdropWhile_prefix isDot dataDir) fun _ => False
    rcases left with rfl | ⟨part, above, wrote⟩
    · exact ⟨present.mono framed.directories, .inl (framed.same present not_false)⟩
    · have written := (writeAt_ok wrote).2.2
      have directories : ∀ path, tree.look path = some .directory →
          after.look path = some .directory := fun path found =>
        directory_write written (framed.directories path found)
      refine ⟨present.mono directories, .inr ⟨missing, part, above, ?_⟩⟩
      rw [look_write written, identityPath, if_pos rfl]

variable {life next final : IdentityLife crypto}

theorem IdentityStep.present (step : IdentityStep keys dataDir life next)
    (present : Present life.tree dataDir) : Present next.tree dataDir := by
  cases step with
  | start fresh loaded =>
      obtain ⟨_, after, same, there, _⟩ := loadOrCreateIdentity_slot keys present fresh
      cases loaded.symm.trans same
      exact there
  | crash fresh crashed => exact (crashed_identityCalls present crashed).1
  | elsewhere _ keeps => exact keeps present

/-- Every step on the disk is one on the slot, or none. -/
theorem IdentityStep.source (step : IdentityStep keys dataDir life next)
    (present : Present life.tree dataDir) :
    Relation.ReflGen Slot.Source.Step (life.source keys dataDir) (next.source keys dataDir) := by
  cases step with
  | @start tree issued result after fresh loaded =>
      obtain ⟨_, _, same, _, _, taken, left⟩ := loadOrCreateIdentity_slot keys present fresh
      cases loaded.symm.trans same
      refine .single ?_
      unfold IdentityLife.source
      dsimp only at taken left ⊢
      rw [taken, left]
      exact .loaded fresh
  | @crash tree issued after fresh crashed =>
      unfold IdentityLife.source
      dsimp only
      rcases (crashed_identityCalls present crashed).2 with same | ⟨missing, part, above, left⟩
      · rw [identitySlot_congr same]
      · rw [show identitySlot keys tree dataDir = .empty by rw [identitySlot, missing]]
        exact .single (.crashed fresh (identitySlot_part above left))
  | elsewhere same _ =>
      unfold IdentityLife.source
      rw [identitySlot_congr same]

theorem source_run (run : Relation.ReflTransGen (IdentityStep keys dataDir) life final)
    (present : Present life.tree dataDir) :
    Present final.tree dataDir ∧
      Relation.ReflTransGen Slot.Source.Step (life.source keys dataDir) (final.source keys dataDir) := by
  induction run with
  | refl => exact ⟨present, .refl⟩
  | tail _ step ih =>
      obtain ⟨there, before⟩ := ih
      exact ⟨step.present there, before.trans (step.source there).to_reflTransGen⟩

/-- On the way a start found no key, and its crash left a part of the one it was to write,
which is there still. -/
def PartLeft (keys : KeyBytes crypto) (dataDir : RawPath) (first last : IdentityLife crypto) :
    Prop :=
  ∃ before after fresh part,
    Relation.ReflTransGen (IdentityStep keys dataDir) first before ∧
    Crashed (identityCalls keys before.tree dataDir fresh) before.tree after.tree ∧
    Relation.ReflTransGen (IdentityStep keys dataDir) after last ∧
    before.tree.look (identityPath dataDir) = none ∧
    part <+: (keys.asBytes fresh).bytes ∧ part.length < 32 ∧
    last.tree.look (identityPath dataDir) = some (.file part)

/-- Only a crash comes to what is no key. -/
theorem IdentityStep.torn (step : IdentityStep keys dataDir life next)
    (present : Present life.tree dataDir) (torn : identitySlot keys next.tree dataDir = .torn) :
    next.tree.look (identityPath dataDir) = life.tree.look (identityPath dataDir) ∨
      PartLeft keys dataDir life next := by
  cases step with
  | @start tree issued result after fresh loaded =>
      obtain ⟨_, _, same, _, kept, _, left⟩ := loadOrCreateIdentity_slot keys present fresh
      cases loaded.symm.trans same
      dsimp only at torn kept left ⊢
      cases slot : identitySlot keys tree dataDir with
      | empty =>
          rw [slot, torn] at left
          cases left
      | torn => exact .inl (by rw [kept (by simp [slot])])
      | whole key => exact .inl (by rw [kept (by simp [slot])])
  | @crash tree issued after fresh crashed =>
      rcases (crashed_identityCalls present crashed).2 with same | ⟨missing, part, above, left⟩
      · exact .inl same
      · refine .inr ⟨⟨tree, issued⟩, ⟨after, issued⟩, fresh, part, .refl, crashed, .refl, missing,
          above, ?_, left⟩
        have length := (keys.asBytes fresh).length_bytes
        refine lt_of_le_of_ne (above.length_le.trans length.le) fun whole => ?_
        -- All of the key would be a whole one.
        have found := identitySlot_whole (above.eq_of_length (whole.trans length.symm) ▸ left)
        dsimp only at torn
        rw [found] at torn
        cases torn
  | elsewhere same _ => exact .inl same

theorem torn_since (run : Relation.ReflTransGen (IdentityStep keys dataDir) life final)
    (present : Present life.tree dataDir) (torn : identitySlot keys final.tree dataDir = .torn) :
    final.tree.look (identityPath dataDir) = life.tree.look (identityPath dataDir) ∨
      PartLeft keys dataDir life final := by
  induction run with
  | refl => exact .inl rfl
  | @tail before final run step ih =>
      rcases step.torn (source_run run present).1 torn with same | left
      · have earlier := ih ((identitySlot_congr same).symm.trans torn)
        rcases earlier with first | ⟨start, crashed, fresh, part, way, crash, onward, found⟩
        · exact .inl (same.trans first)
        · obtain ⟨missing, above, short, left⟩ := found
          exact .inr ⟨start, crashed, fresh, part, way, crash, onward.tail step, missing, above,
            short, same.trans left⟩
      · obtain ⟨start, crashed, fresh, part, way, found⟩ := left
        exact .inr ⟨start, crashed, fresh, part, run.trans way, found⟩

theorem load_of_whole {key : crypto.PrivateKey} (present : Present tree dataDir)
    (whole : identitySlot keys tree dataDir = .whole key) (fresh : crypto.PrivateKey) :
    loadOrCreateIdentity tree keys dataDir fresh = (.ok key, tree) := by
  obtain ⟨result, after, loaded, _, kept, taken, _⟩ := loadOrCreateIdentity_slot keys present fresh
  rw [whole] at kept taken
  rw [kept (by simp)] at loaded
  cases result with
  | error failure => cases taken
  | ok found =>
      cases taken
      exact loaded

theorem load_of_torn (present : Present tree dataDir)
    (torn : identitySlot keys tree dataDir = .torn) (fresh : crypto.PrivateKey) :
    ∃ failure, loadOrCreateIdentity tree keys dataDir fresh = (.error failure, tree) := by
  obtain ⟨result, after, loaded, _, kept, taken, _⟩ := loadOrCreateIdentity_slot keys present fresh
  rw [torn] at kept taken
  rw [kept (by simp)] at loaded
  cases result with
  | error failure => exact ⟨failure, loaded⟩
  | ok found => cases taken

theorem torn_of_failed {failure : SyncFailure} {fresh : crypto.PrivateKey}
    (present : Present tree dataDir)
    (failed : loadOrCreateIdentity tree keys dataDir fresh = (.error failure, after)) :
    identitySlot keys tree dataDir = .torn := by
  obtain ⟨result, _, loaded, _, _, taken, _⟩ := loadOrCreateIdentity_slot keys present fresh
  cases loaded.symm.trans failed
  cases slot : identitySlot keys tree dataDir with
  | empty =>
      rw [slot] at taken
      cases taken
  | torn => rfl
  | whole key =>
      rw [slot] at taken
      cases taken

end Identity

/-- Once a start got an identity, every later one gets the same and writes nothing, whatever
starts crash. A start fails only where none ever got an identity, because what is in its
place was there from the beginning or is a part that a crash left, and from then on none does. -/
theorem identity_isKept {crypto : Primitives} (keys : KeyBytes crypto) (dataDir : RawPath)
    (tree disk : FileTree) (issued : List crypto.PrivateKey) (present : Present tree dataDir)
    (run : Relation.ReflTransGen (IdentityStep keys dataDir) ⟨tree, []⟩ ⟨disk, issued⟩) :
    (∀ key ∈ issued, ∀ fresh, loadOrCreateIdentity disk keys dataDir fresh = (.ok key, disk)) ∧
    ∀ fresh failure after,
      loadOrCreateIdentity disk keys dataDir fresh = (.error failure, after) →
      issued = [] ∧
      (identitySlot keys tree dataDir = .torn ∧
          disk.look (identityPath dataDir) = tree.look (identityPath dataDir) ∨
        PartLeft keys dataDir ⟨tree, []⟩ ⟨disk, issued⟩) ∧
      ∀ later, Relation.ReflTransGen (IdentityStep keys dataDir) ⟨disk, issued⟩ later →
        later.issued = [] ∧
        ∀ another, ∃ failure,
          loadOrCreateIdentity later.tree keys dataDir another = (.error failure, later.tree) := by
  obtain ⟨there, source⟩ := source_run run present
  have sound := Slot.Source.sound_run source (Slot.Source.sound_fresh _)
  refine ⟨fun key member => load_of_whole there (sound key member), ?_⟩
  intro fresh failure after failed
  have torn := torn_of_failed there failed
  have untaken := sound.untaken torn
  refine ⟨untaken, ?_, fun later onward => ?_⟩
  · refine (torn_since run present torn).imp_left fun same => ⟨?_, same⟩
    exact (identitySlot_congr same).symm.trans torn
  · obtain ⟨still, rest⟩ := source_run onward there
    have same := Slot.Source.torn_run rest torn
    have taken := congrArg Slot.Source.taken same
    have left := congrArg Slot.Source.slot same
    exact ⟨taken.trans untaken, load_of_torn still (left.trans torn)⟩

section Sample

open Reference

/-- A data directory with a lock file and no identity. -/
def lockedDisk : FileTree := FileTree.ofFiles [([ascii "data", ascii "daemon.lock"], [])]

/-- Half a key is no key, and stays. -/
theorem halfKey_isFinal : ∃ disk,
    Relation.ReflTransGen (IdentityStep sampleKeys sampleDataDir) ⟨lockedDisk, []⟩ ⟨disk, []⟩ ∧
    ∀ later, Relation.ReflTransGen (IdentityStep sampleKeys sampleDataDir) ⟨disk, []⟩ later →
      later.issued = [] := by
  have present : Present lockedDisk sampleDataDir := ⟨by decide +kernel, by decide +kernel⟩
  have free : lockedDisk.look (resolve [] sampleDataDir ++ [ascii "identity.key"]) ≠
      some .directory := by decide +kernel
  obtain ⟨disk, wrote, look⟩ :=
    present.writes (by decide) free ((sampleKeys.asBytes founder).bytes.take 16)
  have missing : ¬ lockedDisk.existsAt (sampleDataDir ++ [ascii "identity.key"]) = true := by
    decide +kernel
  have crashed :
      Crashed (identityCalls sampleKeys lockedDisk sampleDataDir founder) lockedDisk disk := by
    have created : (createDirs (sampleDataDir.rdropWhile isDot)).run lockedDisk =
        (.ok (), lockedDisk) := by
      dsimp only [createDirs]
      rw [present.creates (List.rdropWhile_prefix isDot sampleDataDir)]
    unfold identityCalls
    dsimp only
    rw [if_neg missing]
    exact .later created (.inside ⟨_, List.take_prefix 16 _, wrote⟩)
  have run : Relation.ReflTransGen (IdentityStep sampleKeys sampleDataDir)
      ⟨lockedDisk, []⟩ ⟨disk, []⟩ := .single (.crash founder crashed)
  have torn : identitySlot sampleKeys disk sampleDataDir = .torn := by
    rw [identitySlot, look, identityPath, if_pos rfl]
    exact if_neg (by rw [List.length_take, (sampleKeys.asBytes founder).length_bytes]; decide)
  obtain ⟨failure, failed⟩ := load_of_torn (source_run run present).1 torn founder
  exact ⟨disk, run, fun later onward => ((identity_isKept sampleKeys sampleDataDir lockedDisk disk []
    present run).2 founder failure disk failed).2.2 later onward |>.1⟩

end Sample

end Peerdup.Daemon.ShareFiles
