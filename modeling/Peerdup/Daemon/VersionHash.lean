import Peerdup.Daemon.ContentProperties
import Peerdup.Foundation.RawPathProperties
import Peerdup.Reference
import Peerdup.RotationProperties

/-!
# What a version hash tells apart

Everything about the content but the bytes of a path that are no text, and what has a path
through `.peerdup`: the hash covers the path's text, in which such bytes all look alike, and the
walk skips every entry of that name, at any depth.
-/

set_option autoImplicit false

namespace Peerdup.Daemon

open Foundation Codec

/-- No two of these byte strings have one hash. -/
def CollisionFree (crypto : Primitives) (fed : Bytes → Prop) : Prop :=
  ∀ left right, fed left → fed right → crypto.blake3 left = crypto.blake3 right → left = right

/-- What a snapshot feeds to its hashers: every file's content, and the records. -/
def Fed (crypto : Primitives) (tree : FileTree) (root : Path) (bytes : Bytes) : Prop :=
  (∃ rel, plaintext tree root rel = some bytes) ∨ bytes = snapshotFeed crypto tree root

/-- The length of a path's text is a machine word. -/
def Addressable (tree : FileTree) (root : Path) : Prop :=
  ∀ rel, (plaintext tree root rel).isSome = true → (lossy (pathBytes rel)).length < 2 ^ 64

/-- A share's files in the order of their paths. -/
structure InPathOrder (tree : FileTree) (root : Path) (files : List Path) : Prop where
  ordered : files.Pairwise fun left right => pathKey left ≤ pathKey right
  unique : files.Nodup
  listed : ∀ rel, rel ∈ files ↔ (plaintext tree root rel).isSome = true

/-- Two files with one content whose paths read the same as text. -/
def ReadAlike (left : FileTree) (leftRoot : Path) (right : FileTree) (rightRoot : Path)
    (leftRel rightRel : Path) : Prop :=
  lossy (pathBytes leftRel) = lossy (pathBytes rightRel) ∧
    plaintext left leftRoot leftRel = plaintext right rightRoot rightRel

/-- Two shares whose files, one by one in path order, read alike, though the paths differ. -/
def LossyTwins (left : FileTree) (leftRoot : Path) (right : FileTree) (rightRoot : Path) : Prop :=
  ∃ leftFiles rightFiles, InPathOrder left leftRoot leftFiles ∧
    InPathOrder right rightRoot rightFiles ∧
    List.Forall₂ (ReadAlike left leftRoot right rightRoot) leftFiles rightFiles ∧
    leftFiles ≠ rightFiles

/-- A file below a root, at whatever path. -/
def fileAt (tree : FileTree) (root rel : Path) : Option Bytes :=
  match tree.look (root ++ rel) with
  | some (.file content) => some content
  | _ => none

/-- Two shares with the same files but for paths through an entry named `.peerdup`. -/
def DifferHidden (left : FileTree) (leftRoot : Path) (right : FileTree) (rightRoot : Path) : Prop :=
  (∀ rel, peerdupDirName ∉ rel → fileAt left leftRoot rel = fileAt right rightRoot rel) ∧
    ∃ rel, peerdupDirName ∈ rel ∧ fileAt left leftRoot rel ≠ fileAt right rightRoot rel

variable {crypto : Primitives} {tree left right : FileTree} {root leftRoot rightRoot : Path}
  {files leftFiles rightFiles : List Path}

theorem plaintext_of_visible {rel : Path} (found : tree.look root = some .directory)
    (visible : peerdupDirName ∉ rel) : plaintext tree root rel = fileAt tree root rel := by
  unfold plaintext fileAt
  by_cases empty : rel = []
  · rw [if_pos (.inl empty), empty, List.append_nil, found]
  · exact if_neg (not_or.mpr ⟨empty, visible⟩)

theorem plaintext_eq_iff (leftFound : left.look leftRoot = some .directory)
    (rightFound : right.look rightRoot = some .directory) :
    (∀ rel, plaintext left leftRoot rel = plaintext right rightRoot rel) ↔
      ∀ rel, peerdupDirName ∉ rel → fileAt left leftRoot rel = fileAt right rightRoot rel := by
  refine forall_congr' fun rel => ?_
  by_cases visible : peerdupDirName ∉ rel
  · rw [plaintext_of_visible leftFound visible, plaintext_of_visible rightFound visible]
    exact (imp_iff_right visible).symm
  · refine iff_of_true ?_ fun contra => absurd contra visible
    rw [plaintext, plaintext, if_pos (.inr (not_not.mp visible)), if_pos (.inr (not_not.mp visible))]

theorem InPathOrder.eq_of_listed (first : InPathOrder left leftRoot leftFiles)
    (second : InPathOrder right rightRoot rightFiles)
    (same : ∀ rel, rel ∈ leftFiles ↔ rel ∈ rightFiles) : leftFiles = rightFiles := by
  have perm := (List.perm_ext_iff_of_nodup first.unique second.unique).mpr same
  refine List.Perm.eq_of_pairwise ?_ first.ordered second.ordered perm
  intro one other _ _ below above
  exact pathKey_injective (le_antisymm below above)

/-- The text of a path and the hash of a content, as `snapshot_content` writes them. -/
def recordCodec : Codec (Bytes × Octets 32) := lengthPrefixed.pair (octets 32)

def recordOf (crypto : Primitives) (tree : FileTree) (root rel : Path) : Bytes × Octets 32 :=
  (lossy (pathBytes rel), crypto.blake3 ((plaintext tree root rel).getD []))

theorem fileRecord_eq (crypto : Primitives) (tree : FileTree) (root rel : Path) :
    fileRecord crypto rel ((plaintext tree root rel).getD []) =
      recordCodec.encode (recordOf crypto tree root rel) := rfl

theorem recordCodec_nonempty (value : Bytes × Octets 32) : recordCodec.encode value ≠ [] := by
  intro empty
  have hash := (List.append_eq_nil_iff.mp empty).2
  have length := value.2.length_bytes
  rw [show value.2.bytes = [] from hash] at length
  cases length

theorem recordOf_fits (addressable : Addressable tree root) (ordered : InPathOrder tree root files) :
    ∀ value ∈ files.map (recordOf crypto tree root), recordCodec.Fits value := by
  intro value member
  obtain ⟨rel, listed, rfl⟩ := List.mem_map.mp member
  exact ⟨addressable rel ((ordered.listed rel).mp listed), trivial⟩

/-- The files in path order, whatever order the directories list them in, are what is hashed. -/
theorem snapshotFeed_ordered (crypto : Primitives) (found : tree.look root = some .directory) :
    ∃ files, InPathOrder tree root files ∧
      snapshotFeed crypto tree root =
        (files.map (recordOf crypto tree root)).flatMap recordCodec.encode := by
  obtain ⟨paths, collected, unique, listed⟩ := collectFiles_ok found
  refine ⟨sortPaths paths, ⟨pairwise_sortPaths paths, ?_, ?_⟩, ?_⟩
  · exact (perm_sortPaths paths).nodup_iff.mpr unique
  · intro rel
    rw [mem_sortPaths, listed]
  · rw [snapshotFeed, collected, List.flatMap_map]
    exact List.flatMap_congr fun rel _ => fileRecord_eq crypto tree root rel

theorem readAlike_of_recordOf (collisionFree : CollisionFree crypto fun bytes =>
      Fed crypto left leftRoot bytes ∨ Fed crypto right rightRoot bytes) {leftRel rightRel : Path}
    (leftShown : (plaintext left leftRoot leftRel).isSome = true)
    (rightShown : (plaintext right rightRoot rightRel).isSome = true)
    (same : recordOf crypto left leftRoot leftRel = recordOf crypto right rightRoot rightRel) :
    ReadAlike left leftRoot right rightRoot leftRel rightRel := by
  obtain ⟨leftContent, leftFound⟩ := Option.isSome_iff_exists.mp leftShown
  obtain ⟨rightContent, rightFound⟩ := Option.isSome_iff_exists.mp rightShown
  obtain ⟨text, hash⟩ := Prod.mk.inj same
  rw [leftFound, rightFound, Option.getD_some, Option.getD_some] at hash
  refine ⟨text, ?_⟩
  rw [leftFound, rightFound]
  exact congrArg some (collisionFree leftContent rightContent (.inl (.inl ⟨leftRel, leftFound⟩))
    (.inr (.inl ⟨rightRel, rightFound⟩)) hash)

/-- Equal records, one by one, are files that read alike, one by one. -/
theorem forall₂_readAlike_iff (collisionFree : CollisionFree crypto fun bytes =>
      Fed crypto left leftRoot bytes ∨ Fed crypto right rightRoot bytes)
    (leftShown : ∀ rel ∈ leftFiles, (plaintext left leftRoot rel).isSome = true)
    (rightShown : ∀ rel ∈ rightFiles, (plaintext right rightRoot rel).isSome = true) :
    leftFiles.map (recordOf crypto left leftRoot) = rightFiles.map (recordOf crypto right rightRoot) ↔
      List.Forall₂ (ReadAlike left leftRoot right rightRoot) leftFiles rightFiles := by
  induction leftFiles generalizing rightFiles with
  | nil => cases rightFiles <;> simp
  | cons leftRel leftFiles ih =>
      cases rightFiles with
      | nil => simp
      | cons rightRel rightFiles =>
          obtain ⟨leftHead, leftLater⟩ := List.forall_mem_cons.mp leftShown
          obtain ⟨rightHead, rightLater⟩ := List.forall_mem_cons.mp rightShown
          rw [List.map_cons, List.map_cons, List.cons_eq_cons, ih leftLater rightLater,
            List.forall₂_cons]
          refine and_congr_left fun _ => ⟨?_, ?_⟩
          · exact readAlike_of_recordOf collisionFree leftHead rightHead
          · intro ⟨text, content⟩
            rw [recordOf, recordOf, text, content]

/-- Files that read alike are the same files exactly when their paths are the same. -/
theorem eq_iff_of_readAlike (first : InPathOrder left leftRoot leftFiles)
    (second : InPathOrder right rightRoot rightFiles)
    (alike : List.Forall₂ (ReadAlike left leftRoot right rightRoot) leftFiles rightFiles) :
    leftFiles = rightFiles ↔ ∀ rel, plaintext left leftRoot rel = plaintext right rightRoot rel := by
  constructor
  · intro same rel
    by_cases shown : rel ∈ leftFiles
    · rw [← same] at alike
      have each := List.forall₂_same.mp alike
      exact (each rel shown).2
    · have leftNone := mt (first.listed rel).mpr shown
      have rightNone := mt (second.listed rel).mpr (same ▸ shown)
      rw [Bool.not_eq_true, Option.isSome_eq_false_iff, Option.isNone_iff_eq_none] at leftNone rightNone
      rw [leftNone, rightNone]
  · intro same
    refine first.eq_of_listed second fun rel => ?_
    rw [first.listed, second.listed, same]

/-- Every path is text. -/
def TextPaths (tree : FileTree) (root : Path) : Prop :=
  ∀ rel, (plaintext tree root rel).isSome = true → validUtf8 (pathBytes rel) = true

theorem pathBytes_of_plaintext {leftRel rightRel : Path}
    (leftShown : (plaintext left leftRoot leftRel).isSome = true)
    (rightShown : (plaintext right rightRoot rightRel).isSome = true)
    (same : pathBytes leftRel = pathBytes rightRel) : leftRel = rightRel := by
  have split : ∀ {tree : FileTree} {root rel : Path}, (plaintext tree root rel).isSome = true →
      splitSlash (pathBytes rel) = rel := by
    intro tree root rel shown
    obtain ⟨content, found⟩ := Option.isSome_iff_exists.mp shown
    obtain ⟨nonempty, _, held⟩ := plaintext_eq_some_iff.mp found
    refine RawPath.splitSlash_pathBytes nonempty fun name member => ?_
    have legal := List.all_eq_true.mp (FileTree.look_legal held) name
      (List.mem_append_right _ member)
    exact ((legalName_iff name).mp legal).2.2.2.1
  rw [← split leftShown, same, split rightShown]

/-- Text tells paths apart, so there are no twins without other bytes in a path. -/
theorem not_lossyTwins_of_text (leftText : TextPaths left leftRoot)
    (rightText : TextPaths right rightRoot) : ¬ LossyTwins left leftRoot right rightRoot := by
  intro ⟨leftFiles, rightFiles, leftOrder, rightOrder, alike, apart⟩
  apply apart
  have leftShown := fun rel => (leftOrder.listed rel).mp
  have rightShown := fun rel => (rightOrder.listed rel).mp
  clear apart leftOrder rightOrder
  induction alike with
  | nil => rfl
  | @cons leftRel rightRel leftFiles rightFiles head _ ih =>
      obtain ⟨leftHead, leftLater⟩ := List.forall_mem_cons.mp leftShown
      obtain ⟨rightHead, rightLater⟩ := List.forall_mem_cons.mp rightShown
      have text := head.1
      rw [lossy_of_validUtf8 (leftText leftRel leftHead),
        lossy_of_validUtf8 (rightText rightRel rightHead)] at text
      rw [pathBytes_of_plaintext leftHead rightHead text, ih leftLater rightLater]

section Snapshots

variable {leftHash rightHash : String} {leftManifest rightManifest : Manifest}

/-- One hash comes from files that read alike, and from no others. -/
theorem versionHash_eq_iff (collisionFree : CollisionFree crypto fun bytes =>
      Fed crypto left leftRoot bytes ∨ Fed crypto right rightRoot bytes)
    (leftAddressable : Addressable left leftRoot) (rightAddressable : Addressable right rightRoot)
    (leftSnapshot : snapshotContent crypto left leftRoot = .ok (leftHash, leftManifest))
    (rightSnapshot : snapshotContent crypto right rightRoot = .ok (rightHash, rightManifest)) :
    ∃ leftFiles rightFiles, InPathOrder left leftRoot leftFiles ∧
      InPathOrder right rightRoot rightFiles ∧
      (leftHash = rightHash ↔
        List.Forall₂ (ReadAlike left leftRoot right rightRoot) leftFiles rightFiles) := by
  have leftFound := look_of_snapshotContent leftSnapshot
  have rightFound := look_of_snapshotContent rightSnapshot
  obtain ⟨_, leftTaken, _⟩ := snapshotContent_ok crypto leftFound
  obtain ⟨_, rightTaken, _⟩ := snapshotContent_ok crypto rightFound
  obtain ⟨leftFiles, leftOrder, leftFeed⟩ := snapshotFeed_ordered crypto leftFound
  obtain ⟨rightFiles, rightOrder, rightFeed⟩ := snapshotFeed_ordered crypto rightFound
  have leftSame := (Prod.mk.inj (Except.ok.inj (leftSnapshot.symm.trans leftTaken))).1
  have rightSame := (Prod.mk.inj (Except.ok.inj (rightSnapshot.symm.trans rightTaken))).1
  refine ⟨leftFiles, rightFiles, leftOrder, rightOrder, ?_⟩
  rw [← forall₂_readAlike_iff collisionFree (fun rel => (leftOrder.listed rel).mp)
    (fun rel => (rightOrder.listed rel).mp), leftSame, rightSame]
  constructor
  · intro same
    have feeds := collisionFree _ _ (.inl (.inr rfl)) (.inr (.inr rfl))
      (Rotation.toHex_injective same)
    rw [leftFeed, rightFeed] at feeds
    exact flatMap_encode_injective recordCodec_nonempty (recordOf_fits leftAddressable leftOrder)
      (recordOf_fits rightAddressable rightOrder) feeds
  · intro same
    rw [leftFeed, rightFeed, same]

theorem versionHash_congr
    (leftSnapshot : snapshotContent crypto left leftRoot = .ok (leftHash, leftManifest))
    (rightSnapshot : snapshotContent crypto right rightRoot = .ok (rightHash, rightManifest))
    (same : ∀ rel, plaintext left leftRoot rel = plaintext right rightRoot rel) :
    leftHash = rightHash := by
  obtain ⟨_, leftTaken, _⟩ := snapshotContent_ok crypto (look_of_snapshotContent leftSnapshot)
  obtain ⟨_, rightTaken, _⟩ := snapshotContent_ok crypto (look_of_snapshotContent rightSnapshot)
  rw [(Prod.mk.inj (Except.ok.inj (leftSnapshot.symm.trans leftTaken))).1,
    (Prod.mk.inj (Except.ok.inj (rightSnapshot.symm.trans rightTaken))).1,
    snapshotFeed_congr crypto (look_of_snapshotContent leftSnapshot)
      (look_of_snapshotContent rightSnapshot) same]

/-- The hash identifies what the walk sees of two shares exactly when they are not such twins. -/
theorem versionHash_plaintext_iff (collisionFree : CollisionFree crypto fun bytes =>
      Fed crypto left leftRoot bytes ∨ Fed crypto right rightRoot bytes)
    (leftAddressable : Addressable left leftRoot) (rightAddressable : Addressable right rightRoot)
    (leftSnapshot : snapshotContent crypto left leftRoot = .ok (leftHash, leftManifest))
    (rightSnapshot : snapshotContent crypto right rightRoot = .ok (rightHash, rightManifest)) :
    (leftHash = rightHash ↔ ∀ rel, plaintext left leftRoot rel = plaintext right rightRoot rel) ↔
      ¬ LossyTwins left leftRoot right rightRoot := by
  obtain ⟨leftFiles, rightFiles, leftOrder, rightOrder, hashes⟩ := versionHash_eq_iff collisionFree
    leftAddressable rightAddressable leftSnapshot rightSnapshot
  have twins : LossyTwins left leftRoot right rightRoot ↔
      leftHash = rightHash ∧ leftFiles ≠ rightFiles := by
    rw [hashes]
    constructor
    · intro ⟨someLeft, someRight, someLeftOrder, someRightOrder, alike, apart⟩
      have leftSame := someLeftOrder.eq_of_listed leftOrder fun rel => by
        rw [someLeftOrder.listed, leftOrder.listed]
      have rightSame := someRightOrder.eq_of_listed rightOrder fun rel => by
        rw [someRightOrder.listed, rightOrder.listed]
      rw [leftSame, rightSame] at alike apart
      exact ⟨alike, apart⟩
    · intro ⟨alike, apart⟩
      exact ⟨leftFiles, rightFiles, leftOrder, rightOrder, alike, apart⟩
  rw [twins]
  by_cases same : leftHash = rightHash
  · have paths := eq_iff_of_readAlike leftOrder rightOrder (hashes.mp same)
    simp only [same, true_iff, true_and, not_not, ← paths, ne_eq]
  · have apart : ¬ ∀ rel, plaintext left leftRoot rel = plaintext right rightRoot rel :=
      fun content => same (versionHash_congr leftSnapshot rightSnapshot content)
    simp only [same, false_and, not_false_eq_true, iff_true, false_iff]
    exact apart

/-- The hash identifies all the files of two shares exactly when they are not such twins and do
not differ only where the walk does not look. -/
theorem versionHash_identifies_iff (collisionFree : CollisionFree crypto fun bytes =>
      Fed crypto left leftRoot bytes ∨ Fed crypto right rightRoot bytes)
    (leftAddressable : Addressable left leftRoot) (rightAddressable : Addressable right rightRoot)
    (leftSnapshot : snapshotContent crypto left leftRoot = .ok (leftHash, leftManifest))
    (rightSnapshot : snapshotContent crypto right rightRoot = .ok (rightHash, rightManifest)) :
    (leftHash = rightHash ↔ ∀ rel, fileAt left leftRoot rel = fileAt right rightRoot rel) ↔
      ¬ LossyTwins left leftRoot right rightRoot ∧ ¬ DifferHidden left leftRoot right rightRoot := by
  have seen := versionHash_plaintext_iff collisionFree leftAddressable rightAddressable leftSnapshot
    rightSnapshot
  have forward := versionHash_congr leftSnapshot rightSnapshot
  rw [plaintext_eq_iff (look_of_snapshotContent leftSnapshot) (look_of_snapshotContent rightSnapshot)]
    at seen forward
  -- Files are visible or hidden.
  have parts : (∀ rel, fileAt left leftRoot rel = fileAt right rightRoot rel) ↔
      (∀ rel, peerdupDirName ∉ rel → fileAt left leftRoot rel = fileAt right rightRoot rel) ∧
        ¬ ∃ rel, peerdupDirName ∈ rel ∧ fileAt left leftRoot rel ≠ fileAt right rightRoot rel := by
    constructor
    · exact fun same => ⟨fun rel _ => same rel, fun ⟨rel, _, apart⟩ => apart (same rel)⟩
    · intro ⟨visible, none_⟩ rel
      by_cases hidden : peerdupDirName ∈ rel
      · by_contra apart
        exact none_ ⟨rel, hidden, apart⟩
      · exact visible rel hidden
  rw [parts, DifferHidden]
  tauto

theorem versionHash_identifies_text (collisionFree : CollisionFree crypto fun bytes =>
      Fed crypto left leftRoot bytes ∨ Fed crypto right rightRoot bytes)
    (leftAddressable : Addressable left leftRoot) (rightAddressable : Addressable right rightRoot)
    (leftText : TextPaths left leftRoot) (rightText : TextPaths right rightRoot)
    (leftSnapshot : snapshotContent crypto left leftRoot = .ok (leftHash, leftManifest))
    (rightSnapshot : snapshotContent crypto right rightRoot = .ok (rightHash, rightManifest)) :
    leftHash = rightHash ↔ ∀ rel, plaintext left leftRoot rel = plaintext right rightRoot rel :=
  (versionHash_plaintext_iff collisionFree leftAddressable rightAddressable leftSnapshot
    rightSnapshot).mpr (not_lossyTwins_of_text leftText rightText)

end Snapshots

section Sample

open Reference

/-- A share of one file under a given name. -/
def shareOf (name : Name) : FileTree := FileTree.ofFiles [([ascii "share", name], [1])]

def shareRoot : Path := [ascii "share"]

/-- Whether every file below the root passes. -/
def everyFile (check : Path → Bytes → Bool) (tree : FileTree) : Bool :=
  tree.entries.all fun (path, node) =>
    match node with
    | .file content => check (path.drop 1) content
    | .directory => true

theorem check_of_everyFile {check : Path → Bytes → Bool} (checked : everyFile check tree = true)
    {rel : Path} {content : Bytes} (shown : plaintext tree shareRoot rel = some content) :
    check rel content = true := by
  obtain ⟨_, _, held⟩ := plaintext_eq_some_iff.mp shown
  have member := (FileTree.look_eq_some_iff (by simp [shareRoot])).mp held
  exact List.all_eq_true.mp checked _ member

theorem addressable_of_everyFile
    (checked : everyFile (fun rel _ => (lossy (pathBytes rel)).length < 2 ^ 64) tree = true) :
    Addressable tree shareRoot := by
  intro rel shown
  obtain ⟨content, found⟩ := Option.isSome_iff_exists.mp shown
  exact of_decide_eq_true (check_of_everyFile checked found)

theorem textPaths_of_everyFile
    (checked : everyFile (fun rel _ => validUtf8 (pathBytes rel)) tree = true) :
    TextPaths tree shareRoot := by
  intro rel shown
  obtain ⟨content, found⟩ := Option.isSome_iff_exists.mp shown
  exact check_of_everyFile checked found

def sampleFeeds (left right : FileTree) : List Bytes :=
  [[1], snapshotFeed cleartext left shareRoot, snapshotFeed cleartext right shareRoot]

theorem collisionFree_of_everyFile (leftChecked : everyFile (fun _ content => content = [1]) left = true)
    (rightChecked : everyFile (fun _ content => content = [1]) right = true)
    (apart : ((sampleFeeds left right).all fun one => (sampleFeeds left right).all fun other =>
      decide (digest one = digest other → one = other)) = true) :
    CollisionFree cleartext fun bytes =>
      Fed cleartext left shareRoot bytes ∨ Fed cleartext right shareRoot bytes := by
  have listed : ∀ bytes, Fed cleartext left shareRoot bytes ∨ Fed cleartext right shareRoot bytes →
      bytes ∈ sampleFeeds left right := by
    intro bytes fed
    rcases fed with (⟨rel, shown⟩ | feed) | (⟨rel, shown⟩ | feed)
    · simp [sampleFeeds, of_decide_eq_true (check_of_everyFile leftChecked shown)]
    · simp [sampleFeeds, feed]
    · simp [sampleFeeds, of_decide_eq_true (check_of_everyFile rightChecked shown)]
    · simp [sampleFeeds, feed]
  intro one other oneFed otherFed
  have each := List.all_eq_true.mp apart one (listed one oneFed)
  exact of_decide_eq_true (List.all_eq_true.mp each other (listed other otherFed))

/-- A file that is renamed from one text to another. -/
theorem textNames_identified : ∃ before after beforeManifest afterManifest,
    snapshotContent cleartext (shareOf (ascii "a")) shareRoot = .ok (before, beforeManifest) ∧
      snapshotContent cleartext (shareOf (ascii "b")) shareRoot = .ok (after, afterManifest) ∧
      before ≠ after := by
  obtain ⟨beforeManifest, taken, _⟩ := snapshotContent_ok cleartext
    (show (shareOf (ascii "a")).look shareRoot = some .directory by decide +kernel)
  obtain ⟨afterManifest, retaken, _⟩ := snapshotContent_ok cleartext
    (show (shareOf (ascii "b")).look shareRoot = some .directory by decide +kernel)
  have identified := (versionHash_identifies_iff
    (collisionFree_of_everyFile (by decide +kernel) (by decide +kernel) (by decide +kernel))
    (addressable_of_everyFile (by decide +kernel)) (addressable_of_everyFile (by decide +kernel))
    taken retaken).mpr
      ⟨not_lossyTwins_of_text (textPaths_of_everyFile (by decide +kernel))
        (textPaths_of_everyFile (by decide +kernel)),
        fun ⟨visible, _⟩ => absurd (visible [ascii "a"] (by decide)) (by decide +kernel)⟩
  refine ⟨_, _, _, _, taken, retaken, fun same => ?_⟩
  have content := identified.mp same [ascii "a"]
  revert content
  decide +kernel

/-- A file that is renamed from one byte to another, neither of which is text. -/
theorem rawNames_collide :
    (CollisionFree cleartext fun bytes => Fed cleartext (shareOf [0xFE]) shareRoot bytes ∨
        Fed cleartext (shareOf [0xFF]) shareRoot bytes) ∧
      Addressable (shareOf [0xFE]) shareRoot ∧ Addressable (shareOf [0xFF]) shareRoot ∧
      ∃ hash beforeManifest afterManifest,
        snapshotContent cleartext (shareOf [0xFE]) shareRoot = .ok (hash, beforeManifest) ∧
          snapshotContent cleartext (shareOf [0xFF]) shareRoot = .ok (hash, afterManifest) ∧
          ¬ ∀ rel, fileAt (shareOf [0xFE]) shareRoot rel = fileAt (shareOf [0xFF]) shareRoot rel := by
  refine ⟨collisionFree_of_everyFile (by decide +kernel) (by decide +kernel) (by decide +kernel),
    addressable_of_everyFile (by decide +kernel), addressable_of_everyFile (by decide +kernel), ?_⟩
  obtain ⟨beforeManifest, taken, _⟩ := snapshotContent_ok cleartext
    (show (shareOf [0xFE]).look shareRoot = some .directory by decide +kernel)
  obtain ⟨afterManifest, retaken, _⟩ := snapshotContent_ok cleartext
    (show (shareOf [0xFF]).look shareRoot = some .directory by decide +kernel)
  have feeds : snapshotFeed cleartext (shareOf [0xFF]) shareRoot =
      snapshotFeed cleartext (shareOf [0xFE]) shareRoot := by decide +kernel
  rw [feeds] at retaken
  refine ⟨_, _, _, taken, retaken, fun same => ?_⟩
  have content := same [[0xFE]]
  revert content
  decide +kernel

end Sample

end Peerdup.Daemon
