import Peerdup.Daemon.DecryptPass
import Peerdup.Foundation.DiskSteps
import Peerdup.Reference

/-!
# Where a decryption pass writes

Below the share's root and outside the daemon's own directory, but for a file whose name is
nothing more than its suffix: that one is written beside the root.
-/

set_option autoImplicit false

namespace Peerdup.Daemon

open Foundation Crypto FileTree

/-- The calls by which a file's plaintext is put in place, up to the first that has to fail. -/
def placeSteps (root : Path) (plaintext : Bytes) : PlaintextRel → List DiskStep
  | .file rel =>
      let path := root ++ rel
      let tmp := withSuffix path tmpSuffix
      [.createDirAll path.dropLast, .write tmp plaintext, .rename tmp path]
  | .here dir _ =>
      let path := root ++ dir
      .createDirAll path.dropLast ::
        -- A file is never renamed onto a path that ends in a separator or a dot.
        if path = [] then [] else [.write (withSuffix path tmpSuffix) plaintext]
  | .up dir => [.createDirAll (root ++ dir)]

def decryptFileReached (crypto : Primitives) (tree : FileTree) (root : Path) (key : KeyRing)
    (shadowRel : Path) : List Path :=
  match plaintextRelFromShadowRel shadowRel with
  | none => []
  | some rel =>
      match tree.read (shadowRoot root ++ shadowRel) with
      | .error _ => []
      | .ok ciphertext =>
          match decrypt crypto key ciphertext with
          | .error _ => []
          | .ok plaintext => reachedAll (placeSteps root plaintext rel) tree

def decryptFilesReached (crypto : Primitives) (root : Path) (key : KeyRing) :
    List Path → FileTree → List Path
  | [], _ => []
  | shadowRel :: shadowFiles, tree =>
      decryptFileReached crypto tree root key shadowRel ++
        match decryptFile crypto tree root key shadowRel with
        | (.error _, _) => []
        | (.ok _, tree) => decryptFilesReached crypto root key shadowFiles tree

/-- Every path that `sync_shadow_to_plaintext` creates, writes or renames. -/
def syncShadowToPlaintextReached (crypto : Primitives) (tree : FileTree) (root : Path)
    (key : KeyRing) : List Path :=
  let shadow := shadowRoot root
  if tree.look shadow = none then []
  else
    match collectFiles tree shadow with
    | .error _ => []
    | .ok shadowFiles => decryptFilesReached crypto root key shadowFiles tree

/-- Strictly below the root, and neither the daemon's directory nor in it. -/
def StrictlyInside (root path : Path) : Prop :=
  root <+: path ∧ path ≠ root ∧ ¬ root ++ [peerdupDirName] <+: path

variable {crypto : Primitives} {tree after : FileTree} {root path : Path} {key : KeyRing}
  {content : Bytes} {shadowRel : Path} {target : PlaintextRel}

theorem strictlyInside_append {rel : Path} (nonempty : rel ≠ [])
    (outside : rel.head? ≠ some peerdupDirName) : StrictlyInside root (root ++ rel) := by
  refine ⟨List.prefix_append _ _, ?_, ?_⟩
  · intro same
    exact nonempty (List.append_right_eq_self.mp same)
  · intro below
    obtain ⟨more, same⟩ := (List.prefix_append_right_inj root).mp below
    apply outside
    rw [← same]
    rfl

theorem place_takeAll (tree : FileTree) (root : Path) (target : PlaintextRel) (content : Bytes) :
    (place tree root target content).2 = (takeAll (placeSteps root content target) tree).2 := by
  cases target with
  | file rel =>
      rw [place, placeFile, placeSteps, takeAll, take]
      dsimp only
      cases tree.createDirAll (root ++ rel).dropLast with
      | error error => rfl
      | ok made =>
          dsimp only
          rw [takeAll, take]
          cases made.write (withSuffix (root ++ rel) tmpSuffix) content with
          | error error => rfl
          | ok written =>
              dsimp only
              rw [takeAll, take]
              cases written.rename (withSuffix (root ++ rel) tmpSuffix) (root ++ rel) with
              | error error => rfl
              | ok moved => rfl
  | here dir ending =>
      rw [place, placeHere, placeSteps, takeAll, take]
      dsimp only
      cases tree.createDirAll (root ++ dir).dropLast with
      | error error => rfl
      | ok made =>
          dsimp only
          split
          · rfl
          · rw [takeAll, take]
            cases made.write (withSuffix (root ++ dir) tmpSuffix) content with
            | error error => rfl
            | ok written => rfl
  | up dir =>
      rw [place, placeUp, placeSteps, takeAll, take]
      cases tree.createDirAll (root ++ dir) with
      | error error => rfl
      | ok made => rfl

theorem look_decryptFile (apart : path ∉ decryptFileReached crypto tree root key shadowRel) :
    (decryptFile crypto tree root key shadowRel).2.look path = tree.look path := by
  unfold decryptFileReached at apart
  unfold decryptFile
  split
  · rfl
  next named =>
    rw [named] at apart
    dsimp only at apart ⊢
    split
    · rfl
    next read =>
      rw [read] at apart
      dsimp only at apart
      split
      · rfl
      next opened =>
        rw [opened] at apart
        have kept := look_takeAll apart
        rw [← place_takeAll] at kept
        split
        · next placed =>
            rw [placed] at kept
            exact kept
        · next placed =>
            rw [placed] at kept
            exact kept

theorem look_decryptFiles {listing : List Path} {manifest : Manifest}
    (apart : path ∉ decryptFilesReached crypto root key listing tree) :
    (decryptFiles crypto root key listing manifest tree).2.look path = tree.look path := by
  induction listing generalizing tree manifest with
  | nil => rfl
  | cons shadowRel listing ih =>
      rw [decryptFilesReached, List.mem_append, not_or] at apart
      obtain ⟨here, later⟩ := apart
      have kept := look_decryptFile here
      rw [decryptFiles]
      split
      · next ran =>
          rw [ran] at kept
          exact kept
      · next ran =>
          rw [ran] at kept later
          rw [ih later, kept]
      · next ran =>
          rw [ran] at kept later
          rw [ih later, kept]

/-- A pass changes nothing but what it reaches. -/
theorem look_syncShadowToPlaintext
    (apart : path ∉ syncShadowToPlaintextReached crypto tree root key) :
    (syncShadowToPlaintext crypto tree root key).2.look path = tree.look path := by
  unfold syncShadowToPlaintextReached at apart
  unfold syncShadowToPlaintext
  dsimp only at apart ⊢
  split
  · rfl
  next there =>
    rw [if_neg there] at apart
    split
    · rfl
    · next collected =>
        rw [collected] at apart
        exact look_decryptFiles apart

/-- A plaintext path keeps the directory of its ciphertext. -/
theorem plaintextRel_cases (named : plaintextRelFromShadowRel shadowRel = some target) :
    ∃ dir stripped, shadowRel = dir ++ [stripped ++ binSuffix] ∧
      (target = .file (dir ++ [stripped]) ∨
        (target = .here dir .separator ∧ stripped = [] ∨
          target = .here dir .dot ∧ stripped = ascii ".") ∨ target = .up dir) := by
  unfold plaintextRelFromShadowRel at named
  split at named
  · cases named
  next last isLast =>
    split at named
    · cases named
    next accepted =>
      have suffixed : binSuffix.isSuffixOf last = true := by
        simp only [Bool.or_eq_true, not_or, Bool.not_eq_true, Bool.not_eq_false'] at accepted
        exact accepted.2
      obtain ⟨stripped, whole⟩ := List.isSuffixOf_iff_suffix.mp suffixed
      subst whole
      dsimp only at named
      rw [List.length_append, Nat.add_sub_cancel, List.take_left] at named
      refine ⟨shadowRel.dropLast, stripped, (List.dropLast_append_getLast? _ isLast).symm, ?_⟩
      split at named
      · next bare =>
          cases named
          exact .inr (.inl (.inl ⟨rfl, bare⟩))
      split at named
      · next dot =>
          cases named
          exact .inr (.inl (.inr ⟨rfl, dot⟩))
      split at named
      · cases named
        exact .inr (.inr rfl)
      · cases named
        exact .inl rfl

section Inside

variable {dir : Path}

/-- Directories are created where they are missing, which is nowhere above the root. -/
theorem strictlyInside_of_created (rootDir : tree.look root = some .directory)
    (outside : peerdupDirName ∉ dir) (made : path ∈ tree.reached (.createDirAll (root ++ dir))) :
    StrictlyInside root path := by
  obtain ⟨above, missing⟩ := mem_reached_createDirAll made
  rcases List.prefix_or_prefix_of_prefix above (List.prefix_append root dir) with higher | ⟨more, rfl⟩
  · rw [directory_above rootDir higher] at missing
    cases missing
  · refine strictlyInside_append ?_ ?_
    · intro empty
      rw [empty, List.append_nil, rootDir] at missing
      cases missing
    · intro first
      have inside := (List.prefix_append_right_inj root).mp above
      exact outside (inside.subset (List.mem_of_mem_head? first))

theorem strictlyInside_temporary {name : Name} (outside : peerdupDirName ∉ dir) :
    StrictlyInside root (withSuffix (root ++ (dir ++ [name])) tmpSuffix) := by
  have nonempty : dir ++ [name] ≠ [] := by simp
  have hidden : peerdupDirName ∉ temporary (dir ++ [name]) := not_mem_temporary_child outside
  rw [withSuffix_below root nonempty, ← temporary]
  refine strictlyInside_append ?_ fun first => hidden (List.mem_of_mem_head? first)
  rw [temporary, withSuffix_append]
  simp

/-- The daemon's directory is there, so nothing is renamed onto it. -/
theorem strictlyInside_of_renamed {name : Name}
    (own : tree.look (root ++ [peerdupDirName]) = some .directory) (outside : peerdupDirName ∉ dir)
    {after : FileTree} {source : Path}
    (renamed : tree.rename source (root ++ (dir ++ [name])) = .ok after) :
    StrictlyInside root (root ++ (dir ++ [name])) := by
  refine strictlyInside_append (by simp) fun first => ?_
  cases dir with
  | nil =>
      rw [List.nil_append, List.head?_cons] at first
      rw [List.nil_append, Option.some.inj first] at renamed
      exact not_directory_of_rename renamed own
  | cons top dir =>
      rw [List.cons_append, List.head?_cons] at first
      exact outside (Option.some.inj first ▸ List.mem_cons_self)

theorem strictlyInside_of_placeFile (rootDir : tree.look root = some .directory)
    (own : tree.look (root ++ [peerdupDirName]) = some .directory) {name : Name}
    (outside : peerdupDirName ∉ dir)
    (placed : path ∈ reachedAll (placeSteps root content (.file (dir ++ [name]))) tree) :
    StrictlyInside root path := by
  rcases mem_reachedAll_cons.mp placed with created | ⟨made, creates, later⟩
  · rw [← List.append_assoc, List.dropLast_concat] at created
    exact strictlyInside_of_created rootDir outside created
  rcases mem_reachedAll_cons.mp later with wrote | ⟨written, writes, last⟩
  · rw [(mem_reached_write wrote).1]
    exact strictlyInside_temporary outside
  rcases mem_reachedAll_cons.mp last with moved | ⟨_, _, nothing⟩
  · obtain ⟨either, renamed, moves⟩ := mem_reached_rename moved
    rcases either with rfl | rfl
    · exact strictlyInside_temporary outside
    · exact strictlyInside_of_renamed (directory_take writes (directory_take creates own)) outside moves
  · cases nothing

/-- The temporary name of the share's root cannot be that of a file beside it. -/
def NoPlaceBeside (tree : FileTree) (root : Path) : Prop :=
  root = [] ∨ ¬ NameFits tmpSuffix root ∨ tree.look (temporary root) = some .directory

/-- The path of the share's root itself is the one that leads outside. -/
theorem strictlyInside_of_placeHere {ending : Ending} (rootDir : tree.look root = some .directory)
    (outside : peerdupDirName ∉ dir) (harmless : dir = [] → NoPlaceBeside tree root)
    (placed : path ∈ reachedAll (placeSteps root content (.here dir ending)) tree) :
    StrictlyInside root path := by
  rcases mem_reachedAll_cons.mp placed with created | ⟨made, creates, later⟩
  · rcases List.eq_nil_or_concat dir with rfl | ⟨front, name, rfl⟩
    · rw [List.append_nil] at created
      obtain ⟨above, missing⟩ := mem_reached_createDirAll created
      rw [directory_above rootDir (above.trans (List.dropLast_prefix root))] at missing
      cases missing
    · rw [List.concat_eq_append] at created outside
      rw [← List.append_assoc, List.dropLast_concat] at created
      exact strictlyInside_of_created rootDir
        (fun inside => outside (List.mem_append_left _ inside)) created
  · split at later
    · cases later
    next nonempty =>
      rcases mem_reachedAll_cons.mp later with wrote | ⟨_, _, nothing⟩
      swap
      · cases nothing
      obtain ⟨rfl, written, writes⟩ := mem_reached_write wrote
      rcases List.eq_nil_or_concat dir with rfl | ⟨front, name, rfl⟩
      · rw [List.append_nil] at nonempty writes
        obtain ⟨free, _, legal⟩ := write_ok_iff.mp ⟨written, writes⟩
        rcases (harmless rfl).resolve_left nonempty with long | sibling
        · exact absurd (nameFits_of_legal nonempty legal) long
        · exact absurd (directory_take creates sibling) free
      · rw [List.concat_eq_append] at outside ⊢
        exact strictlyInside_temporary fun inside => outside (List.mem_append_left _ inside)

/-- No ciphertext whose plaintext would be the share's root can be decrypted, or there is no
sibling to be written. -/
def Harmless (crypto : Primitives) (tree : FileTree) (root : Path) (key : KeyRing) : Prop :=
  ∀ shadowRel ending ciphertext content,
    plaintextRelFromShadowRel shadowRel = some (.here [] ending) →
    tree.look (shadowRoot root ++ shadowRel) = some (.file ciphertext) →
    decrypt crypto key ciphertext = .ok content → NoPlaceBeside tree root

theorem strictlyInside_of_decryptFile (rootDir : tree.look root = some .directory)
    (own : tree.look (root ++ [peerdupDirName]) = some .directory)
    (harmless : Harmless crypto tree root key) (outside : peerdupDirName ∉ shadowRel.dropLast)
    (decrypted : path ∈ decryptFileReached crypto tree root key shadowRel) :
    StrictlyInside root path := by
  unfold decryptFileReached at decrypted
  split at decrypted
  · cases decrypted
  next target named =>
    split at decrypted
    · cases decrypted
    next ciphertext read =>
      split at decrypted
      · cases decrypted
      next content opened =>
        obtain ⟨dir, stripped, rfl, cases_⟩ := plaintextRel_cases named
        rw [List.dropLast_concat] at outside
        have spared : ∀ {ending}, target = .here dir ending → dir = [] → NoPlaceBeside tree root := by
          intro ending here top
          rw [here, top] at named
          exact harmless _ ending ciphertext content (top ▸ named) (read_ok_iff.mp read) opened
        rcases cases_ with rfl | (⟨rfl, _⟩ | ⟨rfl, _⟩) | rfl
        · exact strictlyInside_of_placeFile rootDir own outside decrypted
        · exact strictlyInside_of_placeHere rootDir outside (spared rfl) decrypted
        · exact strictlyInside_of_placeHere rootDir outside (spared rfl) decrypted
        · rcases mem_reachedAll_cons.mp decrypted with created | ⟨_, _, nothing⟩
          · exact strictlyInside_of_created rootDir outside created
          · cases nothing

/-- What stays inside leaves the shadow and every directory as they were. -/
theorem Harmless.decryptFile (rootDir : tree.look root = some .directory)
    (own : tree.look (root ++ [peerdupDirName]) = some .directory)
    (harmless : Harmless crypto tree root key) (outside : peerdupDirName ∉ shadowRel.dropLast) :
    Harmless crypto (decryptFile crypto tree root key shadowRel).2 root key := by
  intro other ending ciphertext content named held opened
  rw [look_decryptFile] at held
  · exact (harmless other ending ciphertext content named held opened).imp_right
      (Or.imp_right (directory_decryptFile crypto root key shadowRel))
  · intro reached
    have inside := strictlyInside_of_decryptFile rootDir own harmless outside reached
    apply inside.2.2
    rw [shadowRoot, List.append_assoc]
    refine (List.prefix_append_right_inj root).mpr ?_
    exact (List.prefix_append [peerdupDirName] [ascii "encrypted"]).trans (List.prefix_append _ _)

theorem strictlyInside_of_decryptFiles {listing : List Path}
    (rootDir : tree.look root = some .directory)
    (own : tree.look (root ++ [peerdupDirName]) = some .directory)
    (harmless : Harmless crypto tree root key)
    (outside : ∀ shadowRel ∈ listing, peerdupDirName ∉ shadowRel)
    (reached : path ∈ decryptFilesReached crypto root key listing tree) :
    StrictlyInside root path := by
  induction listing generalizing tree with
  | nil => cases reached
  | cons shadowRel listing ih =>
      obtain ⟨first, others⟩ := List.forall_mem_cons.mp outside
      have dirOutside : peerdupDirName ∉ shadowRel.dropLast :=
        fun inside => first (List.mem_of_mem_dropLast inside)
      rw [decryptFilesReached, List.mem_append] at reached
      rcases reached with here | later
      · exact strictlyInside_of_decryptFile rootDir own harmless dirOutside here
      · have keptRoot := directory_decryptFile crypto root key shadowRel rootDir
        have keptOwn := directory_decryptFile crypto root key shadowRel own
        have keptHarmless := harmless.decryptFile rootDir own dirOutside
        split at later
        · cases later
        · next ran =>
            rw [ran] at keptRoot keptOwn keptHarmless
            exact ih keptRoot keptOwn keptHarmless others later

end Inside

/-- A top-level shadow file named by the suffix alone, or by a dot and the suffix, opens. -/
def NamelessOpens (crypto : Primitives) (tree : FileTree) (root : Path) (key : KeyRing) : Prop :=
  ∃ name ciphertext content, (name = binSuffix ∨ name = ascii "..bin") ∧
    tree.look (shadowRoot root ++ [name]) = some (.file ciphertext) ∧
    decrypt crypto key ciphertext = .ok content

theorem plaintextRel_here_iff :
    (∃ ending, plaintextRelFromShadowRel shadowRel = some (.here [] ending)) ↔
      shadowRel = [binSuffix] ∨ shadowRel = [ascii "..bin"] := by
  constructor
  · intro ⟨ending, named⟩
    obtain ⟨dir, stripped, rfl, cases_⟩ := plaintextRel_cases named
    rcases cases_ with contra | (⟨same, rfl⟩ | ⟨same, rfl⟩) | contra
    · cases contra
    · cases same
      exact .inl rfl
    · cases same
      exact .inr (by decide)
    · cases contra
  · intro either
    rcases either with rfl | rfl
    · exact ⟨.separator, by decide +kernel⟩
    · exact ⟨.dot, by decide +kernel⟩

theorem harmless_iff : Harmless crypto tree root key ↔
    (NamelessOpens crypto tree root key → NoPlaceBeside tree root) := by
  constructor
  · intro harmless ⟨name, ciphertext, content, named, held, opened⟩
    obtain ⟨ending, here⟩ : ∃ ending, plaintextRelFromShadowRel [name] = some (.here [] ending) :=
      plaintextRel_here_iff.mpr (named.imp (congrArg ([·])) (congrArg ([·])))
    exact harmless [name] ending ciphertext content here held opened
  · intro spared shadowRel ending ciphertext content named held opened
    rcases plaintextRel_here_iff.mp ⟨ending, named⟩ with rfl | rfl
    · exact spared ⟨_, ciphertext, content, .inl rfl, held, opened⟩
    · exact spared ⟨_, ciphertext, content, .inr rfl, held, opened⟩

/-- In some order of its entries, the shadow is walked from a given file on. -/
theorem exists_walked_first {name : Name} {ciphertext : Bytes} (visible : name ≠ peerdupDirName)
    (held : tree.look (shadowRoot root ++ [name]) = some (.file ciphertext)) :
    ∃ listed more, (∀ path, listed.look path = tree.look path) ∧
      collectFiles listed (shadowRoot root) = .ok ([name] :: more) := by
  have member := (look_eq_some_iff (by simp)).mp held
  let entry : Path × Node := (shadowRoot root ++ [name], .file ciphertext)
  have perm : (entry :: tree.entries.erase entry).Perm tree.entries :=
    (List.perm_cons_erase member).symm
  have found : (tree.relisted _ perm).look (shadowRoot root ++ []) = some .directory := by
    rw [look_relisted, List.append_nil]
    exact look_parent held
  obtain ⟨others, listing⟩ : ∃ others, (tree.relisted _ perm).children (shadowRoot root) =
      (name, .file ciphertext) :: others := by
    simp [children, relisted, entry]
  refine ⟨tree.relisted _ perm, ?_⟩
  rw [collectFiles, collectBelow_eq _ found, filesBelow, List.append_nil, listing, List.flatMap_cons]
  dsimp only
  rw [if_neg visible]
  exact ⟨_, look_relisted tree perm, rfl⟩

/-- The plaintext of such a file is written beside the share's root. -/
theorem temporary_reached {above : Path} {last : Name}
    (rootDir : tree.look (above ++ [last]) = some .directory)
    (short : NameFits tmpSuffix (above ++ [last]))
    (free : tree.look (temporary (above ++ [last])) ≠ some .directory) (content : Bytes)
    (ending : Ending) : temporary (above ++ [last]) ∈
      reachedAll (placeSteps (above ++ [last]) content (.here [] ending)) tree := by
  have parent : tree.look above = some .directory := look_parent rootDir
  have creates : tree.take (.createDirAll (above ++ [last] ++ []).dropLast) = .ok tree := by
    rw [List.append_nil, List.dropLast_concat]
    exact createDirAll_of_directory parent
  have legal := look_legal rootDir
  rw [List.all_append, Bool.and_eq_true] at legal
  obtain ⟨written, writes⟩ : ∃ written, tree.write (temporary (above ++ [last])) content = .ok written := by
    refine write_ok_iff.mpr ⟨free, ?_, ?_⟩
    · rwa [temporary, withSuffix_append, List.dropLast_concat]
    · have named : legalName last = true := by simpa using legal.2
      rw [temporary, withSuffix_append, List.all_append, legal.1]
      have suffixed := legalName_append named (by decide : 1 < tmpSuffix.length) (by decide)
        (by decide) ((nameFits_append _ _ _).mp short)
      simpa using suffixed
  refine mem_reachedAll_cons.mpr (.inr ⟨tree, creates, ?_⟩)
  rw [List.append_nil, if_neg (by simp)]
  refine mem_reachedAll_cons.mpr (.inl ?_)
  rw [reached, take, ← temporary, writes]
  exact List.mem_singleton_self _

theorem not_strictlyInside_temporary (nonempty : root ≠ []) :
    ¬ StrictlyInside root (temporary root) := by
  intro inside
  have same := inside.1.eq_of_length (length_withSuffix root tmpSuffix).symm
  exact temporary_ne nonempty same.symm

/-- In whatever order the shadow is listed, a pass stays inside the share, exactly when no file
without a name opens, or there is no place beside the root to write it to. -/
theorem decryption_strictlyInside_iff (crypto : Primitives) (tree : FileTree) (root : Path)
    (key : KeyRing) :
    (∀ listed : FileTree, (∀ path, listed.look path = tree.look path) →
      ∀ path ∈ syncShadowToPlaintextReached crypto listed root key, StrictlyInside root path) ↔
    (NamelessOpens crypto tree root key → NoPlaceBeside tree root) := by
  constructor
  · intro inside ⟨name, ciphertext, content, named, held, opened⟩
    by_contra spared
    obtain ⟨nonempty, fits⟩ := not_or.mp spared
    obtain ⟨short, free⟩ := not_or.mp fits
    have visible : name ≠ peerdupDirName := by
      rcases named with rfl | rfl
      · decide
      · decide
    obtain ⟨listed, more, same, collected⟩ := exists_walked_first visible held
    apply not_strictlyInside_temporary nonempty
    apply inside listed same
    obtain ⟨ending, here⟩ : ∃ ending, plaintextRelFromShadowRel [name] = some (.here [] ending) :=
      plaintextRel_here_iff.mpr (named.imp (congrArg ([·])) (congrArg ([·])))
    have read : listed.read (shadowRoot root ++ [name]) = .ok ciphertext := by
      rw [read_ok_iff, same, held]
    have shadow : tree.look (shadowRoot root) = some .directory := look_parent held
    rw [syncShadowToPlaintextReached, same, if_neg (by rw [shadow]; simp), collected]
    dsimp only
    rw [decryptFilesReached, decryptFileReached, here]
    dsimp only
    rw [read]
    dsimp only
    rw [opened]
    refine List.mem_append_left _ ?_
    obtain ⟨above, last, rfl⟩ := (List.eq_nil_or_concat root).resolve_left nonempty
    rw [List.concat_eq_append] at *
    refine temporary_reached ?_ (not_not.mp short) ?_ content ending
    · rw [same]
      exact directory_above shadow (List.prefix_append _ _)
    · rwa [same]
  · intro spared listed same path reached
    have harmless : Harmless crypto listed root key := by
      refine harmless_iff.mpr fun ⟨name, ciphertext, content, named, held, opened⟩ => ?_
      rw [same] at held
      unfold NoPlaceBeside
      rw [same]
      exact spared ⟨name, ciphertext, content, named, held, opened⟩
    unfold syncShadowToPlaintextReached at reached
    dsimp only at reached
    split at reached
    · cases reached
    split at reached
    · cases reached
    next shadowFiles collected =>
      have shadow := look_of_collectFiles collected
      have own : listed.look (root ++ [peerdupDirName]) = some .directory :=
        directory_above shadow ((List.prefix_append_right_inj root).mpr (List.prefix_append _ _))
      refine strictlyInside_of_decryptFiles (look_parent own) own harmless ?_ reached
      intro shadowRel member
      obtain ⟨paths, again, _, listedAs⟩ := collectFiles_ok shadow
      rw [collected] at again
      cases again
      exact (plaintext_isSome_iff.mp ((listedAs shadowRel).mp member)).2.1

section Sample

open Reference

def strayRing : KeyRing := ⟨[.ofBytes 32 [7]], singleton_ne_nil _⟩

/-- A share whose fetched shadow has a file under the suffix alone. -/
def strayDisk : FileTree :=
  FileTree.ofFiles [([ascii "home", ascii "docs", peerdupDirName, ascii "encrypted", binSuffix],
    ((encrypt cleartext strayRing (.ofBytes 24 [1]) [0x68, 0x69]).toOption.getD []))]

theorem suffixAlone_escapes :
    [ascii "home", ascii "docs.peerdup-tmp"] ∈
        syncShadowToPlaintextReached cleartext strayDisk [ascii "home", ascii "docs"] strayRing ∧
      (syncShadowToPlaintext cleartext strayDisk [ascii "home", ascii "docs"] strayRing).2.look
          [ascii "home", ascii "docs.peerdup-tmp"] = some (.file [0x68, 0x69]) ∧
      ¬ StrictlyInside [ascii "home", ascii "docs"] [ascii "home", ascii "docs.peerdup-tmp"] := by
  refine ⟨by decide +kernel, by decide +kernel, ?_⟩
  intro inside
  exact absurd inside.1 (by decide)

end Sample

end Peerdup.Daemon
