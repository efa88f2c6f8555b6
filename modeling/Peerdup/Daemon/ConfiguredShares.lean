import Peerdup.Daemon.PresentShare

/-!
# The shares that are configured

`load_all` lists what the `share.json` files under the shares directory hold, and nothing
when one of them cannot be read.
-/

set_option autoImplicit false

namespace Peerdup.Daemon.ShareFiles

open Foundation Auth Crypto FileTree RawPath

variable {formats : FileFormats} {tree after : FileTree} {dataDir : RawPath} {name : Name}
  {config : StoredConfig} {configs out : List StoredConfig}

/-- Where the shares' directories are, once the data directory's path is followed. -/
def sharesPath (dataDir : RawPath) : Path := resolve [] (sharesDir dataDir)

def configPath (dataDir : RawPath) (name : Name) : Path :=
  sharesPath dataDir ++ [name] ++ [ascii "share.json"]

def Configured (formats : FileFormats) (tree : FileTree) (dataDir : RawPath)
    (config : StoredConfig) : Prop :=
  ∃ configs, loadAll formats tree dataDir = .ok configs ∧ config ∈ configs

/-- The `share.json` under this name holds the configuration. -/
def Lists (formats : FileFormats) (tree : FileTree) (dataDir : RawPath) (name : Name)
    (config : StoredConfig) : Prop :=
  ∃ bytes, tree.look (configPath dataDir name) = some (.file bytes) ∧
    formats.parseConfig bytes = some config

/-- There is no `share.json` under this name, or a good one. -/
def Readable (formats : FileFormats) (tree : FileTree) (dataDir : RawPath) (name : Name) : Prop :=
  tree.look (configPath dataDir name) = none ∨ ∃ config, Lists formats tree dataDir name config

theorem present_child (present : Present tree (sharesDir dataDir))
    (there : tree.look (sharesPath dataDir ++ [name]) = some .directory) :
    Present tree (sharesDir dataDir ++ [name]) ∧
      resolve [] (sharesDir dataDir ++ [name]) = sharesPath dataDir ++ [name] := by
  have legal : legalName name = true := by
    have all := look_legal there
    rw [List.all_append, Bool.and_eq_true] at all
    simpa using all.2
  have leads : resolve [] (sharesDir dataDir ++ [name]) = sharesPath dataDir ++ [name] := by
    rw [resolve_append, resolve_of_legal _ legal]
    rfl
  refine ⟨⟨?_, leads ▸ there⟩, leads⟩
  rw [leads]
  exact present.reaches legal

theorem loadEntry_ok_iff {node : Node} {next : List StoredConfig}
    (present : Present tree (sharesDir dataDir))
    (there : tree.look (sharesPath dataDir ++ [name]) = some node) :
    loadEntry formats tree dataDir out (name, node) = .ok next ↔
      tree.look (configPath dataDir name) = none ∧ next = out ∨
        ∃ config, Lists formats tree dataDir name config ∧ next = out ++ [config] := by
  cases node with
  | file content =>
      have absent : tree.look (configPath dataDir name) = none := by
        cases found : tree.look (configPath dataDir name) with
        | none => rfl
        | some inside => cases there.symm.trans (look_parent found)
      simp [loadEntry, absent, Lists, eq_comm]
  | directory =>
      obtain ⟨child, leads⟩ := present_child present there
      have split : sharesDir dataDir ++ [name, ascii "share.json"] =
          sharesDir dataDir ++ [name] ++ [ascii "share.json"] := by simp
      rw [loadEntry, split, child.existsAt_eq (by decide), child.readAt_eq (by decide), leads,
        ← configPath]
      cases found : tree.look (configPath dataDir name) with
      | none => simp [Lists, found, eq_comm]
      | some node =>
          cases node with
          | directory => simp [Lists, found, FileTree.read]
          | file bytes =>
              cases parsed : formats.parseConfig bytes with
              | none => simp [Lists, found, FileTree.read, parsed]
              | some config => simp [Lists, found, FileTree.read, parsed, eq_comm]

section Entries

variable {entries : List (Name × Node)} (present : Present tree (sharesDir dataDir))
  (listed : ∀ entry ∈ entries, tree.look (sharesPath dataDir ++ [entry.1]) = some entry.2)

include present listed in
theorem mem_of_loadEntries
    (loaded : entries.foldlM (loadEntry formats tree dataDir) out = .ok configs) :
    (∀ entry ∈ entries, Readable formats tree dataDir entry.1) ∧
      ∀ config, config ∈ configs ↔
        config ∈ out ∨ ∃ entry ∈ entries, Lists formats tree dataDir entry.1 config := by
  induction entries generalizing out with
  | nil =>
      cases loaded
      simp
  | cons entry entries ih =>
      obtain ⟨name, node⟩ := entry
      obtain ⟨here, others⟩ := List.forall_mem_cons.mp listed
      rw [List.foldlM_cons] at loaded
      cases step : loadEntry formats tree dataDir out (name, node) with
      | error failure =>
          rw [step] at loaded
          cases loaded
      | ok next =>
          rw [step] at loaded
          obtain ⟨readable, members⟩ := ih others loaded
          rcases (loadEntry_ok_iff present here).mp step with ⟨absent, same⟩ | ⟨held, lists, same⟩
          · subst same
            refine ⟨List.forall_mem_cons.mpr ⟨.inl absent, readable⟩, fun config => ?_⟩
            rw [members config]
            simp [Lists, absent]
          · subst same
            refine ⟨List.forall_mem_cons.mpr ⟨.inr ⟨held, lists⟩, readable⟩, fun config => ?_⟩
            have only : Lists formats tree dataDir name config ↔ config = held := by
              obtain ⟨bytes, found, parsed⟩ := lists
              simp [Lists, found, parsed, eq_comm]
            rw [members config]
            simp [only, or_assoc]

include present listed in
theorem loadEntries_of_readable
    (readable : ∀ entry ∈ entries, Readable formats tree dataDir entry.1) :
    ∃ configs, entries.foldlM (loadEntry formats tree dataDir) out = .ok configs := by
  induction entries generalizing out with
  | nil => exact ⟨out, rfl⟩
  | cons entry entries ih =>
      obtain ⟨name, node⟩ := entry
      obtain ⟨here, others⟩ := List.forall_mem_cons.mp listed
      obtain ⟨first, later⟩ := List.forall_mem_cons.mp readable
      obtain ⟨next, step⟩ : ∃ next, loadEntry formats tree dataDir out (name, node) = .ok next := by
        rcases first with absent | ⟨config, lists⟩
        · exact ⟨out, (loadEntry_ok_iff present here).mpr (.inl ⟨absent, rfl⟩)⟩
        · exact ⟨out ++ [config], (loadEntry_ok_iff present here).mpr (.inr ⟨config, lists, rfl⟩)⟩
      rw [List.foldlM_cons, step]
      exact ih others later

end Entries

theorem loadAll_of_present (present : Present tree (sharesDir dataDir)) :
    loadAll formats tree dataDir =
      match (tree.children (sharesPath dataDir)).foldlM (loadEntry formats tree dataDir) [] with
      | .error failure => .error failure
      | .ok configs => .ok (configs.insertionSort fun left right => left.id ≤ right.id) := by
  have there : tree.existsAt (sharesDir dataDir) = true := by
    rw [existsAt, present.walked]
    dsimp only
    rw [present.directory]
    rfl
  have listing : tree.readDirAt (sharesDir dataDir) = .ok (tree.children (sharesPath dataDir)) := by
    rw [readDirAt, present.walked]
    dsimp only
    rw [readDir, present.directory]
    rfl
  unfold loadAll
  dsimp only
  rw [there, listing]
  rfl

theorem present_of_existsAt {dir : RawPath} (there : tree.existsAt dir = true)
    (directory : tree.look (resolve [] dir) = some .directory) : Present tree dir := by
  refine ⟨?_, directory⟩
  unfold existsAt at there
  split at there
  · cases there
  · next path walked => rw [walked, walk_resolve walked]

theorem present_of_configured (configured : Configured formats tree dataDir config) :
    Present tree (sharesDir dataDir) := by
  obtain ⟨configs, loaded, member⟩ := configured
  unfold loadAll at loaded
  dsimp only at loaded
  split at loaded
  · cases loaded
    cases member
  next there =>
    rw [Bool.not_eq_true', Bool.not_eq_false] at there
    refine present_of_existsAt there ?_
    split at loaded
    · cases loaded
    next entries listing =>
      unfold readDirAt at listing
      split at listing
      · cases listing
      next path walked =>
        rw [walk_resolve walked]
        unfold readDir at listing
        split at listing
        · assumption
        · cases listing
        · cases listing

/-- A configuration is listed when the shares directory is there, all of it can be read, and
one of its files holds the configuration. -/
theorem configured_iff : Configured formats tree dataDir config ↔
    tree.existsAt (sharesDir dataDir) = true ∧
      tree.look (sharesPath dataDir) = some .directory ∧
      (∀ name, Readable formats tree dataDir name) ∧
      ∃ name, Lists formats tree dataDir name config := by
  have named {name : Name} {node : Node}
      (found : tree.look (configPath dataDir name) = some node) :
      ∃ entry ∈ tree.children (sharesPath dataDir), entry.1 = name :=
    ⟨(name, .directory), mem_children.mpr (look_parent found), rfl⟩
  have listed : ∀ entry ∈ tree.children (sharesPath dataDir),
      tree.look (sharesPath dataDir ++ [entry.1]) = some entry.2 := fun _ => mem_children.mp
  constructor
  · intro configured
    have present := present_of_configured configured
    obtain ⟨configs, loaded, member⟩ := configured
    rw [loadAll_of_present present] at loaded
    split at loaded
    · cases loaded
    next unsorted folded =>
      cases loaded
      obtain ⟨readable, members⟩ := mem_of_loadEntries present listed folded
      have inside := (members config).mp ((List.perm_insertionSort _ unsorted).mem_iff.mp member)
      obtain ⟨entry, _, lists⟩ := inside.resolve_left List.not_mem_nil
      refine ⟨?_, present.directory, fun name => ?_, entry.1, lists⟩
      · rw [existsAt, present.walked]
        exact Option.isSome_iff_exists.mpr ⟨_, present.directory⟩
      · cases found : tree.look (configPath dataDir name) with
        | none => exact .inl found
        | some node =>
            obtain ⟨entry, inside, same⟩ := named found
            exact same ▸ readable entry inside
  · intro listing
    obtain ⟨there, directory, readable, name, lists⟩ := listing
    have present : Present tree (sharesDir dataDir) := present_of_existsAt there directory
    obtain ⟨unsorted, folded⟩ : ∃ configs, (tree.children (sharesPath dataDir)).foldlM
        (loadEntry formats tree dataDir) [] = .ok configs :=
      loadEntries_of_readable present listed fun entry _ => readable entry.1
    obtain ⟨_, members⟩ := mem_of_loadEntries present listed folded
    refine ⟨unsorted.insertionSort fun left right => left.id ≤ right.id, ?_, ?_⟩
    · rw [loadAll_of_present present, folded]
    · obtain ⟨bytes, found, _⟩ := id lists
      obtain ⟨entry, inside, same⟩ := named found
      refine (List.perm_insertionSort _ unsorted).mem_iff.mpr ((members config).mpr (.inr ?_))
      exact ⟨entry, inside, same ▸ lists⟩

end Peerdup.Daemon.ShareFiles
