import Peerdup.Foundation.RawPath

/-!
# What operations on given paths change

Following a path leads where its components say. Creating directories changes nothing but
missing entries on the way, and removing a directory changes what is in it.
-/

set_option autoImplicit false

namespace Peerdup.Foundation

namespace RawPath

variable {dir : Path} {name : Name} {raw : RawPath}

theorem splitSlash_of_not_mem {text : Bytes} (slashless : 0x2F ∉ text) : splitSlash text = [text] := by
  induction text with
  | nil => rfl
  | cons byte text ih =>
      rw [List.mem_cons, not_or] at slashless
      obtain ⟨apart, others⟩ := slashless
      rw [splitSlash, if_neg (Ne.symm apart), ih others]

theorem splitSlash_append (slashless : 0x2F ∉ name) (text : Bytes) :
    splitSlash (name ++ 0x2F :: text) = name :: splitSlash text := by
  induction name with
  | nil => rfl
  | cons byte name ih =>
      rw [List.mem_cons, not_or] at slashless
      obtain ⟨apart, others⟩ := slashless
      rw [List.cons_append, splitSlash, if_neg (Ne.symm apart), ih others]

theorem splitSlash_pathBytes {path : Path} (nonempty : path ≠ [])
    (slashless : ∀ name ∈ path, 0x2F ∉ name) : splitSlash (pathBytes path) = path := by
  induction path with
  | nil => exact absurd rfl nonempty
  | cons name path ih =>
      obtain ⟨first, later⟩ := List.forall_mem_cons.mp slashless
      cases path with
      | nil =>
          rw [pathBytes, List.intercalate_singleton]
          exact splitSlash_of_not_mem first
      | cons next path =>
          have joined : pathBytes (name :: next :: path) = name ++ 0x2F :: pathBytes (next :: path) := by
            rw [pathBytes, List.intercalate_cons_cons, List.append_assoc]
            rfl
          rw [joined, splitSlash_append first, ih (List.cons_ne_nil _ _) later]

theorem join_of_legal (base : RawPath) (legal : legalName name = true) :
    join base name = base ++ [name] := by
  obtain ⟨nonempty, _, _, slashless, _⟩ := (legalName_iff name).mp legal
  unfold join
  split
  · exact absurd List.mem_cons_self slashless
  · rw [splitSlash_of_not_mem slashless]

theorem not_isDot_of_legal (legal : legalName name = true) : isDot name = false := by
  obtain ⟨nonempty, dot, _⟩ := (legalName_iff name).mp legal
  simp [isDot, nonempty, dot]

theorem not_isUp_of_legal (legal : legalName name = true) : isUp name = false := by
  obtain ⟨_, _, up, _⟩ := (legalName_iff name).mp legal
  simp [isUp, up]

theorem resolve_append (dir : Path) (front back : RawPath) :
    resolve dir (front ++ back) = resolve (resolve dir front) back := by
  induction front generalizing dir with
  | nil => rfl
  | cons name front ih =>
      rw [List.cons_append, resolve, resolve]
      split
      · exact ih dir
      split
      · exact ih dir.dropLast
      · exact ih (dir ++ [name])

theorem resolve_of_legal (dir : Path) (legal : legalName name = true) :
    resolve dir [name] = dir ++ [name] := by
  rw [resolve, not_isDot_of_legal legal, not_isUp_of_legal legal]
  rfl

/-- No component goes up. -/
def Straight (raw : RawPath) : Prop := ∀ name ∈ raw, isUp name = false

theorem prefix_resolve (straight : Straight raw) (dir : Path) :
    dir <+: resolve dir raw := by
  induction raw generalizing dir with
  | nil => exact List.prefix_refl _
  | cons name raw ih =>
      obtain ⟨onward, rest⟩ := List.forall_mem_cons.mp straight
      rw [resolve]
      split
      · exact ih rest dir
      rw [if_neg (onward ▸ Bool.false_ne_true)]
      exact (List.prefix_append _ _).trans (ih rest _)

end RawPath

namespace FileTree

open RawPath

variable {tree after : FileTree} {dir path : Path} {raw front back : RawPath} {name : Name}
  {content : Bytes}

theorem walk_resolve (found : tree.walk dir raw = some path) : resolve dir raw = path := by
  induction raw generalizing dir with
  | nil => exact Option.some.inj found
  | cons name raw ih =>
      rw [walk] at found
      rw [resolve]
      split at found
      · cases found
      split at found
      · next dot =>
          rw [if_pos dot]
          exact ih found
      next notDot =>
        rw [if_neg notDot]
        split at found
        · next up =>
            rw [if_pos up]
            exact ih found
        next notUp =>
          rw [if_neg notUp]
          exact ih found

theorem walk_append (dir : Path) (front back : RawPath) :
    tree.walk dir (front ++ back) = (tree.walk dir front).bind fun path => tree.walk path back := by
  induction front generalizing dir with
  | nil => rfl
  | cons name front ih =>
      rw [List.cons_append, walk, walk]
      split
      · rfl
      split
      · exact ih dir
      split
      · exact ih dir.dropLast
      · exact ih (dir ++ [name])

theorem look_prune (gone : Path → Bool)
    (down : ∀ path name, gone path = true → gone (path ++ [name]) = true) (other : Path) :
    (tree.prune gone down).look other =
      if other ≠ [] ∧ gone other = true then none else tree.look other := by
  by_cases root : other = []
  · rw [root, if_neg fun both => both.1 rfl]
    rfl
  ext found
  rw [look_eq_some_iff root]
  simp only [prune, List.mem_filter, Bool.not_eq_true']
  rw [← look_eq_some_iff root]
  cases gone other with
  | false => simp
  | true => simp [root]

theorem look_emptied (dir other : Path) :
    (tree.emptied dir).look other = if dir <+: other ∧ dir ≠ other then none else tree.look other := by
  rw [emptied, look_prune]
  simp only [isBelow_iff]
  by_cases below : dir <+: other ∧ dir ≠ other
  · have nonempty : other ≠ [] := by
      intro root
      rw [root, List.prefix_nil] at below
      exact below.2 below.1
    rw [if_pos below, if_pos ⟨nonempty, below⟩]
  · rw [if_neg below, if_neg fun both => below both.2]

theorem look_without (nonempty : dir ≠ []) (other : Path) :
    (tree.without dir).look other = if dir <+: other then none else tree.look other := by
  rw [without, look_prune]
  simp only [isAt_iff]
  by_cases below : dir <+: other
  · have apart : other ≠ [] := by
      intro root
      rw [root, List.prefix_nil] at below
      exact nonempty below
    rw [if_pos below, if_pos ⟨apart, below⟩]
  · rw [if_neg below, if_neg fun both => below both.2]

/-- What `remove_dir_all` takes: the content of the directory that the path leads to, and the
directory where it can be removed by that path. -/
def Removes (tree : FileTree) (raw : RawPath) (path : Path) : Prop :=
  ∃ dir, tree.walk [] raw = some dir ∧ tree.look dir = some .directory ∧ dir <+: path ∧
    (tree.look path).isSome = true ∧ (dir ≠ path ∨ tree.removable dir raw = true)

theorem removable_nonempty (removes : tree.removable dir raw = true) : dir ≠ [] := by
  unfold removable at removes
  split at removes
  · cases removes
  · simp only [Bool.and_eq_true, decide_eq_true_eq] at removes
    exact removes.1.2

theorem look_removeDirAllAt (tree : FileTree) (raw : RawPath) (path : Path) :
    ((tree.removeDirAllAt raw).2.look path ≠ tree.look path ↔ tree.Removes raw path) ∧
      ((tree.removeDirAllAt raw).2.look path = tree.look path ∨
        (tree.removeDirAllAt raw).2.look path = none) := by
  unfold removeDirAllAt Removes
  split
  · next lost =>
      refine ⟨iff_of_false (fun apart => apart rfl) ?_, .inl rfl⟩
      intro ⟨dir, found, _⟩
      rw [lost] at found
      cases found
  next dir walked =>
    have same : ∀ other, tree.walk [] raw = some other → other = dir := fun other found =>
      (Option.some.inj (walked.symm.trans found)).symm
    split
    · next absent =>
        refine ⟨iff_of_false (fun apart => apart rfl) ?_, .inl rfl⟩
        intro ⟨other, found, directory, _⟩
        rw [same other found, absent] at directory
        cases directory
    · next file =>
        refine ⟨iff_of_false (fun apart => apart rfl) ?_, .inl rfl⟩
        intro ⟨other, found, directory, _⟩
        rw [same other found, file] at directory
        cases directory
    next directory =>
      split
      · next removes =>
          dsimp only
          rw [look_without (removable_nonempty removes)]
          by_cases below : dir <+: path
          · rw [if_pos below]
            refine ⟨⟨fun apart => ⟨dir, walked, directory, below, ?_, .inr removes⟩, ?_⟩, .inr rfl⟩
            · rw [Option.isSome_iff_ne_none]
              exact Ne.symm apart
            · intro ⟨_, _, _, _, there, _⟩ absent
              rw [← absent] at there
              cases there
          · rw [if_neg below]
            refine ⟨iff_of_false (fun apart => apart rfl) ?_, .inl rfl⟩
            intro ⟨other, found, _, above, _⟩
            exact below (same other found ▸ above)
      · next stays =>
          dsimp only
          rw [look_emptied]
          by_cases below : dir <+: path ∧ dir ≠ path
          · rw [if_pos below]
            refine ⟨⟨fun apart => ⟨dir, walked, directory, below.1, ?_, .inl below.2⟩, ?_⟩, .inr rfl⟩
            · rw [Option.isSome_iff_ne_none]
              exact Ne.symm apart
            · intro ⟨_, _, _, _, there, _⟩ absent
              rw [← absent] at there
              cases there
          · rw [if_neg below]
            refine ⟨iff_of_false (fun apart => apart rfl) ?_, .inl rfl⟩
            intro ⟨other, found, _, above, _, either⟩
            rw [same other found] at above either
            exact either.elim (fun apart => below ⟨above, apart⟩) stays

/-- A path can be followed where every directory is still one. -/
theorem walk_of_directories {after : FileTree}
    (kept : ∀ other, tree.look other = some .directory → after.look other = some .directory)
    {reached : Path} (walked : tree.walk dir raw = some reached) :
    after.walk dir raw = some reached := by
  induction raw generalizing dir with
  | nil => exact walked
  | cons name raw ih =>
      rw [walk] at walked ⊢
      split at walked
      · cases walked
      next here =>
        rw [if_neg (not_not.mpr (kept dir (not_not.mp here)))]
        split at walked
        · next dot => exact (if_pos dot).trans (ih walked)
        next notDot =>
          rw [if_neg notDot]
          split at walked
          · next up => exact (if_pos up).trans (ih walked)
          · next notUp => exact (if_neg notUp).trans (ih walked)

theorem removes_of_ok (done : (tree.removeDirAllAt raw).1 = .ok ()) :
    ∃ path, tree.Removes raw path := by
  unfold removeDirAllAt at done
  split at done
  · cases done
  next dir walked =>
    split at done
    · cases done
    · cases done
    next directory =>
      split at done
      · next removes =>
          refine ⟨dir, dir, walked, directory, List.prefix_refl _, ?_, .inr removes⟩
          rw [directory]
          rfl
      · -- A directory on the way was one of those removed.
        have lost : (tree.emptied dir).walk [] raw = none := by
          by_contra found
          dsimp only at done
          rw [unremoved, if_neg found] at done
          split at done
          · cases done
          · cases done
        by_contra nothing
        rw [walk_of_directories ?_ walked] at lost
        · cases lost
        · intro other there
          rw [look_emptied, if_neg, there]
          intro below
          refine nothing ⟨other, dir, walked, directory, below.1, ?_, .inl below.2⟩
          rw [there]
          rfl

/-- What `create_dir_all` may change: missing entries on the way become directories. -/
def CreatesDirs (tree after : FileTree) (dir : Path) (raw : RawPath) : Prop :=
  ∀ path, after.look path = tree.look path ∨
    tree.look path = none ∧ after.look path = some .directory ∧
      ∃ front, front <+: raw ∧ resolve dir front = path

theorem CreatesDirs.refl (tree : FileTree) (dir : Path) (raw : RawPath) :
    CreatesDirs tree tree dir raw := fun _ => .inl rfl

theorem CreatesDirs.cons {next : Path} (step : resolve dir [name] = next)
    (creates : CreatesDirs tree after next raw) : CreatesDirs tree after dir (name :: raw) := by
  intro path
  refine (creates path).imp_right fun ⟨absent, made, front, below, same⟩ => ⟨absent, made, ?_⟩
  refine ⟨name :: front, (List.prefix_cons_inj name).mpr below, ?_⟩
  rw [← List.singleton_append, resolve_append, step, same]

/-- Only the last directory of the ones asked for is new, since the one above is there. -/
theorem look_createDirAll_child {made : FileTree} (there : tree.look dir = some .directory)
    (created : tree.createDirAll (dir ++ [name]) = .ok made) (path : Path) :
    made.look path = if path = dir ++ [name] then some .directory else tree.look path := by
  rw [look_createDirAll created]
  by_cases same : path = dir ++ [name]
  · rw [if_pos same, if_pos (same ▸ List.prefix_refl _)]
  rw [if_neg same]
  split
  · next above =>
      rcases List.prefix_concat_iff.mp above with here | inside
      · exact absurd here same
      exact (directory_above there inside).symm
  · rfl

theorem look_dropLast (there : tree.look dir = some .directory) :
    tree.look dir.dropLast = some .directory := by
  by_cases root : dir = []
  · rw [root]
    rfl
  · rw [← List.dropLast_append_getLast root] at there
    exact look_parent there

theorem createDirsAt_creates (there : tree.look dir = some .directory) (raw : RawPath) :
    CreatesDirs tree (tree.createDirsAt dir raw).2 dir raw := by
  induction raw generalizing tree dir with
  | nil => exact CreatesDirs.refl tree dir []
  | cons name raw ih =>
      rw [createDirsAt]
      split
      · next dot =>
          refine (ih there).cons ?_
          rw [resolve, if_pos dot]
          rfl
      next notDot =>
        split
        · next up =>
            refine (ih (look_dropLast there)).cons ?_
            rw [resolve, if_neg notDot, if_pos up]
            rfl
        next notUp =>
          have step : resolve dir [name] = dir ++ [name] := by
            rw [resolve, if_neg notDot, if_neg notUp]
            rfl
          split
          · next child => exact (ih child).cons step
          · exact CreatesDirs.refl tree dir _
          · next absent =>
              split
              · exact CreatesDirs.refl tree dir _
              split
              · exact CreatesDirs.refl tree dir _
              next made created =>
                have look := look_createDirAll_child there created
                have child : made.look (dir ++ [name]) = some .directory := by
                  rw [look, if_pos rfl]
                have later := (ih child).cons step
                intro path
                rcases later path with same | ⟨none_, directory, front⟩
                · rw [look] at same
                  by_cases here : path = dir ++ [name]
                  · rw [if_pos here] at same
                    refine .inr ⟨here ▸ absent, same, [name], ⟨raw, rfl⟩, ?_⟩
                    rw [step, here]
                  · rw [if_neg here] at same
                    exact .inl same
                · rw [look] at none_
                  by_cases here : path = dir ++ [name]
                  · rw [if_pos here] at none_
                    cases none_
                  · rw [if_neg here] at none_
                    exact .inr ⟨none_, directory, front⟩

theorem createDirAllAt_creates (tree : FileTree) (raw : RawPath) :
    CreatesDirs tree (tree.createDirAllAt raw).2 [] raw := by
  unfold createDirAllAt
  split
  · exact CreatesDirs.refl tree [] raw
  · exact createDirsAt_creates tree.look_nil raw

theorem CreatesDirs.keeps {node : Node} (creates : CreatesDirs tree after dir raw)
    (found : tree.look path = some node) : after.look path = some node := by
  rcases creates path with same | ⟨absent, _⟩
  · rw [same, found]
  · rw [absent] at found
    cases found

theorem walk_mono (keeps : ∀ path, tree.look path = some .directory →
    after.look path = some .directory) (found : tree.walk dir raw = some path) :
    after.walk dir raw = some path := by
  induction raw generalizing dir with
  | nil => exact found
  | cons name raw ih =>
      rw [walk] at found ⊢
      split at found
      · cases found
      next there =>
        rw [if_neg (not_not.mpr (keeps dir (not_not.mp there)))]
        split at found
        · next dot =>
            rw [if_pos dot]
            exact ih found
        next notDot =>
          rw [if_neg notDot]
          split at found
          · next up =>
              rw [if_pos up]
              exact ih found
          next notUp =>
            rw [if_neg notUp]
            exact ih found

/-- What `create_dir_all` was asked for is there when it succeeds. -/
theorem createDirsAt_ok (there : tree.look dir = some .directory)
    (created : tree.createDirsAt dir raw = (.ok (), after)) :
    after.walk dir raw = some (resolve dir raw) ∧
      after.look (resolve dir raw) = some .directory := by
  induction raw generalizing tree dir with
  | nil =>
      cases created
      exact ⟨rfl, there⟩
  | cons name raw ih =>
      have start : after.look dir = some .directory := by
        have creates := createDirsAt_creates there (name :: raw)
        rw [created] at creates
        exact creates.keeps there
      rw [createDirsAt] at created
      rw [walk, resolve, if_neg (not_not.mpr start)]
      split at created
      · next dot =>
          rw [if_pos dot, if_pos dot]
          exact ih there created
      next notDot =>
        rw [if_neg notDot, if_neg notDot]
        split at created
        · next up =>
            rw [if_pos up, if_pos up]
            exact ih (look_dropLast there) created
        next notUp =>
          rw [if_neg notUp, if_neg notUp]
          split at created
          · next child => exact ih child created
          · cases created
          · split at created
            · cases created
            split at created
            · cases created
            next made child =>
              refine ih ?_ created
              rw [look_createDirAll_child there child, if_pos rfl]

theorem createDirAllAt_ok (created : tree.createDirAllAt raw = (.ok (), after)) :
    after.walk [] raw = some (resolve [] raw) ∧ after.look (resolve [] raw) = some .directory := by
  unfold createDirAllAt at created
  split at created
  · cases created
  · exact createDirsAt_ok tree.look_nil created

theorem walk_congr (same : ∀ path, after.look path = tree.look path) (dir : Path) (raw : RawPath) :
    after.walk dir raw = tree.walk dir raw := by
  refine Option.ext fun path => ⟨?_, ?_⟩
  · exact walk_mono fun other found => (same other).symm.trans found
  · exact walk_mono fun other found => (same other).trans found

theorem existsAt_congr (same : ∀ path, after.look path = tree.look path) (raw : RawPath) :
    after.existsAt raw = tree.existsAt raw := by
  rw [existsAt, existsAt, walk_congr same]
  split
  · rfl
  · next path _ => rw [same path]

/-- A path that leads to a directory starts in one. -/
theorem directory_of_walk (walked : tree.walk dir raw = some path)
    (directory : tree.look path = some .directory) : tree.look dir = some .directory := by
  cases raw with
  | nil => exact (Option.some.inj walked).symm ▸ directory
  | cons name raw =>
      rw [walk] at walked
      split at walked
      · cases walked
      · next there => exact not_not.mp there

theorem nulless_of_walk (walked : tree.walk dir raw = some path)
    (directory : tree.look path = some .directory) : raw.any (·.contains 0x00) = false := by
  induction raw generalizing dir with
  | nil => rfl
  | cons name raw ih =>
      rw [walk] at walked
      rw [List.any_cons, Bool.or_eq_false_iff]
      split at walked
      · cases walked
      split at walked
      · next dot =>
          refine ⟨?_, ih walked⟩
          have either : name = [] ∨ name = ascii "." := by simpa [isDot] using dot
          rcases either with rfl | rfl
          · rfl
          · rfl
      split at walked
      · next up =>
          have same : name = ascii ".." := by simpa [isUp] using up
          refine ⟨?_, ih walked⟩
          rw [same]
          rfl
      · refine ⟨?_, ih walked⟩
        have legal := look_legal (directory_of_walk walked directory)
        rw [List.all_append, Bool.and_eq_true] at legal
        have named : legalName name = true := by simpa using legal.2
        have nulless := ((legalName_iff name).mp named).2.2.2.2.1
        rwa [← Bool.not_eq_true, List.contains_iff_mem]

/-- What is there already is passed through. -/
theorem createDirsAt_append (walked : tree.walk dir raw = some path)
    (directory : tree.look path = some .directory) (back : RawPath) :
    tree.createDirsAt dir (raw ++ back) = tree.createDirsAt path back := by
  induction raw generalizing dir with
  | nil => rw [List.nil_append, Option.some.inj walked]
  | cons name raw ih =>
      rw [walk] at walked
      rw [List.cons_append, createDirsAt]
      split at walked
      · cases walked
      split at walked
      · next dot =>
          rw [if_pos dot]
          exact ih walked
      next notDot =>
        rw [if_neg notDot]
        split at walked
        · next up =>
            rw [if_pos up]
            exact ih walked
        next notUp =>
          rw [if_neg notUp, directory_of_walk walked directory]
          exact ih walked

/-- Nothing is created where the path leads to a directory. -/
theorem createDirAllAt_of_walk (walked : tree.walk [] raw = some path)
    (directory : tree.look path = some .directory) : tree.createDirAllAt raw = (.ok (), tree) := by
  have passed := createDirsAt_append walked directory []
  rw [List.append_nil] at passed
  rw [createDirAllAt, nulless_of_walk walked directory]
  exact passed

/-- A change to what the path leads to, or a directory created on the way there. -/
def ChangesAt (tree after : FileTree) (raw : RawPath) : Prop :=
  ∀ path, after.look path = tree.look path ∨ resolve [] raw <+: path ∨
    tree.look path = none ∧ after.look path = some .directory ∧
      ∃ front, front <+: raw ∧ resolve [] front = path

theorem ChangesAt.refl (tree : FileTree) (raw : RawPath) : ChangesAt tree tree raw := fun _ => .inl rfl

theorem ChangesAt.trans {middle : FileTree} (first : ChangesAt tree middle raw)
    (second : ChangesAt middle after raw) : ChangesAt tree after raw := by
  intro path
  rcases first path with same | below | ⟨absent, made, front⟩
  · rcases second path with again | below | ⟨absent, made, front⟩
    · exact .inl (again.trans same)
    · exact .inr (.inl below)
    · exact .inr (.inr ⟨same ▸ absent, made, front⟩)
  · exact .inr (.inl below)
  · rcases second path with again | below | ⟨gone, _, _⟩
    · exact .inr (.inr ⟨absent, again.trans made, front⟩)
    · exact .inr (.inl below)
    · rw [made] at gone
      cases gone

theorem changesAt_createDirAllAt (tree : FileTree) (above : front <+: raw) :
    ChangesAt tree (tree.createDirAllAt front).2 raw := by
  intro path
  refine (createDirAllAt_creates tree front path).imp_right fun ⟨absent, made, way, below, same⟩ => ?_
  exact .inr ⟨absent, made, way, below.trans above, same⟩

theorem writeAt_ok (wrote : tree.writeAt raw name content = .ok after) :
    tree.walk [] raw = some (resolve [] raw) ∧ tree.look (resolve [] raw) = some .directory ∧
      tree.write (resolve [] raw ++ [name]) content = .ok after := by
  unfold writeAt at wrote
  split at wrote
  · cases wrote
  next dir walked =>
    rw [walk_resolve walked]
    have parent := (write_ok_iff.mp ⟨after, wrote⟩).2.1
    rw [List.dropLast_concat] at parent
    exact ⟨walked, parent, wrote⟩

theorem changesAt_writeAt (wrote : tree.writeAt raw name content = .ok after) :
    ChangesAt tree after raw := by
  intro path
  rw [look_write (writeAt_ok wrote).2.2]
  split
  · next same => exact .inr (.inl (same ▸ List.prefix_append _ _))
  · exact .inl rfl

theorem names_apart {other : Path} {target : Name} (apart : name ≠ target) :
    dir ++ [name] ≠ other ++ [target] := by
  intro same
  exact apart (List.cons.inj (List.append_inj' same rfl).2).1

theorem look_renameAt {target : Name} (apart : name ≠ target)
    (held : tree.look (resolve [] raw ++ [name]) = some (.file content))
    (renamed : tree.renameAt raw name target = .ok after) (path : Path) :
    after.look path = if path = resolve [] raw ++ [name] then none
      else if path = resolve [] raw ++ [target] then some (.file content) else tree.look path := by
  unfold renameAt at renamed
  split at renamed
  · cases renamed
  next dir walked =>
    rw [← walk_resolve walked] at renamed
    exact look_rename (names_apart apart) held renamed path

/-- A straight path is followed through the directories above its end and no others. -/
theorem walk_of_above (straight : Straight raw)
    (same : ∀ above, above <+: resolve dir raw → after.look above = tree.look above) :
    after.walk dir raw = tree.walk dir raw := by
  induction raw generalizing dir with
  | nil => rfl
  | cons name raw ih =>
      obtain ⟨onward, rest⟩ := List.forall_mem_cons.mp straight
      have here := same dir (prefix_resolve straight dir)
      rw [resolve] at same
      rw [walk, walk, here]
      split
      · rfl
      split
      · next dot =>
          rw [if_pos dot] at same
          exact ih rest same
      next notDot =>
        have notUp : ¬ isUp name = true := onward ▸ Bool.false_ne_true
        rw [if_neg notDot, if_neg notUp] at same
        rw [if_neg notUp, if_neg notUp]
        exact ih rest same

/-- `rmdir` takes a directory that a straight path names. -/
theorem removable_of_straight {base : RawPath} (straight : Straight base) (legal : legalName name = true)
    (walked : tree.walk [] (base ++ [name]) = some dir) :
    tree.removable dir (base ++ [name]) = true := by
  have leads : resolve [] base ++ [name] = dir := by
    rw [← walk_resolve walked, resolve_append, resolve_of_legal _ legal]
  have given : (base ++ [name]).lastGiven = some name := by
    have nonempty : name ≠ [] := ((legalName_iff name).mp legal).1
    rw [lastGiven, List.filter_append, List.filter_singleton, decide_eq_true nonempty]
    exact List.getLast?_concat
  have whole : Straight (base ++ [name]) := by
    intro other member
    rcases List.mem_append.mp member with inside | last
    · exact straight other inside
    · rw [List.mem_singleton.mp last]
      exact not_isUp_of_legal legal
  have there : (tree.emptied dir).walk [] (base ++ [name]) = some dir := by
    rw [← walked]
    refine walk_of_above whole fun above reached => ?_
    rw [walk_resolve walked] at reached
    rw [look_emptied, if_neg]
    intro below
    exact below.2 (below.1.eq_of_length_le reached.length_le)
  have nonempty : dir ≠ [] := leads ▸ List.concat_ne_nil _ _
  rw [removable, given, there]
  simp [not_isDot_of_legal legal, not_isUp_of_legal legal, nonempty]

/-- What is in a directory goes with it, whether it was taken before or not. -/
theorem without_without (below : dir <+: path) : (tree.without path).without dir = tree.without dir := by
  have entries : ((tree.without path).without dir).entries = (tree.without dir).entries := by
    simp only [without, prune, List.filter_filter]
    refine List.filter_congr fun entry _ => ?_
    by_cases inside : isAt dir entry.1 = true
    · rw [inside]
      rfl
    · have outside : ¬ isAt path entry.1 = true :=
        fun inner => inside (isAt_iff.mpr (below.trans (isAt_iff.mp inner)))
      rw [Bool.not_eq_true] at inside outside
      rw [inside, outside]
      rfl
  generalize tree.without dir = right at entries ⊢
  generalize (tree.without path).without dir = left at entries ⊢
  cases left
  cases right
  cases entries
  rfl

end FileTree

end Peerdup.Foundation
