import MediaMigration.Proofs.FileTree.Growth

/-!
# Creation in a tree

Making directories adds directories and nothing else, also when it fails on the way. A new
file is put where nothing was, and removing it by its path gives back the tree before.
-/

namespace MediaMigration

namespace FileTree

variable {tree : FileTree}

/-! ## Directories -/

theorem makeDirectory_ok {path : FilePath} {made : FileTree}
    (h : tree.makeDirectory path = .ok made) :
    ∃ place, tree.entryAt place = none ∧ made = tree.put place .directory := by
  unfold makeDirectory at h
  split at h
  · exact absurd h (by simp)
  · exact absurd h (by simp)
  · next dir name _ _ =>
      cases hp : tree.entryAt (dir ++ [name]) with
      | some entry => simp [hp] at h
      | none =>
          simp only [hp, Except.ok.injEq] at h
          exact ⟨dir ++ [name], hp, h.symm⟩

theorem makeDirectory_adds {path : FilePath} {made : FileTree}
    (h : tree.makeDirectory path = .ok made) : OnlyDirectoriesAdded tree made := by
  obtain ⟨place, hfree, rfl⟩ := makeDirectory_ok h
  exact onlyDirectoriesAdded_put hfree

/-- A relation that every single directory respects holds between the trees before and after
making directories, also where that fails on the way. -/
theorem makeDirectories_relates (relation : FileTree → FileTree → Prop)
    (hrefl : ∀ tree, relation tree tree)
    (htrans : ∀ {first second third}, relation first second → relation second third →
      relation first third)
    {paths : List FilePath}
    (hmake : ∀ {tree made : FileTree} {path : FilePath}, path ∈ paths →
      tree.makeDirectory path = .ok made → relation tree made)
    (tree : FileTree) : relation tree (tree.makeDirectories paths).2 := by
  induction paths with
  | nil => exact hrefl tree
  | cons path above ih =>
      have hfirst : ∀ {tree made : FileTree}, tree.makeDirectory path = .ok made →
          relation tree made :=
        fun hmade => hmake (by simp) hmade
      have habove := ih fun hmem hmade => hmake (List.mem_cons_of_mem _ hmem) hmade
      unfold makeDirectories
      split
      · exact hrefl tree
      · split
        · next made hmade => exact hfirst hmade
        · -- something above is missing: it is made first, and then the directory itself
          split
          · next error between hbetween =>
              rw [hbetween] at habove
              exact habove
          · next between hbetween =>
              rw [hbetween] at habove
              split
              · next made hmade => exact htrans habove (hfirst hmade)
              · split
                · exact habove
                · exact habove
        · split
          · exact hrefl tree
          · exact hrefl tree

theorem makeDirectories_adds (tree : FileTree) (paths : List FilePath) :
    OnlyDirectoriesAdded tree (tree.makeDirectories paths).2 :=
  makeDirectories_relates OnlyDirectoriesAdded .refl .trans (fun _ hmade => makeDirectory_adds hmade) tree

theorem makeDirectoryPath_adds (tree : FileTree) (path : FilePath) :
    OnlyDirectoriesAdded tree (tree.makeDirectoryPath path).2 :=
  makeDirectories_adds tree path.ancestors

theorem makeParent_adds (tree : FileTree) (path : FilePath) :
    OnlyDirectoriesAdded tree (tree.makeParent path).2 := by
  unfold makeParent
  split
  · exact makeDirectoryPath_adds tree _
  · exact .refl tree

/-! ## Files -/

/-- A path leads to a name in a directory that nothing has, the place for a new file. -/
def IsFree (tree : FileTree) (path : FilePath) (place : Location) : Prop :=
  tree.entryAt place = none ∧
    ∃ dir name slash, tree.resolve (.write false) path = .ok (.child dir name, slash) ∧
      dir ++ [name] = place

theorem createNew_ok {path : FilePath} {place : Location} {made : FileTree}
    (h : tree.createNew path = .ok (place, made)) :
    tree.IsFree path place ∧ made = tree.put place (.file []) := by
  unfold createNew at h
  split at h
  · exact absurd h (by simp)
  · exact absurd h (by simp)
  · next dir name slash hr =>
      cases hp : tree.entryAt (dir ++ [name]) with
      | some entry => simp [hp] at h
      | none =>
          simp only [hp, Except.ok.injEq, Prod.mk.injEq] at h
          obtain ⟨rfl, rfl⟩ := h
          exact ⟨⟨hp, dir, name, slash, hr, rfl⟩, rfl⟩

@[simp] theorem put_put (tree : FileTree) (place : Location) (first second : Entry) :
    (tree.put place first).put place second = tree.put place second := by
  refine FileTree.ext rfl fun other => ?_
  simp only [getElem?_put]
  split <;> rfl

theorem ne_root_of_free {place : Location} (hfree : tree.entryAt place = none) : place ≠ [] := by
  rintro rfl
  simp [entryAt] at hfree

theorem erase_put_of_free {place : Location} (hfree : tree.entryAt place = none)
    (entry : Entry) : (tree.put place entry).erase place = tree := by
  have hne := ne_root_of_free hfree
  refine FileTree.ext rfl fun other => ?_
  rw [getElem?_erase, getElem?_put]
  split
  · next heq =>
      subst heq
      rw [entryAt, if_neg hne] at hfree
      exact hfree.symm
  · rfl

theorem IsFree.resolve_put {path : FilePath} {place : Location} (h : tree.IsFree path place)
    (content : Bytes) :
    ∃ dir name slash, (tree.put place (.file content)).resolve (.write false) path =
      .ok (.child dir name, slash) ∧ dir ++ [name] = place := by
  obtain ⟨hfree, dir, name, slash, hr, hplace⟩ := h
  exact ⟨dir, name, slash, (keptBy_put hfree (by simp)).toGrowsTo.resolve_eq hr, hplace⟩

theorem entryAt_put_of_free {place : Location} (hfree : tree.entryAt place = none)
    (entry : Entry) : (tree.put place entry).entryAt place = some entry := by
  rw [entryAt_put tree (ne_root_of_free hfree), if_pos rfl]

/-- A new file is removed by its path, and nothing else is. -/
theorem IsFree.removeFile_put {path : FilePath} {place : Location} (h : tree.IsFree path place)
    (content : Bytes) : (tree.put place (.file content)).removeFile path = tree := by
  have hentry := entryAt_put_of_free h.1 (.file content)
  have herase := erase_put_of_free h.1 (.file content)
  obtain ⟨dir, name, slash, hr, rfl⟩ := h.resolve_put content
  unfold removeFile
  rw [hr]
  simp only [hentry]
  exact herase

end FileTree

end MediaMigration
