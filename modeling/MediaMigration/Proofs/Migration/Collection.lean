import MediaMigration.Migration.Collection
import MediaMigration.Proofs.BlobStore.Confinement

/-!
# What is collected while a store grows

The files collected for an asset are regular files, and no growth of the tree makes anything
else of them. Inputs that lie apart from the root of a store give the same files whatever has
been stored: what they lead to is not touched, and a path that goes up from directories only
cannot be helped by one that was made since.
-/

namespace MediaMigration

open FileTree BlobStore

namespace FileTree

/-- A path that storing below a root cannot lead elsewhere: neither location lies in the other,
and whatever directory the two paths go up from is there. -/
structure LiesApart (root path : FilePath) (tree : FileTree) : Prop where
  root_goes_up : tree.GoesUpFromDirectories root
  path_goes_up : tree.GoesUpFromDirectories path
  not_near : ¬ IsNear (tree.locationOf root) (tree.locationOf path)

instance (root path : FilePath) (tree : FileTree) : Decidable (LiesApart root path tree) :=
  decidable_of_iff
    (tree.GoesUpFromDirectories root ∧ tree.GoesUpFromDirectories path ∧
      ¬ IsNear (tree.locationOf root) (tree.locationOf path))
    ⟨fun h => ⟨h.1, h.2.1, h.2.2⟩, fun h => ⟨h.root_goes_up, h.path_goes_up, h.not_near⟩⟩

theorem LiesApart.entryAt_eq {root path : FilePath} {start later : FileTree}
    (h : LiesApart root path start) (hgrown : GrownAt root start later) (names : Location) :
    later.entryAt (start.locationOf path ++ names) =
      start.entryAt (start.locationOf path ++ names) :=
  (hgrown.same h.root_goes_up).entryAt_eq _ (not_isNear_below h.not_near names)

/-- What such a path shows after storing it has shown before, with all that lies below. -/
theorem LiesApart.lookUp_before {root path : FilePath} {start later : FileTree}
    (h : LiesApart root path start) (hstart : start.IsPlain) (hgrown : GrownAt root start later)
    {place : Location} {entry : Entry} (hl : later.lookUp true path = .ok (place, entry)) :
    start.lookUp true path = .ok (place, entry) ∧
      ∀ names, start.entryAt (place ++ names) = later.entryAt (place ++ names) := by
  have hworkDir := hgrown.grows.workDir_eq
  have hplace : place = start.locationOf path := by
    rw [hgrown.plain.place_of_lookUp hl, FileTree.locationOf_eq hworkDir]
  have hsame : ∀ names, start.entryAt (place ++ names) = later.entryAt (place ++ names) := by
    intro names
    rw [hplace]
    exact (h.entryAt_eq hgrown names).symm
  have hentry : start.entryAt place = some entry := by
    have hhere := hsame []
    rw [List.append_nil] at hhere
    rw [hhere]
    exact entryAt_of_lookUp hl
  exact ⟨hstart.lookUp_of_later hgrown.plain hworkDir h.path_goes_up hl hentry, hsame⟩

end FileTree

namespace CollectedFile

variable {tree : FileTree} {root input : FilePath} {inputs : List FilePath}
  {files : List CollectedFile}

theorem collect_cons_ok (h : collect tree root (input :: inputs) = .ok files) :
    ∃ place entry first others,
      tree.lookUp true (root.join input) = .ok (place, entry) ∧
      ofInput tree (root.join input) place entry = .ok first ∧
      collect tree root inputs = .ok others ∧ files = first ++ others := by
  unfold collect at h
  cases hfound : tree.lookUp true (root.join input) with
  | error error => simp [hfound] at h
  | ok found =>
      obtain ⟨place, entry⟩ := found
      simp only [hfound] at h
      cases hfirst : ofInput tree (root.join input) place entry with
      | error error => simp [hfirst] at h
      | ok first =>
          simp only [hfirst] at h
          cases hothers : collect tree root inputs with
          | error error => simp [hothers] at h
          | ok others =>
              simp only [hothers, Except.ok.injEq] at h
              exact ⟨place, entry, first, others, rfl, hfirst, rfl, h.symm⟩

theorem mem_ofInput_directory {path : FilePath} {place : Location}
    (h : ofInput tree path place .directory = .ok files) :
    ∀ file ∈ files, ∃ names ∈ tree.filesBelow place, file = below path names := by
  simp only [ofInput, FileTree.traverse] at h
  split at h
  · exact absurd h (by simp [Except.map])
  · have hfiles : (tree.filesBelow place).map (below path) = files := Except.ok.inj h
    intro file hfile
    rw [← hfiles] at hfile
    obtain ⟨names, hnames, rfl⟩ := List.mem_map.mp hfile
    exact ⟨names, hnames, rfl⟩

theorem lookUp_of_ofInput (hformed : tree.IsWellFormed) {path : FilePath} {place : Location}
    {entry : Entry} (hfound : tree.lookUp true path = .ok (place, entry))
    (h : ofInput tree path place entry = .ok files) :
    ∀ file ∈ files, IsSearchable file.path →
      ∃ spot held, tree.lookUp true file.path = .ok (spot, .file held) := by
  intro file hfile hsearch
  cases entry with
  | link target => exact absurd rfl (lookUp_true_not_link hfound target)
  | file content =>
      obtain rfl := Except.ok.inj h
      rw [List.mem_singleton] at hfile
      rw [hfile]
      exact ⟨place, content, hfound⟩
  | directory =>
      obtain ⟨names, hnames, rfl⟩ := mem_ofInput_directory h file hfile
      obtain ⟨hne, content, hcontent⟩ := mem_filesBelow.mp hnames
      have hproper : ∀ name ∈ names, name ≠ "" ∧ '/' ∉ name.toList := by
        intro name hname
        have hgood := hformed.proper _ _ hcontent name (List.mem_append_right _ hname)
        exact ⟨hgood.not_empty, hgood.no_slash⟩
      obtain ⟨habsolute, hsteps, hslash⟩ := FilePath.below_names path hne hproper
      refine ⟨place ++ names, content, ?_⟩
      exact hformed.lookUp_below hfound hne hcontent hsearch habsolute hsteps hslash

/-- Whatever is collected is a file, as far as its path can be looked up. -/
theorem lookUp_of_collected (hformed : tree.IsWellFormed)
    (h : collect tree root inputs = .ok files) :
    ∀ file ∈ files, IsSearchable file.path →
      ∃ spot held, tree.lookUp true file.path = .ok (spot, .file held) := by
  induction inputs generalizing files with
  | nil =>
      obtain rfl := Except.ok.inj h
      simp
  | cons input rest ih =>
      obtain ⟨place, entry, first, others, hfound, hfirst, hothers, rfl⟩ := collect_cons_ok h
      intro file hfile
      rcases List.mem_append.mp hfile with hmem | hmem
      · exact lookUp_of_ofInput hformed hfound hfirst file hmem
      · exact ih hothers file hmem

theorem alwaysFile_of_collected (hformed : tree.IsWellFormed)
    (h : collect tree root inputs = .ok files) : ∀ file ∈ files, AlwaysFile tree file.path :=
  fun file hfile => alwaysFile_of_lookUp (lookUp_of_collected hformed h file hfile)

/-- What is collected after storing, from inputs that lie apart, was to be collected before. -/
theorem collect_before {store sourceRoot : FilePath} {start later : FileTree}
    (hstart : start.IsPlain) (hgrown : GrownAt store start later)
    (hapart : ∀ input ∈ inputs, LiesApart store (sourceRoot.join input) start)
    (h : collect later sourceRoot inputs = .ok files) :
    collect start sourceRoot inputs = .ok files := by
  induction inputs generalizing files with
  | nil => exact h
  | cons input rest ih =>
      obtain ⟨place, entry, first, others, hfound, hfirst, hothers, rfl⟩ := collect_cons_ok h
      obtain ⟨hbefore, hsame⟩ := (hapart input (by simp)).lookUp_before hstart hgrown hfound
      have hinput : ofInput start (sourceRoot.join input) place entry = .ok first := by
        rw [← hfirst]
        cases entry with
        | file content => rfl
        | directory => simp only [ofInput, traverse_eq hsame]
        | link target => exact absurd rfl (lookUp_true_not_link hfound target)
      have hrest := ih (fun other hother => hapart other (List.mem_cons_of_mem _ hother)) hothers
      rw [collect]
      simp only [hbefore, hinput, hrest]

end CollectedFile

end MediaMigration
