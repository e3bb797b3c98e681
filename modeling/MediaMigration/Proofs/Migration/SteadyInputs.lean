import MediaMigration.Proofs.BlobStore.Neighbours
import MediaMigration.Proofs.FileTree.Absence
import MediaMigration.Proofs.Migration.Collection

/-!
# Inputs that storing leaves alone

An input that lies apart from the root of a store gives the same files before and after anything
was stored, or fails for the same reason. The files that were collected keep their contents, and
their paths go on showing them.
-/

namespace MediaMigration

open FileTree BlobStore

/-- A path that storing below a root can make neither lead elsewhere nor fail otherwise. -/
structure LiesClear (root path : FilePath) (tree : FileTree) : Prop extends
    LiesApart root path tree where
  long_names : tree.LongNamesInDirectories path

instance (root path : FilePath) (tree : FileTree) : Decidable (LiesClear root path tree) :=
  decidable_of_iff (LiesApart root path tree ∧ tree.LongNamesInDirectories path)
    ⟨fun h => ⟨h.1, h.2⟩, fun h => ⟨h.toLiesApart, h.long_names⟩⟩

section LookUp

variable {root path : FilePath} {name : String} {start later : FileTree}

theorem lookUp_later (hups : start.GoesUpFromDirectories root) (hgrown : GrownAt root start later)
    {place : Location} {entry : Entry} (hfound : start.lookUp true path = .ok (place, entry))
    (hapart : ¬ IsNear (start.locationOf root) place) :
    later.lookUp true path = .ok (place, entry) := by
  obtain ⟨spot, slash, hr, hplace, hentry, hslash⟩ := lookUp_eq_ok_iff.mp hfound
  refine lookUp_eq_ok_iff.mpr ⟨spot, slash, hgrown.grows.resolve_eq hr, hplace, ?_, hslash⟩
  rw [(hgrown.same hups).entryAt_eq place hapart, hentry]

/-- What such a path shows, or why it does not, stays the same. -/
theorem LiesClear.lookUp_eq (h : LiesClear root path start) (hstart : start.IsPlain)
    (hgrown : GrownAt root start later)
    (hahead : IsAhead (start.locationOf root) name start later) :
    later.lookUp true path = start.lookUp true path := by
  have hend := h.entryAt_eq hgrown []
  rw [List.append_nil] at hend
  apply hstart.lookUp_eq_later hgrown.plain hgrown.grows h.path_goes_up h.long_names _ hend
  intro place hway hfree
  by_cases hnear : IsNear (start.locationOf root) place
  · rcases hnear with habove | hbelow
    · rcases hahead.on_way place habove with hsame | ⟨_, hdirectory⟩
      · exact .inl (hsame.trans hfree)
      · exact .inr hdirectory
    · exact absurd (.inr (hbelow.trans hway)) h.not_near
  · left
    rw [(hgrown.same h.root_goes_up).entryAt_eq place hnear, hfree]

end LookUp

namespace CollectedFile

variable {root sourceRoot : FilePath} {name : String} {start later : FileTree}
  {inputs : List FilePath} {files : List CollectedFile}

theorem ofInput_eq {path : FilePath} (hstart : start.IsPlain) (hgrown : GrownAt root start later)
    (hapart : LiesApart root path start) {place : Location} {entry : Entry}
    (hfound : start.lookUp true path = .ok (place, entry)) :
    ofInput later path place entry = ofInput start path place entry := by
  cases entry with
  | file content => rfl
  | link target => exact absurd rfl (lookUp_true_not_link hfound target)
  | directory =>
      rw [hstart.place_of_lookUp hfound]
      simp only [ofInput, traverse_eq (hapart.entryAt_eq hgrown)]

theorem collect_later (hstart : start.IsPlain) (hgrown : GrownAt root start later)
    (hapart : ∀ input ∈ inputs, LiesApart root (sourceRoot.join input) start)
    (h : collect start sourceRoot inputs = .ok files) :
    collect later sourceRoot inputs = .ok files := by
  induction inputs generalizing files with
  | nil => exact h
  | cons input rest ih =>
      obtain ⟨place, entry, first, others, hfound, hfirst, hothers, rfl⟩ := collect_cons_ok h
      have hinput := hapart input List.mem_cons_self
      have hfar := hinput.not_near
      rw [← hstart.place_of_lookUp hfound] at hfar
      have hrest := ih (fun other hother => hapart other (List.mem_cons_of_mem _ hother)) hothers
      rw [collect]
      simp only [lookUp_later hinput.root_goes_up hgrown hfound hfar,
        ofInput_eq hstart hgrown hinput hfound, hfirst, hrest]

/-- Whether anything was collected or not, it stays so, for the same reason. -/
theorem collect_eq (hstart : start.IsPlain) (hgrown : GrownAt root start later)
    (hahead : IsAhead (start.locationOf root) name start later)
    (hclear : ∀ input ∈ inputs, LiesClear root (sourceRoot.join input) start) :
    collect later sourceRoot inputs = collect start sourceRoot inputs := by
  induction inputs with
  | nil => rfl
  | cons input rest ih =>
      have hinput := hclear input List.mem_cons_self
      have hrest := ih fun other hother => hclear other (List.mem_cons_of_mem _ hother)
      unfold collect
      rw [hinput.lookUp_eq hstart hgrown hahead, hrest]
      cases hfound : start.lookUp true (sourceRoot.join input) with
      | error error => rfl
      | ok found =>
          obtain ⟨place, entry⟩ := found
          simp only [ofInput_eq hstart hgrown hinput.toLiesApart hfound]

/-- A file that a path shows apart from a base, or a path that cannot be looked up. -/
def IsSteady (tree : FileTree) (base : Location) (path : FilePath) : Prop :=
  (∃ place held, tree.lookUp true path = .ok (place, .file held) ∧ ¬ IsNear base place) ∨
    ∃ error, error ≠ .notFound ∧ tree.lookUp true path = .error error

theorem isSteady_of_ofInput (hstart : start.IsPlain) {path : FilePath} {place : Location}
    {entry : Entry} {base : Location} (hfound : start.lookUp true path = .ok (place, entry))
    (hapart : ¬ IsNear base place) (h : ofInput start path place entry = .ok files) :
    ∀ file ∈ files, IsSteady start base file.path := by
  intro file hfile
  cases entry with
  | link target => exact absurd rfl (lookUp_true_not_link hfound target)
  | file content =>
      obtain rfl := Except.ok.inj h
      rw [List.mem_singleton] at hfile
      rw [hfile]
      exact .inl ⟨place, content, hfound, hapart⟩
  | directory =>
      obtain ⟨names, hnames, rfl⟩ := mem_ofInput_directory h file hfile
      obtain ⟨hne, content, hcontent⟩ := mem_filesBelow.mp hnames
      have hproper : ∀ name ∈ names, name ≠ "" ∧ '/' ∉ name.toList := by
        intro name hname
        have hgood := hstart.proper _ _ hcontent name (List.mem_append_right _ hname)
        exact ⟨hgood.not_empty, hgood.no_slash⟩
      obtain ⟨habsolute, hsteps, hslash⟩ := FilePath.below_names path hne hproper
      by_cases hsearch : IsSearchable (path.below names)
      · left
        refine ⟨place ++ names, content, ?_, not_isNear_below hapart names⟩
        exact hstart.lookUp_below hfound hne hcontent hsearch habsolute hsteps hslash
      · right
        obtain ⟨error, hmissing, herror⟩ := resolve_of_not_searchable hsearch
        refine ⟨error, hmissing (FilePath.text_ne_empty (by simp [hsteps, hne])), ?_⟩
        exact lookUp_of_resolve_error (herror start (.see true))

theorem isSteady_of_far {base : Location} (hstart : start.IsPlain)
    (hinputs : ∀ input ∈ inputs, ¬ IsNear base (start.locationOf (sourceRoot.join input)))
    (h : collect start sourceRoot inputs = .ok files) :
    ∀ file ∈ files, IsSteady start base file.path := by
  induction inputs generalizing files with
  | nil =>
      obtain rfl := Except.ok.inj h
      simp
  | cons input rest ih =>
      obtain ⟨place, entry, first, others, hfound, hfirst, hothers, rfl⟩ := collect_cons_ok h
      intro file hfile
      rcases List.mem_append.mp hfile with hmem | hmem
      · have hapart := hinputs input List.mem_cons_self
        rw [← hstart.place_of_lookUp hfound] at hapart
        exact isSteady_of_ofInput hstart hfound hapart hfirst file hmem
      · have hrest := fun other hother => hinputs other (List.mem_cons_of_mem _ hother)
        exact ih hrest hothers file hmem

theorem isSteady_of_collected (hstart : start.IsPlain)
    (hinputs : ∀ input ∈ inputs, LiesApart root (sourceRoot.join input) start)
    (h : collect start sourceRoot inputs = .ok files) :
    ∀ file ∈ files, IsSteady start (start.locationOf root) file.path :=
  isSteady_of_far hstart (fun input hinput => (hinputs input hinput).not_near) h

theorem IsSteady.lookUp_eq {path : FilePath} (h : IsSteady start (start.locationOf root) path)
    (hups : start.GoesUpFromDirectories root) (hgrown : GrownAt root start later) :
    later.lookUp true path = start.lookUp true path := by
  rcases h with ⟨place, held, hfound, hapart⟩ | ⟨error, hne, herror⟩
  · rw [hfound]
    exact lookUp_later hups hgrown hfound hapart
  · rw [herror]
    exact hgrown.grows.lookUp_error herror hne

end CollectedFile

end MediaMigration
