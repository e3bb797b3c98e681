import MediaMigration.BlobStore.Listing
import MediaMigration.Proofs.BlobStore.Upload
import MediaMigration.Proofs.FileTree.Failure

/-!
# Listed blobs are found by their names

The names that a listing gives are the ways from the directory of the container down to its
files, and the path of a blob is the path of the container continued by the name. So a blob
that is listed is found under its name, if its path is not too long to be looked up.
-/

namespace MediaMigration

namespace BlobStore

open FileTree

variable {store : BlobStore} {container blob : String} {path : FilePath}

/-! ## Paths of blobs -/

structure HasPath (store : BlobStore) (container blob : String) (path : FilePath) : Prop where
  container_plain : isPlainName container = true
  container_single : '/' ∉ container.toList
  blob_plain : isPlainName blob = true
  path_eq : path = (store.root.join ⟨container⟩).join ⟨blob⟩

theorem blobPath_eq_ok (h : store.blobPath container blob = .ok path) :
    store.HasPath container blob path := by
  unfold blobPath at h
  split at h
  · exact absurd h (by simp)
  · next hallowed =>
      simp only [Bool.or_eq_true, Bool.not_eq_true', List.contains_iff_mem, not_or,
        Bool.not_eq_false] at hallowed
      obtain ⟨⟨hcontainer, hsingle⟩, hblob⟩ := hallowed
      exact ⟨hcontainer, hsingle, hblob, (Except.ok.inj h).symm⟩

theorem isAbsolute_of_isPlainName {name : String} (h : isPlainName name = true) :
    FilePath.isAbsolute ⟨name⟩ = false := by
  cases habsolute : FilePath.isAbsolute ⟨name⟩ with
  | false => rfl
  | true => simp [isPlainName, FilePath.components, habsolute] at h

theorem ne_empty_of_isPlainName {name : String} (h : isPlainName name = true) : name ≠ "" := by
  rintro rfl
  simp [isPlainName] at h

theorem isNameStep_of_isPlainName {name : String} (h : isPlainName name = true) :
    ∀ step ∈ FilePath.moves ⟨name⟩, IsNameStep step := by
  intro step hstep
  obtain ⟨hsegment, hspeaks⟩ := List.mem_filter.mp hstep
  have hnot : FilePath.isSilent step = false := by simpa using hspeaks
  refine ⟨?_, ?_⟩
  · rintro rfl
    exact absurd hnot (by decide)
  · rintro rfl
    have hup : PathComponent.up ∈ FilePath.components ⟨name⟩ := by
      have hnamed : PathComponent.up ∈
          (FilePath.segments ⟨name⟩).filterMap FilePath.componentOf? :=
        List.mem_filterMap.mpr ⟨"..", hsegment, rfl⟩
      unfold FilePath.components
      split
      · exact List.mem_cons_of_mem _ hnamed
      · split
        · exact List.mem_cons_of_mem _ hnamed
        · exact hnamed
    have hall := h
    rw [isPlainName, Bool.and_eq_true, List.all_eq_true] at hall
    exact absurd (hall.2 _ hup) (by simp)

theorem HasPath.isAbsolute_eq (h : store.HasPath container blob path) :
    path.isAbsolute = (store.root.join ⟨container⟩).isAbsolute := by
  rw [h.path_eq, FilePath.isAbsolute_join (isAbsolute_of_isPlainName h.blob_plain)]

theorem HasPath.steps_eq (h : store.HasPath container blob path) :
    path.steps = (store.root.join ⟨container⟩).steps ++ FilePath.steps ⟨blob⟩ := by
  rw [h.path_eq, FilePath.steps_join (isAbsolute_of_isPlainName h.blob_plain)]

/-! ## What is listed -/

/-- A container that is not there has no blobs, one that is a file has a blob without a name, and
a directory has the files below it. -/
theorem list_eq_ok {tree : FileTree} {blobs : List String}
    (h : store.list container tree = .ok blobs) :
    blobs = [] ∨
      (blobs = [""] ∧ ∃ place held,
        tree.lookUp true (store.root.join ⟨container⟩) = .ok (place, .file held)) ∨
      ∃ dir, tree.lookUp true (store.root.join ⟨container⟩) = .ok (dir, .directory) ∧
        blobs = sortNames ((tree.filesBelow dir).map FilePath.joinNames) := by
  simp only [list] at h
  split at h
  · exact absurd h (by simp)
  · exact .inl (Except.ok.inj h).symm
  · split at h
    · exact absurd h (by simp)
    · next files hfiles =>
        obtain rfl := Except.ok.inj h
        unfold filesAt at hfiles
        split at hfiles
        · exact absurd hfiles (by simp)
        · next place held hplace =>
            obtain rfl := Except.ok.inj hfiles
            refine .inr (.inl ⟨List.mergeSort_singleton _, place, held, ?_⟩)
            exact lookUp_true_of_false hplace (by simp)
        · next place hplace =>
            obtain ⟨_, rfl⟩ := traverse_eq_ok_iff.mp hfiles
            exact .inr (.inr ⟨place, lookUp_true_of_false hplace (by simp), rfl⟩)
        · split at hfiles
          · exact absurd hfiles (by simp)
          · next place hplace =>
              obtain ⟨_, rfl⟩ := traverse_eq_ok_iff.mp hfiles
              exact .inr (.inr ⟨place, hplace, rfl⟩)
          · obtain rfl := Except.ok.inj hfiles
            exact .inl List.mergeSort_nil

theorem mem_list {tree : FileTree} {blobs : List String}
    (h : store.list container tree = .ok blobs) (hmem : blob ∈ blobs) (hne : blob ≠ "") :
    ∃ dir names, tree.lookUp true (store.root.join ⟨container⟩) = .ok (dir, .directory) ∧
      names ∈ tree.filesBelow dir ∧ blob = FilePath.joinNames names := by
  rcases list_eq_ok h with rfl | ⟨rfl, _⟩ | ⟨dir, hdir, rfl⟩
  · exact absurd hmem (by simp)
  · rw [List.mem_singleton] at hmem
    exact absurd hmem hne
  · rw [sortNames, List.mem_mergeSort] at hmem
    obtain ⟨names, hnames, rfl⟩ := List.mem_map.mp hmem
    exact ⟨dir, names, hdir, hnames, rfl⟩

/-- Whatever is written for the container, what is listed is the way to a file from the place that
its path leads to. -/
theorem file_of_listed {tree : FileTree} {blobs : List String}
    (h : store.list container tree = .ok blobs) (hmem : blob ∈ blobs) :
    ∃ place entry names held,
      tree.lookUp true (store.root.join ⟨container⟩) = .ok (place, entry) ∧
        tree.entryAt (place ++ names) = some (.file held) ∧ blob = FilePath.joinNames names := by
  rcases list_eq_ok h with rfl | ⟨rfl, place, held, hplace⟩ | ⟨dir, hdir, rfl⟩
  · exact absurd hmem (by simp)
  · refine ⟨place, _, [], held, hplace, ?_, List.mem_singleton.mp hmem⟩
    rw [List.append_nil]
    exact entryAt_of_lookUp hplace
  · rw [sortNames, List.mem_mergeSort] at hmem
    obtain ⟨names, hnames, rfl⟩ := List.mem_map.mp hmem
    obtain ⟨_, held, hfile⟩ := mem_filesBelow.mp hnames
    exact ⟨dir, _, names, held, hdir, hfile, rfl⟩

theorem stored?_of_listed {tree : FileTree} (hformed : tree.IsWellFormed) {blobs : List String}
    (h : store.list container tree = .ok blobs) (hmem : blob ∈ blobs)
    (hpath : store.blobPath container blob = .ok path) (hsearch : IsSearchable path) :
    ∃ place content, store.stored? container blob tree = some (place, content) := by
  have hplain := blobPath_eq_ok hpath
  obtain ⟨dir, names, hdir, hnames, hblob⟩ :=
    mem_list h hmem (ne_empty_of_isPlainName hplain.blob_plain)
  obtain ⟨hne, content, hfile⟩ := mem_filesBelow.mp hnames
  have hproper : ∀ name ∈ names, name ≠ "" ∧ '/' ∉ name.toList := by
    intro name hname
    have hgood := hformed.proper _ _ hfile name (List.mem_append_right _ hname)
    exact ⟨hgood.not_empty, hgood.no_slash⟩
  have hsteps : path.steps = (store.root.join ⟨container⟩).steps ++ names := by
    rw [hplain.steps_eq, hblob, FilePath.steps_joinNames hne hproper]
  have hslash : path.endsWithSlash = false := by
    rw [hplain.path_eq, FilePath.endsWithSlash_join (isAbsolute_of_isPlainName hplain.blob_plain)
      (ne_empty_of_isPlainName hplain.blob_plain), hblob,
      FilePath.endsWithSlash_joinNames hne hproper]
  have hfound :=
    hformed.lookUp_below hdir hne hfile hsearch hplain.isAbsolute_eq hsteps hslash
  exact ⟨dir ++ names, content, stored?_eq_some_iff.mpr ⟨path, hpath, hfound⟩⟩

/-! ## Listings that fail -/

theorem filesAt_of_lookUp {tree : FileTree} (hplain : tree.IsPlain) {place : Location}
    {entry : Entry} (hl : tree.lookUp true path = .ok (place, entry)) :
    filesAt tree path = .ok [[]] ∨
      entry = .directory ∧ filesAt tree path = tree.traverse path place := by
  have hseen : tree.lookUp false path = .ok (place, entry) :=
    (hplain.lookUp_false_eq path).trans hl
  cases entry with
  | file content => exact .inl (by simp only [filesAt, hseen])
  | directory => exact .inr ⟨rfl, by simp only [filesAt, hseen]⟩
  | link target => exact absurd rfl (lookUp_true_not_link hl target)

theorem list_error_of_growsTo {tree later : FileTree} (hplain : tree.IsPlain)
    (hlaterPlain : later.IsPlain) (hgrows : GrowsTo tree later) {error : MigrationError}
    (h : store.list container tree = .error error) :
    ∃ cause, store.list container later = .error cause := by
  simp only [list] at h ⊢
  cases hl : tree.lookUp true (store.root.join ⟨container⟩) with
  | error cause =>
      by_cases hnone : cause = .notFound
      · -- a container that is not there has no blobs, which is no failure
        simp only [exists?, hl, hnone] at h
        exact absurd h (by simp)
      · have hlater := hgrows.lookUp_error hl hnone
        have hexists : later.exists? (store.root.join ⟨container⟩) = .error cause := by
          simp only [exists?, hlater]
        exact ⟨.io cause, by rw [hexists]⟩
  | ok found =>
      obtain ⟨place, entry⟩ := found
      have hexists : tree.exists? (store.root.join ⟨container⟩) = .ok true := by
        simp only [exists?, hl]
      rw [hexists] at h
      rcases filesAt_of_lookUp hplain hl with hfile | ⟨rfl, htraverse⟩
      · rw [hfile] at h
        exact absurd h (by simp)
      · simp only [htraverse] at h
        cases hfiles : tree.traverse (store.root.join ⟨container⟩) place with
        | ok files => simp [hfiles] at h
        | error cause =>
            obtain ⟨later_cause, hcause⟩ := hgrows.traverse_error hfiles
            have hlaterFound := hgrows.lookUp_directory hl
            have hlaterExists : later.exists? (store.root.join ⟨container⟩) = .ok true := by
              simp only [exists?, hlaterFound]
            have hlaterSeen :
                later.lookUp false (store.root.join ⟨container⟩) = .ok (place, .directory) :=
              (hlaterPlain.lookUp_false_eq _).trans hlaterFound
            refine ⟨.io later_cause, ?_⟩
            rw [hlaterExists]
            simp only [filesAt, hlaterSeen, hcause]

end BlobStore

end MediaMigration
