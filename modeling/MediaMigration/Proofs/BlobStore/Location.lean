import Mathlib.Data.List.Nodup
import MediaMigration.Placement
import MediaMigration.Proofs.BlobStore.Listing
import MediaMigration.Proofs.BlobStore.NewBlobs

/-!
# Where blobs lie

In a tree without links the location of a blob can be read off its names: it lies below the
root of the store, under the container and then under what its name says. So blobs of two
containers are never one file, and a prefix keeps blobs apart that were apart before.
-/

namespace MediaMigration

open FileTree

/-! ## Names behind a prefix -/

namespace Placement

def EndsWithSlash (placement : Placement) : Prop :=
  placement.namePrefix = "" ∨ ∃ front : String, placement.namePrefix = front ++ "/"

theorem endsWithSlash_ofName (name : String) : (ofName name).EndsWithSlash := by
  unfold ofName
  simp only
  split
  · exact .inl rfl
  · next rest _ =>
      right
      unfold endWithSlash
      by_cases hlast : rest.getLast? = some '/'
      · obtain ⟨front, hfront⟩ := List.getLast?_eq_some_iff.mp hlast
        refine ⟨String.ofList front, ?_⟩
        apply String.toList_injective
        simp [hfront]
      · refine ⟨String.ofList rest, ?_⟩
        apply String.toList_injective
        simp [hlast]

theorem steps_dropLeadingSlashes (text : List Char) :
    FilePath.steps ⟨String.ofList (dropLeadingSlashes text)⟩ =
      FilePath.steps ⟨String.ofList text⟩ := by
  induction text with
  | nil => rfl
  | cons c rest ih =>
      by_cases hslash : c = '/'
      · have hdrop : dropLeadingSlashes (c :: rest) = dropLeadingSlashes rest := by
          simp [dropLeadingSlashes, hslash]
        have hsplit : String.ofList (c :: rest) = "" ++ "/" ++ String.ofList rest := by
          apply String.toList_injective
          simp [hslash]
        rw [hdrop, ih, hsplit, FilePath.steps_append_slash]
        rfl
      · have hkeep : dropLeadingSlashes (c :: rest) = c :: rest := by
          simp [dropLeadingSlashes, hslash]
        rw [hkeep]

theorem steps_blobName {placement : Placement} (h : placement.EndsWithSlash) (name : String) :
    FilePath.steps ⟨placement.blobName name⟩ =
      FilePath.steps ⟨placement.namePrefix⟩ ++ FilePath.steps ⟨name⟩ := by
  have hname : FilePath.steps ⟨String.ofList (dropLeadingSlashes name.toList)⟩ =
      FilePath.steps ⟨name⟩ := by
    rw [steps_dropLeadingSlashes, String.ofList_toList]
  rw [blobName, steps_dropLeadingSlashes]
  rcases h with hnone | ⟨front, hfront⟩
  · rw [hnone]
    exact hname
  · have hsplit : String.ofList (placement.namePrefix.toList ++ dropLeadingSlashes name.toList) =
        front ++ "/" ++ String.ofList (dropLeadingSlashes name.toList) := by
      apply String.toList_injective
      simp [hfront]
    have hprefix : FilePath.steps ⟨placement.namePrefix⟩ = FilePath.steps ⟨front⟩ := by
      have hmore := FilePath.steps_append_slash front ""
      rw [String.append_empty, ← hfront] at hmore
      rw [hmore]
      exact List.append_nil _
    rw [hsplit, FilePath.steps_append_slash, hname, hprefix]

theorem moves_blobName {placement : Placement} (h : placement.EndsWithSlash) (name : String) :
    FilePath.moves ⟨placement.blobName name⟩ =
      FilePath.moves ⟨placement.namePrefix⟩ ++ FilePath.moves ⟨name⟩ := by
  simp only [FilePath.moves_eq_filter_steps]
  rw [steps_blobName h, List.filter_append]

end Placement

namespace BlobStore

variable {store : BlobStore} {container blob : String} {path : FilePath} {tree : FileTree}

/-! ## Locations of blobs -/

theorem upsExist_names {dir : Location} {names : List String}
    (h : ∀ name ∈ names, IsNameStep name) : tree.UpsExist dir names := by
  induction names generalizing dir with
  | nil => trivial
  | cons name rest ih =>
      have hname := h name (by simp)
      rw [UpsExist, if_neg hname.1, if_neg hname.2]
      exact ih fun other hother => h other (List.mem_cons_of_mem _ hother)

theorem HasPath.moves_container (h : store.HasPath container blob path) :
    FilePath.moves ⟨container⟩ = [container] := by
  have hsegments := FilePath.segments_of_no_slash h.container_single
  have hne := ne_empty_of_isPlainName h.container_plain
  have hdot : container ≠ "." := by
    rintro rfl
    exact absurd h.container_plain (by decide)
  have hspeaks : FilePath.isSilent container = false := by
    simp [FilePath.isSilent, hne, hdot]
  rw [FilePath.moves, hsegments, List.filter_cons_of_pos (by simp [hspeaks]), List.filter_nil]

theorem HasPath.moves_eq (h : store.HasPath container blob path) :
    path.moves = store.root.moves ++ container :: FilePath.moves ⟨blob⟩ := by
  rw [h.path_eq, FilePath.moves_join (isAbsolute_of_isPlainName h.blob_plain),
    FilePath.moves_join (isAbsolute_of_isPlainName h.container_plain), h.moves_container,
    List.append_assoc, List.singleton_append]

theorem HasPath.isNameStep (h : store.HasPath container blob path) :
    ∀ name ∈ container :: FilePath.moves ⟨blob⟩, IsNameStep name := by
  intro name hname
  rcases List.mem_cons.mp hname with rfl | hblob
  · refine isNameStep_of_isPlainName h.container_plain name ?_
    rw [h.moves_container, List.mem_singleton]
  · exact isNameStep_of_isPlainName h.blob_plain name hblob

theorem HasPath.startOf_eq (h : store.HasPath container blob path) (tree : FileTree) :
    tree.startOf path = tree.startOf store.root := by
  rw [h.path_eq, startOf_join (isAbsolute_of_isPlainName h.blob_plain),
    startOf_join (isAbsolute_of_isPlainName h.container_plain)]

theorem HasPath.locationOf_eq (h : store.HasPath container blob path) (tree : FileTree) :
    tree.locationOf path =
      tree.locationOf store.root ++ container :: FilePath.moves ⟨blob⟩ := by
  rw [locationOf_eq_follow_moves, locationOf_eq_follow_moves, h.startOf_eq, h.moves_eq,
    follow_append, follow_names _ h.isNameStep]

theorem HasPath.goesUp (h : store.HasPath container blob path)
    (hups : tree.GoesUpFromDirectories store.root) : tree.GoesUpFromDirectories path := by
  rw [GoesUpFromDirectories, ← upsExist_filter, ← FilePath.moves_eq_filter_steps] at hups ⊢
  rw [h.startOf_eq, h.moves_eq, upsExist_append]
  exact ⟨hups, upsExist_names h.isNameStep⟩

/-- Without links a blob is found where its names say. -/
theorem place?_eq_of_isPlain (hplain : tree.IsPlain) {place : Location}
    (h : store.place? tree (container, blob) = some place) :
    place = tree.locationOf store.root ++ container :: FilePath.moves ⟨blob⟩ := by
  obtain ⟨⟨found, content⟩, hstored, rfl⟩ := Option.map_eq_some_iff.mp h
  obtain ⟨path, hpath, hfound⟩ := stored?_eq_some_iff.mp hstored
  have hlocation := hplain.place_of_lookUp hfound
  rw [(blobPath_eq_ok hpath).locationOf_eq] at hlocation
  exact hlocation

/-! ## Names of listed blobs -/

theorem moves_joinNames_of_file (hformed : tree.IsWellFormed) {dir names : Location}
    (h : names ∈ tree.filesBelow dir) : FilePath.moves ⟨FilePath.joinNames names⟩ = names := by
  obtain ⟨hne, content, hfile⟩ := mem_filesBelow.mp h
  have hproper : ∀ name ∈ names, IsProperName name := by
    intro name hname
    exact hformed.proper _ _ hfile name (List.mem_append_right _ hname)
  exact FilePath.moves_joinNames hne
    (fun name hname => ⟨(hproper name hname).not_empty, (hproper name hname).no_slash⟩)
    fun hhere => (hproper "." hhere).is_step.1 rfl

theorem joinNames_moves_of_listed (hformed : tree.IsWellFormed) {blobs : List String}
    (h : store.list container tree = .ok blobs) (hmem : blob ∈ blobs) (hne : blob ≠ "") :
    FilePath.joinNames (FilePath.moves ⟨blob⟩) = blob := by
  obtain ⟨dir, names, _, hnames, rfl⟩ := mem_list h hmem hne
  rw [moves_joinNames_of_file hformed hnames]

theorem nodup_list (hformed : tree.IsWellFormed) {blobs : List String}
    (h : store.list container tree = .ok blobs) : blobs.Nodup := by
  rcases list_eq_ok h with rfl | ⟨rfl, _⟩ | ⟨dir, _, hblobs⟩
  · exact List.nodup_nil
  · exact List.nodup_singleton ""
  · have hnames : (((tree.filesBelow dir).map FilePath.joinNames).map fun blob =>
        FilePath.moves ⟨blob⟩) = tree.filesBelow dir := by
      rw [List.map_map]
      have hsame := List.map_congr_left fun names (hmem : names ∈ tree.filesBelow dir) =>
        moves_joinNames_of_file hformed hmem
      rw [List.map_id'] at hsame
      exact hsame
    rw [hblobs, sortNames, (List.mergeSort_perm _ _).nodup_iff]
    apply List.Nodup.of_map fun blob => FilePath.moves ⟨blob⟩
    rw [hnames]
    exact nodup_filesBelow tree dir

end BlobStore

end MediaMigration
