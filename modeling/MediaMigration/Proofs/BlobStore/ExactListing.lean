import MediaMigration.Proofs.BlobStore.Invariant
import MediaMigration.Proofs.BlobStore.Location
import MediaMigration.Proofs.FileTree.Approach
import MediaMigration.Proofs.Text.ByteOrder

/-!
# Listings are exact

Whatever uploads and copies have been made below an empty root, and however they ended, the
listing of a container names the files below its directory, each once, in the order of their
bytes. The walk gives them in another order, since it compares names and not texts, and may go
through directories that failed uploads have left. A container that the system cannot look for,
because its path or its name is too long or has a NUL in it, is accepted as a name, but
not listed.
-/

namespace MediaMigration

namespace BlobStore

open FileTree

variable {root : FilePath} {base : Location} {tree : FileTree} {container blob : String}

/-! ## The directory of a container -/

/-- The system can look for the directory of a container. -/
def IsLookedFor (root : FilePath) (container : String) : Prop :=
  IsSearchable (root.join ⟨container⟩) ∧ container.utf8ByteSize ≤ maxNameBytes

theorem isSearchable_container (hc : IsContainerName container) (hb : IsBlobName blob)
    (hsearch : IsSearchable ((root.join ⟨container⟩).join ⟨blob⟩)) :
    IsSearchable (root.join ⟨container⟩) := by
  obtain ⟨_, hsteps, hended⟩ := hc.join_spec root
  have hne : (root.join ⟨container⟩).text ≠ "" := FilePath.text_ne_empty (by simp [hsteps])
  have htext := FilePath.text_join (isAbsolute_eq_false hb.relative) hne hended
  have hnul := hsearch.no_nul
  have hshort := hsearch.short
  rw [htext, String.append_assoc] at hnul hshort
  rw [String.toList_append, List.mem_append, not_or] at hnul
  rw [String.utf8ByteSize_append] at hshort
  exact ⟨hnul.1, hne, by omega⟩

theorem walk_container (h : HoldsBlobs root base tree) (hc : IsContainerName container) :
    Walks tree base [container] (.arrived (.child base container)) :=
  .last h.opens.1 ⟨hc.not_here, hc.not_up⟩

theorem HoldsBlobs.resolve_container (h : HoldsBlobs root base tree)
    (hc : IsContainerName container) (hlooked : IsLookedFor root container) (follow : Bool) :
    tree.resolve (.see follow) (root.join ⟨container⟩) = .ok (.child base container, false) := by
  obtain ⟨habsolute, hsteps, hslash⟩ := hc.join_spec root
  obtain ⟨links, hlinks⟩ := h.opens.resolve_eq
  rw [hlinks (.see follow) _ [container] hlooked.1 habsolute hsteps (List.cons_ne_nil _ _), hslash]
  apply Leads.locate_eq
  exact .arrive (.child (walk_container h hc) rfl hlooked.2 fun _ => h.not_link [container])

theorem HoldsBlobs.lookUp_container_missing (h : HoldsBlobs root base tree)
    (hc : IsContainerName container) (hlooked : IsLookedFor root container)
    (hnone : tree.entryAt (base ++ [container]) = none) (follow : Bool) :
    tree.lookUp follow (root.join ⟨container⟩) = .error .notFound := by
  rw [lookUp, h.resolve_container hc hlooked]
  simp only [hnone]

theorem HoldsBlobs.lookUp_container (h : HoldsBlobs root base tree)
    (hc : IsContainerName container) (hlooked : IsLookedFor root container)
    (hdirectory : tree.entryAt (base ++ [container]) = some .directory) (follow : Bool) :
    tree.lookUp follow (root.join ⟨container⟩) = .ok (base ++ [container], .directory) := by
  rw [lookUp, h.resolve_container hc hlooked]
  simp only [hdirectory]

theorem HoldsBlobs.lookUp_container_error (h : HoldsBlobs root base tree)
    (hc : IsContainerName container) (hlooked : ¬ IsLookedFor root container) (follow : Bool) :
    ∃ cause, (cause = .nulInPath ∨ cause = .nameTooLong) ∧
      tree.lookUp follow (root.join ⟨container⟩) = .error cause := by
  obtain ⟨habsolute, hsteps, hslash⟩ := hc.join_spec root
  have hne : (root.join ⟨container⟩).text ≠ "" := FilePath.text_ne_empty (by simp [hsteps])
  by_cases hnul : '\x00' ∈ (root.join ⟨container⟩).text.toList
  · refine ⟨.nulInPath, .inl rfl, ?_⟩
    rw [lookUp, resolve, if_pos hnul]
  · refine ⟨.nameTooLong, .inr rfl, ?_⟩
    by_cases hlong : maxPathBytes ≤ (root.join ⟨container⟩).text.utf8ByteSize
    · rw [lookUp, resolve, if_neg hnul, if_neg hne, if_pos hlong]
    · have hsearch : IsSearchable (root.join ⟨container⟩) := ⟨hnul, hne, Nat.not_le.mp hlong⟩
      have hname : maxNameBytes < container.utf8ByteSize :=
        Nat.not_le.mp fun hshort => hlooked ⟨hsearch, hshort⟩
      obtain ⟨links, hlinks⟩ := h.opens.resolve_eq
      have hwalk := (walk_container h hc).walk_eq
      have hresolve := hlinks (.see follow) _ [container] hsearch habsolute hsteps
        (List.cons_ne_nil _ _)
      have hlocate : tree.locate (.see follow) links base [container]
          (root.join ⟨container⟩).endsWithSlash = .error .nameTooLong := by
        unfold locate
        simp only [walkTo, hwalk, Purpose.refuses, Bool.false_eq_true, if_false, if_pos hname]
      rw [lookUp, hresolve, hlocate]

/-! ## What is listed -/

theorem HoldsBlobs.inReach (h : HoldsBlobs root base tree) (container : String) :
    tree.InReach (root.join ⟨container⟩) (base ++ [container]) := by
  intro names _ hdirectory
  rw [List.append_assoc, List.singleton_append] at hdirectory
  exact h.in_reach container names hdirectory

/-- Where a path leads to a directory, the files are those below it, also behind a link. -/
theorem filesAt_of_directory {path : FilePath} {dir : Location}
    (hl : tree.lookUp true path = .ok (dir, .directory)) (hslash : path.endsWithSlash = false) :
    filesAt tree path = tree.traverse path dir := by
  obtain ⟨spot, ended, hr, rfl, hentry, _⟩ := lookUp_eq_ok_iff.mp hl
  obtain ⟨hsearch, hlead⟩ := resolve_eq_ok_iff.mp hr
  rw [hslash] at hlead
  rcases hlead.unfollowed (.see false) rfl rfl with
    hsame | ⟨outer, last, hlink, target, _, _, _, hthere, _⟩
  · have hseen : tree.lookUp false path = .ok (spot.place, .directory) :=
      lookUp_eq_ok_iff.mpr ⟨spot, ended, resolve_eq_ok_iff.mpr ⟨hsearch, hslash ▸ hsame⟩, rfl,
        hentry, fun hnot => absurd rfl hnot⟩
    simp only [filesAt, hseen]
  · have hseen : tree.lookUp false path = .ok (outer ++ [last], .link target) :=
      lookUp_eq_ok_iff.mpr ⟨.child outer last, false,
        resolve_eq_ok_iff.mpr ⟨hsearch, hslash ▸ hlink⟩, rfl, hthere, fun _ => rfl⟩
    simp only [filesAt, hseen, hl]

theorem list_eq_of_missing (overwrite : Bool)
    (h : tree.lookUp true (root.join ⟨container⟩) = .error .notFound) :
    BlobStore.list ⟨root, overwrite⟩ container tree = .ok [] := by
  simp only [list, exists?, h]

/-- The directory of a container is listed exactly if everything below it can be opened. -/
theorem list_eq_ok_iff (store : BlobStore) (hc : IsContainerName container) {dir : Location}
    (hl : tree.lookUp true (store.root.join ⟨container⟩) = .ok (dir, .directory))
    {blobs : List String} :
    store.list container tree = .ok blobs ↔
      tree.InReach (store.root.join ⟨container⟩) dir ∧
        blobs = sortNames ((tree.filesBelow dir).map FilePath.joinNames) := by
  have hfiles := filesAt_of_directory hl (hc.join_spec store.root).2.2
  simp only [list, exists?, hl, hfiles]
  cases htraverse : tree.traverse (store.root.join ⟨container⟩) dir with
  | error cause =>
      have hnot := traverse_error_iff.mp ⟨cause, htraverse⟩
      simp [hnot]
  | ok files =>
      obtain ⟨hreach, rfl⟩ := traverse_eq_ok_iff.mp htraverse
      simp [hreach, eq_comm]

theorem HoldsBlobs.list_eq (h : HoldsBlobs root base tree) (hc : IsContainerName container)
    (hlooked : IsLookedFor root container) (overwrite : Bool) :
    BlobStore.list ⟨root, overwrite⟩ container tree =
      .ok (sortNames ((tree.filesBelow (base ++ [container])).map FilePath.joinNames)) := by
  cases hentry : tree.entryAt (base ++ [container]) with
  | none =>
      have hnothing : tree.filesBelow (base ++ [container]) = [] := by
        apply List.eq_nil_iff_forall_not_mem.mpr
        intro names hnames
        obtain ⟨hne, content, hfile⟩ := mem_filesBelow.mp hnames
        have hthere : tree.entryAt (base ++ [container] ++ names) ≠ none := by
          rw [hfile]
          simp
        have hdirectory := h.formed.directory_of_prefix hthere
          (List.prefix_append (base ++ [container]) names) (by simp [hne])
        rw [hentry] at hdirectory
        exact absurd hdirectory (by simp)
      rw [hnothing, List.map_nil, sortNames, List.mergeSort_nil]
      exact list_eq_of_missing overwrite (h.lookUp_container_missing hc hlooked hentry true)
  | some entry =>
      obtain rfl := h.container_directory container entry hentry
      have hl := h.lookUp_container hc hlooked hentry true
      exact (list_eq_ok_iff ⟨root, overwrite⟩ hc hl).mpr ⟨h.inReach container, rfl⟩

theorem HoldsBlobs.list_error (h : HoldsBlobs root base tree) (hc : IsContainerName container)
    (hlooked : ¬ IsLookedFor root container) (overwrite : Bool) :
    ∃ cause, (cause = .nulInPath ∨ cause = .nameTooLong) ∧
      BlobStore.list ⟨root, overwrite⟩ container tree = .error (.io cause) := by
  obtain ⟨cause, hcause, hl⟩ := h.lookUp_container_error hc hlooked true
  refine ⟨cause, hcause, ?_⟩
  rcases hcause with rfl | rfl
  · simp only [list, exists?, hl]
  · simp only [list, exists?, hl]

/-- The blob names of a listing are those of the files below a container, each once and in
the order of the bytes, and each can be used again. -/
structure IsExact (store : BlobStore) (base : Location) (container : String) (tree : FileTree)
    (blobs : List String) : Prop where
  increasing : (blobs.map Text.bytesOf).Pairwise (· < ·)
  mem_iff : ∀ blob, blob ∈ blobs ↔ ∃ names content, names ≠ [] ∧
    tree.entryAt (base ++ container :: names) = some (.file content) ∧
      blob = FilePath.joinNames names
  accepted : ∀ blob ∈ blobs, blob ≠ "" ∧ ∃ path, store.blobPath container blob = .ok path

theorem pairwise_sortNames {names : List String} (hnodup : names.Nodup) :
    ((sortNames names).map Text.bytesOf).Pairwise (· < ·) := by
  have hordered : (sortNames names).Pairwise fun a b => decide (a ≤ b) = true := by
    apply List.pairwise_mergeSort
    · intro a b c hab hbc
      simp only [decide_eq_true_eq] at hab hbc ⊢
      exact String.le_trans hab hbc
    · intro a b
      simp only [Bool.or_eq_true, decide_eq_true_eq]
      exact String.le_total a b
  have hdistinct : (sortNames names).Nodup := (List.mergeSort_perm _ _).nodup_iff.mpr hnodup
  rw [List.pairwise_map]
  refine (hordered.and hdistinct).imp ?_
  rintro a b ⟨hle, hne⟩
  have hless : a < b := String.not_le.mp fun hge =>
    hne (String.le_antisymm (of_decide_eq_true hle) hge)
  exact Text.bytesOf_lt hless

theorem mem_sorted_files {names : Location} :
    names ∈ tree.filesBelow (base ++ [container]) ↔ names ≠ [] ∧
      ∃ content, tree.entryAt (base ++ container :: names) = some (.file content) := by
  have hplace : base ++ [container] ++ names = base ++ container :: names := by simp
  rw [mem_filesBelow, hplace]

theorem HoldsBlobs.isExact (h : HoldsBlobs root base tree) (hc : IsContainerName container)
    (hlooked : IsLookedFor root container) (overwrite : Bool) {blobs : List String}
    (hlist : BlobStore.list ⟨root, overwrite⟩ container tree = .ok blobs) :
    IsExact ⟨root, overwrite⟩ base container tree blobs := by
  have hblobs := Except.ok.inj (hlist.symm.trans (h.list_eq hc hlooked overwrite))
  have hmem : ∀ blob, blob ∈ blobs ↔ ∃ names content, names ≠ [] ∧
      tree.entryAt (base ++ container :: names) = some (.file content) ∧
        blob = FilePath.joinNames names := by
    intro blob
    rw [hblobs, sortNames, List.mem_mergeSort, List.mem_map]
    constructor
    · rintro ⟨names, hnames, rfl⟩
      obtain ⟨hne, content, hfile⟩ := mem_sorted_files.mp hnames
      exact ⟨names, content, hne, hfile, rfl⟩
    · rintro ⟨names, content, hne, hfile, rfl⟩
      exact ⟨names, mem_sorted_files.mpr ⟨hne, content, hfile⟩, rfl⟩
  have hnodup := nodup_list h.formed hlist
  refine ⟨?_, hmem, ?_⟩
  · rw [hblobs] at hnodup ⊢
    exact pairwise_sortNames ((List.mergeSort_perm _ _).nodup_iff.mp hnodup)
  · intro blob hblob
    obtain ⟨names, content, hne, hfile, rfl⟩ := (hmem blob).mp hblob
    have hname : IsBlobName (FilePath.joinNames names) := by
      apply isBlobName_joinNames hne
      intro name hmember
      have hgood := h.formed.proper _ _ hfile name
        (List.mem_append_right _ (List.mem_cons_of_mem _ hmember))
      exact ⟨hgood.not_empty, hgood.is_step, hgood.no_slash⟩
    exact ⟨hname.not_empty, _, blobPath_eq_ok_iff.mpr ⟨⟨hc, hname⟩, rfl⟩⟩

/-! ## What an upload adds -/

theorem HoldsBlobs.file?_of_upload (h : HoldsBlobs root base tree) {overwrite : Bool}
    {content : Content} {cancellation : Cancellation} {count : Nat}
    (hok : (BlobStore.upload ⟨root, overwrite⟩ container blob content cancellation tree).result =
      .ok count) :
    ∃ stored, ∀ place,
      (BlobStore.upload ⟨root, overwrite⟩ container blob content cancellation
        tree).tree.file? place =
        if place = base ++ container :: FilePath.moves ⟨blob⟩ then some stored
        else tree.file? place := by
  have hafter := h.upload overwrite container blob content cancellation
  obtain ⟨target, stored, _, hstores, _⟩ := upload_stores hok
  obtain ⟨path, hpath, hfound⟩ := stored?_eq_some_iff.mp hstores.stored?
  obtain ⟨⟨hc, hb⟩, rfl⟩ := blobPath_eq_ok_iff.mp hpath
  obtain ⟨spot, slash, hr, rfl, _⟩ := lookUp_eq_ok_iff.mp hfound
  refine ⟨stored, ?_⟩
  rw [← hafter.place_of_blob hc hb hr]
  exact hstores.file?_after

/-- The new name is listed, and the rest of the listing is as before. -/
theorem HoldsBlobs.list_after_upload (h : HoldsBlobs root base tree)
    (hlooked : IsLookedFor root container) {overwrite : Bool} {content : Content}
    {cancellation : Cancellation} {count : Nat} {blobs : List String}
    (hexact : IsExact ⟨root, overwrite⟩ base container tree blobs)
    (hok : (BlobStore.upload ⟨root, overwrite⟩ container blob content cancellation tree).result =
      .ok count) :
    ∃ after, BlobStore.list ⟨root, overwrite⟩ container
        (BlobStore.upload ⟨root, overwrite⟩ container blob content cancellation tree).tree =
          .ok after ∧
      ∀ other, other ∈ after ↔
        other = FilePath.joinNames (FilePath.moves ⟨blob⟩) ∨ other ∈ blobs := by
  obtain ⟨_, _, _, ⟨path, _, hpath, _⟩, _⟩ := upload_stores hok
  obtain ⟨⟨hc, hb⟩, _⟩ := blobPath_eq_ok_iff.mp hpath
  have hafter := h.upload overwrite container blob content cancellation
  obtain ⟨stored, hfiles⟩ := h.file?_of_upload hok
  refine ⟨_, hafter.list_eq hc hlooked overwrite, fun other => ?_⟩
  have hlist := hafter.list_eq hc hlooked overwrite
  rw [(hafter.isExact hc hlooked overwrite hlist).mem_iff, hexact.mem_iff]
  simp only [← file?_eq_some_iff, hfiles]
  constructor
  · rintro ⟨names, bytes, hne, hfile, rfl⟩
    split at hfile
    · next hplace =>
        left
        rw [(List.cons.inj (List.append_cancel_left hplace)).2]
    · exact .inr ⟨names, bytes, hne, hfile, rfl⟩
  · rintro (rfl | ⟨names, bytes, hne, hfile, rfl⟩)
    · exact ⟨_, stored, hb.moves_ne_nil, by rw [if_pos rfl], rfl⟩
    · by_cases hplace : base ++ container :: names = base ++ container :: FilePath.moves ⟨blob⟩
      · exact ⟨names, stored, hne, by rw [if_pos hplace], rfl⟩
      · exact ⟨names, bytes, hne, by rw [if_neg hplace, hfile], rfl⟩

/-! ## Exact listings -/

/-- After any uploads and copies below an empty root a container that the system can look for
is listed exactly, and the upload of a blob adds its name and nothing else. Any other container
is not listed, for the reason that the system has. -/
theorem listing_is_exact {start : FileTree} (hempty : IsEmptyAt start root base)
    (calls : List (Bool × Request)) (overwrite : Bool) {path : FilePath}
    (hname : (BlobStore.mk root overwrite).blobPath container blob = .ok path) :
    (IsLookedFor root container → ∃ blobs,
      BlobStore.list ⟨root, overwrite⟩ container (reached root calls start) = .ok blobs ∧
      IsExact ⟨root, overwrite⟩ base container (reached root calls start) blobs ∧
      ∀ added content cancellation count,
        (BlobStore.upload ⟨root, overwrite⟩ container added content cancellation
          (reached root calls start)).result = .ok count →
        FilePath.components ⟨added⟩ = (FilePath.moves ⟨added⟩).map .name ∧
        ∃ after, BlobStore.list ⟨root, overwrite⟩ container
            (BlobStore.upload ⟨root, overwrite⟩ container added content cancellation
              (reached root calls start)).tree = .ok after ∧
          ∀ other, other ∈ after ↔
            other = FilePath.joinNames (FilePath.moves ⟨added⟩) ∨ other ∈ blobs) ∧
    (¬ IsLookedFor root container → ∃ cause, (cause = .nulInPath ∨ cause = .nameTooLong) ∧
      BlobStore.list ⟨root, overwrite⟩ container (reached root calls start) =
        .error (.io cause)) := by
  have hholds := hempty.holdsBlobs.reached calls
  obtain ⟨⟨hc, _⟩, _⟩ := blobPath_eq_ok_iff.mp hname
  constructor
  · intro hlooked
    have hlist := hholds.list_eq hc hlooked overwrite
    have hexact := hholds.isExact hc hlooked overwrite hlist
    refine ⟨_, hlist, hexact, ?_⟩
    intro added content cancellation count hok
    refine ⟨?_, hholds.list_after_upload hlooked hexact hok⟩
    obtain ⟨_, _, _, ⟨_, _, hpath, _⟩, _⟩ := upload_stores hok
    have hb := (blobPath_eq_ok_iff.mp hpath).1.2
    rw [FilePath.components_eq, isAbsolute_eq_false hb.relative, if_neg Bool.false_ne_true,
      if_neg hb.not_here, FilePath.named_eq hb.never_up]
  · intro hlooked
    exact hholds.list_error hc hlooked overwrite

namespace EmptyStore

def start : FileTree :=
  FileTree.empty.put ["store"] .directory

theorem isEmptyAt : IsEmptyAt start ⟨"store"⟩ ["store"] := by
  refine ⟨by decide +kernel, .inl (by decide +kernel), ?_⟩
  intro names hnames
  have hother : ["store"] ≠ ["store"] ++ names := by simp [hnames]
  rw [start, entryAt_put _ (by decide), if_neg hother, entryAt, if_neg (by simp)]
  simp [FileTree.empty]

/-- Two blobs are stored, and two uploads fail: one has made directories before, and the target
of the other is a directory. -/
def calls : List (Bool × Request) :=
  [(false, .upload "media" "a//./b" (.chunks [[1]] none) .never),
    (false, .upload "media" "x/y/z" (.chunks [[1]] (some .isDirectory)) .never),
    (true, .upload "media" "a-b" (.chunks [[2]] none) .never),
    (true, .copy "media" "a" "media" "a-b" .never)]

theorem files_after_calls :
    (reached ⟨"store"⟩ calls start).filesBelow (["store"] ++ ["media"]) =
      [["a", "b"], ["a-b"]] := by
  decide +kernel

def longName : String :=
  String.ofList (List.replicate 256 'n')

theorem isContainerName_longName : IsContainerName longName := by
  have hlength : longName.length = 256 := String.length_ofList.trans List.length_replicate
  have hchars : longName.toList = List.replicate 256 'n' := String.toList_ofList
  have hother : ∀ name : String, name.length ≠ 256 → longName ≠ name := by
    rintro _ hdifferent rfl
    exact hdifferent hlength
  refine ⟨hother "" (by decide), ?_, hother "." (by decide), hother ".." (by decide)⟩
  intro hslash
  rw [hchars] at hslash
  exact absurd (List.eq_of_mem_replicate hslash) (by decide)

end EmptyStore

/-- The walk comes to `a/b` before it comes to `a-b`, but the slash is the greater byte. -/
theorem listing_is_exact_slashes :
    IsEmptyAt EmptyStore.start ⟨"store"⟩ ["store"] ∧
      (BlobStore.mk ⟨"store"⟩ true).blobPath "media" "a/b" = .ok ⟨"store/media/a/b"⟩ ∧
      BlobStore.list ⟨⟨"store"⟩, true⟩ "media"
        (reached ⟨"store"⟩ EmptyStore.calls EmptyStore.start) = .ok ["a-b", "a/b"] ∧
      IsExact ⟨⟨"store"⟩, true⟩ ["store"] "media"
        (reached ⟨"store"⟩ EmptyStore.calls EmptyStore.start) ["a-b", "a/b"] := by
  have hname : (BlobStore.mk ⟨"store"⟩ true).blobPath "media" "a/b" =
      .ok ⟨"store/media/a/b"⟩ := by
    decide +kernel
  have hlooked : IsLookedFor ⟨"store"⟩ "media" :=
    ⟨⟨by decide +kernel, by decide +kernel, by decide +kernel⟩, by decide +kernel⟩
  obtain ⟨blobs, hblobs, hexact, _⟩ :=
    (listing_is_exact EmptyStore.isEmptyAt EmptyStore.calls true hname).1 hlooked
  have hcontainer := (blobPath_eq_ok_iff.mp hname).1.1
  have hlist := (EmptyStore.isEmptyAt.holdsBlobs.reached EmptyStore.calls).list_eq hcontainer
    hlooked true
  have hsorted : sortNames ["a/b", "a-b"] = ["a-b", "a/b"] := by
    have hless : ¬ "a/b" ≤ "a-b" := by decide +kernel
    simp [sortNames, List.mergeSort, List.MergeSort.Internal.splitInTwo, hless]
  have hnames : [["a", "b"], ["a-b"]].map FilePath.joinNames = ["a/b", "a-b"] := by
    decide +kernel
  rw [EmptyStore.files_after_calls, hnames, hsorted] at hlist
  obtain rfl := Except.ok.inj (hblobs.symm.trans hlist)
  exact ⟨EmptyStore.isEmptyAt, hname, hlist, hexact⟩

/-- A name of 256 bytes is accepted, but the system does not look for it, so there is no
listing. -/
theorem long_container_not_listed :
    IsEmptyAt EmptyStore.start ⟨"store"⟩ ["store"] ∧
      (∃ path, (BlobStore.mk ⟨"store"⟩ false).blobPath EmptyStore.longName "b" = .ok path) ∧
      ∀ blobs, BlobStore.list ⟨⟨"store"⟩, false⟩ EmptyStore.longName
        (reached ⟨"store"⟩ [] EmptyStore.start) ≠ .ok blobs := by
  have hblob : IsBlobName "b" := ⟨by decide, by decide, by decide, by decide⟩
  have hlong : maxNameBytes < EmptyStore.longName.utf8ByteSize := by decide +kernel
  have hlooked : ¬ IsLookedFor ⟨"store"⟩ EmptyStore.longName := fun h =>
    Nat.not_le.mpr hlong h.2
  obtain ⟨cause, _, hlist⟩ := (EmptyStore.isEmptyAt.holdsBlobs.reached []).list_error
    EmptyStore.isContainerName_longName hlooked false
  refine ⟨EmptyStore.isEmptyAt,
    ⟨_, blobPath_eq_ok_iff.mpr ⟨⟨EmptyStore.isContainerName_longName, hblob⟩, rfl⟩⟩, ?_⟩
  intro blobs hok
  exact absurd (hlist.symm.trans hok) (by simp)

end BlobStore

end MediaMigration
