import MediaMigration.Proofs.BlobStore.History
import MediaMigration.Proofs.BlobStore.Names
import MediaMigration.Proofs.BlobStore.Overwriting
import MediaMigration.Proofs.FileTree.Continuation

/-!
# What is below the root of a store

In an empty root, uploads and copies build containers that are directories, with directories
and files below them and no links. Also a failed upload can leave directories behind, but only
ones whose own path the system has looked at, so each of them can be opened again by its path.
This is kept by every call, whatever its outcome.
-/

namespace MediaMigration

namespace FilePath

theorem utf8ByteSize_below {dir : FilePath} {names : List String} (hne : dir.text ≠ "")
    (hslash : dir.endsWithSlash = false)
    (hnames : ∀ name ∈ names, name ≠ "" ∧ '/' ∉ name.toList) :
    (dir.below names).text.utf8ByteSize = dir.text.utf8ByteSize + weight names := by
  induction names generalizing dir with
  | nil => rfl
  | cons name rest ih =>
      have hname := hnames name List.mem_cons_self
      obtain ⟨_, hsteps, hended⟩ := join_name hname dir
      have hclean : ∀ other ∈ [name], other ≠ "" ∧ '/' ∉ other.toList := by
        intro other hother
        rw [List.mem_singleton.mp hother]
        exact hname
      have hrelative : isAbsolute ⟨name⟩ = false := by
        have hjoined := isAbsolute_joinNames (List.cons_ne_nil name []) hclean
        simpa [joinNames] using hjoined
      have htext : (dir.join ⟨name⟩).text = dir.text ++ "/" ++ name :=
        text_join hrelative hne hslash
      have hsome : (dir.join ⟨name⟩).text ≠ "" := text_ne_empty (by simp [hsteps])
      have hrest := ih hsome hended fun other hother => hnames other (List.mem_cons_of_mem _ hother)
      have hbelow : dir.below (name :: rest) = (dir.join ⟨name⟩).below rest := rfl
      have hone : "/".utf8ByteSize = 1 := by decide
      rw [hbelow, hrest, htext, String.utf8ByteSize_append, String.utf8ByteSize_append, hone, weight]
      omega

end FilePath

namespace BlobStore

open FileTree

variable {root path : FilePath} {base : Location} {tree : FileTree} {container blob : String}

/-! ## The segments of a path of a blob -/

theorem IsContainerName.join_spec (h : IsContainerName container) (root : FilePath) :
    (root.join ⟨container⟩).isAbsolute = root.isAbsolute ∧
      (root.join ⟨container⟩).steps = root.steps ++ [container] ∧
      (root.join ⟨container⟩).endsWithSlash = false :=
  FilePath.join_name ⟨h.not_empty, h.no_slash⟩ root

/-- The path of a blob goes down from the root, by the container and what the name says. -/
theorem IsContainerName.join_blob_spec (hc : IsContainerName container) (hb : IsBlobName blob)
    (root : FilePath) :
    ((root.join ⟨container⟩).join ⟨blob⟩).isAbsolute = root.isAbsolute ∧
      ((root.join ⟨container⟩).join ⟨blob⟩).steps =
        root.steps ++ container :: FilePath.steps ⟨blob⟩ ∧
      ".." ∉ container :: FilePath.steps ⟨blob⟩ := by
  have hrelative := isAbsolute_eq_false hb.relative
  obtain ⟨habsolute, hsteps, _⟩ := hc.join_spec root
  refine ⟨(FilePath.isAbsolute_join hrelative).trans habsolute, ?_, ?_⟩
  · rw [FilePath.steps_join hrelative, hsteps, List.append_assoc, List.singleton_append]
  · rw [List.mem_cons, not_or]
    exact ⟨Ne.symm hc.not_up, hb.steps_down⟩

theorem IsContainerName.segments_join (h : IsContainerName container) (root : FilePath) :
    ∃ front : List String, (root.join ⟨container⟩).segments = front ++ [container] ∧
      front.filter (· != "") = root.steps := by
  have hsegments := FilePath.segments_of_no_slash h.no_slash
  have hrelative : FilePath.isAbsolute ⟨container⟩ = false :=
    isAbsolute_of_isPlainName (isContainerName_iff.mp h).1
  by_cases hroot : root.text = ""
  · refine ⟨[], ?_, ?_⟩
    · rw [FilePath.join, hrelative, if_neg Bool.false_ne_true, if_pos hroot, hsegments,
        List.nil_append]
    · simp [FilePath.steps, FilePath.segments, hroot, Text.splitAt]
  · obtain ⟨front, _, hjoin, hfront⟩ := FilePath.segments_join hrelative hroot
    refine ⟨front, ?_, ?_⟩
    · rw [hjoin, hsegments]
    · rcases hfront with hsame | hslash
      · rw [FilePath.steps, hsame]
      · rw [FilePath.steps, hslash, List.filter_append]
        simp

theorem IsBlobName.segments_join (h : IsBlobName blob) (hc : IsContainerName container)
    (root : FilePath) :
    ((root.join ⟨container⟩).join ⟨blob⟩).segments =
      (root.join ⟨container⟩).segments ++ FilePath.segments ⟨blob⟩ := by
  obtain ⟨_, hsteps, hslash⟩ := hc.join_spec root
  have hne : (root.join ⟨container⟩).text ≠ "" := FilePath.text_ne_empty (by simp [hsteps])
  rw [FilePath.join, isAbsolute_eq_false h.relative, if_neg Bool.false_ne_true, if_neg hne, hslash,
    if_neg Bool.false_ne_true, FilePath.segments_append_slash]

/-- The names that segments say. -/
def namesOf (segments : List String) : List String :=
  segments.filter fun segment => !FilePath.isSilent segment

theorem namesOf_eq (segments : List String) :
    namesOf segments =
      (segments.filter fun segment => segment != "").filter fun step => step != "." := by
  rw [namesOf, List.filter_filter]
  refine List.filter_congr fun segment _ => ?_
  simp only [FilePath.isSilent, bne, Bool.not_or, Bool.and_comm]

/-- A path above that of a blob leads no farther than to the root, or goes on to the container
and perhaps into it. -/
theorem segments_above (hc : IsContainerName container) (hb : IsBlobName blob)
    {root above : FilePath}
    (habove : above.segments <+: ((root.join ⟨container⟩).join ⟨blob⟩).segments ∨
      above.steps = []) :
    above.steps <+: root.steps ∨ ∃ segments, segments <+: FilePath.segments ⟨blob⟩ ∧
      above.segments = (root.join ⟨container⟩).segments ++ segments ∧
      above.steps = root.steps ++ container :: segments.filter fun segment => segment != "" := by
  obtain ⟨front, hfront, hroot⟩ := hc.segments_join root
  rcases habove with hfirst | hnowhere
  · rw [hb.segments_join hc, hfront, List.append_assoc, List.singleton_append] at hfirst
    rcases List.prefix_or_prefix_of_prefix hfirst (List.prefix_append front _) with
      hshort | ⟨more, hmore⟩
    · left
      rw [← hroot]
      exact hshort.filter _
    · rw [← hmore, List.prefix_append_right_inj, List.prefix_cons_iff] at hfirst
      rcases hfirst with rfl | ⟨segments, rfl, hblob⟩
      · left
        have hsame : above.steps = root.steps := by
          rw [← hroot, FilePath.steps, ← hmore, List.append_nil]
        exact hsame ▸ List.prefix_refl _
      · right
        refine ⟨segments, hblob, ?_, ?_⟩
        · rw [hfront, ← hmore, List.append_assoc, List.singleton_append]
        · rw [FilePath.steps, ← hmore, List.filter_append, hroot,
            List.filter_cons_of_pos (by simpa using hc.not_empty)]
  · left
    rw [hnowhere]
    exact List.nil_prefix

theorem utf8ByteSize_names_le (hc : IsContainerName container) {root above : FilePath}
    {segments : List String} (hclean : ∀ segment ∈ segments, '/' ∉ segment.toList)
    (habove : above.segments = (root.join ⟨container⟩).segments ++ segments) :
    ((root.join ⟨container⟩).below (namesOf segments)).text.utf8ByteSize ≤
      above.text.utf8ByteSize := by
  obtain ⟨_, hsteps, hended⟩ := hc.join_spec root
  have hne : (root.join ⟨container⟩).text ≠ "" := FilePath.text_ne_empty (by simp [hsteps])
  have hnames : ∀ name ∈ namesOf segments, name ≠ "" ∧ '/' ∉ name.toList := by
    intro name hname
    obtain ⟨hmem, hsays⟩ := List.mem_filter.mp hname
    refine ⟨?_, hclean name hmem⟩
    rintro rfl
    exact absurd hsays (by decide)
  have hbelow := FilePath.utf8ByteSize_below hne hended hnames
  have hfewer : FilePath.weight (namesOf segments) ≤ FilePath.weight segments :=
    FilePath.weight_filter_le _ segments
  have hwhole := FilePath.weight_segments above
  have hpart := FilePath.weight_segments (root.join ⟨container⟩)
  rw [habove, FilePath.weight_append, ← hpart] at hwhole
  omega

theorem more_of_above (hb : IsBlobName blob) {parent above : FilePath} {segments : List String}
    (hparent : ((root.join ⟨container⟩).join ⟨blob⟩).parent? = some parent)
    (hmem : above ∈ parent.ancestors)
    (hsegments : above.segments = (root.join ⟨container⟩).segments ++ segments) :
    ∃ more, more ≠ [] ∧ FilePath.moves ⟨blob⟩ = namesOf segments ++ more := by
  have hblob : ((root.join ⟨container⟩).join ⟨blob⟩).moves =
      (root.join ⟨container⟩).moves ++ FilePath.moves ⟨blob⟩ :=
    FilePath.moves_join (isAbsolute_eq_false hb.relative)
  have habove : above.moves = (root.join ⟨container⟩).moves ++ namesOf segments := by
    rw [FilePath.moves, hsegments, List.filter_append]
    rfl
  have hfewer := (FilePath.moves_of_mem_ancestors hmem).1
  rw [(FilePath.parent?_eq_some hparent).1, habove, hblob,
    List.dropLast_append_of_ne_nil hb.moves_ne_nil, List.prefix_append_right_inj] at hfewer
  obtain ⟨rest, hrest⟩ := hfewer
  refine ⟨rest ++ [(FilePath.moves ⟨blob⟩).getLast hb.moves_ne_nil], by simp, ?_⟩
  rw [← List.append_assoc, hrest, List.dropLast_concat_getLast]

/-! ## The invariant -/

/-- What a store can have below its root: containers that are directories, no links, and only
directories that can be opened by their path. -/
structure HoldsBlobs (root : FilePath) (base : Location) (tree : FileTree) : Prop where
  formed : tree.IsWellFormed
  opens : tree.OpensAt root base
  no_link : tree.NoLinkBelow base
  container_directory : ∀ name entry, tree.entryAt (base ++ [name]) = some entry →
    entry = .directory
  in_reach : ∀ container names, tree.entryAt (base ++ container :: names) = some .directory →
    ((root.join ⟨container⟩).below names).text.utf8ByteSize < maxPathBytes

theorem HoldsBlobs.not_link (h : HoldsBlobs root base tree) (names : Location)
    (target : String) : tree.entryAt (base ++ names) ≠ some (.link target) :=
  h.no_link names target

theorem HoldsBlobs.put (h : HoldsBlobs root base tree) {names : Location} {entry : Entry}
    (hformed : (tree.put (base ++ container :: names) entry).IsWellFormed)
    (hfree : tree.entryAt (base ++ container :: names) ≠ some .directory)
    (hlink : ∀ target, entry ≠ .link target) (hcontainer : names = [] → entry = .directory)
    (hreach : entry = .directory →
      ((root.join ⟨container⟩).below names).text.utf8ByteSize < maxPathBytes) :
    HoldsBlobs root base (tree.put (base ++ container :: names) entry) := by
  have hne : base ++ container :: names ≠ [] := by simp
  refine ⟨hformed, ?_, ?_, ?_, ?_⟩
  · exact h.opens.kept (keepsWays_put hne hfree (h.not_link _) hlink)
  · intro others target
    rw [entryAt_put tree hne]
    split
    · intro heq
      exact hlink target (Option.some.inj heq)
    · exact h.no_link others target
  · intro name found hfound
    rw [entryAt_put tree hne] at hfound
    split at hfound
    · next hplace =>
        have hnames := List.append_cancel_left hplace
        rw [← Option.some.inj hfound]
        exact hcontainer (List.cons.inj hnames).2
    · exact h.container_directory name found hfound
  · intro other others hfound
    rw [entryAt_put tree hne] at hfound
    split at hfound
    · next hplace =>
        obtain ⟨rfl, rfl⟩ := List.cons.inj (List.append_cancel_left hplace)
        exact hreach (Option.some.inj hfound)
    · exact h.in_reach other others hfound

theorem HoldsBlobs.erase (h : HoldsBlobs root base tree) {names : Location}
    (hformed : (tree.erase (base ++ container :: names)).IsWellFormed)
    (hfree : tree.entryAt (base ++ container :: names) ≠ some .directory) :
    HoldsBlobs root base (tree.erase (base ++ container :: names)) := by
  have hne : base ++ container :: names ≠ [] := by simp
  have hless : ∀ place entry, (tree.erase (base ++ container :: names)).entryAt place = some entry →
      tree.entryAt place = some entry := by
    intro place entry hentry
    rw [entryAt_erase tree hne] at hentry
    split at hentry
    · exact absurd hentry (by simp)
    · exact hentry
  refine ⟨hformed, ?_, ?_, ?_, ?_⟩
  · exact h.opens.kept (keepsWays_erase hne hfree (h.not_link _))
  · exact fun others target hlink => h.no_link others target (hless _ _ hlink)
  · exact fun name entry hentry => h.container_directory name entry (hless _ _ hentry)
  · exact fun other others hentry => h.in_reach other others (hless _ _ hentry)

/-! ## One upload -/

variable (hc : IsContainerName container) (hb : IsBlobName blob)

include hc hb

/-- The file of a blob lies where its names say, if anything can be resolved to it. -/
theorem HoldsBlobs.place_of_blob (h : HoldsBlobs root base tree) {purpose : Purpose}
    {spot : Spot} {slash : Bool}
    (hr : tree.resolve purpose ((root.join ⟨container⟩).join ⟨blob⟩) = .ok (spot, slash)) :
    spot.place = base ++ container :: FilePath.moves ⟨blob⟩ := by
  obtain ⟨habsolute, hsteps, hdown⟩ := hc.join_blob_spec hb root
  have hplace := h.opens.place_of_resolve (h.no_link.onWay _) habsolute hsteps
    (List.cons_ne_nil _ _) hdown hr
  rw [hplace, List.filter_cons_of_pos (by simpa using hc.not_here),
    FilePath.moves_eq_filter_steps]

theorem HoldsBlobs.place_of_made (h : HoldsBlobs root base tree) {above : FilePath}
    {made : FileTree}
    (habove : above.segments <+: ((root.join ⟨container⟩).join ⟨blob⟩).segments ∨
      above.steps = [])
    (habsolute : above.isAbsolute = root.isAbsolute)
    (hmade : tree.makeDirectory above = .ok made) :
    ∃ segments, segments <+: FilePath.segments ⟨blob⟩ ∧
      above.segments = (root.join ⟨container⟩).segments ++ segments ∧ IsSearchable above ∧
      tree.entryAt (base ++ container :: namesOf segments) = none ∧
      made = tree.put (base ++ container :: namesOf segments) .directory := by
  -- nothing is missing on the way to the root
  obtain ⟨segments, hblob, hsegments, hsteps⟩ := (segments_above hc hb habove).resolve_left
    fun hway => h.opens.makeDirectory_on_way habsolute hway hmade
  have hdown : ".." ∉ container :: segments.filter (fun segment => segment != "") := by
    rw [List.mem_cons, not_or]
    refine ⟨Ne.symm hc.not_up, fun hmem => ?_⟩
    exact hb.never_up (hblob.subset (List.mem_of_mem_filter hmem))
  unfold FileTree.makeDirectory at hmade
  split at hmade
  · exact absurd hmade (by simp)
  · exact absurd hmade (by simp)
  · next dir name slash hr =>
      have hplace : dir ++ [name] = base ++ container :: namesOf segments := by
        have hresolved := h.opens.place_of_resolve (h.no_link.onWay _) habsolute hsteps
          (List.cons_ne_nil _ _) hdown hr
        rw [List.filter_cons_of_pos (by simpa using hc.not_here)] at hresolved
        rw [namesOf_eq]
        exact hresolved
      rw [hplace] at hmade
      split at hmade
      · exact absurd hmade (by simp)
      · next hfree =>
          exact ⟨segments, hblob, hsegments, (resolve_eq_ok_iff.mp hr).1, hfree,
            (Except.ok.inj hmade).symm⟩

theorem HoldsBlobs.makeDirectory (h : HoldsBlobs root base tree) {above : FilePath}
    {made : FileTree}
    (habove : above.segments <+: ((root.join ⟨container⟩).join ⟨blob⟩).segments ∨
      above.steps = [])
    (habsolute : above.isAbsolute = root.isAbsolute)
    (hmade : tree.makeDirectory above = .ok made) : HoldsBlobs root base made := by
  have hformed : made.IsWellFormed := isWellFormed_lasts.makeDirectory h.formed hmade
  obtain ⟨segments, hblob, hsegments, hsearch, hfree, rfl⟩ :=
    h.place_of_made hc hb habove habsolute hmade
  refine h.put hformed (by simp [hfree]) (by simp) (fun _ => rfl) fun _ => ?_
  have hclean : ∀ segment ∈ segments, '/' ∉ segment.toList := fun segment hmem =>
    FilePath.no_slash_of_mem_segments (hblob.subset hmem)
  have hsearched := hsearch.short
  have hreach := utf8ByteSize_names_le hc hclean hsegments
  omega

/-- Making the way to a blob makes directories on the way from the container to the blob, where
nothing was. What each of them keeps is kept. -/
theorem HoldsBlobs.makeParent_invariant (h : HoldsBlobs root base tree)
    (invariant : FileTree → Prop) (hstart : invariant tree)
    (hmake : ∀ first names more, invariant first → more ≠ [] →
      FilePath.moves ⟨blob⟩ = names ++ more →
      first.entryAt (base ++ container :: names) = none →
      invariant (first.put (base ++ container :: names) .directory)) :
    HoldsBlobs root base (tree.makeParent ((root.join ⟨container⟩).join ⟨blob⟩)).2 ∧
      invariant (tree.makeParent ((root.join ⟨container⟩).join ⟨blob⟩)).2 := by
  unfold FileTree.makeParent
  split
  · next parent hparent =>
      have hroot : ((root.join ⟨container⟩).join ⟨blob⟩).isAbsolute = root.isAbsolute := by
        rw [FilePath.isAbsolute_join (isAbsolute_eq_false hb.relative), (hc.join_spec root).1]
      refine makeDirectories_relates (fun first second =>
          HoldsBlobs root base first ∧ invariant first →
            HoldsBlobs root base second ∧ invariant second)
        (fun _ hfirst => hfirst) (fun hfirst hsecond hstart => hsecond (hfirst hstart))
        ?_ tree ⟨h, hstart⟩
      rintro first made above hmem hmade ⟨hholds, hinvariant⟩
      obtain ⟨hfirst, habsolute⟩ := FilePath.segments_of_mem_above hparent hmem
      rw [hroot] at habsolute
      refine ⟨hholds.makeDirectory hc hb hfirst habsolute hmade, ?_⟩
      obtain ⟨segments, _, hsegments, _, hfree, rfl⟩ :=
        hholds.place_of_made hc hb hfirst habsolute hmade
      obtain ⟨more, hmore, hmoves⟩ := more_of_above hb hparent hmem hsegments
      exact hmake first _ more hinvariant hmore hmoves hfree
  · exact ⟨h, hstart⟩

theorem HoldsBlobs.makeParent (h : HoldsBlobs root base tree) :
    HoldsBlobs root base
      (tree.makeParent ((root.join ⟨container⟩).join ⟨blob⟩)).2 :=
  (h.makeParent_invariant hc hb (fun _ => True) trivial fun _ _ _ _ _ _ _ => trivial).1

theorem HoldsBlobs.put_blob (h : HoldsBlobs root base tree) {place : Location}
    (hwritable : tree.IsWritable ((root.join ⟨container⟩).join ⟨blob⟩) place)
    (bytes : Bytes) : HoldsBlobs root base (tree.put place (.file bytes)) := by
  have hformed := isWellFormed_lasts.put_file h.formed hwritable bytes
  obtain ⟨hthere, dir, name, _, _, hr, rfl⟩ := hwritable
  have hplace : dir ++ [name] = base ++ container :: FilePath.moves ⟨blob⟩ :=
    h.place_of_blob hc hb hr
  have hfree : tree.entryAt (dir ++ [name]) ≠ some .directory := by
    rcases hthere with hnone | ⟨old, hold⟩
    · simp [hnone]
    · simp [hold]
  rw [hplace] at hformed hfree ⊢
  exact h.put hformed hfree (by simp) (fun hnone => absurd hnone hb.moves_ne_nil) (by simp)

theorem HoldsBlobs.removeFile (h : HoldsBlobs root base tree) :
    HoldsBlobs root base (tree.removeFile ((root.join ⟨container⟩).join ⟨blob⟩)) := by
  have hformed := isWellFormed_lasts.removeFile h.formed ((root.join ⟨container⟩).join ⟨blob⟩)
  unfold FileTree.removeFile at hformed ⊢
  split
  · next dir name _ hr =>
      have hplace : dir ++ [name] = base ++ container :: FilePath.moves ⟨blob⟩ :=
        h.place_of_blob hc hb hr
      rw [hr] at hformed
      simp only [hplace] at hformed ⊢
      split
      · next content hfile =>
          rw [hfile] at hformed
          exact h.erase hformed (by simp [hfile])
      · next target hlink => exact absurd hlink (h.not_link _ target)
      · exact h
  · exact h

omit hc hb

theorem HoldsBlobs.upload (h : HoldsBlobs root base tree) (overwrite : Bool)
    (container blob : String) (content : Content) (cancellation : Cancellation) :
    HoldsBlobs root base
      (BlobStore.upload ⟨root, overwrite⟩ container blob content cancellation tree).tree := by
  apply upload_invariant (HoldsBlobs root base) h
  · intro path hpath
    obtain ⟨⟨hc, hb⟩, rfl⟩ := blobPath_eq_ok_iff.mp hpath
    exact h.makeParent hc hb
  · intro path place made bytes hpath hmade hwritable
    obtain ⟨⟨hc, hb⟩, rfl⟩ := blobPath_eq_ok_iff.mp hpath
    exact hmade.put_blob hc hb hwritable bytes
  · intro path written hpath hwritten
    obtain ⟨⟨hc, hb⟩, rfl⟩ := blobPath_eq_ok_iff.mp hpath
    exact hwritten.removeFile hc hb

/-! ## Any calls -/

theorem HoldsBlobs.serve (h : HoldsBlobs root base tree) (overwrite : Bool)
    (request : Request) :
    HoldsBlobs root base (BlobStore.serve ⟨root, overwrite⟩ request tree).after := by
  cases request with
  | upload container blob content cancellation =>
      exact h.upload overwrite container blob content cancellation
  | copy container blob fromContainer fromBlob cancellation =>
      exact copy_invariant (HoldsBlobs root base) h fun source =>
        h.upload overwrite container blob (.fileAt source) cancellation
  | list container => exact h

/-- The tree after calls on stores at one root, each of which may replace blobs or not. -/
def reached (root : FilePath) : List (Bool × Request) → FileTree → FileTree
  | [], tree => tree
  | (overwrite, request) :: rest, tree =>
      reached root rest (BlobStore.serve ⟨root, overwrite⟩ request tree).after

theorem HoldsBlobs.reached (h : HoldsBlobs root base tree) (calls : List (Bool × Request)) :
    HoldsBlobs root base (BlobStore.reached root calls tree) := by
  induction calls generalizing tree with
  | nil => exact h
  | cons call rest ih => exact ih (h.serve call.1 call.2)

/-- The root is a directory with nothing in it. A root without a name is the working
directory. -/
structure IsEmptyAt (tree : FileTree) (root : FilePath) (base : Location) : Prop where
  formed : tree.IsWellFormed
  leads : tree.lookUp true root = .ok (base, .directory) ∨ root.text = "" ∧ base = tree.workDir
  nothing : ∀ names, names ≠ [] → tree.entryAt (base ++ names) = none

theorem IsEmptyAt.holdsBlobs (h : IsEmptyAt tree root base) : HoldsBlobs root base tree := by
  have hopens : tree.OpensAt root base := by
    rcases h.leads with hfound | ⟨hempty, rfl⟩
    · exact opensAt_of_lookUp hfound
    · obtain ⟨text⟩ := root
      obtain rfl : text = "" := hempty
      exact opensAt_empty h.formed.workDir
  refine ⟨h.formed, hopens, ?_, ?_, ?_⟩
  · intro names target hlink
    by_cases hnames : names = []
    · rw [hnames, List.append_nil, hopens.1] at hlink
      exact absurd hlink (by simp)
    · rw [h.nothing names hnames] at hlink
      exact absurd hlink (by simp)
  · intro name entry hentry
    rw [h.nothing [name] (by simp)] at hentry
    exact absurd hentry (by simp)
  · intro container names hentry
    rw [h.nothing (container :: names) (by simp)] at hentry
    exact absurd hentry (by simp)

end BlobStore

end MediaMigration
