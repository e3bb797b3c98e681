import MediaMigration.Proofs.BlobStore.ExactListing
import MediaMigration.Proofs.FileTree.Removal

/-!
# Names that are taken

A store that keeps existing blobs refuses a name when anything is at its place. Below a root that
was empty that is the blob of this name, or a directory on the way to a blob whose name goes on
behind it. Such a directory stays when the upload that made it fails, and then a name is refused
that no blob has.
-/

namespace MediaMigration

namespace BlobStore

open FileTree

variable {root path : FilePath} {base : Location} {tree start : FileTree}
  {store : BlobStore} {container blob named other : String} {content : Content}
  {cancellation : Cancellation} {names : Location}

/-! ## Refusals -/

theorem taken_of_createNew (h : tree.createNew path = .error .alreadyExists) :
    ∃ spot slash, tree.resolve (.write false) path = .ok (spot, slash) ∧
      tree.entryAt spot.place ≠ none := by
  unfold createNew at h
  split at h
  · next error hr =>
      have hcause := resolve_cause (Except.error.inj h ▸ hr)
      exact absurd hcause (by decide)
  · next place slash hr =>
      have hdirectory := (resolve_eq_ok_iff.mp hr).2.self_directory
      exact ⟨.self place, slash, hr, by simp [Spot.place, hdirectory]⟩
  · next dir name slash hr =>
      split at h
      · next entry hentry => exact ⟨.child dir name, slash, hr, by simp [Spot.place, hentry]⟩
      · exact absurd h (by simp)

theorem openTarget_blobExists (hmode : store.overwrite = false)
    (h : (store.openTarget container blob path tree).1 = .error (.blobExists named other)) :
    named = container ∧ other = blob ∧
      (tree.makeParent path).2.createNew path = .error .alreadyExists := by
  rw [openTarget_def] at h
  cases hparent : tree.makeParent path with
  | mk result made =>
      cases result with
      | error error => simp [hparent] at h
      | ok _ =>
          simp only [hparent, hmode, Bool.false_eq_true, if_false] at h
          split at h
          · exact absurd h (by simp)
          · next hnew =>
              obtain ⟨rfl, rfl⟩ := MigrationError.blobExists.inj (Except.error.inj h)
              exact ⟨rfl, rfl, hnew⟩
          · exact absurd h (by simp)

/-- Only the opening of the target finds that a blob exists. -/
theorem upload_blobExists (hmode : store.overwrite = false)
    (h : (store.upload container blob content cancellation tree).result =
      .error (.blobExists named other)) :
    named = container ∧ other = blob ∧ ∃ path, store.blobPath container blob = .ok path ∧
      (tree.makeParent path).2.createNew path = .error .alreadyExists := by
  rcases upload_causes h with hcause | ⟨_, hcause⟩ | hnames | ⟨path, hpath, hopen⟩
  · exact absurd hcause (by simp)
  · exact absurd hcause (by simp)
  · exact absurd (blobPath_cause hnames) (by simp)
  · obtain ⟨rfl, rfl, hnew⟩ := openTarget_blobExists hmode hopen
    exact ⟨rfl, rfl, path, hpath, hnew⟩

/-! ## Directories in containers -/

/-- A call was to write a blob of a container whose name goes on behind some names. -/
inductive Request.PassesThrough (request : Request) (container : String)
    (names : Location) : Prop where
  | writes (blob : String) (more : List String)
      (target : request.target? = some (container, blob))
      (container_accepted : IsContainerName container) (blob_accepted : IsBlobName blob)
      (longer : more ≠ []) (moves : FilePath.moves ⟨blob⟩ = names ++ more)

/-- Every directory in a container is one of those that are allowed. -/
def OnlyDirectories (base : Location) (allowed : String → Location → Prop)
    (tree : FileTree) : Prop :=
  ∀ container names, tree.entryAt (base ++ container :: names) = some .directory →
    allowed container names

variable {allowed : String → Location → Prop}

theorem OnlyDirectories.put (h : OnlyDirectories base allowed tree) {place : Location}
    {entry : Entry} (hne : place ≠ [])
    (hnew : entry = .directory → ∀ container names, place = base ++ container :: names →
      allowed container names) : OnlyDirectories base allowed (tree.put place entry) := by
  intro container names hdirectory
  rw [entryAt_put tree hne] at hdirectory
  split at hdirectory
  · next hplace => exact hnew (Option.some.inj hdirectory) container names hplace
  · exact h container names hdirectory

theorem OnlyDirectories.removeFile (h : OnlyDirectories base allowed tree) (path : FilePath) :
    OnlyDirectories base allowed (tree.removeFile path) := by
  have herase : ∀ dir name, OnlyDirectories base allowed (tree.erase (dir ++ [name])) :=
    fun dir name container names hdirectory =>
      h container names (entryAt_of_erase (by simp) hdirectory).2
  unfold FileTree.removeFile
  split
  · split
    · exact herase _ _
    · exact herase _ _
    · exact h
  · exact h

theorem HoldsBlobs.onlyDirectories_upload (h : HoldsBlobs root base tree)
    (hbefore : OnlyDirectories base allowed tree) (overwrite : Bool)
    (hway : ∀ names more, IsContainerName container → IsBlobName blob → more ≠ [] →
      FilePath.moves ⟨blob⟩ = names ++ more → allowed container names) :
    OnlyDirectories base allowed
      (BlobStore.upload ⟨root, overwrite⟩ container blob content cancellation tree).tree := by
  refine upload_invariant (OnlyDirectories base allowed) hbefore ?_ ?_ ?_
  · intro path hpath
    obtain ⟨⟨hc, hb⟩, rfl⟩ := blobPath_eq_ok_iff.mp hpath
    refine (h.makeParent_invariant hc hb (OnlyDirectories base allowed) hbefore ?_).2
    intro first names more hfirst hmore hmoves _
    refine hfirst.put (by simp) fun _ other others hplace => ?_
    obtain ⟨rfl, rfl⟩ := List.cons.inj (List.append_cancel_left hplace)
    exact hway names more hc hb hmore hmoves
  · intro path place made bytes _ hmade hwritable
    exact hmade.put hwritable.ne_root fun hnever => absurd hnever (by simp)
  · exact fun path written _ hwritten => hwritten.removeFile path

theorem HoldsBlobs.onlyDirectories_serve (h : HoldsBlobs root base tree)
    (hbefore : OnlyDirectories base allowed tree) (overwrite : Bool) (request : Request)
    (hway : ∀ container names, request.PassesThrough container names → allowed container names) :
    OnlyDirectories base allowed (BlobStore.serve ⟨root, overwrite⟩ request tree).after := by
  cases request with
  | upload container blob content cancellation =>
      exact h.onlyDirectories_upload hbefore overwrite fun names more hc hb hmore hmoves =>
        hway container names ⟨blob, more, rfl, hc, hb, hmore, hmoves⟩
  | copy container blob fromContainer fromBlob cancellation =>
      refine copy_invariant (OnlyDirectories base allowed) hbefore fun source => ?_
      exact h.onlyDirectories_upload hbefore overwrite fun names more hc hb hmore hmoves =>
        hway container names ⟨blob, more, rfl, hc, hb, hmore, hmoves⟩
  | list container => exact hbefore

/-- Whatever calls have been made, a directory in a container is as old as the calls or on the way
to a blob that one of them was to write. -/
theorem HoldsBlobs.onlyDirectories_reached (h : HoldsBlobs root base tree)
    (hbefore : OnlyDirectories base allowed tree) (calls : List (Bool × Request)) :
    OnlyDirectories base (fun container names => allowed container names ∨
      ∃ call ∈ calls, call.2.PassesThrough container names)
      (BlobStore.reached root calls tree) := by
  induction calls generalizing tree allowed with
  | nil => exact fun container names hdirectory => .inl (hbefore container names hdirectory)
  | cons call rest ih =>
      have hserved := h.onlyDirectories_serve
        (fun container names hdirectory => Or.inl (hbefore container names hdirectory))
        call.1 call.2 fun container names hpasses => Or.inr hpasses
      intro container names hdirectory
      rcases ih (h.serve call.1 call.2) hserved container names hdirectory with
        (hallowed | hpasses) | ⟨later, hlater, hpasses⟩
      · exact .inl hallowed
      · exact .inr ⟨call, List.mem_cons_self, hpasses⟩
      · exact .inr ⟨later, List.mem_cons_of_mem _ hlater, hpasses⟩

/-! ## What a taken name means -/

theorem HoldsBlobs.isLookedFor (h : HoldsBlobs root base tree) (hc : IsContainerName container)
    (hb : IsBlobName blob) (hsearch : IsSearchable ((root.join ⟨container⟩).join ⟨blob⟩))
    (hthere : tree.entryAt (base ++ container :: names) ≠ none) : IsLookedFor root container := by
  obtain ⟨entry, hentry⟩ := Option.ne_none_iff_exists'.mp hthere
  have hproper := h.formed.proper _ _ hentry container (by simp)
  exact ⟨isSearchable_container hc hb hsearch, hproper.short⟩

/-- The place of a refused name holds the blob of this name, which is listed, or a directory that
was there before. -/
theorem HoldsBlobs.listed_or_directory (h : HoldsBlobs root base tree)
    (hrefused : ((keeping root).upload container blob content cancellation tree).result =
      .error (.blobExists named other)) :
    named = container ∧ other = blob ∧
      ((∃ blobs, (keeping root).list container tree = .ok blobs ∧
          FilePath.joinNames (FilePath.moves ⟨blob⟩) ∈ blobs) ∨
        tree.entryAt (base ++ container :: FilePath.moves ⟨blob⟩) = some .directory) := by
  obtain ⟨rfl, rfl, path, hpath, hnew⟩ := upload_blobExists rfl hrefused
  obtain ⟨⟨hc, hb⟩, rfl⟩ := blobPath_eq_ok_iff.mp hpath
  have hmade := h.makeParent hc hb
  have hadded := makeParent_adds tree (((keeping root).root.join ⟨named⟩).join ⟨other⟩)
  obtain ⟨spot, slash, hr, hthere⟩ := taken_of_createNew hnew
  rw [hmade.place_of_blob hc hb hr] at hthere
  refine ⟨rfl, rfl, ?_⟩
  obtain ⟨entry, hentry⟩ := Option.ne_none_iff_exists'.mp hthere
  cases entry with
  | link target => exact absurd hentry (hmade.not_link _ target)
  | file held =>
      have hfile : tree.entryAt (base ++ named :: FilePath.moves ⟨other⟩) = some (.file held) := by
        rw [← file?_eq_some_iff, ← hadded.file?_eq, file?_eq_some_iff]
        exact hentry
      have hlooked := h.isLookedFor hc hb (resolve_eq_ok_iff.mp hr).1
        (Option.ne_none_iff_exists'.mpr ⟨_, hfile⟩)
      have hlist := h.list_eq hc hlooked false
      refine .inl ⟨_, hlist, ?_⟩
      rw [(h.isExact hc hlooked false hlist).mem_iff]
      exact ⟨_, held, hb.moves_ne_nil, hfile, rfl⟩
  | directory =>
      -- the way to the blob ends in front of the blob, so it was not made now
      have hbefore : OnlyDirectories base (fun container names =>
          tree.entryAt (base ++ container :: names) = some .directory ∨
            names.length < (FilePath.moves ⟨other⟩).length) tree :=
        fun _ _ hdirectory => .inl hdirectory
      have hafter := (h.makeParent_invariant hc hb _ hbefore ?_).2 _ _ hentry
      · exact .inr (hafter.resolve_right (Nat.lt_irrefl _))
      · intro first names more hfirst hmore hmoves _
        refine hfirst.put (by simp) fun _ container others hplace => .inr ?_
        obtain ⟨_, rfl⟩ := List.cons.inj (List.append_cancel_left hplace)
        rw [hmoves, List.length_append]
        have := List.length_pos_iff.mpr hmore
        omega

/-- After any uploads and copies below an empty root, a name is refused as taken only for the name
that was asked for, and then the blob of this name is listed, or a call before was to write a blob
whose name goes on behind it: the directory on the way to that blob is in the place of this one. -/
theorem taken_name_is_listed (hempty : IsEmptyAt start root base)
    (calls : List (Bool × Request))
    (hrefused : ((keeping root).upload container blob content cancellation
      (reached root calls start)).result = .error (.blobExists named other)) :
    named = container ∧ other = blob ∧
      ((∃ blobs, (keeping root).list container (reached root calls start) = .ok blobs ∧
          FilePath.joinNames (FilePath.moves ⟨blob⟩) ∈ blobs) ∨
        (reached root calls start).entryAt (base ++ container :: FilePath.moves ⟨blob⟩) =
            some .directory ∧
          ∃ call ∈ calls, call.2.PassesThrough container (FilePath.moves ⟨blob⟩)) := by
  have hnothing : OnlyDirectories base (fun _ _ => False) start := by
    intro container names hdirectory
    rw [hempty.nothing _ (List.cons_ne_nil _ _)] at hdirectory
    exact absurd hdirectory (by simp)
  obtain ⟨rfl, rfl, hcases⟩ := (hempty.holdsBlobs.reached calls).listed_or_directory hrefused
  refine ⟨rfl, rfl, hcases.imp_right fun hdirectory => ⟨hdirectory, ?_⟩⟩
  exact (hempty.holdsBlobs.onlyDirectories_reached hnothing calls _ _ hdirectory).resolve_left id

namespace EmptyStore

def brokenOff : List (Bool × Request) :=
  [(false, .upload "media" "a" (.chunks [[1]] none) .never),
    (false, .upload "media" "x/y" (.chunks [[2]] (some (.other "connection reset"))) .never)]

end EmptyStore

/-- The blob that was stored is listed when its name is refused. -/
theorem taken_name_is_listed_stored :
    let tree := reached ⟨"store"⟩ EmptyStore.brokenOff EmptyStore.start
    IsEmptyAt EmptyStore.start ⟨"store"⟩ ["store"] ∧
      ((keeping ⟨"store"⟩).upload "media" "a" (.chunks [[3]] none) .never tree).result =
        .error (.blobExists "media" "a") ∧
      ∃ blobs, (keeping ⟨"store"⟩).list "media" tree = .ok blobs ∧ "a" ∈ blobs := by
  intro tree
  have hrefused :
      ((keeping ⟨"store"⟩).upload "media" "a" (.chunks [[3]] none) .never tree).result =
        .error (.blobExists "media" "a") := by
    decide +kernel
  have hfile : tree.entryAt (["store"] ++ "media" :: FilePath.moves ⟨"a"⟩) ≠ some .directory := by
    decide +kernel
  obtain ⟨_, _, ⟨blobs, hlist, hmem⟩ | ⟨hdirectory, _⟩⟩ :=
    taken_name_is_listed EmptyStore.isEmptyAt EmptyStore.brokenOff hrefused
  · have hname : FilePath.joinNames (FilePath.moves ⟨"a"⟩) = "a" := by decide +kernel
    rw [hname] at hmem
    exact ⟨EmptyStore.isEmptyAt, hrefused, blobs, hlist, hmem⟩
  · exact absurd hdirectory hfile

/-- The upload that broke off has left a directory, which takes a name that no blob has. -/
theorem failed_upload_takes_name :
    let calls := EmptyStore.brokenOff.drop 1
    let tree := reached ⟨"store"⟩ calls EmptyStore.start
    IsEmptyAt EmptyStore.start ⟨"store"⟩ ["store"] ∧
      ((keeping ⟨"store"⟩).upload "media" "x" (.chunks [[3]] none) .never tree).result =
        .error (.blobExists "media" "x") ∧
      (keeping ⟨"store"⟩).list "media" tree = .ok [] := by
  intro calls tree
  have hlooked : IsLookedFor ⟨"store"⟩ "media" :=
    ⟨⟨by decide +kernel, by decide +kernel, by decide +kernel⟩, by decide +kernel⟩
  have hcontainer : IsContainerName "media" := ⟨by decide, by decide, by decide, by decide⟩
  have hlist := (EmptyStore.isEmptyAt.holdsBlobs.reached calls).list_eq hcontainer hlooked false
  have hnone : tree.filesBelow (["store"] ++ ["media"]) = [] := by decide +kernel
  rw [hnone, List.map_nil, sortNames, List.mergeSort_nil] at hlist
  exact ⟨EmptyStore.isEmptyAt, by decide +kernel, hlist⟩

end BlobStore

end MediaMigration
