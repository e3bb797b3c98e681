import MediaMigration.Proofs.BlobStore.Upload

/-!
# Blobs that are files of their own

Between two trees of a run, blobs have been stored. When each of them is a file that was not
there at the start and no two share a file, and nothing else was changed, the same holds
for the blobs of two runs that follow each other: what the second run stores was not there
when the first had ended.
-/

namespace MediaMigration

namespace BlobStore

open FileTree

def place? (store : BlobStore) (tree : FileTree) (blob : String × String) : Option Location :=
  (store.stored? blob.1 blob.2 tree).map Prod.fst

/-- The blobs of a list, each a container and a name, have been stored between two trees as
files of their own. -/
structure NewBlobs (store : BlobStore) (tree later : FileTree) (blobs : List (String × String)) :
    Prop where
  kept : KeptBy tree later
  fresh : ∀ blob ∈ blobs, ∃ place content,
    store.stored? blob.1 blob.2 later = some (place, content) ∧ tree.entryAt place = none
  apart : (blobs.map (store.place? later)).Nodup

variable {store : BlobStore} {tree middle later : FileTree}

theorem place?_kept (h : KeptBy tree later) {blob : String × String} {place : Location}
    {content : Bytes} (hs : store.stored? blob.1 blob.2 tree = some (place, content)) :
    store.place? later blob = store.place? tree blob := by
  simp only [place?, hs, stored?_kept h hs]

theorem newBlobs_nil (h : KeptBy tree later) : NewBlobs store tree later [] :=
  ⟨h, by simp, by simp⟩

theorem StoresNew.newBlobs {container blob : String} {place : Location} {content : Bytes}
    (h : StoresNew store container blob tree later place content) :
    NewBlobs store tree later [(container, blob)] := by
  refine ⟨h.keptBy, ?_, by simp⟩
  intro other hother
  rw [List.mem_singleton] at hother
  subst hother
  exact ⟨place, content, h.stores.stored?, h.absent⟩

theorem NewBlobs.append {first second : List (String × String)}
    (h : NewBlobs store tree middle first) (g : NewBlobs store middle later second) :
    NewBlobs store tree later (first ++ second) := by
  have hplaces : first.map (store.place? later) = first.map (store.place? middle) := by
    refine List.map_congr_left fun blob hblob => ?_
    obtain ⟨place, content, hstored, _⟩ := h.fresh blob hblob
    exact place?_kept g.kept hstored
  refine ⟨h.kept.trans g.kept, ?_, ?_⟩
  · intro blob hblob
    rcases List.mem_append.mp hblob with hfirst | hsecond
    · obtain ⟨place, content, hstored, hfree⟩ := h.fresh blob hfirst
      exact ⟨place, content, stored?_kept g.kept hstored, hfree⟩
    · obtain ⟨place, content, hstored, hfree⟩ := g.fresh blob hsecond
      exact ⟨place, content, hstored, h.kept.free_before hfree⟩
  · rw [List.map_append, List.nodup_append]
    refine ⟨hplaces ▸ h.apart, g.apart, ?_⟩
    -- a file of the first run was there when the second began, one of the second was not
    intro place hfirst other hsecond heq
    obtain ⟨blob, hblob, rfl⟩ := List.mem_map.mp hfirst
    obtain ⟨next, hnext, rfl⟩ := List.mem_map.mp hsecond
    obtain ⟨spot, content, hstored, _⟩ := h.fresh blob hblob
    obtain ⟨newSpot, newContent, hnew, hfree⟩ := g.fresh next hnext
    rw [place?_kept g.kept hstored] at heq
    simp only [place?, hstored, hnew, Option.map_some, Option.some.injEq] at heq
    rw [← heq, entryAt_of_stored? hstored] at hfree
    exact absurd hfree (by simp)

end BlobStore

end MediaMigration
