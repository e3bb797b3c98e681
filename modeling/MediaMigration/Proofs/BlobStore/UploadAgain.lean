import MediaMigration.Proofs.BlobStore.Neighbours
import MediaMigration.Proofs.FileTree.MakingAgain

/-!
# Uploading again

An upload that is made again in a tree that has grown since fails as it did. If it succeeded, it
succeeds again where blobs may be replaced, and writes the same bytes to the same file. Where they
may not, the blob is in its own way.
-/

namespace MediaMigration

namespace BlobStore

open FileTree

variable {store : BlobStore} {container blob last : String} {before : List String}
  {path : FilePath} {tree later : FileTree} {source : Location} {held : Bytes}

theorem HasPath.steps_end (h : store.HasPath container blob path)
    (hsteps : FilePath.steps ⟨blob⟩ = before ++ [last]) :
    ∃ front, path.steps = front ++ [last] := by
  refine ⟨(store.root.join ⟨container⟩).steps ++ before, ?_⟩
  rw [h.path_eq, FilePath.steps_join (isAbsolute_of_isPlainName h.blob_plain), hsteps,
    List.append_assoc]

/-- The target of an upload is opened again, or is found to be there, unless it could not be opened
the first time. -/
theorem openTarget_again (htree : tree.IsPlain) (hlater : later.IsPlain)
    (hups : tree.GoesUpFromDirectories store.root) (hpath : store.HasPath container blob path)
    (hsteps : FilePath.steps ⟨blob⟩ = before ++ [last]) (hlast : IsNameStep last)
    (hgrows : GrowsTo (tree.makeParent path).2 later) :
    (∃ error, store.openTarget container blob path tree =
          (.error error, (tree.makeParent path).2) ∧
        store.openTarget container blob path later = (.error error, later)) ∨
      ∃ place, (tree.makeParent path).2.IsWritable path place ∧
        store.openTarget container blob path tree =
          (.ok place, (tree.makeParent path).2.put place (.file [])) ∧
        (store.overwrite = false → (tree.makeParent path).2.entryAt place = none) ∧
        ∀ held, later.entryAt place = some (.file held) →
          store.openTarget container blob path later =
            if store.overwrite then (.ok place, later.put place (.file []))
            else (.error (.blobExists container blob), later) := by
  have hagain := htree.makeParent_again hlater (hpath.goesUp hups) hgrows
  obtain ⟨front, hfront⟩ := hpath.steps_end hsteps
  have hthere := htree.resolve_of_makeParent hfront hlast (hpath.goesUp hups)
  rw [openTarget_def, openTarget_def]
  rw [hagain]
  cases hparent : tree.makeParent path with
  | mk result made =>
      rw [hparent] at hgrows hthere
      cases result with
      | error error => exact .inl ⟨.io error, rfl, rfl⟩
      | ok _ =>
          have hfound := hthere rfl
          simp only
          cases store.overwrite with
          | false =>
              simp only [Bool.false_eq_true, if_false]
              rcases hgrows.createNew_again (hfound (.write false)) with
                ⟨error, hfirst, hsecond⟩ | ⟨place, hfree, hfirst, hsecond⟩
              · left
                rw [hfirst, hsecond]
                cases error <;> exact ⟨_, rfl, rfl⟩
              · right
                refine ⟨place, hfree.isWritable, by rw [hfirst], fun _ => hfree.1, ?_⟩
                intro held hheld
                rw [hsecond held hheld]
          | true =>
              simp only [if_true]
              rcases hgrows.createOrTruncate_again (hfound (.write true)) with
                ⟨error, hfirst, hsecond⟩ | ⟨place, hwritable, hfirst, hsecond⟩
              · left
                rw [hfirst, hsecond]
                cases error <;> exact ⟨_, rfl, rfl⟩
              · right
                refine ⟨place, hwritable, by rw [hfirst], by simp, ?_⟩
                intro held hheld
                rw [hsecond held hheld]

/-- What an upload does and what it does when it is made again: it fails again with the same error,
or it fails since the blob is there, or it writes the same file again. -/
inductive UploadedAgain (store : BlobStore) (tree later : FileTree) :
    UploadOutcome → UploadOutcome → Prop where
  | fails {first second : UploadOutcome} {error : MigrationError}
      (first_fails : first.result = .error error) (second_fails : second.result = .error error)
      (kept : KeptBy tree first.tree) (nothing : second.tree = later) :
      UploadedAgain store tree later first second
  | finds {first second : UploadOutcome} {error : MigrationError}
      (no_overwrite : store.overwrite = false) (second_fails : second.result = .error error)
      (kept : KeptBy tree first.tree) (nothing : second.tree = later) :
      UploadedAgain store tree later first second
  | writes {first second : UploadOutcome} {count : Nat} {made : FileTree} {place : Location}
      {content : Bytes} (overwrite : store.overwrite = true) (first_ok : first.result = .ok count)
      (second_ok : second.result = .ok count) (kept : KeptBy tree made) (ne_root : place ≠ [])
      (first_writes : first.tree = made.put place (.file content))
      (second_writes : second.tree = later.put place (.file content)) :
      UploadedAgain store tree later first second

theorem target_ne_source (htree : tree.IsPlain) (hpath : store.HasPath container blob path)
    (hapart : ¬ tree.locationOf store.root <+: source) {place : Location}
    (hwritable : (tree.makeParent path).2.IsWritable path place) : place ≠ source := by
  rintro rfl
  have hadded := (makeParent_adds tree path).toKeptBy
  rw [(isPlain_lasts.makeParent htree path).place_of_isWritable hwritable,
    FileTree.locationOf_eq hadded.workDir_eq, hpath.locationOf_eq] at hapart
  exact hapart (List.prefix_append _ _)

theorem read_beside_target {place : Location} (hwritable : tree.IsWritable path place)
    (hne : place ≠ source) (hfile : later.entryAt source = some (.file held)) :
    (later.put place (.file [])).entryAt source = some (.file held) := by
  rw [entryAt_put later hwritable.ne_root, if_neg hne, hfile]

theorem makeParent_growsTo_upload (htree : tree.IsPlain)
    (hpath : store.blobPath container blob = .ok path)
    (hfile : tree.entryAt source = some (.file held))
    (hapart : ¬ tree.locationOf store.root <+: source) :
    GrowsTo (tree.makeParent path).2
      (store.upload container blob (.fileAt source) .never tree).tree := by
  rw [upload_def, if_neg (by decide)]
  simp only [hpath]
  rcases openTarget_cases store container blob path tree with
    ⟨failure, hopen⟩ | ⟨place, hwritable, _, hopen⟩
  · rw [hopen]
    exact (KeptBy.refl _).toGrowsTo
  · have hne := target_ne_source htree (blobPath_eq_ok hpath) hapart hwritable
    have hkept := (makeParent_adds tree path).toKeptBy.entry_kept hfile
    obtain ⟨count, progress, moved, hfill⟩ := exists_fill path place source held
    rw [hopen]
    simp only [hfill _ (read_beside_target hwritable hne hkept), put_put]
    exact hwritable.growsTo_put moved

/-- The upload of a file that lies apart, made again in a tree that it has led to. -/
theorem upload_again (htree : tree.IsPlain) (hlater : later.IsPlain)
    (hups : tree.GoesUpFromDirectories store.root)
    (hfile : tree.entryAt source = some (.file held))
    (hlaterFile : later.entryAt source = some (.file held))
    (hapart : ¬ tree.locationOf store.root <+: source)
    (hsteps : FilePath.steps ⟨blob⟩ = before ++ [last]) (hlast : IsNameStep last)
    (hgrows : GrowsTo (store.upload container blob (.fileAt source) .never tree).tree later) :
    UploadedAgain store tree later (store.upload container blob (.fileAt source) .never tree)
      (store.upload container blob (.fileAt source) .never later) := by
  cases hpath : store.blobPath container blob with
  | error error =>
      rw [upload_def, upload_def, if_neg (by decide), if_neg (by decide), hpath]
      exact .fails rfl rfl (.refl tree) rfl
  | ok path =>
      have hasPath := blobPath_eq_ok hpath
      have hadded := (makeParent_adds tree path).toKeptBy
      have hmade := (makeParent_growsTo_upload htree hpath hfile hapart).trans hgrows
      rw [upload_def, if_neg (by decide)] at hgrows ⊢
      rw [upload_def, if_neg (by decide)]
      simp only [hpath] at hgrows ⊢
      rcases openTarget_again htree hlater hups hasPath hsteps hlast hmade with
        ⟨error, hfirst, hsecond⟩ | ⟨place, hwritable, hfirst, hfree, hsecond⟩
      · rw [hfirst, hsecond]
        exact .fails rfl rfl hadded rfl
      · have hne := target_ne_source htree hasPath hapart hwritable
        have hread := read_beside_target hwritable hne (hadded.entry_kept hfile)
        obtain ⟨count, progress, moved, hfill⟩ := exists_fill path place source held
        rw [hfirst] at hgrows ⊢
        simp only [hfill _ hread, put_put] at hgrows ⊢
        have hwritten : ((tree.makeParent path).2.put place (.file moved)).entryAt place =
            some (.file moved) := by
          rw [hwritable.entryAt_put, if_pos rfl]
        obtain ⟨content, hcontent⟩ := hgrows.file_kept place moved hwritten
        rw [hsecond content hcontent]
        cases hmode : store.overwrite with
        | false =>
            simp only [Bool.false_eq_true, if_false]
            exact .finds hmode rfl (hadded.trans (keptBy_put (hfree hmode) (by simp))) rfl
        | true =>
            simp only [if_true, hfill _ (read_beside_target hwritable hne hlaterFile), put_put]
            exact .writes hmode rfl rfl hadded hwritable.ne_root rfl rfl

end BlobStore

end MediaMigration
