import MediaMigration.Proofs.BlobStore.Confinement
import MediaMigration.Proofs.BlobStore.Names
import MediaMigration.Proofs.FileTree.Ahead

/-!
# Containers side by side

What is uploaded to a container lies below its name in the root of the store, so it leaves all other
containers as they are and makes at most the way to the root. An upload to a container that
has not been touched otherwise does the same in both trees, with the same result: the way that is
there already, and whatever lies in other containers, make no difference.
-/

namespace MediaMigration

namespace BlobStore

open FileTree

variable {store : BlobStore} {container blob other : String} {path : FilePath}
  {base source place : Location} {tree later start : FileTree} {held : Bytes}

/-! ## Uploads to another container -/

theorem isAhead_of_directories {name : String} (h : OnlyDirectoriesAdded tree later)
    (hbelow : ∀ names, later.entryAt (base ++ name :: names) = tree.entryAt (base ++ name :: names)) :
    IsAhead base name tree later := by
  refine ⟨h.toGrowsTo, ?_, hbelow⟩
  intro place _
  cases hentry : tree.entryAt place with
  | some entry => exact .inl (h.entry_kept hentry)
  | none =>
      rcases h.only_directories place hentry with hnone | hdirectory
      · exact .inl hnone
      · exact .inr ⟨rfl, hdirectory⟩

theorem isAhead_of_file {name : String} {names : Location} {bytes : Bytes}
    (h : tree.IsWritable path place) (hplace : place = base ++ other :: names)
    (hne : other ≠ name) : IsAhead base name tree (tree.put place (.file bytes)) := by
  refine ⟨h.growsTo_put bytes, ?_, ?_⟩
  · intro above habove
    have hbelow : place ≠ above := by
      rintro rfl
      have hlength := habove.length_le
      rw [hplace, List.length_append, List.length_cons] at hlength
      omega
    rw [h.entryAt_put, if_neg hbelow]
    exact .inl rfl
  · intro others
    have hapart : place ≠ base ++ name :: others := by
      rw [hplace]
      intro hsame
      exact hne (List.cons.inj (List.append_cancel_left hsame)).1
    rw [h.entryAt_put, if_neg hapart]

theorem isAhead_of_upload (hplain : tree.IsPlain) (hups : tree.GoesUpFromDirectories store.root)
    (hfile : tree.entryAt source = some (.file held)) (hne : container ≠ other) (blob : String) :
    IsAhead (tree.locationOf store.root) other tree
      (store.upload container blob (.fileAt source) .never tree).tree := by
  rcases upload_file_cases hfile store container blob with hsame | ⟨path, hpath, hcases⟩
  · rw [hsame]
    exact .refl _ _ tree
  · have hasPath := blobPath_eq_ok hpath
    have hlocation := hasPath.locationOf_eq tree
    have hadded := makeParent_adds tree path
    have hmade : IsAhead (tree.locationOf store.root) other tree (tree.makeParent path).2 := by
      apply isAhead_of_directories hadded
      intro names
      apply (hplain.makeParent_on_way (hasPath.goesUp hups)).entryAt_eq
      rw [hlocation]
      intro hway
      obtain ⟨hcontainer, _⟩ :=
        List.cons_prefix_cons.mp ((List.prefix_append_right_inj _).mp hway)
      exact hne hcontainer.symm
    rcases hcases with hafter | ⟨place, bytes, hwritable, hafter⟩
    · rw [hafter]
      exact hmade
    · have hplace : place = tree.locationOf store.root ++ container :: FilePath.moves ⟨blob⟩ := by
        rw [(isPlain_lasts.makeParent hplain path).place_of_isWritable hwritable,
          FileTree.locationOf_eq hadded.workDir_eq, hlocation]
      rw [hafter]
      exact hmade.trans (isAhead_of_file hwritable hplace hne)

/-! ## Uploads to the container itself -/

theorem HasPath.endsBelow (h : store.HasPath container blob path)
    (hups : tree.GoesUpFromDirectories store.root) :
    ∃ names last, FilePath.moves ⟨blob⟩ = names ++ [last] ∧
      tree.EndsBelow (tree.locationOf store.root) container names last path := by
  have hne : FilePath.moves ⟨blob⟩ ≠ [] :=
    (isPlainName_iff.mp h.blob_plain).moves_ne_nil
  have hsplit := List.dropLast_concat_getLast hne
  refine ⟨_, _, hsplit.symm, h.goesUp hups, ?_, store.root.moves, ?_, ?_⟩
  · rw [hsplit]
    exact h.isNameStep
  · rw [List.append_assoc, List.cons_append, hsplit]
    exact h.moves_eq
  · rw [h.startOf_eq, ← locationOf_eq_follow_moves]

theorem openTarget_alike (h : IsAhead (tree.locationOf store.root) container tree later)
    (htree : tree.IsPlain) (hlater : later.IsPlain)
    (hups : tree.GoesUpFromDirectories store.root) (hpath : store.HasPath container blob path) :
    (∃ error, store.openTarget container blob path tree =
          (.error error, (tree.makeParent path).2) ∧
        store.openTarget container blob path later =
          (.error error, (later.makeParent path).2)) ∨
      store.openTarget container blob path tree =
          (.ok (tree.locationOf path),
            (tree.makeParent path).2.put (tree.locationOf path) (.file [])) ∧
        store.openTarget container blob path later =
          (.ok (tree.locationOf path),
            (later.makeParent path).2.put (tree.locationOf path) (.file [])) := by
  obtain ⟨names, last, _, hbelow⟩ := hpath.endsBelow hups
  obtain ⟨hresult, hahead⟩ := h.makeParent htree hlater hbelow
  have hresolve := h.resolve_of_makeParent htree hlater hbelow
  have hmade := isPlain_lasts.makeParent htree path
  have hplace : (tree.makeParent path).2.locationOf path =
      tree.locationOf store.root ++ container :: (names ++ [last]) := by
    rw [FileTree.locationOf_eq (makeParent_adds tree path).workDir_eq, hbelow.locationOf_eq]
  have hopen : ∀ (tree : FileTree), (if store.overwrite then tree.createOrTruncate path
      else tree.createNew path) = tree.openFile store.overwrite path := fun _ => rfl
  rw [hbelow.locationOf_eq]
  rw [openTarget_def, openTarget_def]
  cases hparent : tree.makeParent path with
  | mk result made =>
      cases hlaterParent : later.makeParent path with
      | mk laterResult laterMade =>
          rw [hparent] at hresult hahead hresolve hmade hplace
          rw [hlaterParent] at hresult hahead hresolve
          obtain rfl : laterResult = result := hresult
          cases laterResult with
          | error error => exact .inl ⟨.io error, rfl, rfl⟩
          | ok _ =>
              simp only [hopen]
              rcases hahead.openFile hmade hplace (hresolve rfl) store.overwrite with
                ⟨error, hfirst, hsecond⟩ | ⟨hfirst, hsecond⟩
              · left
                rw [hfirst, hsecond]
                cases error <;> exact ⟨_, rfl, rfl⟩
              · right
                rw [hfirst, hsecond]
                exact ⟨rfl, rfl⟩

/-- The upload of a file that lies apart has the same result in both trees, and leaves the container
the same in both. -/
theorem upload_alike (h : IsAhead (tree.locationOf store.root) container tree later)
    (htree : tree.IsPlain) (hlater : later.IsPlain)
    (hups : tree.GoesUpFromDirectories store.root)
    (hfile : tree.entryAt source = some (.file held))
    (hlaterFile : later.entryAt source = some (.file held))
    (hapart : ¬ tree.locationOf store.root <+: source) (blob : String) :
    (store.upload container blob (.fileAt source) .never later).result =
        (store.upload container blob (.fileAt source) .never tree).result ∧
      IsAhead (tree.locationOf store.root) container
        (store.upload container blob (.fileAt source) .never tree).tree
        (store.upload container blob (.fileAt source) .never later).tree := by
  rw [upload_def, upload_def]
  rw [if_neg (by decide), if_neg (by decide)]
  cases hpath : store.blobPath container blob with
  | error error => exact ⟨rfl, h⟩
  | ok path =>
      have hasPath := blobPath_eq_ok hpath
      obtain ⟨names, last, _, hbelow⟩ := hasPath.endsBelow hups
      obtain ⟨_, hahead⟩ := h.makeParent htree hlater hbelow
      simp only
      rcases openTarget_alike h htree hlater hups hasPath with
        ⟨error, hfirst, hsecond⟩ | ⟨hfirst, hsecond⟩
      · rw [hfirst, hsecond]
        exact ⟨rfl, hahead⟩
      · have hlocation := hasPath.locationOf_eq tree
        have hne : tree.locationOf path ≠ [] := by simp [hlocation]
        have hother : tree.locationOf path ≠ source := by
          rintro rfl
          rw [hlocation] at hapart
          exact hapart (List.prefix_append _ _)
        -- the source is not the target, so it is read as it was
        have hread : ∀ {made : FileTree}, made.entryAt source = some (.file held) →
            (made.put (tree.locationOf path) (.file [])).entryAt source = some (.file held) := by
          intro made hmade
          rw [entryAt_put made hne, if_neg hother, hmade]
        obtain ⟨count, progress, moved, hfill⟩ :=
          exists_fill path (tree.locationOf path) source held
        rw [hfirst, hsecond]
        simp only
        rw [hfill _ (hread ((makeParent_adds tree path).entry_kept hfile)),
          hfill _ (hread ((makeParent_adds later path).entry_kept hlaterFile))]
        refine ⟨rfl, ?_⟩
        rw [put_put, put_put]
        exact hahead.put hne _

end BlobStore

end MediaMigration
