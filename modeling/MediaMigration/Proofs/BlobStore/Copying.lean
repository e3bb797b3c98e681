import MediaMigration.Proofs.BlobStore.Deposits
import MediaMigration.Proofs.BlobStore.FailedOverwrite
import MediaMigration.Proofs.BlobStore.Invariant

/-!
# Copies

A copy finds its source before it opens the target, and reads it afterwards. As long as the two
are different files the source keeps its bytes, whether the copy succeeds or fails and whatever
links there are, and a copy that succeeds has put them at the target. Whether the two are different
can be told before the call: no directory that is made on the way to the target leads to a file
that was there before. With overwriting, a blob that is copied onto itself is lost.
-/

namespace MediaMigration

namespace BlobStore

open FileTree

variable {store : BlobStore} {container blob fromContainer fromBlob : String} {path : FilePath}
  {place source : Location} {held : Bytes} {tree : FileTree} {cancellation : Cancellation}
  {content : Content}

def SameFile (store : BlobStore) (tree : FileTree) (first second : String × String) : Prop :=
  ∃ place, store.place? tree first = some place ∧ store.place? tree second = some place

/-! ## Where a target is -/

theorem steps_of_blobPath (h : store.blobPath container blob = .ok path) :
    path.isAbsolute = store.root.isAbsolute ∧
      ∃ more, path.steps = store.root.steps ++ more ∧ more ≠ [] ∧ ".." ∉ more := by
  obtain ⟨⟨hcontainer, hblob⟩, rfl⟩ := blobPath_eq_ok_iff.mp h
  obtain ⟨habsolute, hsteps, hdown⟩ := hcontainer.join_blob_spec hblob store.root
  exact ⟨habsolute, _, hsteps, List.cons_ne_nil _ _, hdown⟩

theorem stored?_of_opened (hformed : tree.IsWellFormed)
    (hsource : store.stored? fromContainer fromBlob tree = some (source, held))
    (hpath : store.blobPath container blob = .ok path)
    (hwritable : (tree.makeParent path).2.IsWritable path source) :
    store.stored? container blob tree = some (source, held) := by
  obtain ⟨sourcePath, hfrom, hfound⟩ := stored?_eq_some_iff.mp hsource
  obtain ⟨_, _, hr, _⟩ := lookUp_eq_ok_iff.mp hfound
  obtain ⟨hfromAbsolute, _, hfromSteps, hfromMore, _⟩ := steps_of_blobPath hfrom
  obtain ⟨base, hopens⟩ := opensAt_of_resolve hr hfromAbsolute hfromSteps hfromMore
  obtain ⟨habsolute, _, hsteps, _, hdown⟩ := steps_of_blobPath hpath
  have hway := hopens.wayMade hformed habsolute hsteps hdown (moves_of_blobPath hpath)
  exact stored?_eq_some_iff.mpr
    ⟨path, hpath, hway.lookUp hformed hwritable (entryAt_of_lookUp hfound)⟩

theorem place_ne_of_apart (hformed : tree.IsWellFormed)
    (hapart : ¬ store.SameFile tree (container, blob) (fromContainer, fromBlob))
    (hsource : store.stored? fromContainer fromBlob tree = some (source, held))
    (hpath : store.blobPath container blob = .ok path)
    (hwritable : (tree.makeParent path).2.IsWritable path place) : source ≠ place := by
  rintro rfl
  have hstored := stored?_of_opened hformed hsource hpath hwritable
  exact hapart ⟨source, place?_eq_of_stored? hstored, place?_eq_of_stored? hsource⟩

/-! ## Uploads and the files beside their targets -/

theorem upload_opened {count : Nat}
    (h : (store.upload container blob content cancellation tree).result = .ok count) :
    ∃ path place bytes, store.blobPath container blob = .ok path ∧
      (tree.makeParent path).2.IsWritable path place ∧
      store.stored? container blob
        (store.upload container blob content cancellation tree).tree = some (place, bytes) ∧
      count = bytes.length := by
  rcases upload_cases store container blob content cancellation tree with
    ⟨error, herror, _⟩ | ⟨path, place, hpath, hwritable, _, hfill⟩
  · rw [herror] at h
    exact absurd h (by simp)
  · rw [hfill] at h ⊢
    obtain ⟨bytes, _, hcount, htree⟩ := fill_ok h
    rw [htree]
    exact ⟨path, place, bytes, hpath, hwritable,
      stored?_eq_some_iff.mpr ⟨path, hpath, hwritable.lookUp_put bytes⟩, hcount⟩

/-- A blob that is another file than the target is there still when an upload has failed. -/
theorem upload_error_keeps {error : MigrationError}
    (hstored : store.stored? fromContainer fromBlob tree = some (source, held))
    (hother : ∀ path place, store.blobPath container blob = .ok path →
      (tree.makeParent path).2.IsWritable path place → source ≠ place)
    (h : (store.upload container blob content cancellation tree).result = .error error) :
    store.stored? fromContainer fromBlob
      (store.upload container blob content cancellation tree).tree = some (source, held) := by
  rcases upload_cases store container blob content cancellation tree with
    ⟨_, _, hsame | ⟨path, _, hmade⟩⟩ | ⟨path, place, hpath, hwritable, _, hfill⟩
  · rwa [hsame]
  · rw [hmade]
    exact stored?_kept (makeParent_adds tree path).toKeptBy hstored
  · rw [hfill] at h ⊢
    obtain ⟨bytes, hremoved⟩ := fill_error_removes h
    obtain ⟨sourcePath, hfrom, hfound⟩ := stored?_eq_some_iff.mp hstored
    have hne := hother path place hpath hwritable
    have hmade := (makeParent_adds tree path).toKeptBy.lookUp_eq hfound
    have hwritten := hwritable.lookUp_other bytes hmade hne
    rw [hremoved]
    exact stored?_eq_some_iff.mpr
      ⟨sourcePath, hfrom, lookUp_removeFile_other (hwritable.lookUp_put bytes) hwritten hne⟩

/-! ## Copies -/

theorem copy_of_stored?
    (h : store.stored? fromContainer fromBlob tree = some (source, held))
    (container blob : String) (cancellation : Cancellation) :
    store.copy container blob fromContainer fromBlob cancellation tree =
      ((store.upload container blob (.fileAt source) cancellation tree).result,
        (store.upload container blob (.fileAt source) cancellation tree).tree) := by
  obtain ⟨path, hpath, hfound⟩ := stored?_eq_some_iff.mp h
  exact copyUnder_of_source ⟨path, _, hpath, hfound, rfl⟩ container blob cancellation

/-- A copy that succeeds has opened another file than its source. In a store that replaces nothing
that is always so. -/
theorem copy_opened {count : Nat} (hformed : tree.IsWellFormed)
    (hapart : store.overwrite = true →
      ¬ store.SameFile tree (container, blob) (fromContainer, fromBlob))
    (hsource : store.stored? fromContainer fromBlob tree = some (source, held))
    (h : (store.copy container blob fromContainer fromBlob cancellation tree).1 = .ok count) :
    ∃ place bytes, source ≠ place ∧
      store.stored? container blob
        (store.copy container blob fromContainer fromBlob cancellation tree).2 =
          some (place, bytes) ∧
      count = bytes.length := by
  rw [copy_of_stored? hsource] at h ⊢
  obtain ⟨path, place, bytes, hpath, hwritable, hstored, hcount⟩ := upload_opened h
  refine ⟨place, bytes, ?_, hstored, hcount⟩
  cases hmode : store.overwrite with
  | true => exact place_ne_of_apart hformed (hapart hmode) hsource hpath hwritable
  | false =>
      rintro rfl
      obtain ⟨other, _, _, hstores, _⟩ := upload_ok hmode h
      obtain ⟨rfl, _⟩ := Prod.mk.inj (Option.some.inj (hstores.stores.stored?.symm.trans hstored))
      exact absurd (hstores.absent.symm.trans (entryAt_of_stored? hsource)) (by simp)

/-- A copy that is not onto its own source puts the bytes of the source at the target and changes
no other file; also a copy that fails leaves the source. -/
theorem copy_duplicates (hformed : tree.IsWellFormed)
    (hapart : store.overwrite = true →
      ¬ store.SameFile tree (container, blob) (fromContainer, fromBlob))
    (cancellation : Cancellation) :
    let outcome := store.copy container blob fromContainer fromBlob cancellation tree
    (∀ count, outcome.1 = .ok count → ∃ source target held,
      store.stored? fromContainer fromBlob tree = some (source, held) ∧
      store.stored? container blob outcome.2 = some (target, held) ∧
      count = held.length ∧
      store.stored? fromContainer fromBlob outcome.2 = some (source, held) ∧
      ∀ other, other ≠ target → outcome.2.file? other = tree.file? other) ∧
    ∀ error source held, outcome.1 = .error error →
      store.stored? fromContainer fromBlob tree = some (source, held) →
      store.stored? fromContainer fromBlob outcome.2 = some (source, held) := by
  intro outcome
  refine ⟨fun count hok => ?_, fun error source held herror hsource => ?_⟩
  · obtain ⟨sourcePath, source, held, target, hfrom, hshown, hstores⟩ := copy_stores hok
    have hsource := stored?_eq_some_iff.mpr ⟨sourcePath, hfrom, fileOf?_eq_some_iff.mp hshown⟩
    obtain ⟨_, bytes, hne, hstored, hcount⟩ := copy_opened hformed hapart hsource hok
    obtain ⟨rfl, rfl⟩ := Prod.mk.inj (Option.some.inj (hstored.symm.trans hstores.stored?))
    have hlater := hstores.fileOf?_other hshown hne
    rw [if_neg hne] at hstored hcount
    refine ⟨source, _, held, hsource, hstored, hcount,
      stored?_eq_some_iff.mpr ⟨sourcePath, hfrom, fileOf?_eq_some_iff.mp hlater⟩, ?_⟩
    intro other hother
    rw [hstores.file?_after, if_neg hother]
  · cases hmode : store.overwrite with
    | false => exact stored?_kept (copy_keeps hmode) hsource
    | true =>
        simp only [outcome, copy_of_stored? hsource] at herror ⊢
        exact upload_error_keeps hsource
          (fun _ _ => place_ne_of_apart hformed (hapart hmode) hsource) herror

/-! ## A store with one blob in a directory -/

namespace OneBlob

def nested : FileTree :=
  (((FileTree.empty.put ["store"] .directory).put ["store", "c"] .directory).put
    ["store", "c", "d"] .directory).put ["store", "c", "d", "b"]
      (.file [0x68, 0x65, 0x6C, 0x6C, 0x6F])

end OneBlob

/-- With a slash more the name is another text and the same file. The copy reports success, and the
blob is empty. -/
theorem copy_between_spellings_loses_blob :
    let outcome := OneBlob.store.copy "c" "d//b" "c" "d/b" .never OneBlob.nested
    OneBlob.store.stored? "c" "d/b" OneBlob.nested =
        some (["store", "c", "d", "b"], [0x68, 0x65, 0x6C, 0x6C, 0x6F]) ∧
      outcome.1 = .ok 0 ∧
      OneBlob.store.stored? "c" "d/b" outcome.2 = some (["store", "c", "d", "b"], []) := by
  decide +kernel

/-- A copy to a new name below the directory duplicates the blob. -/
theorem copy_duplicates_nested :
    let outcome := OneBlob.store.copy "c" "d//a" "c" "d/b" .never OneBlob.nested
    OneBlob.nested.IsWellFormed ∧
      ¬ OneBlob.store.SameFile OneBlob.nested ("c", "d//a") ("c", "d/b") ∧
      outcome.1 = .ok 5 ∧ ∃ target,
        OneBlob.store.stored? "c" "d//a" outcome.2 =
          some (target, [0x68, 0x65, 0x6C, 0x6C, 0x6F]) ∧
        ∀ other, other ≠ target → outcome.2.file? other = OneBlob.nested.file? other := by
  intro outcome
  have hformed : OneBlob.nested.IsWellFormed := by decide +kernel
  have hapart : ¬ OneBlob.store.SameFile OneBlob.nested ("c", "d//a") ("c", "d/b") := by
    rintro ⟨place, hnew, _⟩
    have hnone : OneBlob.store.place? OneBlob.nested ("c", "d//a") = none := by decide +kernel
    rw [hnone] at hnew
    exact absurd hnew (by simp)
  have hok : outcome.1 = .ok 5 := by decide +kernel
  obtain ⟨_, target, held, hsource, htarget, _, _, hothers⟩ :=
    (copy_duplicates hformed (fun _ => hapart) .never).1 5 hok
  have hheld : OneBlob.store.stored? "c" "d/b" OneBlob.nested =
      some (["store", "c", "d", "b"], [0x68, 0x65, 0x6C, 0x6C, 0x6F]) := by decide +kernel
  obtain ⟨_, rfl⟩ := Prod.mk.inj (Option.some.inj (hheld.symm.trans hsource))
  exact ⟨hformed, hapart, hok, target, htarget, hothers⟩

end BlobStore

end MediaMigration
