import MediaMigration.Proofs.BlobStore.Content
import MediaMigration.Proofs.FileTree.Opening

/-!
# Uploads

An upload fails before it has opened its target, or it fills the target that it has opened. To
a store that keeps existing blobs it ends in one of two ways. Either it fails, and at most
directories are new. Or it stores its content as a new file, which the path of the blob shows.
In between, the target is the only file that was touched: it was not there before the call, and
a failure takes it away again.
-/

namespace MediaMigration

namespace BlobStore

open FileTree

def keeping (root : FilePath) : BlobStore :=
  ⟨root, false⟩

/-- The file that a store has for a blob, and what it holds. -/
def stored? (store : BlobStore) (container blob : String) (tree : FileTree) :
    Option (Location × Bytes) :=
  match store.blobPath container blob with
  | .error _ => none
  | .ok path => tree.fileOf? path

theorem stored?_eq_some_iff {store : BlobStore} {container blob : String} {tree : FileTree}
    {place : Location} {content : Bytes} :
    store.stored? container blob tree = some (place, content) ↔
      ∃ path, store.blobPath container blob = .ok path ∧
        tree.lookUp true path = .ok (place, .file content) := by
  unfold stored?
  cases hpath : store.blobPath container blob with
  | error error => simp
  | ok path =>
      simp only [fileOf?_eq_some_iff, Except.ok.injEq, exists_eq_left']

/-- The tree `after` is `tree` with a blob stored at a place, in a new file or instead of what
was in the file there, and perhaps with directories on the way to it. -/
def Stores (store : BlobStore) (container blob : String) (tree after : FileTree)
    (place : Location) (content : Bytes) : Prop :=
  ∃ path base, store.blobPath container blob = .ok path ∧ OnlyDirectoriesAdded tree base ∧
    base.IsWritable path place ∧ after = base.put place (.file content)

section Stores

variable {store : BlobStore} {container blob : String} {tree after : FileTree}
  {place : Location} {content : Bytes}

theorem Stores.growsTo (h : Stores store container blob tree after place content) :
    GrowsTo tree after := by
  obtain ⟨path, base, _, hbase, hwritable, rfl⟩ := h
  exact hbase.toGrowsTo.trans (hwritable.growsTo_put content)

theorem Stores.stored? (h : Stores store container blob tree after place content) :
    store.stored? container blob after = some (place, content) := by
  obtain ⟨path, base, hpath, _, hwritable, rfl⟩ := h
  exact stored?_eq_some_iff.mpr ⟨path, hpath, hwritable.lookUp_put content⟩

theorem Stores.file?_after (h : Stores store container blob tree after place content)
    (other : Location) :
    after.file? other = if other = place then some content else tree.file? other := by
  obtain ⟨path, base, _, hbase, hwritable, rfl⟩ := h
  by_cases hother : other = place
  · rw [if_pos hother, hother, file?_eq_some_iff, hwritable.entryAt_put, if_pos rfl]
  · have hsame := hwritable.entryAt_put content other
    rw [if_neg (Ne.symm hother)] at hsame
    rw [if_neg hother, ← hbase.file?_eq other, file?, file?, hsame]

end Stores

/-- The tree `after` is `tree` with a blob stored as a new file, and perhaps directories on
the way to it. -/
def StoresNew (store : BlobStore) (container blob : String) (tree after : FileTree)
    (place : Location) (content : Bytes) : Prop :=
  ∃ path base, store.blobPath container blob = .ok path ∧ OnlyDirectoriesAdded tree base ∧
    base.IsFree path place ∧ after = base.put place (.file content)

section StoresNew

variable {store : BlobStore} {container blob : String} {tree after : FileTree}
  {place : Location} {content : Bytes}

theorem StoresNew.keptBy (h : StoresNew store container blob tree after place content) :
    KeptBy tree after := by
  obtain ⟨path, base, _, hbase, hfree, rfl⟩ := h
  exact hbase.toKeptBy.trans (keptBy_put hfree.1 (by simp))

theorem StoresNew.stores (h : StoresNew store container blob tree after place content) :
    Stores store container blob tree after place content := by
  obtain ⟨path, base, hpath, hbase, hfree, hafter⟩ := h
  exact ⟨path, base, hpath, hbase, hfree.isWritable, hafter⟩

theorem StoresNew.absent (h : StoresNew store container blob tree after place content) :
    tree.entryAt place = none := by
  obtain ⟨path, base, _, hbase, hfree, _⟩ := h
  exact hbase.free_before hfree.1

end StoresNew

theorem stored?_kept {store : BlobStore} {container blob : String} {tree later : FileTree}
    (h : KeptBy tree later) {found : Location × Bytes}
    (hs : store.stored? container blob tree = some found) :
    store.stored? container blob later = some found := by
  obtain ⟨place, content⟩ := found
  obtain ⟨path, hpath, hfound⟩ := stored?_eq_some_iff.mp hs
  exact stored?_eq_some_iff.mpr ⟨path, hpath, h.lookUp_eq hfound⟩

theorem entryAt_of_stored? {store : BlobStore} {container blob : String} {tree : FileTree}
    {place : Location} {content : Bytes}
    (h : store.stored? container blob tree = some (place, content)) :
    tree.entryAt place = some (.file content) := by
  obtain ⟨_, _, hfound⟩ := stored?_eq_some_iff.mp h
  exact entryAt_of_lookUp hfound

variable {store : BlobStore} {container blob : String}

/-! ## Opening and filling a target -/

theorem openTarget_cases (store : BlobStore) (container blob : String) (path : FilePath)
    (tree : FileTree) :
    (∃ error, store.openTarget container blob path tree =
        (.error error, (tree.makeParent path).2)) ∨
      ∃ place, (tree.makeParent path).2.IsWritable path place ∧
        (store.overwrite = false → (tree.makeParent path).2.IsFree path place) ∧
        store.openTarget container blob path tree =
          (.ok place, (tree.makeParent path).2.put place (.file [])) := by
  rw [openTarget_def]
  cases tree.makeParent path with
  | mk result base =>
      cases result with
      | error error => exact .inl ⟨.io error, rfl⟩
      | ok _ =>
          simp only
          split
          · next place opened hopened =>
              right
              split at hopened
              · next hmode =>
                  obtain ⟨hwritable, rfl⟩ := createOrTruncate_ok hopened
                  exact ⟨place, hwritable, by simp [hmode], rfl⟩
              · obtain ⟨hfree, rfl⟩ := createNew_ok hopened
                exact ⟨place, hfree.isWritable, fun _ => hfree, rfl⟩
          · exact .inl ⟨.blobExists container blob, rfl⟩
          · next error _ _ => exact .inl ⟨.uploadFailed container blob error.message, rfl⟩

variable {content : Content} {cancellation : Cancellation} {path : FilePath} {place : Location}
  {tree base : FileTree}

theorem fill_error {error : MigrationError} (hfree : base.IsFree path place)
    (h : (fill path place content cancellation (base.put place (.file []))).result =
      .error error) :
    (fill path place content cancellation (base.put place (.file []))).tree = base := by
  rw [fill_def] at h ⊢
  simp only [put_put] at h ⊢
  split at h
  · exact absurd h (by simp)
  · exact hfree.removeFile_put _

theorem fill_ok {count : Nat}
    (h : (fill path place content cancellation (base.put place (.file []))).result =
      .ok count) :
    ∃ bytes, content.Yields (base.put place (.file [])) bytes ∧ count = bytes.length ∧
      (fill path place content cancellation (base.put place (.file []))).tree =
        base.put place (.file bytes) := by
  rw [fill_def] at h ⊢
  simp only [put_put] at h ⊢
  split at h
  · next found hfound =>
      obtain ⟨hfailure, hmoved, hcount⟩ := transfer_ok hfound
      obtain rfl : found = count := by simpa using h
      refine ⟨_, ⟨hfailure, rfl⟩, by simpa using hcount, ?_⟩
      rw [hmoved]
  · exact absurd h (by simp)

/-! ## Uploads and copies -/

theorem upload_cancelled_beforehand (h : cancellation.foundAt 0 0 = true) :
    store.upload container blob content cancellation tree = ⟨.error .cancelled, [], tree⟩ := by
  rw [upload_def, if_pos h]

/-- An upload fails before it has opened its target, and then at most the way to it is new, or it
fills the target that it has opened. -/
theorem upload_cases (store : BlobStore) (container blob : String) (content : Content)
    (cancellation : Cancellation) (tree : FileTree) :
    (∃ error, (store.upload container blob content cancellation tree).result = .error error ∧
        ((store.upload container blob content cancellation tree).tree = tree ∨
          ∃ path, store.blobPath container blob = .ok path ∧
            (store.upload container blob content cancellation tree).tree =
              (tree.makeParent path).2)) ∨
      ∃ path place, store.blobPath container blob = .ok path ∧
        (tree.makeParent path).2.IsWritable path place ∧
        (store.overwrite = false → (tree.makeParent path).2.IsFree path place) ∧
        store.upload container blob content cancellation tree =
          fill path place content cancellation
            ((tree.makeParent path).2.put place (.file [])) := by
  rw [upload_def]
  split
  · exact .inl ⟨.cancelled, rfl, .inl rfl⟩
  · cases hpath : store.blobPath container blob with
    | error refusal => exact .inl ⟨refusal, rfl, .inl rfl⟩
    | ok path =>
        simp only
        rcases openTarget_cases store container blob path tree with
          ⟨failure, hopen⟩ | ⟨place, hwritable, hfree, hopen⟩
        · rw [hopen]
          exact .inl ⟨failure, rfl, .inr ⟨path, rfl, rfl⟩⟩
        · rw [hopen]
          exact .inr ⟨path, place, rfl, hwritable, hfree, rfl⟩

/-- A failed upload leaves nothing but directories. -/
theorem upload_error {error : MigrationError} (hmode : store.overwrite = false)
    (h : (store.upload container blob content cancellation tree).result = .error error) :
    OnlyDirectoriesAdded tree (store.upload container blob content cancellation tree).tree := by
  rcases upload_cases store container blob content cancellation tree with
    ⟨_, _, hsame | ⟨path, _, hmade⟩⟩ | ⟨path, place, _, _, hfree, hfill⟩
  · rw [hsame]
    exact .refl tree
  · rw [hmade]
    exact makeParent_adds tree path
  · rw [hfill] at h ⊢
    rw [fill_error (hfree hmode) h]
    exact makeParent_adds tree path

/-- An upload that succeeds stores its whole content as a new file and reports its
length. -/
theorem upload_ok {count : Nat} (hmode : store.overwrite = false)
    (h : (store.upload container blob content cancellation tree).result = .ok count) :
    ∃ place bytes opened,
      StoresNew store container blob tree
        (store.upload container blob content cancellation tree).tree place bytes ∧
      KeptBy tree opened ∧ content.Yields opened bytes ∧ count = bytes.length := by
  rcases upload_cases store container blob content cancellation tree with
    ⟨error, herror, _⟩ | ⟨path, place, hpath, _, hfree, hfill⟩
  · rw [herror] at h
    exact absurd h (by simp)
  · have hbase := makeParent_adds tree path
    have hnew := hfree hmode
    rw [hfill] at h ⊢
    obtain ⟨bytes, hyields, hcount, htree⟩ := fill_ok h
    exact ⟨place, bytes, _, ⟨path, _, hpath, hbase, hnew, htree⟩,
      hbase.toKeptBy.trans (keptBy_put hnew.1 (by simp)), hyields, hcount⟩

/-- An upload from where a path leads that succeeds has found a file there and stores the
bytes that were in it before. -/
theorem upload_file_ok {source : Location} {entry : Entry} {count : Nat}
    (hmode : store.overwrite = false) (hfound : tree.lookUp true path = .ok (source, entry))
    (h : (store.upload container blob (.fileAt source) cancellation tree).result = .ok count) :
    ∃ place bytes, entry = .file bytes ∧
      StoresNew store container blob tree
        (store.upload container blob (.fileAt source) cancellation tree).tree place bytes ∧
      count = bytes.length := by
  obtain ⟨place, bytes, opened, hstores, hkept, hyields, hcount⟩ := upload_ok hmode h
  have hopened := hkept.entry_kept (entryAt_of_lookUp hfound)
  cases entry with
  | file content =>
      obtain rfl := (Content.yields_file_iff hopened).mp hyields
      exact ⟨place, content, rfl, hstores, hcount⟩
  | directory => exact absurd hyields (Content.not_yields_directory hopened)
  | link target => exact absurd rfl (lookUp_true_not_link hfound target)

/-- A copy fails before it has opened its source, and changes nothing, or it is an upload from
there. -/
theorem copy_cases (store : BlobStore) (container blob fromContainer fromBlob : String)
    (cancellation : Cancellation) (tree : FileTree) :
    (∃ error, store.copy container blob fromContainer fromBlob cancellation tree =
        (.error error, tree)) ∨
      ∃ path source entry, store.blobPath fromContainer fromBlob = .ok path ∧
        tree.lookUp true path = .ok (source, entry) ∧
        store.copy container blob fromContainer fromBlob cancellation tree =
          ((store.upload container blob (.fileAt source) cancellation tree).result,
            (store.upload container blob (.fileAt source) cancellation tree).tree) := by
  rw [copy_def]
  cases hpath : store.blobPath fromContainer fromBlob with
  | error refusal => exact .inl ⟨refusal, rfl⟩
  | ok path =>
      cases hfound : tree.lookUp true path with
      | error failure =>
          left
          simp only [hfound]
          exact ⟨_, rfl⟩
      | ok found =>
          right
          refine ⟨path, found.1, found.2, rfl, hfound, ?_⟩
          simp only [hfound]

variable {fromContainer fromBlob : String}

theorem copy_error {error : MigrationError} (hmode : store.overwrite = false)
    (h : (store.copy container blob fromContainer fromBlob cancellation tree).1 =
      .error error) :
    OnlyDirectoriesAdded tree
      (store.copy container blob fromContainer fromBlob cancellation tree).2 := by
  rcases copy_cases store container blob fromContainer fromBlob cancellation tree with
    ⟨_, hfailed⟩ | ⟨_, _, _, _, _, hcopy⟩
  · rw [hfailed]
    exact .refl tree
  · rw [hcopy] at h ⊢
    exact upload_error hmode h

theorem copy_ok {count : Nat} (hmode : store.overwrite = false)
    (h : (store.copy container blob fromContainer fromBlob cancellation tree).1 = .ok count) :
    ∃ source place bytes, store.stored? fromContainer fromBlob tree = some (source, bytes) ∧
      StoresNew store container blob tree
        (store.copy container blob fromContainer fromBlob cancellation tree).2 place bytes ∧
      count = bytes.length := by
  rcases copy_cases store container blob fromContainer fromBlob cancellation tree with
    ⟨_, hfailed⟩ | ⟨path, source, entry, hpath, hfound, hcopy⟩
  · rw [hfailed] at h
    exact absurd h (by simp)
  · rw [hcopy] at h ⊢
    obtain ⟨place, bytes, rfl, hstores, hcount⟩ := upload_file_ok hmode hfound h
    have hstored := stored?_eq_some_iff.mpr ⟨path, hpath, hfound⟩
    exact ⟨source, place, bytes, hstored, hstores, hcount⟩

/-! ## Both ways at once -/

theorem upload_keeps (hmode : store.overwrite = false) :
    KeptBy tree (store.upload container blob content cancellation tree).tree := by
  cases h : (store.upload container blob content cancellation tree).result with
  | error error => exact (upload_error hmode h).toKeptBy
  | ok count =>
      obtain ⟨place, bytes, _, hstores, _⟩ := upload_ok hmode h
      exact hstores.keptBy

theorem copy_keeps (hmode : store.overwrite = false) :
    KeptBy tree (store.copy container blob fromContainer fromBlob cancellation tree).2 := by
  cases h : (store.copy container blob fromContainer fromBlob cancellation tree).1 with
  | error error => exact (copy_error hmode h).toKeptBy
  | ok count =>
      obtain ⟨_, place, bytes, _, hstores, _⟩ := copy_ok hmode h
      exact hstores.keptBy

end BlobStore

end MediaMigration
