import MediaMigration.Proofs.BlobStore.Upload
import MediaMigration.Proofs.FileTree.WellFormed

/-!
# Uploads that may replace a blob

Whether or not a store replaces existing blobs, an upload that succeeds writes one file, the
one that the path of the blob leads to, and leaves all others as they are. The target is cut
to nothing before the content is read, so a content that comes from the target itself is
gone: a copy of a file onto itself leaves the file empty.
-/

namespace MediaMigration

namespace FileTree

theorem IsWritable.lookUp_other {tree : FileTree} {path other : FilePath}
    {place otherPlace : Location} {entry : Entry} (h : tree.IsWritable path place)
    (content : Bytes) (hl : tree.lookUp true other = .ok (otherPlace, entry))
    (hne : otherPlace ≠ place) :
    (tree.put place (.file content)).lookUp true other = .ok (otherPlace, entry) := by
  obtain ⟨spot, slash, hr, rfl, hentry, hslash⟩ := lookUp_eq_ok_iff.mp hl
  refine lookUp_eq_ok_iff.mpr
    ⟨spot, slash, (h.growsTo_put content).resolve_eq hr, rfl, ?_, hslash⟩
  rw [h.entryAt_put, if_neg (Ne.symm hne), hentry]

end FileTree

namespace BlobStore

open FileTree

section Stores

variable {store : BlobStore} {container blob : String} {tree after : FileTree}
  {place : Location} {content : Bytes}

theorem Stores.fileOf?_other (h : Stores store container blob tree after place content)
    {path : FilePath} {otherPlace : Location} {bytes : Bytes}
    (hs : tree.fileOf? path = some (otherPlace, bytes)) (hne : otherPlace ≠ place) :
    after.fileOf? path = some (otherPlace, bytes) := by
  obtain ⟨_, base, _, hbase, hwritable, rfl⟩ := h
  have hfound := fileOf?_eq_some_iff.mp (hbase.toKeptBy.fileOf?_kept hs)
  exact fileOf?_eq_some_iff.mpr (hwritable.lookUp_other content hfound hne)

end Stores

variable {store : BlobStore} {container blob : String} {content : Content}
  {cancellation : Cancellation} {tree : FileTree}

/-- An upload that succeeds stores what could be read from its content once the target had
been cut to nothing. -/
theorem upload_stores {count : Nat}
    (h : (store.upload container blob content cancellation tree).result = .ok count) :
    ∃ place bytes opened,
      Stores store container blob tree
        (store.upload container blob content cancellation tree).tree place bytes ∧
      content.Yields opened bytes ∧ opened.entryAt place = some (.file []) ∧
      (∀ other entry, other ≠ place → tree.entryAt other = some entry →
        opened.entryAt other = some entry) ∧
      count = bytes.length := by
  rcases upload_cases store container blob content cancellation tree with
    ⟨error, herror, _⟩ | ⟨path, place, hpath, hwritable, _, hfill⟩
  · rw [herror] at h
    exact absurd h (by simp)
  · have hbase := makeParent_adds tree path
    rw [hfill] at h ⊢
    obtain ⟨bytes, hyields, hcount, htree⟩ := fill_ok h
    refine ⟨place, bytes, (tree.makeParent path).2.put place (.file []),
      ⟨path, _, hpath, hbase, hwritable, htree⟩, hyields, ?_, ?_, hcount⟩
    · rw [hwritable.entryAt_put, if_pos rfl]
    · intro other entry hne hentry
      rw [hwritable.entryAt_put, if_neg (Ne.symm hne)]
      exact hbase.entry_kept hentry

/-- An upload from where a path leads that succeeds has found a file there and stores its content,
unless this file is the target: then it is empty afterwards. -/
theorem upload_file_stores {path : FilePath} {source : Location} {entry : Entry} {count : Nat}
    (hfound : tree.lookUp true path = .ok (source, entry))
    (h : (store.upload container blob (.fileAt source) cancellation tree).result = .ok count) :
    ∃ held place, tree.fileOf? path = some (source, held) ∧
      Stores store container blob tree
        (store.upload container blob (.fileAt source) cancellation tree).tree place
        (if source = place then [] else held) := by
  obtain ⟨place, bytes, opened, hstores, hyields, hcut, hothers, _⟩ := upload_stores h
  have hentry := entryAt_of_lookUp hfound
  cases entry with
  | link target => exact absurd rfl (lookUp_true_not_link hfound target)
  | directory =>
      -- a directory is no place to write to, so it can be opened still
      have hne : source ≠ place := by
        rintro rfl
        obtain ⟨_, base, _, hbase, hwritable, _⟩ := hstores
        have hkept := hbase.entry_kept hentry
        rcases hwritable.1 with hnone | ⟨old, hfile⟩
        · simp [hnone] at hkept
        · simp [hfile] at hkept
      exact absurd hyields (Content.not_yields_directory (hothers _ _ hne hentry))
  | file held =>
      refine ⟨held, place, fileOf?_eq_some_iff.mpr hfound, ?_⟩
      by_cases hsame : source = place
      · rw [if_pos hsame]
        rw [hsame] at hyields
        obtain rfl := (Content.yields_file_iff hcut).mp hyields
        exact hstores
      · rw [if_neg hsame]
        obtain rfl := (Content.yields_file_iff (hothers _ _ hsame hentry)).mp hyields
        exact hstores

theorem copy_stores {fromContainer fromBlob : String} {count : Nat}
    (h : (store.copy container blob fromContainer fromBlob cancellation tree).1 = .ok count) :
    ∃ path source held place, store.blobPath fromContainer fromBlob = .ok path ∧
      tree.fileOf? path = some (source, held) ∧
      Stores store container blob tree
        (store.copy container blob fromContainer fromBlob cancellation tree).2 place
        (if source = place then [] else held) := by
  rcases copy_cases store container blob fromContainer fromBlob cancellation tree with
    ⟨_, hfailed⟩ | ⟨path, source, entry, hpath, hfound, hcopy⟩
  · rw [hfailed] at h
    exact absurd h (by simp)
  · rw [hcopy] at h ⊢
    obtain ⟨held, place, hheld, hstores⟩ := upload_file_stores hfound h
    exact ⟨path, source, held, place, hpath, hheld, hstores⟩

/-! ## What lasts through uploads and copies -/

/-- What holds before an upload and is kept by making the way to the blob, by writing its file and
by taking it away again, holds after the upload. -/
theorem upload_invariant (invariant : FileTree → Prop) (hstart : invariant tree)
    (hparent : ∀ path, store.blobPath container blob = .ok path →
      invariant (tree.makeParent path).2)
    (hwrite : ∀ path place made bytes, store.blobPath container blob = .ok path →
      invariant made → made.IsWritable path place → invariant (made.put place (.file bytes)))
    (hremove : ∀ path written, store.blobPath container blob = .ok path →
      invariant written → invariant (written.removeFile path)) :
    invariant (store.upload container blob content cancellation tree).tree := by
  rcases upload_cases store container blob content cancellation tree with
    ⟨_, _, hsame | ⟨path, hpath, hmade⟩⟩ | ⟨path, place, hpath, hwritable, _, hfill⟩
  · rw [hsame]
    exact hstart
  · rw [hmade]
    exact hparent path hpath
  · have hwritten := fun bytes =>
      hwrite path place _ bytes hpath (hparent path hpath) hwritable
    rw [hfill]
    simp only [fill_def, put_put]
    split
    · exact hwritten _
    · exact hremove path _ hpath (hwritten _)

theorem copy_invariant {fromContainer fromBlob : String} (invariant : FileTree → Prop)
    (hstart : invariant tree)
    (hupload : ∀ source,
      invariant (store.upload container blob (.fileAt source) cancellation tree).tree) :
    invariant (store.copy container blob fromContainer fromBlob cancellation tree).2 := by
  rcases copy_cases store container blob fromContainer fromBlob cancellation tree with
    ⟨_, hfailed⟩ | ⟨_, source, _, _, _, hcopy⟩
  · rw [hfailed]
    exact hstart
  · rw [hcopy]
    exact hupload source

theorem upload_lasts {property : FileTree → Prop} (hlasts : LastsThroughChanges property)
    (htree : property tree) (store : BlobStore) (container blob : String) (content : Content)
    (cancellation : Cancellation) :
    property (store.upload container blob content cancellation tree).tree :=
  upload_invariant property htree (fun path _ => hlasts.makeParent htree path)
    (fun _ _ _ bytes _ hmade hwritable => hlasts.put_file hmade hwritable bytes)
    (fun path _ _ hwritten => hlasts.removeFile hwritten path)

theorem copy_lasts {property : FileTree → Prop} (hlasts : LastsThroughChanges property)
    (htree : property tree) (store : BlobStore)
    (container blob fromContainer fromBlob : String) (cancellation : Cancellation) :
    property (store.copy container blob fromContainer fromBlob cancellation tree).2 :=
  copy_invariant property htree fun source =>
    upload_lasts hlasts htree store container blob (.fileAt source) cancellation

end BlobStore

end MediaMigration
