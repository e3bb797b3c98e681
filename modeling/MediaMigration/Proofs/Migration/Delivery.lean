import MediaMigration.Proofs.Migration.Attempt
import MediaMigration.Proofs.Migration.FileUploads

/-!
# Delivery of assets

An asset that is reported as migrated has been delivered: each of its files is stored under
its name with the bytes that the file still has, and the bytes are counted. Delivery lasts:
whatever a run does afterwards, as long as the store replaces nothing, it keeps every entry
of the tree.
-/

namespace MediaMigration

open FileTree BlobStore

def FileTree.fileSize (tree : FileTree) (path : FilePath) : Nat :=
  match tree.fileOf? path with
  | some (_, content) => content.length
  | none => 0

def CollectedFile.totalSize (tree : FileTree) : List CollectedFile → Nat
  | [] => 0
  | file :: rest => tree.fileSize file.path + totalSize tree rest

/-- A file is stored as a blob with the bytes that its path shows. -/
def CollectedFile.IsStored (file : CollectedFile) (store : BlobStore) (placement : Placement)
    (tree : FileTree) : Prop :=
  ∃ source place content, tree.fileOf? file.path = some (source, content) ∧
    store.stored? placement.container (placement.blobName file.name) tree = some (place, content)

/-- The blobs of an asset, each with its container. -/
def AssetUpload.located (upload : AssetUpload) : List (String × String) :=
  upload.blobs.map fun blob => (upload.placement.container, blob)

/-- An asset has become one blob for each of its files in their order, each with the bytes
of the file, and has counted these. -/
structure AssetUpload.Delivers (upload : AssetUpload) (store : BlobStore)
    (files : List CollectedFile) (tree : FileTree) : Prop where
  blobs_eq : upload.blobs = files.map fun file => upload.placement.blobName file.name
  stored : ∀ file ∈ files, file.IsStored store upload.placement tree
  bytes_eq : upload.bytes = CollectedFile.totalSize tree files

variable {tree later : FileTree}

theorem CollectedFile.IsStored.kept {file : CollectedFile} {store : BlobStore}
    {placement : Placement} (hkept : KeptBy tree later) (h : file.IsStored store placement tree) :
    file.IsStored store placement later := by
  obtain ⟨source, place, content, hsource, hstored⟩ := h
  exact ⟨source, place, content, hkept.fileOf?_kept hsource, stored?_kept hkept hstored⟩

theorem CollectedFile.IsStored.fileSize_eq {file : CollectedFile} {store : BlobStore}
    {placement : Placement} (hkept : KeptBy tree later) (h : file.IsStored store placement tree) :
    later.fileSize file.path = tree.fileSize file.path := by
  obtain ⟨source, place, content, hsource, _⟩ := h
  simp only [FileTree.fileSize, hsource, hkept.fileOf?_kept hsource]

theorem CollectedFile.totalSize_kept {files : List CollectedFile} {store : BlobStore}
    {placement : Placement} (hkept : KeptBy tree later)
    (h : ∀ file ∈ files, file.IsStored store placement tree) :
    totalSize later files = totalSize tree files := by
  induction files with
  | nil => rfl
  | cons file rest ih =>
      have hfirst := (h file (by simp)).fileSize_eq hkept
      have hrest := ih fun other hother => h other (List.mem_cons_of_mem _ hother)
      rw [totalSize, totalSize, hfirst, hrest]

theorem AssetUpload.Delivers.kept {upload : AssetUpload} {store : BlobStore}
    {files : List CollectedFile} (hkept : KeptBy tree later)
    (h : upload.Delivers store files tree) : upload.Delivers store files later := by
  refine ⟨h.blobs_eq, fun file hfile => (h.stored file hfile).kept hkept, ?_⟩
  rw [h.bytes_eq, CollectedFile.totalSize_kept hkept h.stored]

namespace Session

variable {store : BlobStore} {cancelAfter? : Option Nat} {container blob : String}

theorem upload_file_ok (hmode : store.overwrite = false) {session middle : Session}
    {path : FilePath} {source : Location} {entry : Entry} {written : Nat}
    (hfound : session.tree.lookUp true path = .ok (source, entry))
    (h : session.upload store cancelAfter? container blob (.fileAt source) =
      (.ok written, middle)) :
    ∃ place content, session.tree.fileOf? path = some (source, content) ∧
      StoresNew store container blob session.tree middle.tree place content ∧
      written = content.length := by
  obtain rfl : middle = _ := (congrArg Prod.snd h).symm
  have hresult := congrArg Prod.fst h
  obtain ⟨place, content, rfl, hstores, hcount⟩ :=
    BlobStore.upload_file_ok hmode hfound hresult
  exact ⟨place, content, fileOf?_eq_some_iff.mpr hfound, hstores, hcount⟩

end Session

namespace Migration

variable {migration : Migration}

/-- Files that were all uploaded are stored, as files of their own, and what was counted are
their bytes. -/
theorem uploadFiles_ok (hmode : migration.store.overwrite = false) {placement : Placement}
    {files : List CollectedFile} {bytes : Nat} {session later : Session}
    (h : migration.uploadFiles placement files session = (.ok bytes, later)) :
    NewBlobs migration.store session.tree later.tree
        (files.map fun file => (placement.container, placement.blobName file.name)) ∧
      (∀ file ∈ files, file.IsStored migration.store placement later.tree) ∧
      bytes = CollectedFile.totalSize later.tree files := by
  induction files generalizing bytes session with
  | nil =>
      simp only [uploadFiles, Prod.mk.injEq, Except.ok.injEq] at h
      obtain ⟨rfl, rfl⟩ := h
      exact ⟨newBlobs_nil (.refl _), by simp, rfl⟩
  | cons file rest ih =>
      obtain ⟨source, entry, written, middle, others, hfound, hupload, hrest, rfl⟩ :=
        uploadFiles_cons_ok h
      obtain ⟨place, content, hsource, hstores, rfl⟩ :=
        Session.upload_file_ok hmode hfound hupload
      obtain ⟨hnew, hstored, hothers⟩ := ih hrest
      -- the other uploads leave the first file and its blob as they are
      have hkept := hnew.kept
      have hsource := (hstores.keptBy.trans hkept).fileOf?_kept hsource
      have hblob := stored?_kept hkept hstores.stores.stored?
      refine ⟨hstores.newBlobs.append hnew, ?_, ?_⟩
      · intro other hother
        rcases List.mem_cons.mp hother with rfl | hother
        · exact ⟨source, place, content, hsource, hblob⟩
        · exact hstored other hother
      · rw [CollectedFile.totalSize, ← hothers, FileTree.fileSize, hsource]

/-- In a run an asset is not placed, or its inputs cannot be collected, or what becomes of its files
becomes of the asset. -/
theorem migrateAsset_run_cases (migration : Migration) (manifest : Manifest) (entry : AssetEntry)
    (session : Session) :
    let expanded := session.mapper.expandAsset entry.asset (.ofManifest manifest)
      migration.templates.path.text
    let collected := CollectedFile.collect session.tree migration.sourceRoot entry.files
    let started : Session := { session with mapper := expanded.2 }
    (∃ error, expanded.1.1 = .error error ∧
        migration.migrateAsset .run manifest entry session = (.error error, started)) ∨
      ∃ placement, expanded.1.1 = .ok placement ∧
        ((∃ error, collected = .error error ∧
            migration.migrateAsset .run manifest entry session = (.error (.io error), started)) ∨
          ∃ files, collected = .ok files ∧
            migration.migrateAsset .run manifest entry session =
              ((migration.uploadFiles placement files started).1.map fun bytes =>
                  ⟨placement, files.map fun file => placement.blobName file.name, bytes⟩,
                (migration.uploadFiles placement files started).2)) := by
  unfold migrateAsset
  cases session.mapper.expandAsset entry.asset (.ofManifest manifest)
      migration.templates.path.text with
  | mk expanded mapper =>
      obtain ⟨answer, lookups⟩ := expanded
      cases answer with
      | error error => exact .inl ⟨error, rfl, rfl⟩
      | ok placement =>
          refine .inr ⟨placement, rfl, ?_⟩
          cases hfiles : CollectedFile.collect session.tree migration.sourceRoot entry.files with
          | error error => exact .inl ⟨error, rfl, by simp only [hfiles]⟩
          | ok files =>
              refine .inr ⟨files, rfl, ?_⟩
              simp only [hfiles]
              cases migration.uploadFiles placement files { session with mapper } with
              | mk result last => cases result <;> rfl

theorem migrateAsset_uploads {manifest : Manifest} {entry : AssetEntry} {session : Session}
    {upload : AssetUpload}
    (h : (migration.migrateAsset .run manifest entry session).1 = .ok upload) :
    ∃ mapper files,
      (session.mapper.expandAsset entry.asset (.ofManifest manifest)
        migration.templates.path.text).1.1 = .ok upload.placement ∧
      CollectedFile.collect session.tree migration.sourceRoot entry.files = .ok files ∧
      upload.blobs = files.map (fun file => upload.placement.blobName file.name) ∧
      migration.uploadFiles upload.placement files { session with mapper } =
        (.ok upload.bytes, (migration.migrateAsset .run manifest entry session).2) := by
  rcases migration.migrateAsset_run_cases manifest entry session with
    ⟨error, _, hrun⟩ | ⟨placement, hplacement, hcases⟩
  · rw [hrun] at h
    exact absurd h (by simp)
  rcases hcases with ⟨error, _, hrun⟩ | ⟨files, hfiles, hrun⟩
  · rw [hrun] at h
    exact absurd h (by simp)
  · rw [hrun] at h ⊢
    cases huploads : migration.uploadFiles placement files
        { session with mapper := (session.mapper.expandAsset entry.asset (.ofManifest manifest)
          migration.templates.path.text).2 } with
    | mk result last =>
        rw [huploads] at h
        cases result with
        | error error => exact absurd h (by simp [Except.map])
        | ok bytes =>
            obtain rfl := Except.ok.inj h
            exact ⟨_, files, hplacement, hfiles, rfl, huploads⟩

/-- An asset that was migrated has been delivered, file by file as they were collected. -/
theorem migrateAsset_ok (hmode : migration.store.overwrite = false) {manifest : Manifest}
    {entry : AssetEntry} {session : Session} {upload : AssetUpload}
    (h : (migration.migrateAsset .run manifest entry session).1 = .ok upload) :
    NewBlobs migration.store session.tree
        (migration.migrateAsset .run manifest entry session).2.tree upload.located ∧
      ∃ files,
        CollectedFile.collect session.tree migration.sourceRoot entry.files = .ok files ∧
        upload.Delivers migration.store files
          (migration.migrateAsset .run manifest entry session).2.tree := by
  obtain ⟨mapper, files, _, hfiles, hblobs, huploads⟩ := migrateAsset_uploads h
  obtain ⟨hnew, hstored, hbytes⟩ := uploadFiles_ok hmode huploads
  refine ⟨?_, files, hfiles, hblobs, hstored, hbytes⟩
  rw [AssetUpload.located, hblobs, List.map_map]
  exact hnew

end Migration

end MediaMigration
