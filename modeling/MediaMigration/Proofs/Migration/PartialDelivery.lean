import MediaMigration.Proofs.Migration.Collection
import MediaMigration.Proofs.Migration.Run

/-!
# What an asset that fails has left

All inputs of an asset are collected before the first file is uploaded, so an asset that cannot be
placed or collected leaves no trace. Otherwise its files are uploaded up to the first that fails.
Over a store that replaces nothing the files before that one are stored whole, nothing of the
failed one is left but directories, and the files behind it were not tried.
-/

namespace MediaMigration

open FileTree BlobStore

namespace CollectedFile

theorem lookUp_of_collect_ok {tree : FileTree} {root : FilePath} {inputs : List FilePath}
    {files : List CollectedFile} (h : collect tree root inputs = .ok files) :
    ∀ input ∈ inputs, ∃ found, tree.lookUp true (root.join input) = .ok found := by
  induction inputs generalizing files with
  | nil => simp
  | cons input rest ih =>
      obtain ⟨place, entry, _, others, hfound, _, hothers, _⟩ := collect_cons_ok h
      intro other hother
      rcases List.mem_cons.mp hother with rfl | hother
      · exact ⟨_, hfound⟩
      · exact ih hothers other hother

def uploadCall (placement : Placement) (file : CollectedFile) : StoreCall :=
  .upload placement.container (placement.blobName file.name)

end CollectedFile

namespace Migration

/-- The uploads of some files have succeeded and the next one has failed: what is new between the
two sessions are the blobs of these files, each a file of its own with all bytes of its file, and
the calls are the uploads of these files and, if the next one could be opened, its own. -/
structure BreaksOff (store : BlobStore) (placement : Placement) (done : List CollectedFile)
    (failed : CollectedFile) (error : MigrationError) (before after : Session) : Prop where
  new : NewBlobs store before.tree after.tree
    (done.map fun file => (placement.container, placement.blobName file.name))
  stored : ∀ file ∈ done, file.IsStored store placement after.tree
  nothing_else : ∀ place content, after.tree.file? place = some content →
    before.tree.file? place = some content ∨
      ∃ file ∈ done, store.stored? placement.container (placement.blobName file.name)
        after.tree = some (place, content)
  calls : ∃ uploads : List LoggedCall,
    uploads.map (fun logged => (logged.call, logged.failure?)) =
        done.map (fun file => (file.uploadCall placement, none)) ∧
      ((∃ cause, after.tree.lookUp true failed.path = .error cause ∧ error = .io cause ∧
          after.log = before.log ++ uploads) ∨
        after.log = before.log ++ uploads ++
          [⟨failed.uploadCall placement, some error, after.tree⟩])

variable {store : BlobStore} {placement : Placement} {done : List CollectedFile}
  {file failed : CollectedFile} {error : MigrationError} {before middle after : Session}

theorem breaksOff_unopened {cause : IoError}
    (h : before.tree.lookUp true failed.path = .error cause) :
    BreaksOff store placement [] failed (.io cause) before before where
  new := newBlobs_nil (.refl _)
  stored := by simp
  nothing_else := fun _ _ hfile => .inl hfile
  calls := ⟨[], rfl, .inl ⟨cause, h, rfl, by rw [List.append_nil]⟩⟩

theorem breaksOff_failed (hmode : store.overwrite = false) {cancelAfter? : Option Nat}
    {content : Content}
    (h : before.upload store cancelAfter? placement.container (placement.blobName failed.name)
      content = (.error error, after)) :
    BreaksOff store placement [] failed error before after := by
  have hresult := congrArg Prod.fst h
  obtain rfl : after = _ := (congrArg Prod.snd h).symm
  have hadded := upload_error hmode hresult
  refine ⟨newBlobs_nil hadded.toKeptBy, by simp, ?_, [], rfl, .inr ?_⟩
  · intro place found hfile
    left
    rw [← hadded.file?_eq place]
    exact hfile
  · simp only [Session.upload, Session.returned, List.append_nil] at hresult ⊢
    rw [hresult]
    rfl

theorem BreaksOff.cons (h : BreaksOff store placement done failed error middle after)
    (hmode : store.overwrite = false) {cancelAfter? : Option Nat} {source : Location}
    {entry : Entry} {written : Nat}
    (hfound : before.tree.lookUp true file.path = .ok (source, entry))
    (hupload : before.upload store cancelAfter? placement.container
      (placement.blobName file.name) (.fileAt source) = (.ok written, middle)) :
    BreaksOff store placement (file :: done) failed error before after := by
  obtain ⟨place, content, hsource, hstores, _⟩ := Session.upload_file_ok hmode hfound hupload
  have hblob := stored?_kept h.new.kept hstores.stores.stored?
  refine ⟨hstores.newBlobs.append h.new, ?_, ?_, ?_⟩
  · intro other hother
    rcases List.mem_cons.mp hother with rfl | hother
    · exact ⟨source, place, content,
        (hstores.keptBy.trans h.new.kept).fileOf?_kept hsource, hblob⟩
    · exact h.stored other hother
  · intro spot found hfile
    rcases h.nothing_else spot found hfile with hmiddle | ⟨other, hother, hstored⟩
    · rw [hstores.stores.file?_after] at hmiddle
      split at hmiddle
      · next hspot =>
          obtain rfl := Option.some.inj hmiddle
          exact .inr ⟨file, List.mem_cons_self, hspot ▸ hblob⟩
      · exact .inl hmiddle
    · exact .inr ⟨other, List.mem_cons_of_mem _ hother, hstored⟩
  · obtain ⟨uploads, huploads, hlog⟩ := h.calls
    have hresult := congrArg Prod.fst hupload
    have hmiddle : middle.log =
        before.log ++ [⟨file.uploadCall placement, none, middle.tree⟩] := by
      obtain rfl : middle = _ := (congrArg Prod.snd hupload).symm
      simp only [Session.upload, Session.returned] at hresult ⊢
      rw [hresult]
      rfl
    refine ⟨⟨file.uploadCall placement, none, middle.tree⟩ :: uploads, ?_, ?_⟩
    · rw [List.map_cons, List.map_cons, huploads]
    · rw [hmiddle] at hlog
      simpa using hlog

theorem error_of_map {α β : Type} {f : α → β} {result : Except MigrationError α}
    (h : result.map f = .error error) : result = .error error := by
  cases result with
  | ok value => exact absurd h (by simp [Except.map])
  | error cause => rw [Except.error.inj h]

/-- Uploads of files that fail break off at one of them. -/
theorem uploadFiles_breaksOff {migration : Migration}
    (hmode : migration.store.overwrite = false) {files : List CollectedFile}
    (h : (migration.uploadFiles placement files before).1 = .error error) :
    ∃ done failed rest, files = done ++ failed :: rest ∧
      BreaksOff migration.store placement done failed error before
        (migration.uploadFiles placement files before).2 := by
  induction files generalizing before with
  | nil => exact absurd h (by simp [uploadFiles])
  | cons file rest ih =>
      rcases migration.uploadFiles_cons_cases placement file rest before with
        ⟨cause, hfound, hrun⟩ | ⟨source, entry, hfound, hcases⟩
      · rw [hrun] at h ⊢
        obtain rfl := Except.error.inj h
        exact ⟨[], file, rest, rfl, breaksOff_unopened hfound⟩
      rcases hcases with ⟨cause, last, hupload, hrun⟩ | ⟨written, middle, hupload, hrun⟩
      · rw [hrun] at h ⊢
        obtain rfl := Except.error.inj h
        exact ⟨[], file, rest, rfl, breaksOff_failed hmode hupload⟩
      · rw [hrun] at h ⊢
        obtain ⟨done, failed, others, rfl, hbreaks⟩ := ih (error_of_map h)
        exact ⟨file :: done, failed, others, rfl, hbreaks.cons hmode hfound hupload⟩

/-- Whatever is reported of an asset by a run over a store that replaces nothing: if it could not
be placed or an input could not be collected, for which it is enough that one of them is not there,
it is reported as failed, nothing was called, and the tree is as before. If it was placed
and collected and is reported as failed, its uploads broke off at one of its files. -/
theorem failed_asset_breaks_off (migration : Migration)
    (hmode : migration.store.overwrite = false) (manifest : Manifest) (session : Session)
    {index : Nat} {report : UnitReport AssetUpload}
    (hreport : (migration.execute .run manifest session).1.assets[index]? = some report) :
    ∃ entry, manifest.assets[index]? = some entry ∧ report.unit = entry.asset.name ∧
      let before := migration.sessionBeforeAsset manifest index session
      let after := (migration.migrateAsset .run manifest entry before).2
      let placed := (before.mapper.expandAsset entry.asset (.ofManifest manifest)
        migration.templates.path.text).1.1
      let collected := CollectedFile.collect before.tree migration.sourceRoot entry.files
      ((∃ input ∈ entry.files, ∃ cause,
          before.tree.lookUp true (migration.sourceRoot.join input) = .error cause) →
        ∃ cause, collected = .error cause) ∧
      ((∃ error, placed = .error error) ∨ (∃ cause, collected = .error cause) →
        (∃ error, report.outcome = .error error) ∧ after.log = before.log ∧
          after.tree = before.tree) ∧
      ∀ placement files error, placed = .ok placement → collected = .ok files →
        report.outcome = .error error →
        ∃ done failed rest, files = done ++ failed :: rest ∧
          BreaksOff migration.store placement done failed error before after := by
  have hassets := (migration.assets_execute .run manifest session).resolve_left fun hnone => by
    simp [hnone] at hreport
  rw [hassets] at hreport
  obtain ⟨entry, hentry, hunit, houtcome, _⟩ := attempt_entry hreport
  refine ⟨entry, hentry, hunit, ?_⟩
  intro before after placed collected
  have hrun := migration.migrateAsset_run_cases manifest entry before
  change report.outcome = (migration.migrateAsset .run manifest entry before).1 at houtcome
  refine ⟨?_, ?_, ?_⟩
  · rintro ⟨input, hinput, cause, hmissing⟩
    cases hcollected : collected with
    | error other => exact ⟨other, rfl⟩
    | ok files =>
        obtain ⟨found, hfound⟩ := CollectedFile.lookUp_of_collect_ok hcollected input hinput
        exact absurd (hmissing.symm.trans hfound) (by simp)
  · intro hfails
    rcases hrun with ⟨error, _, hrun⟩ | ⟨placement, hplaced, hcases⟩
    · exact ⟨⟨error, houtcome.trans (congrArg Prod.fst hrun)⟩,
        congrArg (Session.log ∘ Prod.snd) hrun, congrArg (Session.tree ∘ Prod.snd) hrun⟩
    rcases hcases with ⟨cause, _, hrun⟩ | ⟨files, hfiles, hrun⟩
    · exact ⟨⟨_, houtcome.trans (congrArg Prod.fst hrun)⟩,
        congrArg (Session.log ∘ Prod.snd) hrun, congrArg (Session.tree ∘ Prod.snd) hrun⟩
    · rcases hfails with ⟨error, herror⟩ | ⟨cause, hcause⟩
      · exact absurd (hplaced.symm.trans herror) (by simp)
      · exact absurd (hfiles.symm.trans hcause) (by simp)
  · intro placement files error hplacement hcollected hfailed
    rcases hrun with ⟨other, hplaced, _⟩ | ⟨other, hplaced, hcases⟩
    · exact absurd (hplacement.symm.trans hplaced) (by simp)
    obtain rfl : placement = other := Except.ok.inj (hplacement.symm.trans hplaced)
    rcases hcases with ⟨cause, hcause, _⟩ | ⟨others, hothers, hrun⟩
    · exact absurd (hcollected.symm.trans hcause) (by simp)
    obtain rfl : files = others := Except.ok.inj (hcollected.symm.trans hothers)
    have hresult := (congrArg Prod.fst hrun).symm.trans (houtcome.symm.trans hfailed)
    obtain ⟨done, failed, rest, hsplit, hbreaks⟩ :=
      uploadFiles_breaksOff hmode (error_of_map hresult)
    have hlast : after = _ := congrArg Prod.snd hrun
    rw [hlast]
    exact ⟨done, failed, rest, hsplit,
      hbreaks.new, hbreaks.stored, hbreaks.nothing_else, hbreaks.calls⟩

/-! ## An asset whose second blob is there already -/

namespace TakenBlob

def tree : FileTree :=
  ((((((Twins.tree.put ["in", "b"] (.file [4])).put ["in", "c"] (.file [5])).put
    ["store"] .directory).put ["store", "media"] .directory).put
    ["store", "media", "one"] .directory).put ["store", "media", "one", "b"] (.file [6]))

def migration : Migration :=
  ⟨Twins.templates, keeping ⟨"store"⟩, ⟨"."⟩, none⟩

def manifest : Manifest where
  assets := [Twins.asset]

def started : Session :=
  migration.sessionBeforeAsset manifest 0 { tree }

def left : Session :=
  (migration.migrateAsset .run manifest Twins.asset started).2

end TakenBlob

theorem outcome_takenBlob :
    ((TakenBlob.migration.execute .run TakenBlob.manifest
      { tree := TakenBlob.tree }).1.assets[0]?.map UnitReport.outcome) =
        some (.error (.blobExists "media" "one/b")) := by
  decide +kernel

theorem placed_takenBlob :
    (TakenBlob.started.mapper.expandAsset Twins.asset.asset (.ofManifest TakenBlob.manifest)
      TakenBlob.migration.templates.path.text).1.1 = .ok ⟨"media", "one/"⟩ := by
  decide +kernel

theorem collected_takenBlob :
    CollectedFile.collect TakenBlob.started.tree TakenBlob.migration.sourceRoot
      Twins.asset.files = .ok [⟨⟨"./in/a"⟩, "a"⟩, ⟨⟨"./in/b"⟩, "b"⟩, ⟨⟨"./in/c"⟩, "c"⟩] := by
  decide +kernel

/-- The first file is stored, the second finds its name taken, and the third is not tried. -/
theorem failed_asset_breaks_off_taken :
    TakenBlob.left.calls = [.upload "media" "one/a", .upload "media" "one/b"] ∧
      TakenBlob.left.tree.file? ["store", "media", "one", "a"] = some [1, 2, 3] ∧
      ∃ done failed rest, [⟨⟨"./in/a"⟩, "a"⟩, ⟨⟨"./in/b"⟩, "b"⟩, ⟨⟨"./in/c"⟩, "c"⟩] =
          done ++ failed :: rest ∧
        BreaksOff TakenBlob.migration.store ⟨"media", "one/"⟩ done failed
          (.blobExists "media" "one/b") TakenBlob.started TakenBlob.left := by
  have hcalls : TakenBlob.left.calls = [.upload "media" "one/a", .upload "media" "one/b"] := by
    decide +kernel
  have hfile : TakenBlob.left.tree.file? ["store", "media", "one", "a"] = some [1, 2, 3] := by
    decide +kernel
  obtain ⟨report, hreport, herror⟩ := Option.map_eq_some_iff.mp outcome_takenBlob
  obtain ⟨entry, hentry, _, _, _, hbreaks⟩ :=
    failed_asset_breaks_off TakenBlob.migration rfl TakenBlob.manifest _ hreport
  obtain rfl : Twins.asset = entry := Option.some.inj hentry
  refine ⟨hcalls, hfile, ?_⟩
  exact hbreaks _ _ _ placed_takenBlob collected_takenBlob herror

end Migration

end MediaMigration
