import MediaMigration.Proofs.Migration.Isolation
import MediaMigration.Proofs.Resource.Fields

/-!
# Streaming URLs of a manifest

A manifest finds the locators of an asset by its name: they are those of the first entry of that
name. So an entry that is the first of its name goes by its own locators, and any other entry goes
by those of somebody else. A unit fails for want of a streaming URL only while its template is
expanded: neither collecting files nor storing them fails for that reason.
-/

namespace MediaMigration

open BlobStore

/-! ## Looking up a streaming URL -/

/-- The first path of the first locator that publishes any. -/
def StreamingLocator.firstPath? (locators : List StreamingLocator) : Option String :=
  locators.findSome? fun locator => locator.paths.head?

namespace LocatorSource

variable {manifest : Manifest} {asset : Asset} {entry : AssetEntry} {key : String}

theorem firstPath_of_locators (asset : Asset) (locators : List StreamingLocator) (index : Nat) :
    (firstPath asset (locators.map fun locator => .locator locator.name (.ok locator.paths))
        index).1 =
      match StreamingLocator.firstPath? locators with
      | some url => .ok url
      | none => .error (noStreamingUrl asset) := by
  induction locators generalizing index with
  | nil => rfl
  | cons locator rest ih =>
      rw [StreamingLocator.firstPath?, List.map_cons, List.findSome?_cons]
      cases hpaths : locator.paths with
      | nil => exact ih (index + 1)
      | cons path others => rfl

/-- The streaming URL of an asset, by the entry that the manifest finds for its name. -/
theorem value_of_entryNamed (hentry : manifest.entryNamed asset.name = some entry)
    (hkey : Text.equalIgnoringCase key "StreamingUrl" = true) :
    (asset.value (ofManifest manifest) key).1 =
      match StreamingLocator.firstPath? entry.locators with
      | some url => .ok (some url)
      | none => .error (noStreamingUrl asset) := by
  have hfield : AssetField.parse? key = some .streamingUrl :=
    AssetField.parse?_eq_some_iff.mpr hkey
  have hfound := firstPath_of_locators asset entry.locators 0
  unfold Asset.value streamingUrl
  simp only [hfield, ofManifest, hentry]
  cases hpath : firstPath asset
      (entry.locators.map fun locator => .locator locator.name (.ok locator.paths)) 0 with
  | mk answer calls =>
      rw [hpath] at hfound
      obtain rfl : answer = _ := hfound
      cases StreamingLocator.firstPath? entry.locators <;> rfl

end LocatorSource

/-! ## Failures of the store -/

def MigrationError.IsOfStore : MigrationError → Prop
  | .blobExists _ _ => True
  | .uploadFailed _ _ _ => True
  | .cancelled => True
  | .io _ => True
  | _ => False

namespace BlobStore

variable {store : BlobStore} {container blob : String} {path : FilePath} {tree : FileTree}
  {error : MigrationError}

theorem openTarget_isOfStore (h : (store.openTarget container blob path tree).1 = .error error) :
    error.IsOfStore := by
  rw [openTarget_def] at h
  split at h
  · exact Except.error.inj h ▸ trivial
  · split at h
    · exact absurd h (by simp)
    · exact Except.error.inj h ▸ trivial
    · exact Except.error.inj h ▸ trivial

theorem upload_isOfStore {content : Content} {cancellation : Cancellation}
    (h : (store.upload container blob content cancellation tree).result = .error error) :
    error.IsOfStore := by
  rcases upload_causes h with rfl | ⟨_, rfl⟩ | hnames | ⟨_, _, hopen⟩
  · trivial
  · trivial
  · rw [blobPath_cause hnames]
    trivial
  · exact openTarget_isOfStore hopen

end BlobStore

namespace Migration

variable {migration : Migration} {manifest : Manifest} {entry : AssetEntry}

theorem uploadFiles_isOfStore {placement : Placement} {files : List CollectedFile}
    {session : Session} {error : MigrationError}
    (h : (migration.uploadFiles placement files session).1 = .error error) : error.IsOfStore := by
  induction files generalizing session with
  | nil => exact absurd h (by simp [uploadFiles])
  | cons file rest ih =>
      rcases migration.uploadFiles_cons_cases placement file rest session with
        ⟨cause, _, hrun⟩ | ⟨place, entry, _, ⟨cause, after, hupload, hrun⟩ | ⟨_, after, _, hrun⟩⟩
      · rw [hrun] at h
        exact Except.error.inj h ▸ trivial
      · rw [hrun] at h
        have hfailed := congrArg Prod.fst hupload
        rw [← Except.error.inj h]
        exact upload_isOfStore hfailed
      · rw [hrun] at h
        cases hothers : (migration.uploadFiles placement rest after).1 with
        | ok bytes => exact absurd h (by simp [hothers, Except.map])
        | error cause =>
            rw [hothers] at h
            exact ih (hothers.trans h)

/-! ## Units -/

/-- An asset fails as its expansion does, or goes where that says unless storing fails. -/
theorem migrateAsset_outcome (migration : Migration) (mode : Mode) (manifest : Manifest)
    (entry : AssetEntry) (session : Session) :
    match migration.placementOf manifest entry with
    | .error error => (migration.migrateAsset mode manifest entry session).1 = .error error
    | .ok placement =>
        (∃ error : MigrationError, error.IsOfStore ∧
          (migration.migrateAsset mode manifest entry session).1 = .error error) ∨
        ∃ upload, (migration.migrateAsset mode manifest entry session).1 = .ok upload ∧
          upload.placement = placement := by
  obtain ⟨lookups, mapper, hexpanded⟩ :=
    exists_expandAsset_eq migration manifest entry session.mapper
  unfold migrateAsset
  rw [hexpanded]
  cases migration.placementOf manifest entry with
  | error error => rfl
  | ok placement =>
      simp only
      cases CollectedFile.collect session.tree migration.sourceRoot entry.files with
      | error error => exact .inl ⟨.io error, trivial, rfl⟩
      | ok files =>
          cases mode with
          | plan => exact .inr ⟨_, rfl, rfl⟩
          | run =>
              simp only
              cases hstored : migration.uploadFiles placement files { session with mapper } with
              | mk result last =>
                  cases result with
                  | error error =>
                      have hfailed := congrArg Prod.fst hstored
                      exact .inl ⟨error, uploadFiles_isOfStore hfailed, rfl⟩
                  | ok bytes => exact .inr ⟨_, rfl, rfl⟩

theorem asset_of_report {mode : Mode} {session : Session} {index : Nat}
    {report : UnitReport AssetUpload}
    (h : (migration.execute mode manifest session).1.assets[index]? = some report) :
    ∃ entry middle, manifest.assets[index]? = some entry ∧
      report.outcome = (migration.migrateAsset mode manifest entry middle).1 := by
  obtain hnone | hassets := migration.assets_execute mode manifest session
  · rw [hnone] at h
    exact absurd h (by simp)
  · rw [hassets] at h
    obtain ⟨entry, hentry, _, houtcome, _⟩ := attempt_entry h
    exact ⟨entry, _, hentry, houtcome⟩

def textFor (migration : Migration) (manifest : Manifest) (entry : AssetEntry) :
    Except MigrationError (List Char) :=
  Expansion.textOf migration.templates.path.text (entry.asset.resolver (.ofManifest manifest)) []

theorem placementOf_eq_textFor (migration : Migration) (manifest : Manifest) (entry : AssetEntry) :
    migration.placementOf manifest entry =
      (migration.textFor manifest entry).map fun text =>
        Placement.ofName (ResourceName.sanitize (String.ofList text)) := by
  rw [placementOf, Mapper.expandAsset, Mapper.expandPlacement_eq, Mapper.expand_eq_textOf, textFor]
  cases Expansion.textOf migration.templates.path.text
      (entry.asset.resolver (.ofManifest manifest)) [] <;> rfl

/-- A template that names the streaming URL can be expanded for an entry that is the first of its
name if one of its locators publishes a path, and then the first such path is put in. -/
theorem textFor_cases (migration : Migration)
    (hfirst : manifest.entryNamed entry.asset.name = some entry)
    (htoken : ∃ key ∈ Piece.keys (Piece.ofText migration.templates.path.text.toList),
      Text.equalIgnoringCase key "StreamingUrl" = true) :
    match StreamingLocator.firstPath? entry.locators with
    | none => migration.textFor manifest entry =
        .error (LocatorSource.noStreamingUrl entry.asset)
    | some url =>
        ∃ value? : String → Option String,
          migration.textFor manifest entry =
            .ok ((Piece.ofText migration.templates.path.text.toList).flatMap
              (Piece.filledBy value?)) ∧
          ∀ key, Text.equalIgnoringCase key "StreamingUrl" = true → value? key = some url := by
  let subject : Subject := .asset entry.asset (.ofManifest manifest)
  have hvalue : ∀ key, Text.equalIgnoringCase key "StreamingUrl" = true → subject.value key =
      match StreamingLocator.firstPath? entry.locators with
      | some url => .ok (some url)
      | none => .error (LocatorSource.noStreamingUrl entry.asset) :=
    fun key hkey => LocatorSource.value_of_entryNamed hfirst hkey
  have hcases := Expansion.textOf_cases subject.resolver_answers migration.templates.path.text []
  cases hpath : StreamingLocator.firstPath? entry.locators with
  | none =>
      rw [hpath] at hvalue
      rcases hcases with ⟨hanswers, _⟩ | ⟨key, _, error, herror, htext⟩
      · obtain ⟨key, hkey, hurl⟩ := htoken
        obtain ⟨value?, hanswer⟩ := hanswers key hkey
        rw [hvalue key hurl] at hanswer
        exact absurd hanswer (by simp)
      · have hurl : Text.equalIgnoringCase key "StreamingUrl" = true :=
          Subject.looksUp_of_error herror
        rw [hvalue key hurl] at herror
        rw [← Except.error.inj herror] at htext
        exact htext
  | some url =>
      rw [hpath] at hvalue
      rcases hcases with ⟨_, htext⟩ | ⟨key, _, error, herror, _⟩
      · refine ⟨fun key => valueOf? (subject.value key), htext, ?_⟩
        intro key hkey
        simp only [hvalue key hkey, valueOf?]
      · have hurl : Text.equalIgnoringCase key "StreamingUrl" = true :=
          Subject.looksUp_of_error herror
        rw [hvalue key hurl] at herror
        exact absurd herror (by simp)

theorem firstPath?_eq_none_iff {locators : List StreamingLocator} :
    StreamingLocator.firstPath? locators = none ↔ ∀ locator ∈ locators, locator.paths = [] := by
  simp [StreamingLocator.firstPath?]

theorem firstPath?_of_split {locators before after : List StreamingLocator}
    {locator : StreamingLocator} {url : String} {others : List String}
    (hsplit : locators = before ++ locator :: after)
    (hbefore : ∀ earlier ∈ before, earlier.paths = []) (hpaths : locator.paths = url :: others) :
    StreamingLocator.firstPath? locators = some url := by
  have hnone : StreamingLocator.firstPath? before = none := firstPath?_eq_none_iff.mpr hbefore
  rw [StreamingLocator.firstPath?] at hnone ⊢
  rw [hsplit, List.findSome?_append, hnone, Option.none_or, List.findSome?_cons, hpaths]
  rfl

/-- If the template of paths names the streaming URL, an asset that is the first of its name in the
manifest is reported without a streaming URL exactly if none of its own locators publishes a path.
If one does, the first path of the first such locator stands for each token of the streaming URL, in
the text that the place of the asset is made of. -/
theorem streaming_url_is_own {mode : Mode} {session : Session} {index : Nat}
    {report : UnitReport AssetUpload} (hentry : manifest.assets[index]? = some entry)
    (hfirst : manifest.entryNamed entry.asset.name = some entry)
    (htoken : ∃ key ∈ Piece.keys (Piece.ofText migration.templates.path.text.toList),
      Text.equalIgnoringCase key "StreamingUrl" = true)
    (hreport : (migration.execute mode manifest session).1.assets[index]? = some report) :
    ((∃ field resource, report.outcome = .error (.valueNotFound field resource)) ↔
      ∀ locator ∈ entry.locators, locator.paths = []) ∧
    ∀ before locator after url others, entry.locators = before ++ locator :: after →
      (∀ earlier ∈ before, earlier.paths = []) → locator.paths = url :: others →
      ∃ value? : String → Option String,
        migration.textFor manifest entry =
          .ok ((Piece.ofText migration.templates.path.text.toList).flatMap
            (Piece.filledBy value?)) ∧
        (∀ key, Text.equalIgnoringCase key "StreamingUrl" = true → value? key = some url) ∧
        ∀ upload, report.outcome = .ok upload →
          upload.placement = Placement.ofName (ResourceName.sanitize (String.ofList
            ((Piece.ofText migration.templates.path.text.toList).flatMap
              (Piece.filledBy value?)))) := by
  obtain ⟨other, middle, hother, houtcome⟩ := asset_of_report hreport
  obtain rfl := Option.some.inj (hentry.symm.trans hother)
  have htext := migration.textFor_cases hfirst htoken
  have hplaced := migrateAsset_outcome migration mode manifest entry middle
  rw [placementOf_eq_textFor, ← houtcome] at hplaced
  constructor
  · rw [← firstPath?_eq_none_iff]
    cases hpath : StreamingLocator.firstPath? entry.locators with
    | none =>
        rw [hpath] at htext
        rw [htext] at hplaced
        exact ⟨fun _ => rfl, fun _ => ⟨_, _, hplaced⟩⟩
    | some url =>
        rw [hpath] at htext
        obtain ⟨value?, hfilled, _⟩ := htext
        rw [hfilled] at hplaced
        refine ⟨?_, fun h => absurd h (by simp)⟩
        rintro ⟨field, resource, hfailed⟩
        rcases hplaced with ⟨error, hstore, herror⟩ | ⟨upload, hok, _⟩
        · rw [hfailed] at herror
          rw [← Except.error.inj herror] at hstore
          exact hstore.elim
        · rw [hfailed] at hok
          exact absurd hok (by simp)
  · intro before locator after url others hsplit hbefore hpaths
    rw [firstPath?_of_split hsplit hbefore hpaths] at htext
    obtain ⟨value?, hfilled, hvalues⟩ := htext
    refine ⟨value?, hfilled, hvalues, ?_⟩
    intro upload hok
    rw [hfilled] at hplaced
    rcases hplaced with ⟨error, _, herror⟩ | ⟨other, hother, hplacement⟩
    · rw [hok] at herror
      exact absurd herror (by simp)
    · rw [hok] at hother
      rw [Except.ok.inj hother, hplacement]

/-! ## An entry that is the first of its name, and one that is not -/

namespace Namesakes

def templates : Templates :=
  ⟨⟨"$\x7bstreamingurl\x7d", .asset, by decide +kernel⟩, MadeDirectories.templates.container, none,
    none⟩

def setup : Migration :=
  ⟨templates, ⟨⟨"store"⟩, false⟩, ⟨"."⟩, none⟩

def clip (path : String) : AssetEntry where
  asset := { name := "clip" }
  locators := [{ name := "idle" }, { name := "hls", paths := [path, "/later"] }]

def twoClips : Manifest where
  assets := [clip "/one/m", clip "/two/m"]

def planned : MigrationReport :=
  (setup.execute .plan twoClips { tree := .empty }).1

end Namesakes

theorem exists_report_placed {reports : List (UnitReport AssetUpload)} {index : Nat}
    {placement : Placement}
    (h : (reports.map fun report => report.target?.map AssetUpload.placement)[index]? =
      some (some placement)) :
    ∃ report upload, reports[index]? = some report ∧ report.outcome = .ok upload ∧
      upload.placement = placement := by
  rw [List.getElem?_map, Option.map_eq_some_iff] at h
  obtain ⟨report, hreport, htarget⟩ := h
  obtain ⟨upload, hupload, hplacement⟩ := Option.map_eq_some_iff.mp htarget
  refine ⟨report, upload, hreport, ?_, hplacement⟩
  unfold UnitReport.target? at hupload
  split at hupload
  · next houtcome => rw [houtcome, Option.some.inj hupload]
  · exact absurd hupload (by simp)

theorem namesakes_places :
    (Namesakes.planned.assets.map fun report => report.target?.map AssetUpload.placement) =
      [some ⟨"a", "one/m/"⟩, some ⟨"a", "one/m/"⟩] := by
  decide +kernel

theorem namesakes_keys :
    Piece.keys (Piece.ofText Namesakes.templates.path.text.toList) = ["streamingurl"] := by
  rw [← Piece.keys_ofText]
  decide +kernel

/-- The first of two assets of one name goes where its own locators say. -/
theorem first_namesake_goes_by_own_url :
    Namesakes.twoClips.entryNamed "clip" = some (Namesakes.clip "/one/m") ∧
      ∃ report upload, Namesakes.planned.assets[0]? = some report ∧ report.outcome = .ok upload ∧
        ∃ value? : String → Option String, value? "streamingurl" = some "/one/m" ∧
          upload.placement = Placement.ofName (ResourceName.sanitize (String.ofList
            ((Piece.ofText Namesakes.templates.path.text.toList).flatMap
              (Piece.filledBy value?)))) := by
  have hfirst : Namesakes.twoClips.entryNamed (Namesakes.clip "/one/m").asset.name =
      some (Namesakes.clip "/one/m") := by
    decide +kernel
  have htoken : ∃ key ∈ Piece.keys (Piece.ofText Namesakes.setup.templates.path.text.toList),
      Text.equalIgnoringCase key "StreamingUrl" = true := by
    refine ⟨"streamingurl", ?_, by decide +kernel⟩
    have hkeys := namesakes_keys
    unfold Namesakes.setup
    rw [hkeys]
    exact List.mem_singleton.mpr rfl
  have hplaces := congrArg (fun places => places[0]?) namesakes_places
  obtain ⟨report, upload, hreport, houtcome, _⟩ := exists_report_placed hplaces
  obtain ⟨_, hown⟩ := streaming_url_is_own rfl hfirst htoken hreport
  obtain ⟨value?, _, hvalues, hplaced⟩ :=
    hown [{ name := "idle" }] { name := "hls", paths := ["/one/m", "/later"] } [] "/one/m"
      ["/later"] rfl (by simp) rfl
  exact ⟨hfirst, report, upload, hreport, houtcome, value?,
    hvalues "streamingurl" (by decide +kernel), hplaced upload houtcome⟩

/-- The second one goes there too, and not where its own locators say. -/
theorem second_namesake_goes_by_other_url :
    Namesakes.twoClips.assets[1]? = some (Namesakes.clip "/two/m") ∧
      StreamingLocator.firstPath? (Namesakes.clip "/two/m").locators = some "/two/m" ∧
      ∃ report upload, Namesakes.planned.assets[1]? = some report ∧ report.outcome = .ok upload ∧
        upload.placement = ⟨"a", "one/m/"⟩ ∧
        upload.placement ≠ Placement.ofName (ResourceName.sanitize "/two/m") := by
  have hplaces := congrArg (fun places => places[1]?) namesakes_places
  obtain ⟨report, upload, hreport, houtcome, hplacement⟩ := exists_report_placed hplaces
  refine ⟨rfl, by decide +kernel, report, upload, hreport, houtcome, hplacement, ?_⟩
  rw [hplacement]
  decide +kernel

end Migration

end MediaMigration
