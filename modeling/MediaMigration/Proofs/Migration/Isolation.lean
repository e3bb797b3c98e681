import MediaMigration.Proofs.Migration.Preview
import MediaMigration.Proofs.Migration.SteadyInputs

/-!
# Assets do not disturb each other

The assets of a manifest share the memory of the mapper, the source of locators, the root of
the store and its directories, and a run goes on after a failure. Still, if their names are different
and so are the containers they go to, each asset fares as it would alone: the units before
it and behind it leave its inputs and its container as they are, and at most make the way to the
root of the store before it does. The exception are inputs that go by what is made on this
way.
-/

namespace MediaMigration

open FileTree BlobStore

/-! ## Where an asset goes -/

namespace LocatorSource

/-- What an asset expands to depends on its own locators only. -/
theorem value_eq {asset : Asset} {source other : LocatorSource}
    (h : source.items asset = other.items asset) (key : String) :
    asset.value source key = asset.value other key := by
  unfold Asset.value streamingUrl
  rw [h]

theorem resolver_eq {asset : Asset} {source other : LocatorSource}
    (h : source.items asset = other.items asset) : asset.resolver source = asset.resolver other := by
  unfold Asset.resolver
  simp only [value_eq h]

end LocatorSource

theorem Manifest.entryNamed_of_mem {manifest : Manifest} {entry : AssetEntry}
    (hnames : (manifest.assets.map fun entry => entry.asset.name).Nodup)
    (hmem : entry ∈ manifest.assets) : manifest.entryNamed entry.asset.name = some entry := by
  unfold Manifest.entryNamed
  generalize manifest.assets = assets at hnames hmem
  induction assets with
  | nil => exact absurd hmem (by simp)
  | cons first rest ih =>
      rw [List.map_cons, List.nodup_cons] at hnames
      rcases List.mem_cons.mp hmem with rfl | hrest
      · simp
      · have hother : first.asset.name ≠ entry.asset.name := by
          intro hsame
          exact hnames.1 (hsame ▸ List.mem_map_of_mem hrest)
        rw [List.find?_cons_of_neg (by simpa using hother)]
        exact ih hnames.2 hrest

namespace Migration

def placementOf (migration : Migration) (manifest : Manifest) (entry : AssetEntry) :
    Except MigrationError Placement :=
  (Mapper.new.expandAsset entry.asset (.ofManifest manifest) migration.templates.path.text).1.1

/-- The container that an asset goes to, if it goes anywhere. -/
def containerOf? (migration : Migration) (manifest : Manifest) (entry : AssetEntry) :
    Option String :=
  (migration.placementOf manifest entry).toOption.map Placement.container

variable {migration : Migration} {manifest : Manifest} {entry : AssetEntry}

/-- Whatever a mapper remembers, an asset goes to the same place. -/
theorem exists_expandAsset_eq (migration : Migration) (manifest : Manifest) (entry : AssetEntry)
    (mapper : Mapper) :
    ∃ lookups later,
      mapper.expandAsset entry.asset (.ofManifest manifest) migration.templates.path.text =
        ((migration.placementOf manifest entry, lookups), later) := by
  have hsame := mapper.expandAsset_of_any Mapper.new entry.asset (.ofManifest manifest)
    migration.templates.path.text
  unfold placementOf
  cases hexpanded : mapper.expandAsset entry.asset (.ofManifest manifest)
      migration.templates.path.text with
  | mk expanded later =>
      rw [hexpanded] at hsame
      exact ⟨expanded.2, later, by rw [← hsame]⟩

/-- A manifest of assets that have different names and go to different containers. -/
structure KeepsApart (migration : Migration) (manifest : Manifest) : Prop where
  no_containers : manifest.containers = []
  names : (manifest.assets.map fun entry => entry.asset.name).Nodup
  containers : (manifest.assets.filterMap (migration.containerOf? manifest)).Nodup

instance (migration : Migration) (manifest : Manifest) :
    Decidable (migration.KeepsApart manifest) :=
  decidable_of_iff
    (manifest.containers = [] ∧ (manifest.assets.map fun entry => entry.asset.name).Nodup ∧
      (manifest.assets.filterMap (migration.containerOf? manifest)).Nodup)
    ⟨fun h => ⟨h.1, h.2.1, h.2.2⟩, fun h => ⟨h.no_containers, h.names, h.containers⟩⟩

theorem containerOf?_of_placement {placement : Placement}
    (h : migration.placementOf manifest entry = .ok placement) :
    migration.containerOf? manifest entry = some placement.container := by
  rw [containerOf?, h]
  rfl

theorem placementOf_alone (hnames : (manifest.assets.map fun entry => entry.asset.name).Nodup)
    (hmem : entry ∈ manifest.assets) :
    migration.placementOf { assets := [entry] } entry = migration.placementOf manifest entry := by
  have hitems : (LocatorSource.ofManifest { assets := [entry] }).items entry.asset =
      (LocatorSource.ofManifest manifest).items entry.asset := by
    have halone : Manifest.entryNamed { assets := [entry] } entry.asset.name = some entry :=
      Manifest.entryNamed_of_mem (by simp) (by simp)
    simp only [LocatorSource.ofManifest, halone, Manifest.entryNamed_of_mem hnames hmem]
  unfold placementOf Mapper.expandAsset
  rw [LocatorSource.resolver_eq hitems]

/-! ## The same asset in two trees -/

variable {start : FileTree}

/-- What two runs of the same asset have in common: both trees have grown from the same start, and
the container that the asset goes to is the same in both. The way to it is there in the second
tree once it is in the first. -/
structure Alike (migration : Migration) (start : FileTree) (name : String)
    (alone session : Session) : Prop where
  alone_grown : GrownAt migration.store.root start alone.tree
  grown : GrownAt migration.store.root start session.tree
  ahead : IsAhead (start.locationOf migration.store.root) name alone.tree session.tree

theorem Alike.refl {name : String} {alone session : Session} (hplain : start.IsPlain)
    (halone : alone.tree = start) (hsession : session.tree = start) :
    migration.Alike start name alone session := by
  refine ⟨?_, ?_, ?_⟩
  · rw [halone]
    exact .refl hplain
  · rw [hsession]
    exact .refl hplain
  · rw [halone, hsession]
    exact .refl _ _ _

theorem Alike.looked {name : String} {alone session : Session}
    (h : migration.Alike start name alone session) :
    migration.Alike start name alone (session.looked migration.cancelAfter?) := by
  refine ⟨h.alone_grown, ?_, ?_⟩
  · rw [Session.tree_looked]
    exact h.grown
  · rw [Session.tree_looked]
    exact h.ahead

theorem Alike.upload {name : String} {alone session : Session}
    (h : migration.Alike start name alone session) (hnever : migration.cancelAfter? = none)
    (hups : start.GoesUpFromDirectories migration.store.root) {source : Location} {held : Bytes}
    (hfile : start.entryAt source = some (.file held))
    (hapart : ¬ IsNear (start.locationOf migration.store.root) source) (blob : String) :
    let first := alone.upload migration.store migration.cancelAfter? name blob (.fileAt source)
    let second := session.upload migration.store migration.cancelAfter? name blob (.fileAt source)
    second.1 = first.1 ∧ migration.Alike start name first.2 second.2 := by
  have hkept : ∀ {later : FileTree}, GrownAt migration.store.root start later →
      later.entryAt source = some (.file held) := by
    intro later hgrown
    rw [(hgrown.same hups).entryAt_eq source hapart, hfile]
  have hlocation := FileTree.locationOf_eq h.alone_grown.grows.workDir_eq migration.store.root
  have hahead := h.ahead
  have hnot : ¬ start.locationOf migration.store.root <+: source :=
    fun hbelow => hapart (.inr hbelow)
  rw [← hlocation] at hahead hnot
  obtain ⟨hresult, hafter⟩ := upload_alike hahead h.alone_grown.plain h.grown.plain
    (hups.kept h.alone_grown.grows) (hkept h.alone_grown) (hkept h.grown) hnot blob
  rw [hlocation] at hafter
  rw [hnever]
  exact ⟨hresult, h.alone_grown.upload (hkept h.alone_grown) name blob,
    h.grown.upload (hkept h.grown) name blob, hafter⟩

/-- Files that keep their contents are uploaded alike. -/
theorem Alike.uploadFiles {placement : Placement} {alone session : Session}
    (h : migration.Alike start placement.container alone session)
    (hnever : migration.cancelAfter? = none)
    (hups : start.GoesUpFromDirectories migration.store.root) {files : List CollectedFile}
    (hfiles : ∀ file ∈ files,
      CollectedFile.IsSteady start (start.locationOf migration.store.root) file.path) :
    (migration.uploadFiles placement files session).1 =
        (migration.uploadFiles placement files alone).1 ∧
      migration.Alike start placement.container (migration.uploadFiles placement files alone).2
        (migration.uploadFiles placement files session).2 := by
  induction files generalizing alone session with
  | nil => exact ⟨rfl, h⟩
  | cons file rest ih =>
      have hsteady := hfiles file List.mem_cons_self
      have hrest := fun other hother => hfiles other (List.mem_cons_of_mem _ hother)
      have hlookUp := hsteady.lookUp_eq hups h.alone_grown
      have hlookUpAgain := hsteady.lookUp_eq hups h.grown
      rcases hsteady with ⟨place, held, hfound, hapart⟩ | ⟨error, _, herror⟩
      · rw [hfound] at hlookUp hlookUpAgain
        obtain ⟨hresult, halike⟩ := h.upload hnever hups (entryAt_of_lookUp hfound) hapart
          (placement.blobName file.name)
        rcases hsecond : session.upload migration.store migration.cancelAfter? placement.container
          (placement.blobName file.name) (.fileAt place) with ⟨otherResult, second⟩
        rcases hfirst : alone.upload migration.store migration.cancelAfter? placement.container
          (placement.blobName file.name) (.fileAt place) with ⟨error | written, first⟩
        · rw [hfirst, hsecond] at hresult halike
          obtain rfl : otherResult = .error error := hresult
          rw [uploadFiles_of_error hlookUp hfirst, uploadFiles_of_error hlookUpAgain hsecond]
          exact ⟨rfl, halike⟩
        · rw [hfirst, hsecond] at hresult halike
          obtain rfl : otherResult = .ok written := hresult
          obtain ⟨hsame, hlast⟩ := ih halike hrest
          rw [uploadFiles_of_ok hlookUp hfirst, uploadFiles_of_ok hlookUpAgain hsecond]
          exact ⟨by simp only [hsame], hlast⟩
      · rw [herror] at hlookUp hlookUpAgain
        rw [uploadFiles_of_lookUp_error hlookUp, uploadFiles_of_lookUp_error hlookUpAgain]
        exact ⟨rfl, h⟩

/-! ## One asset -/

/-- Collect the files of an asset and upload them to where it goes. -/
def storeInputs (migration : Migration) (placement : Placement) (inputs : List FilePath)
    (session : Session) : Except MigrationError AssetUpload × Session :=
  match CollectedFile.collect session.tree migration.sourceRoot inputs with
  | .error error => (.error (.io error), session)
  | .ok files =>
      match migration.uploadFiles placement files session with
      | (.error error, session) => (.error error, session)
      | (.ok bytes, session) =>
          (.ok ⟨placement, files.map fun file => placement.blobName file.name, bytes⟩, session)

theorem storeInputs_of_collected {placement : Placement} {inputs : List FilePath}
    {files : List CollectedFile} {session : Session}
    (h : CollectedFile.collect session.tree migration.sourceRoot inputs = .ok files) :
    migration.storeInputs placement inputs session =
      ((migration.uploadFiles placement files session).1.map fun bytes =>
          ⟨placement, files.map fun file => placement.blobName file.name, bytes⟩,
        (migration.uploadFiles placement files session).2) := by
  simp only [storeInputs, h]
  cases migration.uploadFiles placement files session with
  | mk result last => cases result <;> rfl

theorem migrateAsset_of_placement {placement : Placement}
    (h : migration.placementOf manifest entry = .ok placement) (session : Session) :
    ∃ mapper, migration.migrateAsset .run manifest entry session =
      migration.storeInputs placement entry.files { session with mapper } := by
  obtain ⟨lookups, mapper, hexpanded⟩ :=
    exists_expandAsset_eq migration manifest entry session.mapper
  refine ⟨mapper, ?_⟩
  simp only [migrateAsset, hexpanded, h]
  rfl

theorem migrateAsset_of_no_placement {error : MigrationError}
    (h : migration.placementOf manifest entry = .error error) (session : Session) :
    ∃ mapper, migration.migrateAsset .run manifest entry session =
      (.error error, { session with mapper }) := by
  obtain ⟨lookups, mapper, hexpanded⟩ :=
    exists_expandAsset_eq migration manifest entry session.mapper
  refine ⟨mapper, ?_⟩
  simp only [migrateAsset, hexpanded, h]

theorem Alike.storeInputs {placement : Placement} {alone session : Session}
    (h : migration.Alike start placement.container alone session)
    (hnever : migration.cancelAfter? = none) (hplain : start.IsPlain)
    (hups : start.GoesUpFromDirectories migration.store.root) {inputs : List FilePath}
    (hclear : ∀ input ∈ inputs,
      LiesClear migration.store.root (migration.sourceRoot.join input) start)
    (halone : alone.tree = start) :
    (migration.storeInputs placement inputs session).1 =
        (migration.storeInputs placement inputs alone).1 ∧
      migration.Alike start placement.container (migration.storeInputs placement inputs alone).2
        (migration.storeInputs placement inputs session).2 := by
  have hahead := h.ahead
  rw [halone] at hahead
  have hcollect := CollectedFile.collect_eq hplain h.grown hahead hclear
  cases hfiles : CollectedFile.collect start migration.sourceRoot inputs with
  | error error =>
      rw [hfiles] at hcollect
      simp only [Migration.storeInputs, halone, hfiles, hcollect, true_and]
      exact h
  | ok files =>
      obtain ⟨hsame, hlast⟩ := h.uploadFiles hnever hups
        (CollectedFile.isSteady_of_collected hplain
          (fun input hinput => (hclear input hinput).toLiesApart) hfiles)
      rw [storeInputs_of_collected (hcollect.trans hfiles),
        storeInputs_of_collected (halone ▸ hfiles)]
      exact ⟨by simp only [hsame], hlast⟩

/-- An asset with a manifest of its own fares as in a larger one. -/
theorem migrateAsset_alone (hnever : migration.cancelAfter? = none) (hplain : start.IsPlain)
    (hups : start.GoesUpFromDirectories migration.store.root)
    (hnames : (manifest.assets.map fun entry => entry.asset.name).Nodup)
    (hmem : entry ∈ manifest.assets)
    (hclear : ∀ input ∈ entry.files,
      LiesClear migration.store.root (migration.sourceRoot.join input) start)
    {alone session : Session} (halone : alone.tree = start)
    (h : ∀ name, migration.containerOf? manifest entry = some name →
      migration.Alike start name alone session) :
    (migration.migrateAsset .run manifest entry session).1 =
        (migration.migrateAsset .run { assets := [entry] } entry alone).1 ∧
      ∀ name, migration.containerOf? manifest entry = some name →
        migration.Alike start name (migration.migrateAsset .run { assets := [entry] } entry alone).2
          (migration.migrateAsset .run manifest entry session).2 := by
  have hplace : migration.placementOf { assets := [entry] } entry =
      migration.placementOf manifest entry := placementOf_alone hnames hmem
  cases hplacement : migration.placementOf manifest entry with
  | error error =>
      obtain ⟨_, hone⟩ := migrateAsset_of_no_placement (hplace.trans hplacement) alone
      obtain ⟨_, htwo⟩ := migrateAsset_of_no_placement hplacement session
      rw [hone, htwo]
      refine ⟨rfl, ?_⟩
      intro name hname
      rw [containerOf?, hplacement] at hname
      exact absurd hname (by simp [Except.toOption])
  | ok placement =>
      obtain ⟨mapper, hone⟩ := migrateAsset_of_placement (hplace.trans hplacement) alone
      obtain ⟨memory, htwo⟩ := migrateAsset_of_placement hplacement session
      have hcontainer := containerOf?_of_placement hplacement
      have halike := h placement.container hcontainer
      have hstarted : migration.Alike start placement.container { alone with mapper }
          { session with mapper := memory } := ⟨halike.alone_grown, halike.grown, halike.ahead⟩
      obtain ⟨hresult, hafter⟩ := hstarted.storeInputs hnever hplain hups hclear halone
      rw [hone, htwo]
      refine ⟨hresult, ?_⟩
      intro name hname
      obtain rfl := Option.some.inj (hcontainer.symm.trans hname)
      exact hafter

/-! ## The assets around it -/

theorem Alike.upload_elsewhere {name container : String} {alone session : Session}
    (h : migration.Alike start name alone session) (hnever : migration.cancelAfter? = none)
    (hups : start.GoesUpFromDirectories migration.store.root) (hne : container ≠ name)
    {source : Location} {held : Bytes} (hfile : session.tree.entryAt source = some (.file held))
    (blob : String) :
    migration.Alike start name alone
      (session.upload migration.store migration.cancelAfter? container blob
        (.fileAt source)).2 := by
  have hgrows := h.grown.grows
  have hahead := isAhead_of_upload h.grown.plain (hups.kept hgrows) hfile hne blob
  rw [FileTree.locationOf_eq hgrows.workDir_eq] at hahead
  rw [hnever]
  exact ⟨h.alone_grown, h.grown.upload hfile container blob, h.ahead.trans hahead⟩

theorem Alike.uploadFiles_elsewhere {name : String} {alone session : Session}
    (h : migration.Alike start name alone session) (hnever : migration.cancelAfter? = none)
    (hups : start.GoesUpFromDirectories migration.store.root) {placement : Placement}
    (hne : placement.container ≠ name) {files : List CollectedFile}
    (hfiles : ∀ file ∈ files, AlwaysFile session.tree file.path) :
    migration.Alike start name alone (migration.uploadFiles placement files session).2 := by
  let invariant (middle : Session) : Prop :=
    GrownAt migration.store.root session.tree middle.tree ∧
      migration.Alike start name alone middle
  suffices hlast : invariant (migration.uploadFiles placement files session).2 from hlast.2
  apply uploadFiles_invariant invariant _ ⟨.refl h.grown.plain, h⟩
  intro file hfile middle place entry ⟨hgrown, hmiddle⟩ hfound
  obtain ⟨held, rfl⟩ := hfiles file hfile middle.tree place entry hgrown.grows hfound
  have hheld := entryAt_of_lookUp hfound
  have hafter := hmiddle.upload_elsewhere hnever hups hne hheld (placement.blobName file.name)
  have hupload := hgrown.upload hheld placement.container (placement.blobName file.name)
  refine ⟨?_, hafter⟩
  rw [hnever]
  exact hupload

theorem Alike.migrateAsset_elsewhere {name : String} {alone session : Session}
    (h : migration.Alike start name alone session) (hnever : migration.cancelAfter? = none)
    (hups : start.GoesUpFromDirectories migration.store.root)
    (hother : migration.containerOf? manifest entry ≠ some name) :
    migration.Alike start name alone (migration.migrateAsset .run manifest entry session).2 := by
  obtain ⟨mapper, hafter | ⟨placement, files, _, hplacement, hfiles, hafter⟩⟩ :=
    migration.migrateAsset_session .run manifest entry session
  · rw [hafter]
    exact ⟨h.alone_grown, h.grown, h.ahead⟩
  · have hne : placement.container ≠ name := by
      rintro rfl
      obtain ⟨lookups, later, hexpanded⟩ :=
        exists_expandAsset_eq migration manifest entry session.mapper
      rw [hexpanded] at hplacement
      exact hother (containerOf?_of_placement hplacement)
    have hstarted : migration.Alike start name alone { session with mapper } :=
      ⟨h.alone_grown, h.grown, h.ahead⟩
    rw [hafter]
    exact hstarted.uploadFiles_elsewhere hnever hups hne
      (CollectedFile.alwaysFile_of_collected h.grown.plain.toIsWellFormed hfiles)

/-- Assets that go to other containers leave this one as it is. -/
theorem Alike.attempt_elsewhere {name : String} {alone session : Session}
    (h : migration.Alike start name alone session) (hnever : migration.cancelAfter? = none)
    (hups : start.GoesUpFromDirectories migration.store.root) {entries : List AssetEntry}
    (hothers : ∀ other ∈ entries, migration.containerOf? manifest other ≠ some name) :
    migration.Alike start name alone
      (migration.attempt (fun entry : AssetEntry => entry.asset.name)
        (migration.migrateAsset .run manifest) entries session).2 := by
  apply attempt_invariant (migration.Alike start name alone)
  · intro middle hmiddle
    exact hmiddle.looked
  · intro other hother middle hmiddle
    exact hmiddle.migrateAsset_elsewhere hnever hups (hothers other hother)
  · exact h

/-- The assets before and behind one that goes somewhere go to other containers. -/
theorem KeepsApart.containerOf?_ne {index : Nat} {name : String}
    (h : migration.KeepsApart manifest) (hentry : manifest.assets[index]? = some entry)
    (hname : migration.containerOf? manifest entry = some name) :
    ∀ other ∈ manifest.assets.take index ++ manifest.assets.drop (index + 1),
      migration.containerOf? manifest other ≠ some name := by
  obtain ⟨hlt, hget⟩ := List.getElem?_eq_some_iff.mp hentry
  have hsplit : manifest.assets =
      manifest.assets.take index ++ entry :: manifest.assets.drop (index + 1) := by
    rw [← hget, List.getElem_cons_drop, List.take_append_drop]
  have hdifferent := h.containers
  rw [hsplit, List.filterMap_append, List.filterMap_cons_some hname, List.nodup_middle,
    ← List.filterMap_append, List.nodup_cons] at hdifferent
  intro other hother hsame
  exact hdifferent.1 (List.mem_filterMap.mpr ⟨other, hother, hsame⟩)

/-! ## Whole runs -/

theorem attempt_no_containers {mode : Mode} (hcontainers : manifest.containers = [])
    (session : Session) :
    migration.attempt Container.name (migration.migrateContainer mode) manifest.containers session =
      (([], false), session) := by
  rw [hcontainers]
  rfl

/-- A run without containers reports its assets as they are attempted from its start, and no key
changes the tree that they leave. -/
theorem execute_assets (migration : Migration) (hcontainers : manifest.containers = [])
    (session : Session) :
    (migration.execute .run manifest session).1.assets =
        (migration.attemptAssets manifest session).1.1 ∧
      (migration.execute .run manifest session).2.tree =
        (migration.attemptAssets manifest session).2.tree := by
  have hkeys : ∀ delivered : Session,
      (migration.attempt (fun key : ContentKey => key.id.toString) migration.mapKey manifest.keys
        delivered).2.tree = delivered.tree := by
    intro delivered
    apply attempt_invariant fun last => last.tree = delivered.tree
    · intro middle hmiddle
      rw [Session.tree_looked, hmiddle]
    · intro key _ middle hmiddle
      obtain ⟨mapper, hafter⟩ := migration.mapKey_session key middle
      rw [hafter]
      exact hmiddle
    · rfl
  simp only [execute_eq, attempt_no_containers hcontainers, Bool.false_eq_true, if_false]
  split
  · exact ⟨rfl, rfl⟩
  · exact ⟨rfl, hkeys _⟩

/-- Whatever stands before and behind an asset, it is reported as alone, and its container is the same
when all assets have been attempted. -/
theorem attemptAssets_alone {session alone : Session} {index : Nat}
    (halone : alone.tree = session.tree) (hplain : session.tree.IsPlain)
    (hnever : migration.cancelAfter? = none) (hapart : migration.KeepsApart manifest)
    (hentry : manifest.assets[index]? = some entry)
    (hups : session.tree.GoesUpFromDirectories migration.store.root)
    (hclear : ∀ input ∈ entry.files,
      LiesClear migration.store.root (migration.sourceRoot.join input) session.tree) :
    (∃ report, (migration.attemptAssets manifest session).1.1[index]? = some report ∧
        (migration.attemptAssets { assets := [entry] } alone).1.1 = [report]) ∧
      ∀ name, migration.containerOf? manifest entry = some name →
        migration.Alike session.tree name
          (migration.attemptAssets { assets := [entry] } alone).2
          (migration.attemptAssets manifest session).2 := by
  let started := alone.looked migration.cancelAfter?
  let before := migration.sessionBefore (fun entry : AssetEntry => entry.asset.name)
    (migration.migrateAsset .run manifest) manifest.assets index session
  have hstarted : started.tree = session.tree := by rw [Session.tree_looked, halone]
  have hbefore : ∀ name, migration.containerOf? manifest entry = some name →
      migration.Alike session.tree name started before := by
    intro name hname
    have hstart : migration.Alike session.tree name started session := .refl hplain hstarted rfl
    have hfront := hstart.attempt_elsewhere hnever hups fun other hother =>
      hapart.containerOf?_ne hentry hname other (List.mem_append_left _ hother)
    exact hfront.looked
  obtain ⟨hresult, hafter⟩ := migrateAsset_alone hnever hplain hups hapart.names
    (List.mem_of_getElem? hentry) hclear hstarted hbefore
  obtain ⟨hreport, hlast⟩ := attempt_at (fun entry : AssetEntry => entry.asset.name)
    (migration.migrateAsset .run manifest) hnever hentry session
  unfold attemptAssets
  rw [attempt_singleton hnever, hreport, hlast]
  refine ⟨⟨_, rfl, by rw [← hresult]⟩, ?_⟩
  intro name hname
  exact (hafter name hname).attempt_elsewhere hnever hups fun other hother =>
    hapart.containerOf?_ne hentry hname other (List.mem_append_right _ hother)

/-- In a run without containers that is never cancelled, an asset is reported as it would be alone in
a run from the same tree, and the files of its container are the same at the end, wherever it stands
in the manifest and whatever becomes of the assets around it. The names of the assets are different,
and so are the containers that they go to. The paths of the store and of the inputs of this asset go
up only from directories that are there at the start, names that are too long are looked for in such
directories, and the inputs neither lie in the root of the store nor contain it. -/
theorem asset_fares_as_alone {session alone : Session} {index : Nat}
    (halone : alone.tree = session.tree) (hplain : session.tree.IsPlain)
    (hnever : migration.cancelAfter? = none) (hapart : migration.KeepsApart manifest)
    (hentry : manifest.assets[index]? = some entry)
    (hups : session.tree.GoesUpFromDirectories migration.store.root)
    (hclear : ∀ input ∈ entry.files,
      LiesClear migration.store.root (migration.sourceRoot.join input) session.tree) :
    let run := migration.execute .run manifest session
    let single := migration.execute .run { assets := [entry] } alone
    let root := session.tree.locationOf migration.store.root
    (∃ report, run.1.assets[index]? = some report ∧ single.1.assets = [report]) ∧
      ∀ name, migration.containerOf? manifest entry = some name → ∀ names,
        run.2.tree.entryAt (root ++ name :: names) =
          single.2.tree.entryAt (root ++ name :: names) := by
  intro run single root
  have hnone : Manifest.containers { assets := [entry] } = [] := rfl
  obtain ⟨hassets, htree⟩ := execute_assets migration hapart.no_containers session
  obtain ⟨hown, hownTree⟩ := execute_assets migration hnone alone
  obtain ⟨⟨report, hreport, honly⟩, halike⟩ :=
    attemptAssets_alone halone hplain hnever hapart hentry hups hclear
  refine ⟨⟨report, hassets ▸ hreport, hown.trans honly⟩, ?_⟩
  intro name hname names
  simp only [run, single]
  rw [htree, hownTree]
  exact (halike name hname).ahead.below names

/-! ## An asset that fares as alone, and three that do not -/

namespace MadeDirectories

def run (manifest : Manifest) : MigrationReport × Session :=
  (storingIn "store").execute .run manifest { tree }

end MadeDirectories

/-- A path that goes up from a directory of the start is the same for an asset alone and behind
another one. -/
theorem second_asset_fares_as_alone :
    MadeDirectories.tree.IsPlain ∧
      (MadeDirectories.storingIn "store").KeepsApart (MadeDirectories.twoAssets "in/../in/b") ∧
      (∃ report,
        (MadeDirectories.run (MadeDirectories.twoAssets "in/../in/b")).1.assets[1]? = some report ∧
        (MadeDirectories.run { assets := [MadeDirectories.asset "two" "in/../in/b"] }).1.assets =
          [report]) ∧
      ∀ names,
        (MadeDirectories.run (MadeDirectories.twoAssets "in/../in/b")).2.tree.entryAt
            (["store"] ++ "two" :: names) =
          (MadeDirectories.run { assets := [MadeDirectories.asset "two" "in/../in/b"] }).2.tree.entryAt
            (["store"] ++ "two" :: names) := by
  have hplain : MadeDirectories.tree.IsPlain := by decide +kernel
  have hapart : (MadeDirectories.storingIn "store").KeepsApart
      (MadeDirectories.twoAssets "in/../in/b") := by decide +kernel
  have hups : MadeDirectories.tree.GoesUpFromDirectories ⟨"store"⟩ := by decide +kernel
  have hclear : ∀ input ∈ (MadeDirectories.asset "two" "in/../in/b").files,
      LiesClear ⟨"store"⟩ (FilePath.join ⟨"."⟩ input) MadeDirectories.tree := by
    decide +kernel
  have hname : (MadeDirectories.storingIn "store").containerOf?
      (MadeDirectories.twoAssets "in/../in/b") (MadeDirectories.asset "two" "in/../in/b") =
        some "two" := by
    decide +kernel
  have hroot : MadeDirectories.tree.locationOf (MadeDirectories.storingIn "store").store.root =
      ["store"] := by
    decide +kernel
  have hentry : (MadeDirectories.twoAssets "in/../in/b").assets[1]? =
      some (MadeDirectories.asset "two" "in/../in/b") := rfl
  have hstart : Session.tree { tree := MadeDirectories.tree } =
      Session.tree { tree := MadeDirectories.tree } := rfl
  obtain ⟨hreport, hfiles⟩ := asset_fares_as_alone hstart hplain rfl hapart hentry hups hclear
  have hcontainer := hfiles "two" hname
  rw [hroot] at hcontainer
  unfold MadeDirectories.run
  exact ⟨hplain, hapart, hreport, hcontainer⟩

/-- An asset that fails otherwise than alone, or only with others or without, in a tree without links,
without a cancellation, and with inputs of all assets that neither lie in the root of the store nor
contain it. -/
def Disturbs (migration : Migration) (manifest : Manifest) (tree : FileTree) (index : Nat) : Prop :=
  tree.IsPlain ∧ migration.cancelAfter? = none ∧ migration.KeepsApart manifest ∧
    (∀ entry ∈ manifest.assets, ∀ input ∈ entry.files,
      ¬ IsNear (tree.locationOf migration.store.root)
        (tree.locationOf (migration.sourceRoot.join input))) ∧
    ∃ entry, manifest.assets[index]? = some entry ∧
      (migration.execute .run manifest { tree }).1.assets[index]?.map UnitReport.failure? ≠
        (migration.execute .run { assets := [entry] } { tree }).1.assets[0]?.map
          UnitReport.failure?

namespace MadeDirectories

@[irreducible] def longName : String := String.ofList (List.replicate 64 '𝄞')

def longInput : String := "x" ++ "/" ++ longName

theorem toList_longName : longName.toList = List.replicate 64 '𝄞' := by
  unfold longName
  exact String.toList_ofList

theorem utf8ByteSize_longName : longName.utf8ByteSize = 256 := by
  unfold longName
  rw [String.utf8ByteSize_ofList]
  decide

theorem longName_too_long : maxNameBytes < longName.utf8ByteSize := by
  rw [utf8ByteSize_longName]
  decide

theorem longName_proper : longName ≠ "" ∧ '/' ∉ longName.toList := by
  refine ⟨?_, ?_⟩
  · intro hempty
    have hlist := toList_longName
    rw [hempty] at hlist
    exact absurd hlist (by simp)
  · rw [toList_longName]
    decide

theorem isAbsolute_longInput : FilePath.isAbsolute ⟨longInput⟩ = false := by
  rw [longInput, String.append_assoc, FilePath.isAbsolute_append (by decide)]
  decide

theorem steps_longInput : (FilePath.join ⟨"."⟩ ⟨longInput⟩).steps = [".", "x", longName] := by
  have hhere : FilePath.steps ⟨"."⟩ = ["."] := by decide
  have hname : (longName != "") = true := by simpa using longName_proper.1
  rw [FilePath.steps_join isAbsolute_longInput, hhere, FilePath.steps, longInput,
    FilePath.segments_append_slash, FilePath.segments_of_no_slash (by decide),
    FilePath.segments_of_no_slash longName_proper.2]
  simp [hname]

theorem isSearchable_longInput : FileTree.IsSearchable (FilePath.join ⟨"."⟩ ⟨longInput⟩) := by
  have htext : (FilePath.join ⟨"."⟩ ⟨longInput⟩).text = "." ++ "/" ++ ("x" ++ "/" ++ longName) :=
    FilePath.text_join isAbsolute_longInput (by decide) (by decide)
  refine ⟨?_, ?_, ?_⟩
  · rw [htext]
    simp [toList_longName]
  · apply FilePath.text_ne_empty
    rw [steps_longInput]
    simp
  · rw [htext]
    simp only [String.utf8ByteSize_append, utf8ByteSize_longName]
    decide

theorem isNameStep_longName : IsNameStep longName := by
  constructor
  · intro hdot
    exact absurd (hdot ▸ longName_too_long) (by decide)
  · intro hup
    exact absurd (hup ▸ longName_too_long) (by decide)

theorem startOf_longInput {tree : FileTree} (hwork : tree.workDir = []) :
    tree.startOf (FilePath.join ⟨"."⟩ ⟨longInput⟩) = [] := by
  unfold startOf
  rw [hwork]
  split <;> rfl

theorem collect_longInput {tree : FileTree} (hplain : tree.IsPlain) (hwork : tree.workDir = []) :
    (tree.entryAt ["x"] = none →
        CollectedFile.collect tree ⟨"."⟩ [⟨longInput⟩] = .error .notFound) ∧
      (tree.entryAt ["x"] = some .directory →
        CollectedFile.collect tree ⟨"."⟩ [⟨longInput⟩] = .error .nameTooLong) := by
  have houter : IsNameStep "x" := ⟨by decide, by decide⟩
  obtain ⟨hmissing, hthere⟩ := hplain.lookUp_long_name isSearchable_longInput steps_longInput
    houter (by decide) isNameStep_longName longName_too_long
  rw [startOf_longInput hwork] at hmissing hthere
  constructor
  · intro hfree
    rw [CollectedFile.collect, hmissing hfree]
  · intro hdirectory
    rw [CollectedFile.collect, hthere hdirectory]

theorem not_isNear_longInput :
    ¬ IsNear (tree.locationOf ⟨"x/store"⟩) (tree.locationOf (FilePath.join ⟨"."⟩ ⟨longInput⟩)) := by
  have hlocation : tree.locationOf (FilePath.join ⟨"."⟩ ⟨longInput⟩) = ["x", longName] := by
    rw [locationOf, steps_longInput, startOf_longInput rfl]
    simp [follow, isNameStep_longName.1, isNameStep_longName.2]
  have hroot : tree.locationOf ⟨"x/store"⟩ = ["x", "store"] := by decide +kernel
  rw [hlocation, hroot]
  decide +kernel

def longAsset : AssetEntry := asset "two" longInput

def afterFirst : Session :=
  (storingIn "x/store").sessionBefore (fun entry : AssetEntry => entry.asset.name)
    ((storingIn "x/store").migrateAsset .run (twoAssets longInput))
    (twoAssets longInput).assets 1 { tree }

end MadeDirectories

theorem migrateAsset_of_collect_error {name : String} {error : IoError} {session : Session}
    (hname : migration.containerOf? manifest entry = some name)
    (h : CollectedFile.collect session.tree migration.sourceRoot entry.files = .error error) :
    migration.migrateAsset .run manifest entry session =
      (.error (.io error),
        { session with
          mapper := (session.mapper.expandAsset entry.asset (.ofManifest manifest)
            migration.templates.path.text).2 }) := by
  cases hplacement : migration.placementOf manifest entry with
  | error error =>
      rw [containerOf?, hplacement] at hname
      exact absurd hname (by simp [Except.toOption])
  | ok placement =>
      obtain ⟨lookups, later, hexpanded⟩ :=
        exists_expandAsset_eq migration manifest entry session.mapper
      simp only [migrateAsset, hexpanded, hplacement, h]

theorem failure_of_collect_error (hnever : migration.cancelAfter? = none)
    (hcontainers : manifest.containers = []) {index : Nat}
    (hentry : manifest.assets[index]? = some entry) {name : String}
    (hname : migration.containerOf? manifest entry = some name) (session : Session) {error : IoError}
    (h : CollectedFile.collect
      (migration.sessionBefore (fun entry : AssetEntry => entry.asset.name)
        (migration.migrateAsset .run manifest) manifest.assets index session).tree
      migration.sourceRoot entry.files = .error error) :
    (migration.execute .run manifest session).1.assets[index]?.map UnitReport.failure? =
      some (some (MigrationError.io error).message) := by
  obtain ⟨hassets, _⟩ := execute_assets migration hcontainers session
  obtain ⟨hreport, _⟩ := attempt_at (fun entry : AssetEntry => entry.asset.name)
    (migration.migrateAsset .run manifest) hnever hentry session
  rw [hassets, attemptAssets, hreport, migrateAsset_of_collect_error hname h]
  rfl

/-- Once the first asset has made its directory, a name that is too long is refused there. -/
theorem long_name_disturbed :
    (MadeDirectories.storingIn "x/store").Disturbs
      (MadeDirectories.twoAssets MadeDirectories.longInput) MadeDirectories.tree 1 := by
  have hplain : MadeDirectories.tree.IsPlain := by decide +kernel
  have hapart : (MadeDirectories.storingIn "x/store").KeepsApart
      (MadeDirectories.twoAssets MadeDirectories.longInput) := by
    decide +kernel
  have hfirst : ¬ IsNear (MadeDirectories.tree.locationOf ⟨"x/store"⟩)
      (MadeDirectories.tree.locationOf (FilePath.join ⟨"."⟩ ⟨"in/a"⟩)) := by
    decide +kernel
  refine ⟨hplain, rfl, hapart, ?_, MadeDirectories.longAsset, rfl, ?_⟩
  · intro entry hentry input hinput
    rcases List.mem_pair.mp hentry with rfl | rfl
    · rw [List.mem_singleton.mp hinput]
      exact hfirst
    · rw [List.mem_singleton.mp hinput]
      exact MadeDirectories.not_isNear_longInput
  · have hsecond : (MadeDirectories.twoAssets MadeDirectories.longInput).assets[1]? =
        some MadeDirectories.longAsset := rfl
    have hwith : (MadeDirectories.storingIn "x/store").containerOf?
        (MadeDirectories.twoAssets MadeDirectories.longInput) MadeDirectories.longAsset =
          some "two" := by
      decide +kernel
    have hwithout : (MadeDirectories.storingIn "x/store").containerOf?
        { assets := [MadeDirectories.longAsset] } MadeDirectories.longAsset = some "two" := by
      decide +kernel
    have hafter : MadeDirectories.afterFirst.tree.IsPlain ∧
        MadeDirectories.afterFirst.tree.workDir = [] ∧
        MadeDirectories.afterFirst.tree.entryAt ["x"] = some .directory := by
      decide +kernel
    have hfree : MadeDirectories.tree.entryAt ["x"] = none := by decide +kernel
    have hrefused := (MadeDirectories.collect_longInput hafter.1 hafter.2.1).2 hafter.2.2
    have hmissing := (MadeDirectories.collect_longInput hplain rfl).1 hfree
    have hfirstOnly : ({ assets := [MadeDirectories.longAsset] } : Manifest).assets[0]? =
        some MadeDirectories.longAsset := rfl
    rw [failure_of_collect_error rfl rfl hsecond hwith { tree := MadeDirectories.tree } hrefused,
      failure_of_collect_error rfl rfl hfirstOnly hwithout { tree := MadeDirectories.tree } hmissing]
    decide +kernel

/-- Uploading the first asset makes a directory from which the second goes up, in which it looks for
a name that is too long, or which is the second itself: alone it finds no such directory. -/
theorem made_directories_disturb :
    (MadeDirectories.storingIn "x/store").Disturbs (MadeDirectories.twoAssets "x/../in/b")
        MadeDirectories.tree 1 ∧
      (MadeDirectories.storingIn "x/store").Disturbs
        (MadeDirectories.twoAssets MadeDirectories.longInput) MadeDirectories.tree 1 ∧
      (MadeDirectories.storingIn "x/../store").Disturbs (MadeDirectories.twoAssets "x")
        MadeDirectories.tree 1 := by
  have hplain : MadeDirectories.tree.IsPlain := by decide +kernel
  refine ⟨⟨hplain, rfl, ?_, ?_, _, rfl, ?_⟩, long_name_disturbed,
    ⟨hplain, rfl, ?_, ?_, _, rfl, ?_⟩⟩ <;> decide +kernel

end Migration

end MediaMigration
