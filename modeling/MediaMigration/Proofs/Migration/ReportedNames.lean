import MediaMigration.Proofs.BlobStore.ExactListing
import MediaMigration.Proofs.Migration.FileDelivery

/-!
# Reported names and listed names

An asset is reported with the names that its files were uploaded under. A listing has other names:
it joins the names on the way to a file, where repeated slashes are gone, and it does not go
through links. So a reported name is listed as it is exactly if it has no repeated slash and no link
is on its way from the directory of the container; with a repeated slash, the same names joined by
single slashes are listed. That anything is listed takes that all directories of the container can
be opened.
-/

namespace MediaMigration

open FileTree BlobStore

namespace FilePath

/-- A name is joined from its moves exactly if no segment of it is silent. -/
theorem joinNames_moves_eq_iff {path : FilePath} (hne : path.moves ≠ []) :
    joinNames path.moves = path.text ↔ ∀ segment ∈ path.segments, isSilent segment = false := by
  constructor
  · intro hjoin segment hmem
    have hsegments : path.segments = path.moves := by
      rw [← segments_joinNames hne fun name hname =>
        no_slash_of_mem_segments (List.mem_filter.mp hname).1, hjoin]
    rw [hsegments] at hmem
    simpa using (List.mem_filter.mp hmem).2
  · intro hspeak
    have hmoves : path.moves = path.segments := by
      rw [moves, List.filter_eq_self]
      intro segment hmem
      rw [hspeak segment hmem, Bool.not_false]
    rw [hmoves]
    exact joinSegments_segments path

end FilePath

namespace BlobStore

variable {store : BlobStore} {tree : FileTree} {container blob : String} {dir place : Location}
  {content : Bytes} {listed : List String}

/-! ## The way to a blob that is stored -/

theorem directory_of_stored? (h : store.stored? container blob tree = some (place, content)) :
    ∃ dir, tree.lookUp true (store.root.join ⟨container⟩) = .ok (dir, .directory) := by
  obtain ⟨path, hpath, hfound⟩ := stored?_eq_some_iff.mp h
  have hplain := blobPath_eq_ok hpath
  obtain ⟨⟨hc, hb⟩, rfl⟩ := blobPath_eq_ok_iff.mp hpath
  obtain ⟨spot, slash, hr, _⟩ := lookUp_eq_ok_iff.mp hfound
  obtain ⟨dir, hopens⟩ := opensAt_of_resolve hr hplain.isAbsolute_eq hplain.steps_eq hb.steps_ne_nil
  exact ⟨dir, hopens.lookUp_eq (isSearchable_container hc hb (resolve_eq_ok_iff.mp hr).1)⟩

/-- A blob lies where its name says, exactly if no link is on its way. -/
theorem moves_mem_filesBelow_iff (hformed : tree.IsWellFormed)
    (h : store.stored? container blob tree = some (place, content))
    (hdir : tree.lookUp true (store.root.join ⟨container⟩) = .ok (dir, .directory)) :
    FilePath.moves ⟨blob⟩ ∈ tree.filesBelow dir ↔ tree.NoLinkOnWay dir (FilePath.steps ⟨blob⟩) := by
  obtain ⟨path, hpath, hfound⟩ := stored?_eq_some_iff.mp h
  have hplain := blobPath_eq_ok hpath
  obtain ⟨_, hb⟩ := (blobPath_eq_ok_iff.mp hpath).1
  rw [FilePath.moves_eq_filter_steps]
  constructor
  · intro hmem
    obtain ⟨_, held, hfile⟩ := mem_filesBelow.mp hmem
    exact hformed.noLinkOnWay hfile (by simp)
  · intro hlinks
    obtain ⟨spot, slash, hr, rfl, hfile, _⟩ := lookUp_eq_ok_iff.mp hfound
    have hplace := (opensAt_of_lookUp hdir).place_of_resolve hlinks hplain.isAbsolute_eq
      hplain.steps_eq hb.steps_ne_nil hb.steps_down hr
    rw [hplace] at hfile
    refine mem_filesBelow.mpr ⟨?_, content, hfile⟩
    rw [← FilePath.moves_eq_filter_steps]
    exact hb.moves_ne_nil

/-! ## What is listed of a blob that is stored -/

section Listed

variable (hformed : tree.IsWellFormed)
  (h : store.stored? container blob tree = some (place, content))
  (hdir : tree.lookUp true (store.root.join ⟨container⟩) = .ok (dir, .directory))
  (hlist : store.list container tree = .ok listed)

include hformed h hdir hlist

/-- The names that the name of a blob is made of are listed, joined, exactly if no link is on the
way to it. -/
theorem joinNames_moves_listed_iff :
    FilePath.joinNames (FilePath.moves ⟨blob⟩) ∈ listed ↔
      tree.NoLinkOnWay dir (FilePath.steps ⟨blob⟩) := by
  obtain ⟨path, hpath, _⟩ := stored?_eq_some_iff.mp h
  obtain ⟨hc, hb⟩ := (blobPath_eq_ok_iff.mp hpath).1
  obtain ⟨_, rfl⟩ := (list_eq_ok_iff store hc hdir).mp hlist
  rw [← moves_mem_filesBelow_iff hformed h hdir, sortNames, List.mem_mergeSort, List.mem_map]
  constructor
  · rintro ⟨names, hnames, hjoin⟩
    have hsame : names = FilePath.moves ⟨blob⟩ := by
      rw [← moves_joinNames_of_file hformed hnames, hjoin,
        FilePath.moves_joinNames_moves hb.moves_ne_nil]
    exact hsame ▸ hnames
  · exact fun hmem => ⟨_, hmem, rfl⟩

/-- The name of a blob itself is listed exactly if, besides, all its segments are names. -/
theorem name_listed_iff :
    blob ∈ listed ↔ tree.NoLinkOnWay dir (FilePath.steps ⟨blob⟩) ∧
      ∀ segment ∈ FilePath.segments ⟨blob⟩, FilePath.isSilent segment = false := by
  obtain ⟨path, hpath, _⟩ := stored?_eq_some_iff.mp h
  obtain ⟨hc, hb⟩ := (blobPath_eq_ok_iff.mp hpath).1
  rw [← joinNames_moves_listed_iff hformed h hdir hlist,
    ← FilePath.joinNames_moves_eq_iff hb.moves_ne_nil]
  constructor
  · intro hmem
    obtain ⟨_, names, _, hnames, hblob⟩ := mem_list hlist hmem hb.not_empty
    have hmoves : FilePath.moves ⟨blob⟩ = names := by
      rw [hblob, moves_joinNames_of_file hformed hnames]
    rw [hmoves, ← hblob]
    exact ⟨hmem, rfl⟩
  · rintro ⟨hmem, hjoin⟩
    rw [hjoin] at hmem
    exact hmem

end Listed

end BlobStore

namespace Placement

variable {placement : Placement} {name : String}

theorem IsExpanded.no_here (h : placement.IsExpanded) (hway : CollectedFile.IsWay name) :
    "." ∉ FilePath.segments ⟨placement.blobName name⟩ := by
  intro hhere
  have hstep : "." ∈ FilePath.steps ⟨placement.blobName name⟩ :=
    List.mem_filter.mpr ⟨hhere, rfl⟩
  rw [steps_blobName h.ends_with_slash] at hstep
  rcases List.mem_append.mp hstep with hprefix | hbehind
  · have hsegment := List.mem_of_mem_filter hprefix
    exact h.no_full_stop (FilePath.mem_text_of_mem_segments hsegment (by decide))
  · obtain ⟨names, hne, hnames, rfl⟩ := hway
    rw [FilePath.steps_joinNames hne fun part hpart =>
      ⟨(hnames part hpart).1, (hnames part hpart).2.2⟩] at hbehind
    exact (hnames "." hbehind).2.1.1 rfl

/-- The only silent segments of a blob name that an expanded name and a way give are between slashes
that follow each other. -/
theorem IsExpanded.not_silent_iff (h : placement.IsExpanded) (hway : CollectedFile.IsWay name) :
    (∀ segment ∈ FilePath.segments ⟨placement.blobName name⟩,
        FilePath.isSilent segment = false) ↔
      "" ∉ FilePath.segments ⟨placement.blobName name⟩ := by
  constructor
  · exact fun hspeak hmem => absurd (hspeak "" hmem) (by decide)
  · intro hnone segment hmem
    have hempty : segment ≠ "" := fun heq => hnone (heq ▸ hmem)
    have hhere : segment ≠ "." := fun heq => h.no_here hway (heq ▸ hmem)
    simp [FilePath.isSilent, hempty, hhere]

end Placement

namespace Migration

variable {migration : Migration} {manifest : Manifest}

theorem stored?_of_migrateAsset {entry : AssetEntry} {session : Session} {upload : AssetUpload}
    (hformed : session.tree.IsWellFormed)
    (h : (migration.migrateAsset .run manifest entry session).1 = .ok upload) :
    ∀ blob ∈ upload.blobs,
      (∃ found, migration.store.stored? upload.placement.container blob
        (migration.migrateAsset .run manifest entry session).2.tree = some found) ∧
      ((∀ segment ∈ FilePath.segments ⟨blob⟩, FilePath.isSilent segment = false) ↔
        "" ∉ FilePath.segments ⟨blob⟩) := by
  intro blob hblob
  obtain ⟨mapper, files, hplacement, hfiles, hblobs, huploads⟩ := migrateAsset_uploads h
  rw [hblobs] at hblob
  obtain ⟨file, hfile, rfl⟩ := List.mem_map.mp hblob
  obtain ⟨place, hplace⟩ := (uploadFiles_deposits huploads).place?_of_mem _
    (List.mem_map_of_mem hfile)
  obtain ⟨found, hfound, _⟩ := Option.map_eq_some_iff.mp hplace
  exact ⟨⟨found, hfound⟩, (Mapper.isExpanded hplacement).not_silent_iff
    (CollectedFile.isWay_of_collected hformed hfiles file hfile)⟩

/-- Right after an asset that is reported as migrated, whatever was stored before and whether or not
blobs are overwritten, the container has a directory, and it is listed exactly if the paths of all
directories below it can be opened. Then, of a name that is reported, its names are listed, joined
by single slashes, exactly if no link is on the way to the blob. The name is listed as it is
reported exactly if, besides, no slash in it follows another. -/
theorem reported_blobs_are_listed (migration : Migration) (manifest : Manifest)
    (session : Session) (hformed : session.tree.IsWellFormed) {index : Nat} {unit : String}
    {upload : AssetUpload}
    (h : (migration.execute .run manifest session).1.assets[index]? = some ⟨unit, .ok upload⟩) :
    ∃ entry, manifest.assets[index]? = some entry ∧ unit = entry.asset.name ∧
      let after := (migration.migrateAsset .run manifest entry
        (migration.sessionBeforeAsset manifest index session)).2.tree
      let path := migration.store.root.join ⟨upload.placement.container⟩
      ∀ blob ∈ upload.blobs, ∃ dir, after.lookUp true path = .ok (dir, .directory) ∧
        ((∃ listed, migration.store.list upload.placement.container after = .ok listed) ↔
          after.InReach path dir) ∧
        ∀ listed, migration.store.list upload.placement.container after = .ok listed →
          (FilePath.joinNames (FilePath.moves ⟨blob⟩) ∈ listed ↔
            after.NoLinkOnWay dir (FilePath.steps ⟨blob⟩)) ∧
          (blob ∈ listed ↔ after.NoLinkOnWay dir (FilePath.steps ⟨blob⟩) ∧
            "" ∉ FilePath.segments ⟨blob⟩) := by
  have hassets := (migration.assets_execute .run manifest session).resolve_left fun hnone => by
    simp [hnone] at h
  rw [hassets] at h
  obtain ⟨entry, hentry, hunit, houtcome, _⟩ := attempt_entry h
  refine ⟨entry, hentry, hunit, ?_⟩
  intro after path blob hblob
  have hbefore := before_asset_of_lasts isWellFormed_lasts migration manifest index hformed
  have hafter : after.IsWellFormed :=
    (lasts_of_changes isWellFormed_lasts migration .run).migrateAsset manifest entry _ hbefore
  obtain ⟨⟨⟨place, content⟩, hstored⟩, hsilent⟩ :=
    stored?_of_migrateAsset hbefore houtcome.symm blob hblob
  obtain ⟨dir, hdir⟩ := directory_of_stored? hstored
  obtain ⟨blobPath, hpath, _⟩ := stored?_eq_some_iff.mp hstored
  have hcontainer := (blobPath_eq_ok_iff.mp hpath).1.1
  refine ⟨dir, hdir, ⟨?_, ?_⟩, fun listed hlist => ⟨?_, ?_⟩⟩
  · rintro ⟨listed, hlist⟩
    exact ((list_eq_ok_iff migration.store hcontainer hdir).mp hlist).1
  · intro hreach
    exact ⟨_, (list_eq_ok_iff migration.store hcontainer hdir).mpr ⟨hreach, rfl⟩⟩
  · exact joinNames_moves_listed_iff hafter hstored hdir hlist
  · rw [name_listed_iff hafter hstored hdir hlist, hsilent]

/-! ## A name that is listed, and names that are not -/

namespace OneAsset

def single : Manifest where
  assets := [Twins.asset]

def plain : Migration :=
  ⟨Twins.templates, keeping ⟨"store"⟩, ⟨"."⟩, none⟩

def doubled : Migration :=
  ⟨⟨⟨"media/x//$\x7bAssetName\x7d", .asset, by decide +kernel⟩, Twins.templates.container, none,
    none⟩, keeping ⟨"store"⟩, ⟨"."⟩, none⟩

def linked : FileTree :=
  (((Twins.tree.put ["other"] .directory).put ["store"] .directory).put
    ["store", "media"] .directory).put ["store", "media", "one"] (.link "../../other")

def after (migration : Migration) (tree : FileTree) : FileTree :=
  (migration.migrateAsset .run single Twins.asset
    (migration.sessionBeforeAsset single 0 { tree })).2.tree

end OneAsset

theorem outcome_oneAsset :
    ((OneAsset.plain.execute .run OneAsset.single { tree := Twins.tree }).1.assets.map
      fun unit => unit.outcome.toOption) = [some ⟨⟨"media", "one/"⟩, ["one/a"], 3⟩] := by
  decide +kernel

theorem reported_blobs_are_listed_plain :
    Twins.tree.IsWellFormed ∧
      ∃ unit, (OneAsset.plain.execute .run OneAsset.single { tree := Twins.tree }).1.assets[0]? =
          some ⟨unit, .ok ⟨⟨"media", "one/"⟩, ["one/a"], 3⟩⟩ ∧
        ∃ listed, OneAsset.plain.store.list "media" (OneAsset.after OneAsset.plain Twins.tree) =
          .ok listed ∧ "one/a" ∈ listed := by
  have hplain : Twins.tree.IsPlain := by decide +kernel
  have hafter : (OneAsset.after OneAsset.plain Twins.tree).IsPlain := by decide +kernel
  have hlist : OneAsset.plain.store.list "media" (OneAsset.after OneAsset.plain Twins.tree) =
      .ok ["one/a"] := by
    decide +kernel
  obtain ⟨unit, hunit⟩ := exists_report_of_outcomes outcome_oneAsset
  obtain ⟨entry, hentry, _, hblobs⟩ := reported_blobs_are_listed OneAsset.plain OneAsset.single
    { tree := Twins.tree } hplain.toIsWellFormed hunit
  obtain rfl : Twins.asset = entry := Option.some.inj hentry
  obtain ⟨dir, _, _, hlisted⟩ := hblobs "one/a" (by simp)
  refine ⟨hplain.toIsWellFormed, unit, hunit, _, hlist, ?_⟩
  exact (hlisted _ hlist).2.mpr ⟨fun front target _ => hafter.no_link _ target, by decide⟩

/-- A doubled slash of the template is reported, but not listed, and behind a link nothing is
listed. -/
theorem reported_names_are_not_listed :
    ((OneAsset.doubled.execute .run OneAsset.single { tree := Twins.tree }).1.assets.map
        fun unit => unit.outcome.toOption) = [some ⟨⟨"media", "x//one/"⟩, ["x//one/a"], 3⟩] ∧
      OneAsset.doubled.store.list "media" (OneAsset.after OneAsset.doubled Twins.tree) =
        .ok ["x/one/a"] ∧
      ((OneAsset.plain.execute .run OneAsset.single { tree := OneAsset.linked }).1.assets.map
        fun unit => unit.outcome.toOption) = [some ⟨⟨"media", "one/"⟩, ["one/a"], 3⟩] ∧
      OneAsset.plain.store.list "media" (OneAsset.after OneAsset.plain OneAsset.linked) = .ok [] ∧
      (OneAsset.after OneAsset.plain OneAsset.linked).file? ["other", "a"] = some [1, 2, 3] := by
  decide +kernel

end Migration

end MediaMigration
