import MediaMigration.Proofs.BlobStore.Deposits
import MediaMigration.Proofs.Migration.ContainerCopy
import MediaMigration.Proofs.Migration.SteadyInputs
import MediaMigration.Proofs.Migration.Targets

/-!
# Files of an asset that may replace each other

The files of an asset are uploaded one after the other under names that say where they were found
below their inputs. Two inputs may have files of one name, and a store that overwrites then keeps
the last of them: the others are gone although the asset is reported as migrated with all their
bytes. The last file of each name always arrives, if the inputs lie apart from the store. So nothing
is lost where the names are different.
-/

namespace MediaMigration

open FileTree BlobStore

namespace CollectedFile

def deposit (placement : Placement) (file : CollectedFile) : Deposit :=
  ⟨file.path, placement.container, placement.blobName file.name⟩

/-- A file keeps its bytes, and its blob has the same. -/
def IsCarriedOver (file : CollectedFile) (store : BlobStore) (placement : Placement)
    (before after : FileTree) : Prop :=
  ∃ source place content, before.fileOf? file.path = some (source, content) ∧
    after.fileOf? file.path = some (source, content) ∧
    store.stored? placement.container (placement.blobName file.name) after = some (place, content)

theorem IsWay.joinNames_moves {name : String} (h : IsWay name) :
    FilePath.joinNames (FilePath.moves ⟨name⟩) = name := by
  obtain ⟨names, hne, hnames, rfl⟩ := h
  rw [FilePath.moves_joinNames hne
    (fun part hpart => ⟨(hnames part hpart).1, (hnames part hpart).2.2⟩)
    fun hhere => (hnames "." hhere).2.1.1 rfl]

end CollectedFile

open CollectedFile

namespace BlobStore

/-- The files that uploads of collected files have become are files of their own: apart from each
other and from the files that were to be uploaded. -/
structure UploadsApart (store : BlobStore) (placement : Placement) (files : List CollectedFile)
    (before after : FileTree) : Prop where
  distinct : (files.map fun file =>
    store.place? after (placement.container, placement.blobName file.name)).Nodup
  no_source : ∀ file ∈ files, ∀ source ∈ files, ∀ place content,
    before.fileOf? source.path = some (place, content) →
      store.place? after (placement.container, placement.blobName file.name) ≠ some place

variable {store : BlobStore} {placement : Placement} {files front rest : List CollectedFile}
  {file : CollectedFile} {before after : FileTree}

/-- A file of which no upload takes the place arrives, if no later upload has the same target. -/
theorem isCarriedOver_of_deposits
    (h : Deposits store ((front ++ file :: rest).map (deposit placement)) before after)
    {source : Location} {content : Bytes} (hs : before.fileOf? file.path = some (source, content))
    (hsource : ∀ other ∈ front ++ file :: rest,
      store.place? after (placement.container, placement.blobName other.name) ≠ some source)
    (hlast : ∀ other ∈ rest,
      store.place? after (placement.container, placement.blobName other.name) ≠
        store.place? after (placement.container, placement.blobName file.name)) :
    file.IsCarriedOver store placement before after := by
  have hnone : ∀ other ∈ (front ++ file :: rest).map (deposit placement),
      other.place? store after ≠ some source := List.forall_mem_map.mpr hsource
  have hkept := h.fileOf?_kept hs hnone
  rw [List.map_append, List.map_cons] at h hnone
  obtain ⟨place, hplace⟩ := h.arrives hs hnone (List.forall_mem_map.mpr hlast)
  exact ⟨source, place, content, hs, hkept, hplace⟩

/-- Uploads that are files of their own carry every file over. -/
theorem UploadsApart.isCarriedOver (hapart : UploadsApart store placement files before after)
    (h : Deposits store (files.map (deposit placement)) before after)
    (hfiles : ∀ file ∈ files, ∃ found, before.fileOf? file.path = some found) :
    ∀ file ∈ files, file.IsCarriedOver store placement before after := by
  intro file hfile
  obtain ⟨⟨source, content⟩, hs⟩ := hfiles file hfile
  have hsource : ∀ other ∈ files,
      store.place? after (placement.container, placement.blobName other.name) ≠ some source :=
    fun other hother => hapart.no_source other hother file hfile source content hs
  obtain ⟨front, rest, rfl⟩ := List.append_of_mem hfile
  refine isCarriedOver_of_deposits h hs hsource ?_
  have hdistinct := hapart.distinct
  rw [List.map_append, List.map_cons] at hdistinct
  have hfresh := (List.nodup_cons.mp (List.nodup_append.mp hdistinct).2.1).1
  intro other hother hsame
  exact hfresh (List.mem_map.mpr ⟨other, hother, hsame⟩)

/-! ## Trees without links -/

theorem name_eq_of_place? (hplain : after.IsPlain) (hends : placement.EndsWithSlash)
    {other : CollectedFile} (hway : IsWay file.name) (hotherWay : IsWay other.name)
    {place : Location}
    (hfile : store.place? after (placement.container, placement.blobName file.name) = some place)
    (hother : store.place? after (placement.container, placement.blobName other.name) =
      some place) : file.name = other.name := by
  have hplaces := (place?_eq_of_isPlain hplain hfile).symm.trans
    (place?_eq_of_isPlain hplain hother)
  have hmoves := (List.cons.inj (List.append_cancel_left hplaces)).2
  rw [Placement.moves_blobName hends, Placement.moves_blobName hends] at hmoves
  rw [← hway.joinNames_moves, ← hotherWay.joinNames_moves, List.append_cancel_left hmoves]

/-- In a tree without links, a file apart from the root of the store is no blob. -/
theorem place?_ne_of_far (hplain : after.IsPlain) {source : Location} {blob : String × String}
    (hfar : ¬ IsNear (after.locationOf store.root) source) :
    store.place? after blob ≠ some source := by
  intro hplace
  rw [place?_eq_of_isPlain hplain hplace] at hfar
  exact hfar (.inr (List.prefix_append _ _))

end BlobStore

namespace Migration

variable {migration : Migration} {manifest : Manifest}

theorem uploadFiles_deposits {placement : Placement} {files : List CollectedFile} {bytes : Nat}
    {session later : Session}
    (h : migration.uploadFiles placement files session = (.ok bytes, later)) :
    Deposits migration.store (files.map (deposit placement)) session.tree later.tree := by
  induction files generalizing bytes session with
  | nil =>
      obtain rfl : session = later := congrArg Prod.snd h
      exact .done session.tree
  | cons file rest ih =>
      obtain ⟨source, entry, written, middle, others, hfound, hupload, hrest, _⟩ :=
        uploadFiles_cons_ok h
      obtain rfl : middle = _ := (congrArg Prod.snd hupload).symm
      obtain ⟨held, place, hheld, hstores⟩ :=
        upload_file_stores hfound (congrArg Prod.fst hupload)
      exact .next hheld hstores (ih hrest)

/-- No input of an asset lies in the root of the store or contains it. -/
def KeepsInputsOut (migration : Migration) (tree : FileTree) (entry : AssetEntry) : Prop :=
  ∀ input ∈ entry.files, ¬ IsNear (tree.locationOf migration.store.root)
    (tree.locationOf (migration.sourceRoot.join input))

instance (migration : Migration) (tree : FileTree) (entry : AssetEntry) :
    Decidable (migration.KeepsInputsOut tree entry) :=
  inferInstanceAs (Decidable (∀ input ∈ entry.files, ¬ IsNear (tree.locationOf migration.store.root)
    (tree.locationOf (migration.sourceRoot.join input))))

section Uploads

variable {placement : Placement} {files : List CollectedFile} {entry : AssetEntry}
  {before after : FileTree}

theorem exists_fileOf?_of_deposits (hformed : before.IsWellFormed)
    (hfiles : collect before migration.sourceRoot entry.files = .ok files)
    (h : Deposits migration.store (files.map (deposit placement)) before after) :
    ∀ file ∈ files, ∃ found, before.fileOf? file.path = some found := by
  intro file hfile
  have hsearch := h.isSearchable_of_mem _ (List.mem_map_of_mem hfile)
  obtain ⟨spot, held, hfound⟩ := lookUp_of_collected hformed hfiles file hfile hsearch
  exact ⟨(spot, held), fileOf?_eq_some_iff.mpr hfound⟩

theorem KeepsInputsOut.no_source (hout : migration.KeepsInputsOut before entry)
    (hplain : before.IsPlain) (hafter : after.IsPlain)
    (hfiles : collect before migration.sourceRoot entry.files = .ok files)
    (h : Deposits migration.store (files.map (deposit placement)) before after)
    {file : CollectedFile} (hfile : file ∈ files) {source : Location} {content : Bytes}
    (hs : before.fileOf? file.path = some (source, content)) (blob : String × String) :
    migration.store.place? after blob ≠ some source := by
  apply place?_ne_of_far hafter
  rw [FileTree.locationOf_eq h.growsTo.workDir_eq]
  have hfound := fileOf?_eq_some_iff.mp hs
  rcases isSteady_of_far hplain hout hfiles file hfile with
    ⟨place, held, hplace, hfar⟩ | ⟨error, _, herror⟩
  · obtain ⟨rfl, _⟩ := Prod.mk.inj (Except.ok.inj (hplace.symm.trans hfound))
    exact hfar
  · exact absurd (herror.symm.trans hfound) (by simp)

/-- In a tree without links, files of different names become blobs of their own. -/
theorem KeepsInputsOut.uploadsApart (hout : migration.KeepsInputsOut before entry)
    (hplain : before.IsPlain) (hafter : after.IsPlain) (hends : placement.EndsWithSlash)
    (hfiles : collect before migration.sourceRoot entry.files = .ok files)
    (h : Deposits migration.store (files.map (deposit placement)) before after)
    (hnames : (files.map CollectedFile.name).Nodup) :
    UploadsApart migration.store placement files before after := by
  constructor
  · rw [List.Nodup, List.pairwise_map] at hnames ⊢
    refine hnames.imp_of_mem ?_
    intro file other hfile hother hne hsame
    obtain ⟨place, hplace⟩ := h.place?_of_mem _ (List.mem_map_of_mem hfile)
    have hway := isWay_of_collected hplain.toIsWellFormed hfiles
    exact hne (name_eq_of_place? hafter hends (hway file hfile) (hway other hother) hplace
      (hsame.symm.trans hplace))
  · intro file _ source hsource place content hs
    exact hout.no_source hplain hafter hfiles h hsource hs _

/-- In a tree without links, the last file of its name is carried over. -/
theorem KeepsInputsOut.carries_last (hout : migration.KeepsInputsOut before entry)
    (hplain : before.IsPlain) (hafter : after.IsPlain) (hends : placement.EndsWithSlash)
    {front rest : List CollectedFile} {file : CollectedFile}
    (hfiles : collect before migration.sourceRoot entry.files = .ok (front ++ file :: rest))
    (h : Deposits migration.store ((front ++ file :: rest).map (deposit placement)) before after)
    (hlast : ∀ other ∈ rest, other.name ≠ file.name) :
    file.IsCarriedOver migration.store placement before after := by
  have hmem : file ∈ front ++ file :: rest := List.mem_append_right _ List.mem_cons_self
  obtain ⟨⟨source, content⟩, hs⟩ :=
    exists_fileOf?_of_deposits hplain.toIsWellFormed hfiles h file hmem
  refine isCarriedOver_of_deposits h hs
    (fun _ _ => hout.no_source hplain hafter hfiles h hmem hs _) ?_
  intro other hother hsame
  have hotherMem : other ∈ front ++ file :: rest :=
    List.mem_append_right _ (List.mem_cons_of_mem _ hother)
  obtain ⟨place, hplace⟩ := h.place?_of_mem _ (List.mem_map_of_mem hmem)
  have hway := isWay_of_collected hplain.toIsWellFormed hfiles
  exact hlast other hother (name_eq_of_place? hafter hends (hway other hotherMem) (hway file hmem)
    (hsame.trans hplace) hplace)

end Uploads

theorem before_asset_of_lasts {property : FileTree → Prop} (hlasts : LastsThroughChanges property)
    (migration : Migration) (manifest : Manifest) (index : Nat) {session : Session}
    (h : property session.tree) :
    property (migration.sessionBeforeAsset manifest index session).tree := by
  have hrun := lasts_of_changes hlasts migration .run
  rw [sessionBeforeAsset, sessionBefore, Session.tree_looked]
  have hstarted : property (migration.attemptContainers manifest session).2.tree :=
    hrun.attempt hrun.migrateContainer manifest.containers session h
  exact hrun.attempt (hrun.migrateAsset manifest) _ _ hstarted

/-- An asset that was migrated has its files in their blobs, as far as these are files of their own.
-/
theorem migrateAsset_carries {entry : AssetEntry} {session : Session} {upload : AssetUpload}
    (hformed : session.tree.IsWellFormed)
    (h : (migration.migrateAsset .run manifest entry session).1 = .ok upload) :
    let after := (migration.migrateAsset .run manifest entry session).2.tree
    ∃ files, collect session.tree migration.sourceRoot entry.files = .ok files ∧
      upload.blobs = files.map (fun file => upload.placement.blobName file.name) ∧
      (UploadsApart migration.store upload.placement files session.tree after →
        ∀ file ∈ files,
          file.IsCarriedOver migration.store upload.placement session.tree after) ∧
      (session.tree.IsPlain → migration.KeepsInputsOut session.tree entry →
        ((files.map CollectedFile.name).Nodup →
          UploadsApart migration.store upload.placement files session.tree after) ∧
        ∀ front file rest, files = front ++ file :: rest →
          (∀ other ∈ rest, other.name ≠ file.name) →
          file.IsCarriedOver migration.store upload.placement session.tree after) := by
  intro after
  obtain ⟨mapper, files, hplacement, hfiles, hblobs, huploads⟩ := migrateAsset_uploads h
  have hdeposits := uploadFiles_deposits huploads
  have hends : upload.placement.EndsWithSlash := (Mapper.isExpanded hplacement).ends_with_slash
  refine ⟨files, hfiles, hblobs, ?_, ?_⟩
  · intro hapart
    exact hapart.isCarriedOver hdeposits (exists_fileOf?_of_deposits hformed hfiles hdeposits)
  · intro hplain hout
    have hafter : after.IsPlain :=
      (lasts_of_changes isPlain_lasts migration .run).migrateAsset manifest entry session hplain
    refine ⟨hout.uploadsApart hplain hafter hends hfiles hdeposits, ?_⟩
    rintro front file rest rfl hlast
    exact hout.carries_last hplain hafter hends hfiles hdeposits hlast

/-- When an asset is reported as migrated, files were collected for it, and each has a blob. Right
after the asset these blobs have the bytes of their files, and the files still have them, if the
blobs are files of their own: then no two files share a blob. In a tree without links, and with
inputs that neither lie in the store nor contain it, they are if the names of the files are all
different. Otherwise the last file of each name has its bytes in the blob. -/
theorem run_carries_files_over (migration : Migration) (manifest : Manifest) (session : Session)
    (hformed : session.tree.IsWellFormed) {index : Nat} {unit : String} {upload : AssetUpload}
    (h : (migration.execute .run manifest session).1.assets[index]? = some ⟨unit, .ok upload⟩) :
    ∃ entry files, manifest.assets[index]? = some entry ∧ unit = entry.asset.name ∧
      let before := migration.sessionBeforeAsset manifest index session
      let after := (migration.migrateAsset .run manifest entry before).2.tree
      collect before.tree migration.sourceRoot entry.files = .ok files ∧
      upload.blobs = files.map (fun file => upload.placement.blobName file.name) ∧
      (UploadsApart migration.store upload.placement files before.tree after →
        ∀ file ∈ files,
          file.IsCarriedOver migration.store upload.placement before.tree after) ∧
      (session.tree.IsPlain → migration.KeepsInputsOut session.tree entry →
        ((files.map CollectedFile.name).Nodup →
          UploadsApart migration.store upload.placement files before.tree after) ∧
        ∀ front file rest, files = front ++ file :: rest →
          (∀ other ∈ rest, other.name ≠ file.name) →
          file.IsCarriedOver migration.store upload.placement before.tree after) := by
  obtain hnone | hassets := migration.assets_execute .run manifest session
  · rw [hnone] at h
    exact absurd h (by simp)
  · rw [hassets] at h
    obtain ⟨entry, hentry, hunit, houtcome, _⟩ := attempt_entry h
    obtain ⟨files, hfiles, hblobs, hcarried, hplainCase⟩ := migrateAsset_carries
      (before_asset_of_lasts isWellFormed_lasts migration manifest index hformed) houtcome.symm
    refine ⟨entry, files, hentry, hunit, hfiles, hblobs, hcarried, ?_⟩
    intro hplain hout
    apply hplainCase (before_asset_of_lasts isPlain_lasts migration manifest index hplain)
    intro input hinput
    have hworkDir := before_asset_of_lasts (workDir_lasts session.tree.workDir) migration manifest
      index rfl
    rw [FileTree.locationOf_eq hworkDir, FileTree.locationOf_eq hworkDir]
    exact hout input hinput

/-! ## Files of two names, and files of one name -/

theorem tree_sessionBeforeAsset_zero (migration : Migration)
    (hcontainers : manifest.containers = []) (session : Session) :
    (migration.sessionBeforeAsset manifest 0 session).tree = session.tree := by
  rw [sessionBeforeAsset, sessionBefore, Session.tree_looked, List.take_zero, attempt,
    attemptContainers, hcontainers, attempt]

namespace TwoInputs

theorem assetName_accepted : Template.firstUnknownKey? "$\x7bAssetName\x7d" .asset = none := by
  decide +kernel

def replacing : Migration :=
  ⟨⟨⟨"$\x7bAssetName\x7d", .asset, assetName_accepted⟩,
    ⟨"containers", .container, by decide +kernel⟩, none, none⟩, ⟨⟨"store"⟩, true⟩, ⟨"."⟩, none⟩

def tree (other : String) : FileTree :=
  ((FileTree.empty.put ["x"] (.file [97])).put ["d"] .directory).put ["d", other] (.file [98, 99])

def entry (other : String) : AssetEntry where
  asset := { name := "clip" }
  files := [⟨"x"⟩, ⟨"d/" ++ other⟩]

def clips (other : String) : Manifest where
  assets := [entry other]

def run (other : String) : MigrationReport × Session :=
  replacing.execute .run (clips other) { tree := tree other }

end TwoInputs

theorem twoInputs_outcomes : ∀ other ∈ ["x", "y"],
    ((TwoInputs.run other).1.assets.map fun unit => unit.outcome.toOption) =
      [some ⟨⟨"clip", ""⟩, ["x", other], 3⟩] := by
  decide +kernel

/-- Files of two names arrive both. -/
theorem run_carries_two_files_over :
    (TwoInputs.tree "y").IsWellFormed ∧
      ∃ unit, (TwoInputs.run "y").1.assets[0]? =
          some ⟨unit, .ok ⟨⟨"clip", ""⟩, ["x", "y"], 3⟩⟩ ∧
        ∀ file ∈ [⟨⟨"./x"⟩, "x"⟩, ⟨⟨"./d/y"⟩, "y"⟩],
          CollectedFile.IsCarriedOver file TwoInputs.replacing.store ⟨"clip", ""⟩
            (TwoInputs.tree "y")
            (TwoInputs.replacing.migrateAsset .run (TwoInputs.clips "y") (TwoInputs.entry "y")
              (TwoInputs.replacing.sessionBeforeAsset (TwoInputs.clips "y") 0
                { tree := TwoInputs.tree "y" })).2.tree := by
  have hplain : (TwoInputs.tree "y").IsPlain := by decide +kernel
  obtain ⟨unit, hunit⟩ := exists_report_of_outcomes (twoInputs_outcomes "y" (by simp))
  refine ⟨hplain.toIsWellFormed, unit, hunit, ?_⟩
  rw [TwoInputs.run] at hunit
  obtain ⟨entry, files, hentry, _, hfiles, _, hcarried, hnames⟩ :=
    run_carries_files_over TwoInputs.replacing (TwoInputs.clips "y") { tree := TwoInputs.tree "y" }
      hplain.toIsWellFormed hunit
  obtain rfl : TwoInputs.entry "y" = entry := Option.some.inj hentry
  rw [tree_sessionBeforeAsset_zero _ rfl] at hfiles
  have hcollected : collect (TwoInputs.tree "y") TwoInputs.replacing.sourceRoot
      (TwoInputs.entry "y").files = .ok [⟨⟨"./x"⟩, "x"⟩, ⟨⟨"./d/y"⟩, "y"⟩] := by
    decide +kernel
  obtain rfl := Except.ok.inj (hcollected.symm.trans hfiles)
  rw [tree_sessionBeforeAsset_zero _ rfl] at hcarried hnames
  have hout : TwoInputs.replacing.KeepsInputsOut (TwoInputs.tree "y") (TwoInputs.entry "y") := by
    decide +kernel
  exact hcarried ((hnames hplain hout).1 (by decide))

/-- Of two files of one name the second replaces the first, and the report says that both have
arrived, with all their bytes. -/
theorem second_file_replaces_first :
    TwoInputs.replacing.KeepsInputsOut (TwoInputs.tree "x") (TwoInputs.entry "x") ∧
      collect (TwoInputs.tree "x") TwoInputs.replacing.sourceRoot (TwoInputs.entry "x").files =
        .ok [⟨⟨"./x"⟩, "x"⟩, ⟨⟨"./d/x"⟩, "x"⟩] ∧
      ((TwoInputs.run "x").1.assets.map fun unit => unit.outcome.toOption) =
        [some ⟨⟨"clip", ""⟩, ["x", "x"], 3⟩] ∧
      (TwoInputs.run "x").2.tree.fileOf? ⟨"./x"⟩ = some (["x"], [97]) ∧
      TwoInputs.replacing.store.stored? "clip" "x" (TwoInputs.run "x").2.tree =
        some (["store", "clip", "x"], [98, 99]) := by
  decide +kernel

end Migration

end MediaMigration
