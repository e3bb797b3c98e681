import MediaMigration.Proofs.Migration.Delivery
import MediaMigration.Proofs.Migration.Lasting

/-!
# What a run has delivered at its end

A run goes through containers, assets and keys. What an asset has delivered is kept by all
units behind it, whether they succeed, fail or are cancelled, and the blobs of all assets
are files of their own: of two assets that would have a blob of the same name in the same
container, only the first can be reported as migrated.
-/

namespace MediaMigration

open FileTree BlobStore

/-- The blobs of all assets that are reported as migrated. -/
def MigrationReport.assetBlobs (report : MigrationReport) : List (String × String) :=
  report.assets.flatMap fun asset => blobsOfOutcome AssetUpload.located asset.outcome

namespace Migration

def attemptContainers (migration : Migration) (manifest : Manifest) (session : Session) :
    (List (UnitReport ContainerCopy) × Bool) × Session :=
  migration.attempt Container.name (migration.migrateContainer .run) manifest.containers session

def attemptAssets (migration : Migration) (manifest : Manifest) (session : Session) :
    (List (UnitReport AssetUpload) × Bool) × Session :=
  migration.attempt (fun entry : AssetEntry => entry.asset.name)
    (migration.migrateAsset .run manifest) manifest.assets session

/-- The session in which the asset of this number is migrated, if the run gets there. -/
def sessionBeforeAsset (migration : Migration) (manifest : Manifest) (index : Nat)
    (session : Session) : Session :=
  migration.sessionBefore (fun entry : AssetEntry => entry.asset.name)
    (migration.migrateAsset .run manifest) manifest.assets index
    (migration.attemptContainers manifest session).2

variable {migration : Migration}

/-- A run ends after the containers and reports no asset, or it reports what became of the
assets. The keys keep every entry. -/
theorem execute_phases (hmode : migration.store.overwrite = false) (manifest : Manifest)
    (session : Session) :
    ((migration.execute .run manifest session).1.assets = [] ∧
        (migration.execute .run manifest session).2 =
          (migration.attemptContainers manifest session).2) ∨
      ((migration.execute .run manifest session).1.assets =
          (migration.attemptAssets manifest
            (migration.attemptContainers manifest session).2).1.1 ∧
        KeptBy (migration.attemptAssets manifest
            (migration.attemptContainers manifest session).2).2.tree
          (migration.execute .run manifest session).2.tree) := by
  simp only [execute_eq]
  split
  · exact .inl ⟨rfl, rfl⟩
  · right
    split
    · exact ⟨rfl, .refl _⟩
    · have hkeeps := Session.keeps_entries hmode .run
      exact ⟨rfl, hkeeps.attempt hkeeps.mapKey manifest.keys _⟩

theorem migrateAsset_newBlobs (hmode : migration.store.overwrite = false) (manifest : Manifest)
    (entry : AssetEntry) (session : Session) :
    NewBlobs migration.store session.tree
      (migration.migrateAsset .run manifest entry session).2.tree
      (blobsOfOutcome AssetUpload.located
        (migration.migrateAsset .run manifest entry session).1) := by
  cases h : (migration.migrateAsset .run manifest entry session).1 with
  | error error =>
      have hkept := (Session.keeps_entries hmode .run).migrateAsset manifest entry session
      exact newBlobs_nil hkept
  | ok upload => exact (migrateAsset_ok hmode h).1

theorem attemptAssets_newBlobs (hmode : migration.store.overwrite = false)
    (manifest : Manifest) (session : Session) :
    NewBlobs migration.store session.tree (migration.attemptAssets manifest session).2.tree
      ((migration.attemptAssets manifest session).1.1.flatMap fun asset =>
        blobsOfOutcome AssetUpload.located asset.outcome) :=
  attempt_newBlobs (migrateAsset_newBlobs hmode manifest) manifest.assets session

/-- The asset of this number, once it is reported as migrated, has been delivered when all
assets have been attempted. -/
theorem attemptAssets_delivers (hmode : migration.store.overwrite = false)
    {manifest : Manifest} {session : Session} {index : Nat} {report : UnitReport AssetUpload}
    {upload : AssetUpload}
    (h : (migration.attemptAssets manifest
      (migration.attemptContainers manifest session).2).1.1[index]? = some report)
    (hok : report.outcome = .ok upload) :
    ∃ entry files, manifest.assets[index]? = some entry ∧ report.unit = entry.asset.name ∧
      CollectedFile.collect (migration.sessionBeforeAsset manifest index session).tree
        migration.sourceRoot entry.files = .ok files ∧
      upload.Delivers migration.store files
        (migration.attemptAssets manifest
          (migration.attemptContainers manifest session).2).2.tree := by
  obtain ⟨entry, hentry, hname, houtcome, hlast⟩ := attempt_entry h
  rw [hok] at houtcome
  obtain ⟨_, files, hfiles, hdelivers⟩ := migrateAsset_ok hmode houtcome.symm
  refine ⟨entry, files, hentry, hname, hfiles, ?_⟩
  rw [attemptAssets, hlast]
  have hkeeps := Session.keeps_entries hmode .run
  exact hdelivers.kept (hkeeps.attempt (hkeeps.migrateAsset manifest) _ _)

/-- At the end of a run over a store that replaces nothing, every asset that is reported as
migrated has been delivered: the files that were collected for it are stored under their
names, with the bytes that they have now, and their bytes were counted. No two files of
such assets share a file of the store. The run may be cancelled at any moment. -/
theorem run_delivers (templates : Templates) (root sourceRoot : FilePath)
    (cancelAfter? : Option Nat) (manifest : Manifest) (session : Session) :
    let migration : Migration := ⟨templates, keeping root, sourceRoot, cancelAfter?⟩
    let run := migration.execute .run manifest session
    (∀ index unit upload, run.1.assets[index]? = some ⟨unit, .ok upload⟩ →
      ∃ entry files, manifest.assets[index]? = some entry ∧ unit = entry.asset.name ∧
        CollectedFile.collect (migration.sessionBeforeAsset manifest index session).tree
          sourceRoot entry.files = .ok files ∧
        upload.Delivers (keeping root) files run.2.tree) ∧
      (run.1.assetBlobs.map ((keeping root).place? run.2.tree)).Nodup := by
  intro migration run
  have hmode : migration.store.overwrite = false := rfl
  obtain ⟨hnone, _⟩ | ⟨hassets, hkept⟩ := execute_phases hmode manifest session
  · refine ⟨?_, ?_⟩
    · intro index unit upload hreport
      simp [run, hnone] at hreport
    · simp [MigrationReport.assetBlobs, run, hnone]
  · refine ⟨?_, ?_⟩
    · intro index unit upload hreport
      rw [hassets] at hreport
      obtain ⟨entry, files, hentry, hname, hfiles, hdelivers⟩ :=
        attemptAssets_delivers hmode hreport rfl
      exact ⟨entry, files, hentry, hname, hfiles, hdelivers.kept hkept⟩
    · have hnew := attemptAssets_newBlobs hmode manifest
        (migration.attemptContainers manifest session).2
      have hlast := hnew.append (newBlobs_nil hkept)
      rw [List.append_nil] at hlast
      rw [MigrationReport.assetBlobs, hassets]
      exact hlast.apart

/-! ## Two assets that want the same blob -/

namespace Twins

def templates : Templates :=
  ⟨⟨"media/$\x7bAssetName\x7d", .asset, by decide +kernel⟩,
    ⟨"media", .container, by decide +kernel⟩, none, none⟩

def asset : AssetEntry where
  asset := { name := "one" }
  files := [⟨"in"⟩]

def tree : FileTree :=
  (FileTree.empty.put ["in"] .directory).put ["in", "a"] (.file [1, 2, 3])

def run : MigrationReport × Session :=
  execute ⟨templates, keeping ⟨"store"⟩, ⟨"."⟩, none⟩ .run { assets := [asset, asset] } { tree }

end Twins

theorem twins_outcomes : (Twins.run.1.assets.map fun unit => unit.outcome.toOption) =
    [some ⟨⟨"media", "one/"⟩, ["one/a"], 3⟩, none] := by
  decide +kernel

theorem exists_report_of_outcomes {β : Type} {reports : List (UnitReport β)} {target : β}
    {others : List (Option β)}
    (h : (reports.map fun unit => unit.outcome.toOption) = some target :: others) :
    ∃ unit, reports[0]? = some ⟨unit, .ok target⟩ := by
  obtain ⟨⟨unit, outcome⟩, rest, rfl, houtcome, _⟩ := List.map_eq_cons_iff.mp h
  cases outcome with
  | error error => exact absurd houtcome (by simp [Except.toOption])
  | ok found =>
      obtain rfl : found = target := by simpa [Except.toOption] using houtcome
      exact ⟨unit, rfl⟩

theorem run_delivers_twins :
    ∃ unit, Twins.run.1.assets[0]? = some ⟨unit, .ok ⟨⟨"media", "one/"⟩, ["one/a"], 3⟩⟩ ∧
      unit = "one" ∧ ∃ files, AssetUpload.Delivers ⟨⟨"media", "one/"⟩, ["one/a"], 3⟩
        (keeping ⟨"store"⟩) files Twins.run.2.tree := by
  obtain ⟨unit, hunit⟩ := exists_report_of_outcomes twins_outcomes
  have hdelivers := (run_delivers Twins.templates ⟨"store"⟩ ⟨"."⟩ none
    { assets := [Twins.asset, Twins.asset] } { tree := Twins.tree }).1 0 unit
      ⟨⟨"media", "one/"⟩, ["one/a"], 3⟩
  rw [← Twins.run] at hdelivers
  obtain ⟨entry, files, hentry, hname, _, hstored⟩ := hdelivers hunit
  obtain rfl : Twins.asset = entry := Option.some.inj hentry
  exact ⟨unit, hunit, hname, files, hstored⟩

end Migration

end MediaMigration
