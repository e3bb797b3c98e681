import MediaMigration.Proofs.Migration.Accounting
import MediaMigration.Proofs.Migration.Collection
import MediaMigration.Proofs.Migration.Lasting
import MediaMigration.Proofs.Migration.Run
import MediaMigration.Proofs.Template.Substitution

/-!
# A plan foretells the run

A plan only lists containers and looks at inputs. What a run reports as migrated, the plan from
the same tree has reported with the same names: they come from templates, which know nothing of
the tree, and from what is collected. As long as it is not cancelled, a run in a tree without
links only adds to the tree, and only at the store, so what cannot be planned cannot be run
either. The exception are paths that go up from a directory that the run itself has made.
-/

namespace MediaMigration

open FileTree BlobStore

/-- A planned target says of the target in a run all that does not depend on what is stored: where
it goes, the blobs of an asset in their order, and the whole of a key. -/
def UnitTarget.Foretells : UnitTarget → UnitTarget → Prop
  | .container planned, .container copy => planned.placement = copy.placement
  | .asset planned, .asset upload =>
      planned.placement = upload.placement ∧ planned.blobs = upload.blobs
  | .key planned, .key mapping => planned = mapping
  | _, _ => False

/-- If a run reports the unit of this number as migrated, a plan has done so under the same
name, and has foretold the target. -/
def MigrationReport.Foretells (plan run : MigrationReport) (index : Nat) : Prop :=
  ∀ unit target, run.units[index]? = some ⟨unit, .ok target⟩ →
    ∃ planned, plan.units[index]? = some ⟨unit, .ok planned⟩ ∧ planned.Foretells target

namespace Migration

variable {migration : Migration} {manifest : Manifest}

/-! ## A run that is never cancelled only adds to the tree -/

theorem copyBlobs_grown (hnever : migration.cancelAfter? = none) {start : FileTree}
    {session : Session} (h : GrownAt migration.store.root start session.tree)
    {container : String} {blobs : List String}
    (hblobs : ∀ blob ∈ blobs, ∀ path, migration.store.blobPath container blob = .ok path →
      AlwaysFile start path) (placement : Placement) :
    GrownAt migration.store.root start
      (migration.copyBlobs container placement blobs session).2.tree := by
  apply copyBlobs_invariant (fun session => GrownAt migration.store.root start session.tree) _ h
  intro blob hblob middle hmiddle
  have hsource : ∀ path, migration.store.blobPath container blob = .ok path →
      AlwaysFile middle.tree path := by
    intro path hpath
    exact (hblobs blob hblob path hpath).later hmiddle.grows
  have hcopy := hmiddle.copy hsource placement.container (placement.blobName blob)
  rw [hnever]
  exact hcopy

theorem uploadFiles_grown (hnever : migration.cancelAfter? = none) {start : FileTree}
    {session : Session} (h : GrownAt migration.store.root start session.tree)
    {files : List CollectedFile} (hfiles : ∀ file ∈ files, AlwaysFile start file.path)
    (placement : Placement) :
    GrownAt migration.store.root start
      (migration.uploadFiles placement files session).2.tree := by
  apply uploadFiles_invariant (fun session => GrownAt migration.store.root start session.tree) _ h
  intro file hfile middle place entry hmiddle hfound
  obtain ⟨held, rfl⟩ := hfiles file hfile middle.tree place entry hmiddle.grows hfound
  have hupload := hmiddle.upload (entryAt_of_lookUp hfound) placement.container
    (placement.blobName file.name)
  rw [hnever]
  exact hupload

theorem migrateUnit_grown (hnever : migration.cancelAfter? = none) (manifest : Manifest)
    (unit : MigrationUnit) {session : Session} (hplain : session.tree.IsPlain) :
    GrownAt migration.store.root session.tree
      (migration.migrateUnit .run manifest unit session).2.tree := by
  have hstart : GrownAt migration.store.root session.tree session.tree := .refl hplain
  cases unit with
  | container container =>
      obtain ⟨mapper, hafter | hafter | ⟨placement, blobs, _, _, hlist, hafter⟩⟩ :=
        migration.migrateContainer_session .run container session
      · simp only [migrateUnit, hafter]
        exact hstart
      · simp only [migrateUnit, hafter]
        exact hstart
      · simp only [migrateUnit, hafter]
        apply copyBlobs_grown hnever
        · exact hstart
        · intro blob hblob path hpath
          exact alwaysFile_of_listed hplain.toIsWellFormed hlist hblob hpath
  | asset entry =>
      obtain ⟨mapper, hafter | ⟨placement, files, _, _, hfiles, hafter⟩⟩ :=
        migration.migrateAsset_session .run manifest entry session
      · simp only [migrateUnit, hafter]
        exact hstart
      · simp only [migrateUnit, hafter]
        have halways := CollectedFile.alwaysFile_of_collected hplain.toIsWellFormed hfiles
        apply uploadFiles_grown hnever
        · exact hstart
        · exact halways
  | key key =>
      obtain ⟨mapper, hafter⟩ := migration.mapKey_session key session
      simp only [migrateUnit, hafter]
      exact hstart

/-- Whatever units come first leave a tree that storing has led to. -/
theorem sessionBefore_grown (hnever : migration.cancelAfter? = none) (manifest : Manifest)
    (units : List MigrationUnit) (count : Nat) {session : Session}
    (hplain : session.tree.IsPlain) :
    GrownAt migration.store.root session.tree
      (migration.sessionBefore MigrationUnit.name (migration.migrateUnit .run manifest) units
        count session).tree := by
  have hattempted : session.tree.IsPlain →
      GrownAt migration.store.root session.tree
        (migration.attempt MigrationUnit.name (migration.migrateUnit .run manifest)
          (units.take count) session).2.tree := by
    apply attempt_relates fun session later =>
      session.tree.IsPlain → GrownAt migration.store.root session.tree later.tree
    · intro session hplain
      exact .refl hplain
    · intro first second third h g hplain
      have hfirst := h hplain
      exact hfirst.trans (g hfirst.plain)
    · intro session hplain
      rw [Session.tree_looked]
      exact .refl hplain
    · intro unit session hplain
      exact migrateUnit_grown hnever manifest unit hplain
  have hgrown := hattempted hplain
  rw [sessionBefore, Session.tree_looked]
  exact hgrown

/-! ## One unit, planned and run -/

section OneUnit

variable {planning running : Session}

theorem migrateContainer_foretold (hplain : planning.tree.IsPlain)
    (hgrown : GrownAt migration.store.root planning.tree running.tree) {container : Container}
    {copy : ContainerCopy}
    (h : (migration.migrateContainer .run container running).1 = .ok copy) :
    ∃ planned, (migration.migrateContainer .plan container planning).1 = .ok planned ∧
      planned.placement = copy.placement := by
  have hsame := running.mapper.expandContainer_of_any planning.mapper container
    migration.templates.container.text
  unfold migrateContainer at h ⊢
  cases hrun : running.mapper.expandContainer container migration.templates.container.text with
  | mk answer mapper =>
      cases hplan : planning.mapper.expandContainer container
          migration.templates.container.text with
      | mk planned memory =>
          rw [hrun, hplan] at hsame
          obtain rfl : answer = planned := hsame
          simp only [hrun] at h
          simp only
          cases answer with
          | error error => exact absurd h (by simp)
          | ok placement =>
              simp only at h ⊢
              by_cases hplace : placement.container = container.name ∧ placement.namePrefix = ""
              · rw [if_pos hplace] at h ⊢
                obtain rfl := Except.ok.inj h
                exact ⟨_, rfl, rfl⟩
              · rw [if_neg hplace] at h ⊢
                cases hlist : migration.store.list container.name planning.tree with
                | error error =>
                    obtain ⟨cause, hcause⟩ :=
                      list_error_of_growsTo hplain hgrown.plain hgrown.grows hlist
                    simp [Session.list, Session.returned, hcause] at h
                | ok listed =>
                    refine ⟨⟨placement, listed.length⟩, ?_, ?_⟩
                    · simp only [Session.list, Session.returned, hlist]
                    · split at h
                      · exact absurd h (by simp)
                      · split at h
                        · exact absurd h (by simp)
                        · rw [← Except.ok.inj h]

theorem migrateAsset_foretold {entry : AssetEntry}
    (hcollect : ∀ files,
      CollectedFile.collect running.tree migration.sourceRoot entry.files = .ok files →
        CollectedFile.collect planning.tree migration.sourceRoot entry.files = .ok files)
    {upload : AssetUpload}
    (h : (migration.migrateAsset .run manifest entry running).1 = .ok upload) :
    ∃ planned, (migration.migrateAsset .plan manifest entry planning).1 = .ok planned ∧
      planned.placement = upload.placement ∧ planned.blobs = upload.blobs := by
  have hsame := running.mapper.expandAsset_of_any planning.mapper entry.asset
    (.ofManifest manifest) migration.templates.path.text
  unfold migrateAsset at h ⊢
  cases hrun : running.mapper.expandAsset entry.asset (.ofManifest manifest)
      migration.templates.path.text with
  | mk expanded mapper =>
      cases hplan : planning.mapper.expandAsset entry.asset (.ofManifest manifest)
          migration.templates.path.text with
      | mk planned memory =>
          rw [hrun, hplan] at hsame
          obtain rfl : expanded = planned := hsame
          obtain ⟨answer, lookups⟩ := expanded
          simp only [hrun] at h
          simp only
          cases answer with
          | error error => exact absurd h (by simp)
          | ok placement =>
              simp only at h ⊢
              cases hfiles : CollectedFile.collect running.tree migration.sourceRoot
                  entry.files with
              | error error => simp [hfiles] at h
              | ok files =>
                  simp only [hfiles] at h
                  simp only [hcollect files hfiles]
                  refine ⟨_, rfl, ?_⟩
                  split at h
                  · exact absurd h (by simp)
                  · rw [← Except.ok.inj h]
                    exact ⟨rfl, rfl⟩

theorem mapKey_foretold (migration : Migration) (key : ContentKey) (planning running : Session) :
    (migration.mapKey key planning).1 = (migration.mapKey key running).1 := by
  have hsame := planning.mapper.expandKey_of_any running.mapper key
    (migration.templates.key.map Template.text)
  unfold mapKey
  cases hplan : planning.mapper.expandKey key (migration.templates.key.map Template.text) with
  | mk answer mapper =>
      cases hrun : running.mapper.expandKey key (migration.templates.key.map Template.text) with
      | mk other memory =>
          rw [hplan, hrun] at hsame
          obtain rfl : answer = other := hsame
          cases answer with
          | error error => rfl
          | ok name =>
              cases migration.templates.keyAddress with
              | none => rfl
              | some template =>
                  have haddress := mapper.expandKeyAddress_of_any memory template.text
                    key.id.toString
                  simp only
                  cases hfirst : mapper.expandKeyAddress template.text key.id.toString with
                  | mk address first =>
                      cases hsecond : memory.expandKeyAddress template.text
                          key.id.toString with
                      | mk otherAddress second =>
                          rw [hfirst, hsecond] at haddress
                          obtain rfl : address = otherAddress := haddress
                          cases address with
                          | error error => rfl
                          | ok address => rfl

theorem exists_of_map_eq_ok {α β : Type} {f : α → β} {outcome : Except MigrationError α}
    {target : β} (h : outcome.map f = .ok target) :
    ∃ found, outcome = .ok found ∧ f found = target := by
  cases outcome with
  | error error => exact absurd h (by simp [Except.map])
  | ok found => exact ⟨found, rfl, Except.ok.inj h⟩

/-- A unit that a run has migrated in a grown tree can be planned in the tree before. -/
theorem migrateUnit_foretold (hplain : planning.tree.IsPlain)
    (hgrown : GrownAt migration.store.root planning.tree running.tree) {unit : MigrationUnit}
    (hapart : ∀ entry, unit = .asset entry → ∀ input ∈ entry.files,
      LiesApart migration.store.root (migration.sourceRoot.join input) planning.tree)
    {target : UnitTarget}
    (h : (migration.migrateUnit .run manifest unit running).1 = .ok target) :
    ∃ planned, (migration.migrateUnit .plan manifest unit planning).1 = .ok planned ∧
      planned.Foretells target := by
  cases unit with
  | container container =>
      obtain ⟨copy, hrun, rfl⟩ := exists_of_map_eq_ok h
      obtain ⟨planned, hplan, hplacement⟩ := migrateContainer_foretold hplain hgrown hrun
      refine ⟨.container planned, ?_, hplacement⟩
      simp only [migrateUnit, hplan, Except.map]
  | asset entry =>
      obtain ⟨upload, hrun, rfl⟩ := exists_of_map_eq_ok h
      have hcollect : ∀ files,
          CollectedFile.collect running.tree migration.sourceRoot entry.files = .ok files →
          CollectedFile.collect planning.tree migration.sourceRoot entry.files = .ok files := by
        intro files hfiles
        exact CollectedFile.collect_before hplain hgrown (hapart entry rfl) hfiles
      obtain ⟨planned, hplan, hblobs⟩ := migrateAsset_foretold hcollect hrun
      refine ⟨.asset planned, ?_, hblobs⟩
      simp only [migrateUnit, hplan, Except.map]
  | key key =>
      have hmapped : (migration.mapKey key running).1.map UnitTarget.key = .ok target := h
      obtain ⟨mapping, hrun, rfl⟩ := exists_of_map_eq_ok hmapped
      refine ⟨.key mapping, ?_, rfl⟩
      simp only [migrateUnit, mapKey_foretold migration key planning running, hrun, Except.map]

end OneUnit

/-! ## All units -/

/-- A plan that is never cancelled reports every unit, each as it is planned in the tree of the
start. -/
theorem attemptUnits_planned (hnever : migration.cancelAfter? = none) {units : List MigrationUnit}
    {index : Nat} {unit : MigrationUnit} (hunit : units[index]? = some unit)
    (session : Session) :
    ∃ planning : Session, planning.tree = session.tree ∧
      (migration.attemptUnits .plan manifest units session).1.1[index]? =
        some ⟨unit.name, (migration.migrateUnit .plan manifest unit planning).1⟩ := by
  obtain ⟨hreport, _⟩ := attempt_at MigrationUnit.name (migration.migrateUnit .plan manifest) hnever
    hunit session
  refine ⟨migration.sessionBefore MigrationUnit.name (migration.migrateUnit .plan manifest) units
    index session, ?_, ?_⟩
  · have hlists :=
      (Session.onlyLists_plan migration).attemptUnits manifest (units.take index) session
    rw [sessionBefore, Session.tree_looked]
    exact hlists.1
  · exact hreport

/-- A plan calls nothing but listings and leaves the tree as it is. In a tree without links and
without a cancellation, every unit that a run reports as migrated is reported by the plan from
the same tree, under the same name and with the same target as far as it does not depend on
what is stored. Of an asset this holds if its inputs lie apart from the root of the store. -/
theorem plan_foretells_run (migration : Migration) (manifest : Manifest) :
    (∀ session : Session, session.OnlyLists (migration.execute .plan manifest session).2) ∧
      ∀ planning running : Session, running.tree = planning.tree → planning.tree.IsPlain →
        migration.cancelAfter? = none → ∀ index,
        (∀ entry, manifest.units[index]? = some (.asset entry) → ∀ input ∈ entry.files,
          LiesApart migration.store.root (migration.sourceRoot.join input) planning.tree) →
        MigrationReport.Foretells (migration.execute .plan manifest planning).1
          (migration.execute .run manifest running).1 index := by
  refine ⟨(Session.onlyLists_plan migration).execute manifest, ?_⟩
  intro planning running htree hplain hnever index hapart unit target hrun
  rw [units_execute] at hrun ⊢
  obtain ⟨item, hitem, hname, houtcome, _⟩ := attempt_entry hrun
  obtain ⟨before, hbefore, hplanned⟩ := attemptUnits_planned hnever hitem planning
  have hgrown := sessionBefore_grown hnever manifest manifest.units index
    (htree ▸ hplain)
  rw [htree, ← hbefore] at hgrown
  obtain ⟨planned, hplan, hforetells⟩ := migrateUnit_foretold (hbefore ▸ hplain) hgrown
    (fun entry hentry => by
      rw [hbefore]
      exact hapart entry (hentry ▸ hitem)) houtcome.symm
  refine ⟨planned, ?_, hforetells⟩
  rw [hplanned, hplan]
  simp only at hname
  rw [hname]

/-! ## An asset that is foretold, and two that are found by the run only -/

namespace MadeDirectories

def templates : Templates :=
  ⟨⟨"$\x7bAssetName\x7d", .asset, by decide +kernel⟩, ⟨"archive", .container, by decide +kernel⟩,
    none, none⟩

def storingIn (root : String) : Migration :=
  ⟨templates, ⟨⟨root⟩, false⟩, ⟨"."⟩, none⟩

def tree : FileTree :=
  ((FileTree.empty.put ["in"] .directory).put ["in", "a"] (.file [1])).put ["in", "b"] (.file [2])

def asset (name input : String) : AssetEntry where
  asset := { name }
  files := [⟨input⟩]

def oneAsset : Manifest where
  assets := [asset "one" "in/../in/b"]

def twoAssets (input : String) : Manifest where
  assets := [asset "one" "in/a", asset "two" input]

end MadeDirectories

theorem one_asset_outcomes :
    (((MadeDirectories.storingIn "store").execute .run MadeDirectories.oneAsset
      { tree := MadeDirectories.tree }).1.units.map fun unit => unit.outcome.toOption) =
        [some (.asset ⟨⟨"one", ""⟩, ["b"], 1⟩)] := by
  decide +kernel

/-- A path that goes up from a directory of the start leads the plan where it leads the run. -/
theorem plan_foretells_one_asset :
    MadeDirectories.tree.IsPlain ∧ ∃ unit planned,
      ((MadeDirectories.storingIn "store").execute .run MadeDirectories.oneAsset
          { tree := MadeDirectories.tree }).1.units[0]? =
        some ⟨unit, .ok (.asset ⟨⟨"one", ""⟩, ["b"], 1⟩)⟩ ∧
      ((MadeDirectories.storingIn "store").execute .plan MadeDirectories.oneAsset
          { tree := MadeDirectories.tree }).1.units[0]? = some ⟨unit, .ok planned⟩ ∧
      planned.Foretells (.asset ⟨⟨"one", ""⟩, ["b"], 1⟩) := by
  have hplain : MadeDirectories.tree.IsPlain := by decide +kernel
  have hapart : ∀ input ∈ (MadeDirectories.asset "one" "in/../in/b").files,
      LiesApart ⟨"store"⟩ (FilePath.join ⟨"."⟩ input) MadeDirectories.tree := by
    decide +kernel
  obtain ⟨unit, hrun⟩ := exists_report_of_outcomes one_asset_outcomes
  have hforetells := (plan_foretells_run (MadeDirectories.storingIn "store")
    MadeDirectories.oneAsset).2 { tree := MadeDirectories.tree } { tree := MadeDirectories.tree }
    rfl hplain rfl 0
  have hplanned := hforetells fun entry hentry input hinput => by
    obtain rfl : MadeDirectories.asset "one" "in/../in/b" = entry :=
      MigrationUnit.asset.inj (Option.some.inj hentry)
    exact hapart input hinput
  obtain ⟨planned, hplan, htarget⟩ := hplanned unit _ hrun
  exact ⟨hplain, unit, planned, hrun, hplan, htarget⟩

/-- A unit that a run reports as migrated and the plan has not foretold, in a tree without links,
without a cancellation, and with inputs of all assets that neither lie in the root of the store
nor contain it. -/
def Misses (migration : Migration) (manifest : Manifest) (tree : FileTree) (index : Nat) : Prop :=
  tree.IsPlain ∧ migration.cancelAfter? = none ∧
    (∀ entry ∈ manifest.assets, ∀ input ∈ entry.files,
      ¬ IsNear (tree.locationOf migration.store.root)
        (tree.locationOf (migration.sourceRoot.join input))) ∧
    ¬ MigrationReport.Foretells (migration.execute .plan manifest { tree }).1
        (migration.execute .run manifest { tree }).1 index

theorem misses_of_targets {migration : Migration} {manifest : Manifest} {tree : FileTree}
    {index : Nat} {target : UnitTarget} (hplain : tree.IsPlain)
    (hnever : migration.cancelAfter? = none)
    (hapart : ∀ entry ∈ manifest.assets, ∀ input ∈ entry.files,
      ¬ IsNear (tree.locationOf migration.store.root)
        (tree.locationOf (migration.sourceRoot.join input)))
    (hrun : (migration.execute .run manifest { tree }).1.units[index]?.bind UnitReport.target? =
      some target)
    (hplan : (migration.execute .plan manifest { tree }).1.units[index]?.bind
      UnitReport.target? = none) :
    migration.Misses manifest tree index := by
  refine ⟨hplain, hnever, hapart, ?_⟩
  intro hforetells
  obtain ⟨⟨unit, outcome⟩, hreport, htarget⟩ := Option.bind_eq_some_iff.mp hrun
  cases outcome with
  | error error => exact absurd htarget (by simp [UnitReport.target?])
  | ok found =>
      obtain ⟨planned, hplanned, _⟩ := hforetells unit found hreport
      rw [hplanned] at hplan
      exact absurd hplan (by simp [UnitReport.target?])

/-- Uploading the first asset makes a directory from which the second goes up, or which is the
second itself: the plan has not found it there. -/
theorem plan_misses_made_directories :
    (MadeDirectories.storingIn "x/store").Misses (MadeDirectories.twoAssets "x/../in/b")
        MadeDirectories.tree 1 ∧
      (MadeDirectories.storingIn "x/../store").Misses (MadeDirectories.twoAssets "x")
        MadeDirectories.tree 1 := by
  have hplain : MadeDirectories.tree.IsPlain := by decide +kernel
  constructor
  · apply misses_of_targets hplain rfl
    · decide +kernel
    · show _ = some (UnitTarget.asset ⟨⟨"two", ""⟩, ["b"], 1⟩)
      decide +kernel
    · decide +kernel
  · apply misses_of_targets hplain rfl
    · decide +kernel
    · show _ = some (UnitTarget.asset ⟨⟨"two", ""⟩, [], 0⟩)
      decide +kernel
    · decide +kernel

end Migration

end MediaMigration
