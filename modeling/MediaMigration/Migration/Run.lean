import MediaMigration.Migration.Collection
import MediaMigration.Migration.Report
import MediaMigration.Migration.Session
import MediaMigration.Settings.Basic

/-!
# Running a migration

The units of a manifest are attempted one after the other: containers, assets, content
keys. A unit that fails is reported and the next one goes on. A cancellation is noticed
before each unit and ends the migration. A plan goes the same way but neither opens nor
writes a file.
-/

namespace MediaMigration

/-- What is migrated where to, and what ends the migration early. -/
structure Migration where
  templates : Templates
  store : BlobStore
  sourceRoot : FilePath := ⟨"."⟩
  cancelAfter? : Option Nat := none

inductive Mode where
  | plan
  | run
deriving DecidableEq, Repr

namespace Migration

/-- Copy the listed blobs of a container, up to the first that fails. -/
def copyBlobs (migration : Migration) (container : String) (placement : Placement) :
    List String → Session → Except MigrationError Unit × Session
  | [], session => (.ok (), session)
  | blob :: rest, session =>
      match session.copy migration.store migration.cancelAfter? placement.container
          (placement.blobName blob) container blob with
      | (.error error, session) => (.error error, session)
      | (.ok _, session) => migration.copyBlobs container placement rest session

/-- Migrate a container: copy its blobs to where its template says, unless they are there
already. -/
def migrateContainer (migration : Migration) (mode : Mode) (container : Container)
    (session : Session) : Except MigrationError ContainerCopy × Session :=
  let (answer, mapper) :=
    session.mapper.expandContainer container migration.templates.container.text
  let session := { session with mapper }
  match answer with
  | .error error => (.error error, session)
  | .ok placement =>
      if placement.container = container.name ∧ placement.namePrefix = "" then
        (.ok ⟨placement, 0⟩, session)
      else
        match session.list migration.store container.name with
        | (.error error, session) => (.error error, session)
        | (.ok blobs, session) =>
            match mode with
            | .plan => (.ok ⟨placement, blobs.length⟩, session)
            | .run =>
                match migration.copyBlobs container.name placement blobs session with
                | (.error error, session) => (.error error, session)
                | (.ok (), session) => (.ok ⟨placement, blobs.length⟩, session)

def uploadFiles (migration : Migration) (placement : Placement) :
    List CollectedFile → Session → Except MigrationError Nat × Session
  | [], session => (.ok 0, session)
  | file :: rest, session =>
      match session.tree.lookUp true file.path with
      | .error error => (.error (.io error), session)
      | .ok (place, _) =>
          match session.upload migration.store migration.cancelAfter? placement.container
              (placement.blobName file.name) (.fileAt place) with
          | (.error error, session) => (.error error, session)
          | (.ok written, session) =>
              match migration.uploadFiles placement rest session with
              | (.error error, session) => (.error error, session)
              | (.ok bytes, session) => (.ok (written + bytes), session)

/-- Migrate an asset: upload all files of its inputs to where its template says. Locators
are looked up in the manifest. -/
def migrateAsset (migration : Migration) (mode : Mode) (manifest : Manifest)
    (entry : AssetEntry) (session : Session) : Except MigrationError AssetUpload × Session :=
  let ((answer, _), mapper) :=
    session.mapper.expandAsset entry.asset (.ofManifest manifest) migration.templates.path.text
  let session := { session with mapper }
  match answer with
  | .error error => (.error error, session)
  | .ok placement =>
      match CollectedFile.collect session.tree migration.sourceRoot entry.files with
      | .error error => (.error (.io error), session)
      | .ok files =>
          let blobs := files.map fun file => placement.blobName file.name
          match mode with
          | .plan => (.ok ⟨placement, blobs, 0⟩, session)
          | .run =>
              match migration.uploadFiles placement files session with
              | (.error error, session) => (.error error, session)
              | (.ok bytes, session) => (.ok ⟨placement, blobs, bytes⟩, session)

def mapKey (migration : Migration) (key : ContentKey) (session : Session) :
    Except MigrationError KeyMapping × Session :=
  let (answer, mapper) :=
    session.mapper.expandKey key (migration.templates.key.map Template.text)
  let session := { session with mapper }
  match answer with
  | .error error => (.error error, session)
  | .ok name =>
      match migration.templates.keyAddress with
      | none => (.ok ⟨key.id, name, none⟩, session)
      | some template =>
          let (answer, mapper) :=
            session.mapper.expandKeyAddress template.text key.id.toString
          let session := { session with mapper }
          match answer with
          | .error error => (.error error, session)
          | .ok address => (.ok ⟨key.id, name, some address⟩, session)

/-- Attempt units in order until one finds the migration cancelled. Gives the reports, and
whether a unit was skipped. -/
def attempt {α β : Type} (migration : Migration) (name : α → String)
    (step : α → Session → Except MigrationError β × Session) :
    List α → Session → (List (UnitReport β) × Bool) × Session
  | [], session => (([], false), session)
  | unit :: rest, session =>
      if session.isCancelled migration.cancelAfter? then (([], true), session)
      else
        let (outcome, session) := step unit (session.looked migration.cancelAfter?)
        let ((reports, skipped), session) := migration.attempt name step rest session
        ((⟨name unit, outcome⟩ :: reports, skipped), session)

def execute (migration : Migration) (mode : Mode) (manifest : Manifest) (session : Session) :
    MigrationReport × Session :=
  let ((containers, skipped), session) :=
    migration.attempt Container.name (migration.migrateContainer mode) manifest.containers
      session
  if skipped then (⟨containers, [], [], true⟩, session)
  else
    let ((assets, skipped), session) :=
      migration.attempt (fun entry : AssetEntry => entry.asset.name)
        (migration.migrateAsset mode manifest) manifest.assets session
    if skipped then (⟨containers, assets, [], true⟩, session)
    else
      let ((keys, skipped), session) :=
        migration.attempt (fun key : ContentKey => key.id.toString) migration.mapKey
          manifest.keys session
      (⟨containers, assets, keys, skipped⟩, session)

end Migration

end MediaMigration
