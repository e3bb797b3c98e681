import MediaMigration.Json
import MediaMigration.Migration.Report

/-!
# Reports for readers

A report is printed line by line for people, or as a JSON document for programs.
-/

namespace MediaMigration

namespace CommandLine

def successMark : String := "✓"

def failureMark : String := "✗"

def describeCopy (copy : ContainerCopy) : String :=
  copy.placement.toString ++ " (" ++ toString copy.blobs ++ " blobs)"

def describeUpload (upload : AssetUpload) : String :=
  upload.placement.toString ++ " (" ++ toString upload.blobs.length ++ " blobs, " ++
    toString upload.bytes ++ " bytes)"

def describeKey (key : KeyMapping) : String :=
  match key.address with
  | some address => key.name ++ " (" ++ address ++ ")"
  | none => key.name

def unitLine {α : Type} (describe : α → String) (report : UnitReport α) : String :=
  match report.outcome with
  | .ok target => "  " ++ successMark ++ " " ++ report.unit ++ " → " ++ describe target
  | .error error => "  " ++ failureMark ++ " " ++ report.unit ++ ": " ++ error.message

def sectionLines {α : Type} (title : String) (describe : α → String) :
    List (UnitReport α) → List String
  | [] => []
  | reports => (title ++ ":") :: reports.map (unitLine describe)

def totalLine (report : MigrationReport) : String :=
  (if report.failed = 0 then successMark else failureMark) ++ " " ++ toString report.migrated ++
    " migrated, " ++ toString report.failed ++ " failed"

def reportLines (report : MigrationReport) : List String :=
  sectionLines "Containers" describeCopy report.containers ++
    sectionLines "Assets" describeUpload report.assets ++
    sectionLines "Keys" describeKey report.keys ++
    totalLine report ::
    (if report.cancelled then ["! cancelled, remaining units skipped"] else [])

def placementFields (placement : Placement) : List (String × JsonValue) :=
  [("container", .text placement.container), ("prefix", .text placement.namePrefix)]

def copyDocument (copy : ContainerCopy) : JsonValue :=
  .record (placementFields copy.placement ++ [("blobs", .count copy.blobs)])

def uploadDocument (upload : AssetUpload) : JsonValue :=
  .record (placementFields upload.placement ++
    [("blobs", .list (upload.blobs.map JsonValue.text)), ("bytes", .count upload.bytes)])

def keyDocument (key : KeyMapping) : JsonValue :=
  .record ([("key_id", .text key.keyId.toString), ("name", .text key.name)] ++
    (key.address.map fun address => ("uri", JsonValue.text address)).toList)

def unitDocument {α : Type} (target : α → JsonValue) (report : UnitReport α) : JsonValue :=
  .record [("unit", .text report.unit),
    match report.outcome with
    | .ok value => ("target", target value)
    | .error error => ("error", .text error.message)]

def reportDocument (report : MigrationReport) : JsonValue :=
  .record [("containers", .list (report.containers.map (unitDocument copyDocument))),
    ("assets", .list (report.assets.map (unitDocument uploadDocument))),
    ("keys", .list (report.keys.map (unitDocument keyDocument))),
    ("cancelled", .flag report.cancelled)]

end CommandLine

end MediaMigration
