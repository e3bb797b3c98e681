import MediaMigration.Placement
import MediaMigration.Error
import MediaMigration.Uuid

/-!
# Reports

Every container, asset and content key is one unit of a migration. The report has an
entry for each unit that was attempted, in the order of the manifest, with its target or
the failure that ended it.
-/

namespace MediaMigration

structure ContainerCopy where
  placement : Placement
  blobs : Nat
deriving DecidableEq, Repr

structure AssetUpload where
  placement : Placement
  blobs : List String
  bytes : Nat
deriving DecidableEq, Repr

structure KeyMapping where
  keyId : Uuid
  name : String
  address : Option String
deriving DecidableEq, Repr

structure UnitReport (α : Type) where
  unit : String
  outcome : Except MigrationError α

namespace UnitReport

variable {α : Type}

def succeeded (report : UnitReport α) : Bool :=
  match report.outcome with
  | .ok _ => true
  | .error _ => false

def target? (report : UnitReport α) : Option α :=
  match report.outcome with
  | .ok target => some target
  | .error _ => none

def failure? (report : UnitReport α) : Option String :=
  match report.outcome with
  | .ok _ => none
  | .error error => some error.message

end UnitReport

/-- How the units of a migration fared, and whether some were skipped. -/
structure MigrationReport where
  containers : List (UnitReport ContainerCopy) := []
  assets : List (UnitReport AssetUpload) := []
  keys : List (UnitReport KeyMapping) := []
  cancelled : Bool := false

namespace MigrationReport

def failed (report : MigrationReport) : Nat :=
  report.containers.countP (fun unit => !unit.succeeded) +
    report.assets.countP (fun unit => !unit.succeeded) +
    report.keys.countP (fun unit => !unit.succeeded)

def attempted (report : MigrationReport) : Nat :=
  report.containers.length + report.assets.length + report.keys.length

def migrated (report : MigrationReport) : Nat :=
  report.attempted - report.failed

end MigrationReport

end MediaMigration
