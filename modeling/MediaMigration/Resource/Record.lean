import MediaMigration.Uuid
import MediaMigration.FileTree.Path

/-!
# Resources

What is known of a container, an asset, a content key or a streaming locator, and the
manifest that lists all of them for a migration.
-/

namespace MediaMigration

structure Container where
  name : String
deriving DecidableEq, Repr

structure Asset where
  name : String
  id : Option Uuid := none
  container : Option String := none
  alternateId : Option String := none
deriving DecidableEq, Repr

structure ContentKey where
  id : Uuid
  policyName : Option String := none
deriving DecidableEq, Repr

structure StreamingLocator where
  name : String
  id : Option Uuid := none
  paths : List String := []
deriving DecidableEq, Repr

structure AssetEntry where
  asset : Asset
  files : List FilePath := []
  locators : List StreamingLocator := []
deriving DecidableEq, Repr

structure Manifest where
  containers : List Container := []
  assets : List AssetEntry := []
  keys : List ContentKey := []
deriving DecidableEq, Repr

def Manifest.entryNamed (manifest : Manifest) (name : String) : Option AssetEntry :=
  manifest.assets.find? fun entry => entry.asset.name == name

end MediaMigration
