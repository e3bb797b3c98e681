import MediaMigration.Resource.Record
import MediaMigration.Error

/-!
# Streaming locators

The locators of an asset come as a sequence that is pulled item by item. An item is a
locator, whose paths have to be asked for, or a failure, and asking may fail as well. The
streaming URL of an asset is the first path of the first locator that publishes any; no
item behind that one is pulled. What is asked of the source is kept in order.
-/

namespace MediaMigration

inductive LocatorItem where
  | failure (error : MigrationError)
  | locator (name : String) (paths : Except MigrationError (List String))

structure LocatorSource where
  items : Asset → List LocatorItem

/-- What can be asked of a source of locators: to open the sequence of an asset, to yield
the item of an index, and to say the paths of a locator. -/
inductive LocatorCall where
  | opened (asset : String)
  | pulled (index : Nat)
  | askedPaths (locator : String)
deriving DecidableEq, Repr

namespace LocatorSource

/-- A manifest is a source: an asset has the locators of the first entry of its name. -/
def ofManifest (manifest : Manifest) : LocatorSource :=
  ⟨fun asset =>
    match manifest.entryNamed asset.name with
    | none => []
    | some entry => entry.locators.map fun locator => .locator locator.name (.ok locator.paths)⟩

def noStreamingUrl (asset : Asset) : MigrationError :=
  .valueNotFound AssetField.streamingUrl.name ("asset '" ++ asset.name ++ "'")

/-- The first path of the items from `index` on, and the calls made to find it. -/
def firstPath (asset : Asset) :
    List LocatorItem → Nat → Except MigrationError String × List LocatorCall
  | [], _ => (.error (noStreamingUrl asset), [])
  | .failure error :: _, index => (.error error, [.pulled index])
  | .locator name (.error error) :: _, index => (.error error, [.pulled index, .askedPaths name])
  | .locator name (.ok (path :: _)) :: _, index => (.ok path, [.pulled index, .askedPaths name])
  | .locator name (.ok []) :: rest, index =>
      let (answer, calls) := firstPath asset rest (index + 1)
      (answer, .pulled index :: .askedPaths name :: calls)

def streamingUrl (source : LocatorSource) (asset : Asset) :
    Except MigrationError String × List LocatorCall :=
  let (answer, calls) := firstPath asset (source.items asset) 0
  (answer, .opened asset.name :: calls)

end LocatorSource

end MediaMigration
