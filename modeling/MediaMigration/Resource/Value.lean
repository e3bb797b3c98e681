import MediaMigration.Resource.Locator
import MediaMigration.Template.Expansion

/-!
# Values of fields

What each kind of resource puts in place of a template key. Keys that are no field of the
kind, and fields that the resource leaves open, have no value. Only the streaming URL of an
asset has to be looked up elsewhere, so only it can fail.
-/

namespace MediaMigration

def Container.value? (container : Container) (key : String) : Option String :=
  match ContainerField.parse? key with
  | some .containerName => some container.name
  | none => none

def ContentKey.value? (key : ContentKey) (templateKey : String) : Option String :=
  match KeyField.parse? templateKey with
  | some .keyId => some key.id.toString
  | some .policyName => key.policyName
  | none => none

/-- The value of a key in the address of a content key, which knows the identifier alone. -/
def keyAddressValue? (keyId : String) (templateKey : String) : Option String :=
  match KeyField.parse? templateKey with
  | some .keyId => some keyId
  | some .policyName => none
  | none => none

/-- The value of a key for an asset, and the calls made on the source of locators. An asset
without identifier has the zero one, and without alternate identifier goes by its name. -/
def Asset.value (asset : Asset) (source : LocatorSource) (key : String) :
    Except MigrationError (Option String) × List LocatorCall :=
  match AssetField.parse? key with
  | none => (.ok none, [])
  | some .assetId => (.ok (some (asset.id.getD .zero).toString), [])
  | some .assetName => (.ok (some asset.name), [])
  | some .containerName => (.ok asset.container, [])
  | some .alternateId => (.ok (some (asset.alternateId.getD asset.name)), [])
  | some .streamingUrl =>
      match source.streamingUrl asset with
      | (.ok url, calls) => (.ok (some url), calls)
      | (.error error, calls) => (.error error, calls)

def Container.resolver (container : Container) : Resolver Unit :=
  .ofFunction container.value?

def ContentKey.resolver (key : ContentKey) : Resolver Unit :=
  .ofFunction key.value?

def keyAddressResolver (keyId : String) : Resolver Unit :=
  .ofFunction (keyAddressValue? keyId)

def Asset.resolver (asset : Asset) (source : LocatorSource) : Resolver (List LocatorCall) :=
  ⟨fun key calls =>
    let (answer, made) := asset.value source key
    (answer, calls ++ made)⟩

end MediaMigration
