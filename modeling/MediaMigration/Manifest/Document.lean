import MediaMigration.Error
import MediaMigration.FileTree.Resolution
import MediaMigration.Resource.Record
import MediaMigration.Yaml.Decoder

/-!
# Manifests as documents

A manifest is written as a YAML mapping of containers, assets and keys. Everything but the
names of resources and the identifiers of content keys may be left out, and fields that are
not known here are passed over.

The texts of containers, locators and keys may be any scalars. The name, the identifier,
the container and the alternate identifier of an asset are read by what their scalars stand
for: numbers and booleans are no texts there.
-/

namespace MediaMigration

namespace Manifest

open Yaml Yaml.Decoder

def identifierOf (text : String) : Decoder Uuid :=
  match Uuid.parse? text with
  | some id => return id
  | none => refuse "an identifier"

def identifier (node : Node) : Decoder Uuid := do
  identifierOf (← text node)

def texts (node : Node) : Decoder (List String) :=
  items text node

def container : Node → Decoder Container :=
  record fun fields => return ⟨← required text fields "name"⟩

def contentKey : Node → Decoder ContentKey :=
  record fun fields => do
    let id ← required identifier fields "id"
    return ⟨id, ← withDefault none (optional text) fields "policy_name"⟩

def locator : Node → Decoder StreamingLocator :=
  record fun fields => do
    let name ← required text fields "name"
    let id ← withDefault none (optional identifier) fields "id"
    return ⟨name, id, ← withDefault [] texts fields "paths"⟩

def assetFields (fields : Fields) : Fields :=
  fields.filter fun field => !(["files", "locators"].contains field.1)

def assetText? (values : List (String × AnyValue)) (name : String) : Decoder (Option String) := do
  match ← field? values name with
  | none | some .null => return none
  | some (.text value) => return some value
  | some .other => refuse "a string"

def asset (fields : Fields) : Decoder Asset := do
  let values ← (assetFields fields).mapM fun (name, node) => return (name, ← anyValue node)
  match ← assetText? values "name" with
  | none => throw (.missingField "name")
  | some name =>
      let id ←
        match ← assetText? values "id" with
        | some text => some <$> identifierOf text
        | none => pure none
      let container ← assetText? values "container"
      return ⟨name, id, container, ← assetText? values "alternate_id"⟩

def assetEntry : Node → Decoder AssetEntry :=
  record fun fields => do
    let files ← withDefault [] texts fields "files"
    let locators ← withDefault [] (items locator) fields "locators"
    return ⟨← asset fields, files.map FilePath.mk, locators⟩

def manifest : Node → Decoder Manifest :=
  record fun fields => do
    let containers ← withDefault [] (items container) fields "containers"
    let assets ← withDefault [] (items assetEntry) fields "assets"
    return ⟨containers, assets, ← withDefault [] (items contentKey) fields "keys"⟩

def ofYaml (text : String) : Except MigrationError Manifest :=
  match decodeText manifest text with
  | .ok manifest => .ok manifest
  | .error fault => .error (.malformedManifest fault)

def load (tree : FileTree) (path : FilePath) : Except MigrationError Manifest :=
  match tree.readText path with
  | .ok text => ofYaml text
  | .error error => .error (.io error)

end Manifest

end MediaMigration
