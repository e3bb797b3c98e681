import MediaMigration.FileTree.Resolution
import MediaMigration.Settings.Basic
import MediaMigration.Yaml.Decoder

/-!
# Settings as documents

Settings are written as a YAML mapping. A field that is left out keeps its default, and a
field of another name is refused.
-/

namespace MediaMigration

namespace Settings

open Yaml Yaml.Decoder

def fieldNames : List String :=
  ["path_template", "container_template", "key_template", "key_uri_template", "storage_root",
    "overwrite"]

def settings : Node → Decoder Settings :=
  record fun fields => do
    onlyFields fieldNames fields
    let default : Settings := {}
    let path ← withDefault default.pathTemplate text fields "path_template"
    let container ← withDefault default.containerTemplate text fields "container_template"
    let key ← withDefault default.keyTemplate (optional text) fields "key_template"
    let address ← withDefault default.keyAddressTemplate (optional text) fields "key_uri_template"
    let root ← withDefault default.storageRoot.text text fields "storage_root"
    let overwrite ← withDefault default.overwrite boolean fields "overwrite"
    return ⟨path, container, key, address, ⟨root⟩, overwrite⟩

def ofYaml (text : String) : Except MigrationError Settings :=
  match decodeText settings text with
  | .ok settings => .ok settings
  | .error fault => .error (.invalidSettings ("Failed to parse config: " ++ fault.message))

def load (tree : FileTree) (path : FilePath) : Except MigrationError Settings :=
  match tree.readText path with
  | .ok text => ofYaml text
  | .error error =>
      .error (.invalidSettings
        ("Failed to read config file " ++ path.text ++ ": " ++ error.message))

end Settings

end MediaMigration
