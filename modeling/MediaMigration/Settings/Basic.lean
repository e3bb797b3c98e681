import MediaMigration.FileTree.Path
import MediaMigration.Template.Basic
import MediaMigration.Unicode.WhiteSpace

/-!
# Settings

The settings of a migration: four templates, the root of the blob store and whether
existing blobs are replaced. Defaults are overridden by a settings document, that by
environment variables, and those by flags of the command line.
-/

namespace MediaMigration

structure Settings where
  pathTemplate : String := "$\x7bContainerName\x7d"
  containerTemplate : String := "$\x7bContainerName\x7d"
  keyTemplate : Option String := none
  keyAddressTemplate : Option String := none
  storageRoot : FilePath := ⟨"storage"⟩
  overwrite : Bool := false
deriving DecidableEq, Repr

structure Templates where
  path : Template
  container : Template
  key : Option Template
  keyAddress : Option Template

namespace Settings

def optionalTemplate (text? : Option String) (kind : ResourceKind) :
    Except MigrationError (Option Template) :=
  match text? with
  | none => .ok none
  | some text =>
      match Template.make text kind with
      | .ok template => .ok (some template)
      | .error error => .error error

def templates (settings : Settings) : Except MigrationError Templates :=
  match Template.make settings.pathTemplate .asset with
  | .error error => .error error
  | .ok path =>
      match Template.make settings.containerTemplate .container with
      | .error error => .error error
      | .ok container =>
          match optionalTemplate settings.keyTemplate .key with
          | .error error => .error error
          | .ok key =>
              match optionalTemplate settings.keyAddressTemplate .key with
              | .error error => .error error
              | .ok keyAddress => .ok ⟨path, container, key, keyAddress⟩

end Settings

end MediaMigration
