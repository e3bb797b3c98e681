import MediaMigration.Settings.Basic

/-!
# Settings from environment variables

Two variables override the settings document. One that is unset, empty or nothing but
white space says nothing.
-/

namespace MediaMigration

namespace Settings

def storageRootVariable : String := "AMS_STORAGE_ROOT"

def overwriteVariable : String := "AMS_OVERWRITE"

def isBlank (value : String) : Bool :=
  value.toList.all Unicode.isWhiteSpace

def spoken? (lookUp : String → Option String) (name : String) : Option String :=
  (lookUp name).filter fun value => !isBlank value

/-- Read yes or no, without regard to white space around the word and the case of its
ASCII letters. -/
def flag? (value : String) : Option Bool :=
  let word := String.ofList ((Unicode.trim value.toList).map Char.toLower)
  if word ∈ ["1", "true", "yes", "on"] then some true
  else if word ∈ ["0", "false", "no", "off"] then some false
  else none

def notBoolean (value : String) : MigrationError :=
  .invalidSettings (overwriteVariable ++ "='" ++ value ++ "' is not a boolean")

def withStorageRootVariable (settings : Settings) (lookUp : String → Option String) : Settings :=
  match spoken? lookUp storageRootVariable with
  | some root => { settings with storageRoot := ⟨root⟩ }
  | none => settings

def withVariables (settings : Settings) (lookUp : String → Option String) :
    Except MigrationError Settings :=
  let settings := settings.withStorageRootVariable lookUp
  match spoken? lookUp overwriteVariable with
  | none => .ok settings
  | some value =>
      match flag? value with
      | some overwrite => .ok { settings with overwrite }
      | none => .error (notBoolean value)

end Settings

end MediaMigration
