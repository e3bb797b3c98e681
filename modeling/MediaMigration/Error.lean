import MediaMigration.Resource.Kind
import MediaMigration.FileTree.IoError
import MediaMigration.Yaml.Error

/-!
# Failures of a migration

Every failure has a stable code, a message that starts with the code, and for all but a
cancellation a hint at what may put it right. Codes 010 to 019 are faults of templates,
020 to 029 of the data sources, 030 to 039 of the blob store, 040 to 049 of the settings
and of files.
-/

namespace MediaMigration

inductive MigrationError where
  | unknownPlaceholder (key : String) (kind : ResourceKind)
  | valueNotFound (field resource : String)
  | locatorLookup (reason : String)
  | malformedManifest (fault : Yaml.Error)
  | blobExists (container blob : String)
  | uploadFailed (container blob reason : String)
  | cancelled
  | invalidSettings (reason : String)
  | io (error : IoError)
deriving DecidableEq, Repr

namespace MigrationError

def code : MigrationError → String
  | unknownPlaceholder _ _ => "AMS-010"
  | valueNotFound _ _ => "AMS-011"
  | locatorLookup _ => "AMS-020"
  | malformedManifest _ => "AMS-021"
  | blobExists _ _ => "AMS-030"
  | uploadFailed _ _ _ => "AMS-031"
  | cancelled => "AMS-032"
  | invalidSettings _ => "AMS-040"
  | io _ => "AMS-041"

def description : MigrationError → String
  | unknownPlaceholder key kind =>
      "Unknown placeholder '$\x7b" ++ key ++ "\x7d' in " ++ kind.name ++ " template"
  | valueNotFound field resource => "No value found for '" ++ field ++ "' of " ++ resource
  | locatorLookup reason => "Locator lookup failed: " ++ reason
  | malformedManifest fault => "Failed to parse YAML: " ++ fault.message
  | blobExists container blob =>
      "Blob '" ++ blob ++ "' already exists in container '" ++ container ++ "'"
  | uploadFailed container blob reason =>
      "Upload of '" ++ blob ++ "' to container '" ++ container ++ "' failed: " ++ reason
  | cancelled => "Operation cancelled"
  | invalidSettings reason => "Invalid configuration: " ++ reason
  | io error => "IO error: " ++ error.message

def message (error : MigrationError) : String :=
  "[" ++ error.code ++ "] " ++ error.description

def placeholderAdvice : ResourceKind → String
  | .container => "Container templates only accept $\x7bContainerName\x7d"
  | .asset => "Use $\x7bAssetId\x7d, $\x7bAssetName\x7d, $\x7bAlternateId\x7d, " ++
      "$\x7bContainerName\x7d or $\x7bStreamingUrl\x7d"
  | .key => "Key templates only accept $\x7bKeyId\x7d and $\x7bPolicyName\x7d"

/-- What may put the failure right; nothing does after a cancellation. -/
def advice? : MigrationError → Option String
  | unknownPlaceholder _ kind => some (placeholderAdvice kind)
  | valueNotFound _ _ =>
      some ("Create a streaming locator for the asset or drop $\x7bStreamingUrl\x7d " ++
        "from the template")
  | locatorLookup _ => some "Check the asset's streaming locators in the manifest"
  | malformedManifest _ => some "Check YAML syntax: indentation and quoting"
  | blobExists _ _ => some "Pass --overwrite to replace existing blobs"
  | uploadFailed _ _ _ => some "Check the storage root exists and is writable"
  | cancelled => none
  | invalidSettings _ => some "Check the config file and AMS_* environment variables"
  | io _ => some "Check file path and permissions"

/-- The failure that lies behind this one, in words: a manifest fault repeats the words of
the document reader, a file fault those of the operating system. -/
def cause? : MigrationError → Option String
  | malformedManifest fault => some fault.message
  | io error => some error.message
  | _ => none

end MigrationError

end MediaMigration
