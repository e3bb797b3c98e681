import MediaMigration.Text.AsciiCase

/-!
# Resource kinds and their fields

Three kinds of resource are migrated: storage containers, media assets and content
keys. A template for one kind may only name the fields of that kind. Kinds and fields
are found by name, whatever the case of the ASCII letters.
-/

namespace MediaMigration

inductive ResourceKind where
  | container
  | asset
  | key
deriving DecidableEq, Repr

inductive ContainerField where
  | containerName
deriving DecidableEq, Repr

inductive AssetField where
  | assetId
  | assetName
  | alternateId
  | containerName
  | streamingUrl
deriving DecidableEq, Repr

inductive KeyField where
  | keyId
  | policyName
deriving DecidableEq, Repr

inductive Field where
  | ofContainer (field : ContainerField)
  | ofAsset (field : AssetField)
  | ofKey (field : KeyField)
deriving DecidableEq, Repr

namespace ContainerField

def name : ContainerField → String
  | containerName => "ContainerName"

def parse? (key : String) : Option ContainerField :=
  if Text.equalIgnoringCase key "ContainerName" then some containerName else none

end ContainerField

namespace AssetField

def all : List AssetField :=
  [assetId, assetName, alternateId, containerName, streamingUrl]

def name : AssetField → String
  | assetId => "AssetId"
  | assetName => "AssetName"
  | alternateId => "AlternateId"
  | containerName => "ContainerName"
  | streamingUrl => "StreamingUrl"

def parse? (key : String) : Option AssetField :=
  all.find? fun field => Text.equalIgnoringCase field.name key

end AssetField

namespace KeyField

def name : KeyField → String
  | keyId => "KeyId"
  | policyName => "PolicyName"

def parse? (key : String) : Option KeyField :=
  if Text.equalIgnoringCase key "KeyId" then some keyId
  else if Text.equalIgnoringCase key "PolicyName" then some policyName
  else none

end KeyField

namespace Field

def kind : Field → ResourceKind
  | ofContainer _ => .container
  | ofAsset _ => .asset
  | ofKey _ => .key

def name : Field → String
  | ofContainer field => field.name
  | ofAsset field => field.name
  | ofKey field => field.name

end Field

namespace ResourceKind

def all : List ResourceKind :=
  [container, asset, key]

def name : ResourceKind → String
  | container => "container"
  | asset => "asset"
  | key => "key"

/-- The names that a template of the kind may use, in the order they are documented. -/
def fieldNames : ResourceKind → List String
  | container => ["ContainerName"]
  | asset => ["AssetId", "AssetName", "AlternateId", "ContainerName", "StreamingUrl"]
  | key => ["KeyId", "PolicyName"]

def field? (kind : ResourceKind) (key : String) : Option Field :=
  match kind with
  | container => (ContainerField.parse? key).map .ofContainer
  | asset => (AssetField.parse? key).map .ofAsset
  | .key => (KeyField.parse? key).map .ofKey

def accepts (kind : ResourceKind) (key : String) : Bool :=
  (kind.field? key).isSome

def ofName? (name : String) : Option ResourceKind :=
  all.find? fun kind => Text.equalIgnoringCase kind.name name

def unknownNameMessage (name : String) : String :=
  "unknown resource kind '" ++ name ++ "' (container, asset, key)"

/-- Stored documents spell a kind in lower case only. -/
def ofStoredName? (name : String) : Option ResourceKind :=
  all.find? fun kind => kind.name == name

end ResourceKind

end MediaMigration
