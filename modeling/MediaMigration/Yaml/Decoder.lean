import MediaMigration.Yaml.Node.OfTokens
import MediaMigration.Yaml.Scalar
import MediaMigration.Yaml.Token.Scan

/-!
# Reading values out of a document

A decoder asks a node for a value. References are followed when their value is asked for;
how many are followed in all, and how deep collections nest, is limited, so that a document
which refers to itself is refused rather than read forever.
-/

namespace MediaMigration

namespace Yaml

/-- What a decoder knows of its document: the nodes with anchors, how many references may be
followed, and how many more collections may nest. -/
structure Scope where
  anchored : List (Nat × Node)
  followable : Nat
  depth : Nat

abbrev Decoder := ReaderT Scope (StateT Nat (Except Error))

def nestingLimit : Nat :=
  128

/-- How often a document may be gone through by way of references. -/
def repetitionLimit : Nat :=
  100

namespace Decoder

def refuse {α : Type} (expected : String) : Decoder α :=
  throw (.unexpectedValue expected)

def follow (node : Node) : Decoder Node := do
  match node with
  | .reference number =>
      let scope ← read
      let count ← get
      if scope.followable ≤ count then throw .tooManyReferences
      set (count + 1)
      match scope.anchored.lookup number with
      | some target => return target
      | none => refuse "an anchor"
  | _ => return node

def nested {α : Type} (decoder : Decoder α) : Decoder α := do
  if (← read).depth = 0 then throw .tooDeep
  else withReader (fun scope => { scope with depth := scope.depth - 1 }) decoder

def text (node : Node) : Decoder String := do
  match ← follow node with
  | .scalar _ _ text => return text
  | _ => refuse "a string"

def schemaTag (name : String) : Bytes :=
  ("tag:yaml.org,2002:" ++ name).toUTF8.toList

def boolean (node : Node) : Decoder Bool := do
  match ← follow node with
  | .scalar properties style text =>
      let isTagged := style = .literal ∧ properties.tag? = some (schemaTag "bool")
      match Scalar.boolean? text with
      | some value => if style = .plain ∨ isTagged then return value else refuse "a boolean"
      | none => refuse "a boolean"
  | _ => refuse "a boolean"

/-- Is the node a null where a value may be left out? A tag for null admits nothing else. -/
def isNull : Node → Decoder Bool
  | .scalar properties .plain text =>
      match properties.tag? with
      | none => return text.isEmpty || Scalar.isNull text
      | some tag =>
          if tag = schemaTag "null" then
            if Scalar.isNull text then return true else refuse "null"
          else return false
  | _ => return false

def optional {α : Type} (decoder : Node → Decoder α) (node : Node) : Decoder (Option α) := do
  let node ← follow node
  if ← isNull node then return none else return some (← decoder node)

def isMissing : Node → Bool
  | .scalar _ style text => style = .plain && text.isEmpty
  | _ => false

def items {α : Type} (decoder : Node → Decoder α) (node : Node) : Decoder (List α) := do
  match ← follow node with
  | .sequence _ items => nested (items.mapM decoder)
  | node => if isMissing node then return [] else refuse "a sequence"

/-- The fields of a mapping: its keys as texts, and their values. -/
abbrev Fields := List (String × Node)

def record {α : Type} (decoder : Fields → Decoder α) (node : Node) : Decoder α := do
  match ← follow node with
  | .mapping _ pairs =>
      nested do
        let fields ← pairs.mapM fun (key, value) => return (← text key, value)
        decoder fields
  | node => if isMissing node then decoder [] else refuse "a mapping"

def valuesNamed {α : Type} (fields : List (String × α)) (name : String) : List α :=
  fields.filterMap fun (key, value) => if key = name then some value else none

def field? {α : Type} (fields : List (String × α)) (name : String) : Decoder (Option α) :=
  match valuesNamed fields name with
  | [] => return none
  | [value] => return some value
  | _ => throw (.repeatedField name)

def required {α : Type} (decoder : Node → Decoder α) (fields : Fields) (name : String) :
    Decoder α := do
  match ← field? fields name with
  | some node => decoder node
  | none => throw (.missingField name)

def withDefault {α : Type} (value : α) (decoder : Node → Decoder α) (fields : Fields)
    (name : String) : Decoder α := do
  match ← field? fields name with
  | some node => decoder node
  | none => return value

def onlyFields (names : List String) (fields : Fields) : Decoder Unit :=
  match fields.find? fun field => !names.contains field.1 with
  | some (name, _) => throw (.unknownField name)
  | none => return ()

inductive AnyValue where
  | null
  | text (value : String)
  | other
deriving DecidableEq, Repr

def AnyValue.ofKind (text : String) : ScalarKind → Decoder AnyValue
  | .null => return .null
  | .text => return .text text
  | .wideInteger => refuse "a value of at most 64 bits"
  | .boolean | .integer | .real => return .other

def isLocalTag : Bytes → Bool
  | [] => false
  | octet :: name => octet = 33 && (String.fromUTF8? ⟨name.toArray⟩).isSome

def refuseLocalTag (properties : Properties) : Decoder Unit :=
  if properties.tag?.any isLocalTag then refuse "a value without a tag of its own" else return ()

def ofSchemaTag (text : String) (tag : Bytes) : Option (Decoder AnyValue) :=
  if tag = schemaTag "bool" then
    some (if (Scalar.boolean? text).isSome then return .other else refuse "a boolean")
  else if tag = schemaTag "int" then
    some (if Scalar.integerKind? text.toList = some .integer then return .other
      else refuse "an integer")
  else if tag = schemaTag "float" then
    some (if Scalar.isReal text then return .other else refuse "a float")
  else if tag = schemaTag "null" then
    some (if Scalar.isNull text then return .null else refuse "null")
  else none

/-- The value of a scalar. Without quotes its text decides, unless its tag is known. -/
def anyScalar (properties : Properties) (style : ScalarStyle) (text : String) :
    Decoder AnyValue := do
  refuseLocalTag properties
  match properties.tag? with
  | none => if style = .plain then AnyValue.ofKind text (Scalar.kind text) else return .text text
  | some tag =>
      match ofSchemaTag text tag with
      | some value => value
      | none =>
          if tag.head? = some 33 ∧ style = .plain then AnyValue.ofKind text (Scalar.kind text)
          else return .text text

def anyValueWithin : Nat → Node → Decoder AnyValue
  | depth, node => do
      match ← follow node with
      | .reference _ => refuse "an anchor"
      | .scalar properties style text => anyScalar properties style text
      | .sequence properties items =>
          refuseLocalTag properties
          match depth with
          | 0 => throw .tooDeep
          | depth + 1 =>
              items.forM fun item => discard (anyValueWithin depth item)
              return .other
      | .mapping properties pairs =>
          refuseLocalTag properties
          match depth with
          | 0 => throw .tooDeep
          | depth + 1 =>
              pairs.forM fun (key, value) => do
                discard (anyValueWithin depth key)
                discard (anyValueWithin depth value)
              return .other

def anyValue (node : Node) : Decoder AnyValue := do
  anyValueWithin (← read).depth node

def decode {α : Type} (decoder : Node → Decoder α) (document : Document) : Except Error α := do
  let scope : Scope := ⟨document.anchored, repetitionLimit * document.size, nestingLimit⟩
  let (value, _) ← ((decoder document.root).run scope).run 0
  return value

def decodeText {α : Type} (decoder : Node → Decoder α) (text : String) : Except Error α := do
  decode decoder (← Document.ofTokens (← Token.scan text))

end Decoder

end Yaml

end MediaMigration
