import MediaMigration.Yaml.Node.Basic

/-!
# From tokens to nodes

The grammar of a document, one function for each kind of collection. A node may be left
out wherever the next token cannot begin one.
-/

namespace MediaMigration

namespace Yaml

/-- What is left of a document, the numbers of the anchors so far, and what the handles of
tags stand for. -/
structure Remainder where
  tokens : List Token
  numbers : List (String × Nat) := []
  handles : List (String × Bytes) := []

abbrev TokenReader := StateT Remainder (Except Error)

namespace TokenReader

def next : TokenReader (Option Token) := do
  return (← get).tokens.head?

def skip : TokenReader Unit :=
  modify fun remainder => { remainder with tokens := remainder.tokens.drop 1 }

/-- Give a number to an anchor: the count of the names that had anchors before. A name that
is given anew changes its number. -/
def numberAnchor (name : String) : TokenReader Nat := do
  let numbers := (← get).numbers
  let number := numbers.length
  modify fun remainder =>
    { remainder with numbers := (name, number) :: numbers.filter fun entry => entry.1 != name }
  return number

def anchorNumber (name : String) : TokenReader Nat := do
  match (← get).numbers.lookup name with
  | some number => return number
  | none => throw (.unknownAnchor name)

def spelledTag (handle : String) (suffix : Bytes) : TokenReader Bytes := do
  if handle.isEmpty then return suffix
  else
    match (← get).handles.lookup handle with
    | some stands => return stands ++ suffix
    | none => throw (.unknownHandle handle)

def anchor? : TokenReader (Option Nat) := do
  match ← next with
  | some (.anchor name) =>
      skip
      return some (← numberAnchor name)
  | _ => return none

def tag? : TokenReader (Option Bytes) := do
  match ← next with
  | some (.tag handle suffix) =>
      skip
      return some (← spelledTag handle suffix)
  | _ => return none

def properties : TokenReader Properties := do
  match ← anchor? with
  | some number => return ⟨some number, ← tag?⟩
  | none =>
      let tag? ← tag?
      return ⟨← if tag?.isSome then anchor? else pure none, tag?⟩

/-- The token can only stand where a value of a block is left out. -/
def endsBlockNode : Option Token → Bool
  | some .key | some .value | some .blockEnd => true
  | _ => false

def endsBlockItem : Option Token → Bool
  | some .blockEntry | some .blockEnd => true
  | _ => false

def endsFlowItem : Option Token → Bool
  | some .flowEntry | some .flowSequenceEnd => true
  | _ => false

def endsFlowPair : Option Token → Bool
  | some .flowEntry | some .flowMappingEnd => true
  | _ => false

def comma (first : Bool) (fault : Error) : TokenReader Unit := do
  if !first then
    if (← next) = some .flowEntry then skip else throw fault

mutual

/-- A node. Block collections begin one only if `inBlock`, and entries of a sequence
without deeper indentation only if `mayDash`. -/
def node : Nat → Bool → Bool → TokenReader Node
  | 0, _, _ => throw .missingContent
  | fuel + 1, inBlock, mayDash => do
      match ← next with
      | some (.reference name) =>
          skip
          return .reference (← anchorNumber name)
      | _ => content fuel inBlock mayDash (← properties)

def content : Nat → Bool → Bool → Properties → TokenReader Node
  | 0, _, _, _ => throw .missingContent
  | fuel + 1, inBlock, mayDash, properties => do
      match ← next, inBlock, mayDash with
      | some .blockEntry, _, true => return .sequence properties (← dashedItems fuel)
      | some (.scalar style text), _, _ =>
          skip
          return .scalar properties style text
      | some .flowSequenceStart, _, _ =>
          skip
          return .sequence properties (← flowItems fuel true)
      | some .flowMappingStart, _, _ =>
          skip
          return .mapping properties (← flowPairs fuel true)
      | some .blockSequenceStart, true, _ =>
          skip
          return .sequence properties (← blockItems fuel)
      | some .blockMappingStart, true, _ =>
          skip
          return .mapping properties (← blockPairs fuel)
      | _, _, _ =>
          if properties = {} then throw .missingContent
          else return .scalar properties .plain ""

def blockItems : Nat → TokenReader (List Node)
  | 0 => throw .missingDash
  | fuel + 1 => do
      match ← next with
      | some .blockEntry =>
          skip
          let item ← if endsBlockItem (← next) then pure Node.missing else node fuel true false
          return item :: (← blockItems fuel)
      | some .blockEnd =>
          skip
          return []
      | _ => throw .missingDash

/-- The items of a block sequence that is indented no deeper than its key. -/
def dashedItems : Nat → TokenReader (List Node)
  | 0 => throw .missingDash
  | fuel + 1 => do
      match ← next with
      | some .blockEntry =>
          skip
          let ends := endsBlockItem (← next) || endsBlockNode (← next)
          let item ← if ends then pure Node.missing else node fuel true false
          return item :: (← dashedItems fuel)
      | _ => return []

def blockPairs : Nat → TokenReader (List (Node × Node))
  | 0 => throw .missingKey
  | fuel + 1 => do
      match ← next with
      | some .key =>
          skip
          let key ← if endsBlockNode (← next) then pure Node.missing else node fuel true true
          let value ← blockValue fuel
          return (key, value) :: (← blockPairs fuel)
      | some .blockEnd =>
          skip
          return []
      | _ => throw .missingKey

def blockValue : Nat → TokenReader Node
  | 0 => throw .missingKey
  | fuel + 1 => do
      match ← next with
      | some .value =>
          skip
          if endsBlockNode (← next) then return .missing else node fuel true true
      | _ => return .missing

/-- The items of a flow sequence. An item with a colon is a mapping of one pair. -/
def flowItems : Nat → Bool → TokenReader (List Node)
  | 0, _ => throw .unclosedSequence
  | fuel + 1, first => do
      if (← next) = some .flowSequenceEnd then
        skip
        return []
      else
        comma first .unclosedSequence
        match ← next with
        | some .flowSequenceEnd =>
            skip
            return []
        | some .key =>
            skip
            let pair ← flowItemPair fuel
            return .mapping {} [pair] :: (← flowItems fuel false)
        | _ =>
            let item ← node fuel false false
            return item :: (← flowItems fuel false)

/-- The one pair of a mapping that is an item of a flow sequence. The token in whose favour
its key is left out is passed over. -/
def flowItemPair : Nat → TokenReader (Node × Node)
  | 0 => throw .unclosedSequence
  | fuel + 1 => do
      let key ←
        if endsFlowItem (← next) || (← next) = some .value then do
          skip
          pure Node.missing
        else node fuel false false
      return (key, ← flowValue fuel endsFlowItem)

def flowValue : Nat → (Option Token → Bool) → TokenReader Node
  | 0, _ => throw .unclosedMapping
  | fuel + 1, ends => do
      match ← next with
      | some .value =>
          skip
          if ends (← next) then return .missing else node fuel false false
      | _ => return .missing

def flowPairs : Nat → Bool → TokenReader (List (Node × Node))
  | 0, _ => throw .unclosedMapping
  | fuel + 1, first => do
      if (← next) = some .flowMappingEnd then
        skip
        return []
      else
        comma first .unclosedMapping
        match ← next with
        | some .flowMappingEnd =>
            skip
            return []
        | some .key =>
            skip
            let ends := endsFlowPair (← next) || (← next) = some .value
            let key ← if ends then pure Node.missing else node fuel false false
            let value ← flowValue fuel endsFlowPair
            return (key, value) :: (← flowPairs fuel false)
        | _ =>
            let key ← node fuel false false
            return (key, .missing) :: (← flowPairs fuel false)

end

/-- The directives in front of a document: at most one version, and the handles. -/
def directives : Nat → Bool → TokenReader Unit
  | 0, _ => return ()
  | fuel + 1, seen => do
      match ← next with
      | some (.version major minor) =>
          skip
          if seen then throw .repeatedDirective
          if major ≠ 1 || (minor ≠ 1 && minor ≠ 2) then throw (.unsupportedVersion major minor)
          directives fuel true
      | some (.handle name stands) =>
          skip
          if ((← get).handles.lookup name).isSome then throw .repeatedDirective
          modify fun remainder => { remainder with handles := (name, stands) :: remainder.handles }
          directives fuel seen
      | _ => return ()

def defaultHandles : List (String × Bytes) :=
  [("!", "!".toUTF8.toList), ("!!", "tag:yaml.org,2002:".toUTF8.toList)]

def addDefaultHandles : TokenReader Unit :=
  modify fun remainder => { remainder with handles := remainder.handles ++ defaultHandles }

def endsDocument : Option Token → Bool
  | none | some .documentStart | some .documentEnd | some (.version _ _) | some (.handle _ _) =>
      true
  | _ => false

def markedDocument (fuel : Nat) : TokenReader Node := do
  if endsDocument (← next) then return .missing else node fuel true false

def root (fuel : Nat) : TokenReader Node := do
  match ← next with
  | none => return .missing
  | some .documentStart | some (.version _ _) | some (.handle _ _) =>
      directives fuel false
      addDefaultHandles
      if (← next) = some .documentStart then
        skip
        markedDocument fuel
      else throw .missingDocumentStart
  | _ =>
      addDefaultHandles
      node fuel true false

def finish : TokenReader Unit := do
  let rest := (← get).tokens.dropWhile (· = .documentEnd)
  if !rest.isEmpty then throw .severalDocuments

end TokenReader

/-- The document that tokens spell. No node takes more than three steps for each of its
tokens. -/
def Document.ofTokens (tokens : List Token) : Except Error Document := do
  let fuel := 4 * tokens.length + 4
  let (root, _) ← (do
    let root ← TokenReader.root fuel
    TokenReader.finish
    return root).run { tokens }
  .ok ⟨root⟩

end Yaml

end MediaMigration
