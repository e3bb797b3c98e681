import MediaMigration.Yaml.Token.Block
import MediaMigration.Yaml.Token.Layout
import MediaMigration.Yaml.Token.Plain
import MediaMigration.Yaml.Token.Property
import MediaMigration.Yaml.Token.Quoted

/-!
# From characters to tokens

The first characters of a token decide what it is. Each kind of token has its own effect
on the layout: whether it may be a key, whether a key may follow it, and which blocks and
flow collections it opens or closes.
-/

namespace MediaMigration

namespace Yaml

namespace Layout

/-- A token that may be a key itself and does not let one begin right behind it. -/
def pushKeyable (layout : Layout) (read : Except Error (Token × Cursor)) :
    Except Error Layout := do
  let layout ← layout.saveKey
  let (token, stop) ← read
  .ok { layout.push token stop with keyAllowed := false }

def pushOpening (layout : Layout) (token : Token) : Except Error Layout := do
  let layout ← layout.saveKey
  .ok { layout.enterFlow.push token (layout.cursor.skip 1) with keyAllowed := true }

def pushClosing (layout : Layout) (token : Token) : Except Error Layout := do
  let layout ← layout.dropKey
  .ok { layout.leaveFlow.push token (layout.cursor.skip 1) with keyAllowed := false }

def pushComma (layout : Layout) : Except Error Layout := do
  let layout ← layout.dropKey
  .ok { layout.push .flowEntry (layout.cursor.skip 1) with keyAllowed := true }

def pushDash (layout : Layout) : Except Error Layout := do
  if !layout.inFlow && !layout.keyAllowed then .error .misplacedEntry
  else
    let layout ← (layout.openBlockHere .blockSequenceStart).dropKey
    .ok { layout.push .blockEntry (layout.cursor.skip 1) with keyAllowed := true }

def pushQuestion (layout : Layout) : Except Error Layout := do
  if !layout.inFlow && !layout.keyAllowed then .error .misplacedKey
  else
    let layout ← (layout.openBlockHere .blockMappingStart).dropKey
    .ok { layout.push .key (layout.cursor.skip 1) with keyAllowed := !layout.inFlow }

/-- A colon in front of a value. It belongs to the pending key if that is still open. -/
def pushColon (layout : Layout) : Except Error Layout := do
  match layout.key?.filter (·.isOpenAt layout.cursor) with
  | some key => .ok ((layout.confirmKey key).push .value (layout.cursor.skip 1))
  | none =>
      let layout ← layout.dropKey
      if !layout.inFlow && !layout.keyAllowed then .error .misplacedValue
      else
        let layout := layout.openBlockHere .blockMappingStart
        .ok { layout.push .value (layout.cursor.skip 1) with keyAllowed := !layout.inFlow }

def pushOuter (layout : Layout) (read : Except Error (Token × Cursor)) : Except Error Layout := do
  let layout ← (layout.closeBlocks fun _ => true).dropKey
  let (token, stop) ← read
  .ok { layout.push token stop with keyAllowed := false }

def pushBlock (layout : Layout) (folds : Bool) (fuel : Nat) : Except Error Layout := do
  let layout ← layout.dropKey
  let (text, stop) ← Block.read folds layout.floor fuel layout.cursor
  let style := if folds then ScalarStyle.folded else .literal
  .ok { layout.push (.scalar style (String.ofList text)) stop with keyAllowed := true }

def pushQuoted (layout : Layout) (single : Bool) (fuel : Nat) : Except Error Layout :=
  let style := if single then ScalarStyle.singleQuoted else .doubleQuoted
  layout.pushKeyable <| (Quoted.read single fuel layout.cursor).map fun (text, stop) =>
    (.scalar style (String.ofList text), stop)

/-- A plain scalar. A key may begin behind it if the white space there ends a line. -/
def pushPlain (layout : Layout) (fuel : Nat) : Except Error Layout := do
  let layout ← layout.saveKey
  let part ← Plain.read layout.inFlow layout.floor fuel layout.cursor
  .ok { layout.push (.scalar .plain (String.ofList part.text)) part.cursor with
    keyAllowed := part.endsLine }

def pushToken (layout : Layout) (fuel : Nat) (c : Char) : Except Error Layout :=
  let cursor := layout.cursor
  let behind := cursor.rest.drop 1
  let opensKey := layout.inFlow || endsWord behind
  if cursor.column == 0 && c == '%' then layout.pushOuter (Property.directive cursor)
  else if cursor.atDocumentMark then
    layout.pushOuter
      (.ok (if c == '-' then Token.documentStart else Token.documentEnd, cursor.skip 3))
  else if c == '[' then layout.pushOpening .flowSequenceStart
  else if c == '\x7b' then layout.pushOpening .flowMappingStart
  else if c == ']' then layout.pushClosing .flowSequenceEnd
  else if c == '\x7d' then layout.pushClosing .flowMappingEnd
  else if c == ',' then layout.pushComma
  else if c == '-' && endsWord behind then layout.pushDash
  else if c == '?' && opensKey then layout.pushQuestion
  else if c == ':' && opensKey then layout.pushColon
  else if c == '*' then
    layout.pushKeyable ((Property.name cursor).map fun (name, stop) => (.reference name, stop))
  else if c == '&' then
    layout.pushKeyable ((Property.name cursor).map fun (name, stop) => (.anchor name, stop))
  else if c == '!' then layout.pushKeyable (Property.tag layout.inFlow cursor)
  else if (c == '|' || c == '>') && !layout.inFlow then layout.pushBlock (c == '>') fuel
  else if c == '\'' || c == '"' then layout.pushQuoted (c == '\'') fuel
  else if Plain.startsWith layout.inFlow c behind then layout.pushPlain fuel
  else .error (.unexpectedCharacter c)

def toToken (layout : Layout) (fuel : Nat) : Layout :=
  let (cursor, crossed) :=
    layout.cursor.toToken layout.inFlow fuel (layout.inFlow || !layout.keyAllowed)
  let keyAllowed := layout.keyAllowed || (crossed && !layout.inFlow)
  { layout with cursor, keyAllowed }.closeBlocks fun column => cursor.column < column

def finish : Nat → Layout → Except Error (Array Token)
  | 0, layout => .ok layout.tokens
  | fuel + 1, layout =>
      let layout := layout.toToken fuel
      match layout.cursor.rest with
      | [] =>
          match (layout.closeBlocks fun _ => true).dropKey with
          | .error error => .error error
          | .ok layout => .ok layout.tokens
      | c :: _ =>
          match layout.pushToken fuel c with
          | .error error => .error error
          | .ok layout => finish fuel layout

end Layout

def Token.scan (text : String) : Except Error (List Token) := do
  let chars ← charactersOf text
  let tokens ← Layout.finish (chars.length + 2) { cursor := .start chars }
  .ok tokens.toList

end Yaml

end MediaMigration
