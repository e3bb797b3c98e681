import MediaMigration.Yaml.Cursor
import MediaMigration.Yaml.Token.Basic

/-!
# Layout

While a document is read, the columns of its open blocks decide which tokens open and
close a block. A token that may turn out to be a key is remembered with its place, because
only the colon behind it tells; the key, and the mapping that it opens, are put in front of
it then.
-/

namespace MediaMigration

namespace Yaml

/-- A token that is a key if a colon follows it within its line: whether it must be one,
the number of tokens in front of it, and where it begins. -/
structure PendingKey where
  required : Bool
  place : Nat
  start : Cursor

/-- May a colon at the place still make the token a key? A key stands on one line and takes
no more than 1024 octets, white space in front of the colon included. -/
def PendingKey.isOpenAt (key : PendingKey) (cursor : Cursor) : Bool :=
  key.start.line == cursor.line && cursor.octets ≤ key.start.octets + 1024

/-- What has been read of a document: the place reached, the tokens so far, the columns of
the open blocks from the innermost outwards, the pending key of the innermost flow
collection, those of the collections and the block around it, and whether a key may begin
at the place. -/
structure Layout where
  cursor : Cursor
  tokens : Array Token := #[]
  columns : List Nat := []
  key? : Option PendingKey := none
  outer : List (Option PendingKey) := []
  keyAllowed : Bool := true

namespace Layout

def inFlow (layout : Layout) : Bool :=
  !layout.outer.isEmpty

def floor (layout : Layout) : Nat :=
  match layout.columns with
  | [] => 0
  | column :: _ => column + 1

def push (layout : Layout) (token : Token) (stop : Cursor) : Layout :=
  { layout with tokens := layout.tokens.push token, cursor := stop }

/-- Open a block at a column if it lies deeper than the innermost block; the token that
opens it goes to a place among the tokens. -/
def openBlock (layout : Layout) (column place : Nat) (token : Token) : Layout :=
  if layout.inFlow || column < layout.floor then layout
  else
    { layout with
      columns := column :: layout.columns
      tokens := layout.tokens.insertIdxIfInBounds place token }

def openBlockHere (layout : Layout) (token : Token) : Layout :=
  layout.openBlock layout.cursor.column layout.tokens.size token

def closeBlocks (layout : Layout) (p : Nat → Bool) : Layout :=
  if layout.inFlow then layout
  else
    { layout with
      columns := layout.columns.dropWhile p
      tokens := layout.tokens ++
        Array.replicate (layout.columns.takeWhile p).length Token.blockEnd }

def dropKey (layout : Layout) : Except Error Layout :=
  match layout.key? with
  | some key => if key.required then .error .missingColon else .ok { layout with key? := none }
  | none => .ok layout

/-- Remember the token at the place reached as a pending key, if one may begin there. A
token in line with the innermost block must be a key. -/
def saveKey (layout : Layout) : Except Error Layout :=
  if layout.keyAllowed then
    match layout.dropKey with
    | .error error => .error error
    | .ok layout =>
        let cursor := layout.cursor
        let required := !layout.inFlow && layout.columns.head? == some cursor.column
        .ok { layout with key? := some ⟨required, layout.tokens.size, cursor⟩ }
  else .ok layout

def enterFlow (layout : Layout) : Layout :=
  { layout with outer := layout.key? :: layout.outer, key? := none }

/-- Leave a flow collection; a stray bracket leaves none. -/
def leaveFlow (layout : Layout) : Layout :=
  match layout.outer with
  | [] => layout
  | key? :: outer => { layout with key?, outer }

def confirmKey (layout : Layout) (key : PendingKey) : Layout :=
  { layout with
    tokens := layout.tokens.insertIdxIfInBounds key.place .key
    key? := none
    keyAllowed := false }.openBlock key.start.column key.place .blockMappingStart

end Layout

end Yaml

end MediaMigration
