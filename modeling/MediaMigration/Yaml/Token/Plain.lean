import MediaMigration.Yaml.Token.Gap

/-!
# Plain scalars

A plain scalar is written without quotes. It ends in front of a colon or a comment that
white space sets off, in front of a mark between documents, and where a line is indented
no deeper than the block around it. Within a flow collection it also ends in front of the
characters that structure the collection.
-/

namespace MediaMigration

namespace Yaml

namespace Plain

def startsWith (inFlow : Bool) (c : Char) (rest : List Char) : Bool :=
  if c == '-' then !endsWord rest
  else if c == '?' || c == ':' then !inFlow && !endsWord rest
  else !(isSpacing c || isFlowIndicator c || "#&*!|>'\"%@`".toList.contains c)

def stopsAt (inFlow : Bool) (c : Char) (rest : List Char) : Bool :=
  isSpacing c || (c == ':' && endsWord rest) || (inFlow && isFlowIndicator c)

/-- Is the character a colon that a flow collection neither takes into a word nor as the
end of a key? -/
def isStrayColon (inFlow : Bool) (c : Char) (rest : List Char) : Bool :=
  inFlow && c == ':' && rest.head?.any fun next => isFlowIndicator next || next == '?'

def word (inFlow : Bool) : List Char → Except Error (List Char)
  | [] => .ok []
  | c :: rest =>
      if isStrayColon inFlow c rest then .error .unexpectedColon
      else if stopsAt inFlow c rest then .ok []
      else
        match word inFlow rest with
        | .error error => .error error
        | .ok more => .ok (c :: more)

/-- A plain scalar or what is left of one, whether the white space behind it ends a line,
and the place behind both. -/
structure Part where
  text : List Char
  endsLine : Bool
  cursor : Cursor

def continued (inFlow : Bool) (floor : Nat) : Nat → Cursor → Except Error Part
  | 0, cursor => .ok ⟨[], false, cursor⟩
  | fuel + 1, cursor =>
      let (gap, after) := cursor.gap
      if cursor.gapHasTab floor then .error .tabInIndentation
      else if (!inFlow && after.column < floor) || after.atDocumentMark || after.isAt '#' then
        .ok ⟨[], gap.spansLines, after⟩
      else
        match word inFlow after.rest with
        | .error error => .error error
        | .ok [] => .ok ⟨[], gap.spansLines, after⟩
        | .ok word =>
            match continued inFlow floor fuel (after.skip word.length) with
            | .error error => .error error
            | .ok part => .ok { part with text := gap.folded ++ word ++ part.text }

/-- The plain scalar at a place; `floor` is the least column for its further lines. -/
def read (inFlow : Bool) (floor fuel : Nat) (cursor : Cursor) : Except Error Part :=
  match word inFlow cursor.rest with
  | .error error => .error error
  | .ok word =>
      match continued inFlow floor fuel (cursor.skip word.length) with
      | .error error => .error error
      | .ok part => .ok { part with text := word ++ part.text }

end Plain

end Yaml

end MediaMigration
