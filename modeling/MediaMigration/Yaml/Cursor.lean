import MediaMigration.Yaml.Character

/-!
# Places in a document

A cursor is the rest of a document together with the line and the column where the rest
begins. Columns decide how blocks nest, lines whether a key stands on one line. Columns count
characters; how much room a key takes is counted in octets.
-/

namespace MediaMigration

namespace Yaml

/-- A place in a document: what follows it, the number of line breaks in front of it, and
the numbers of characters and of octets in UTF-8 in front of it within the line. -/
structure Cursor where
  rest : List Char
  line : Nat := 0
  column : Nat := 0
  octets : Nat := 0

namespace Cursor

def start (chars : List Char) : Cursor :=
  { rest := chars }

def skip (cursor : Cursor) (count : Nat) : Cursor :=
  { cursor with
    rest := cursor.rest.drop count
    column := cursor.column + count
    octets := (cursor.rest.take count).foldl (fun sum c => sum + c.utf8Size) cursor.octets }

def newline (cursor : Cursor) : Cursor :=
  { rest := cursor.rest.drop 1, line := cursor.line + 1 }

/-- The longest run of characters of a class within the line, and the place behind it. -/
def run (cursor : Cursor) (p : Char → Bool) : List Char × Cursor :=
  let taken := cursor.rest.takeWhile p
  (taken, cursor.skip taken.length)

def skipRun (cursor : Cursor) (p : Char → Bool) : Cursor :=
  (cursor.run p).2

def isAt (cursor : Cursor) (c : Char) : Bool :=
  cursor.rest.head? == some c

def isAtBreak (cursor : Cursor) : Bool :=
  cursor.rest.head?.any isBreak

/-- Does the rest begin with `---` or `...` at the start of a line, as a word of its own? -/
def atDocumentMark (cursor : Cursor) : Bool :=
  cursor.column == 0 && endsWord (cursor.rest.drop 3) &&
    (cursor.rest.take 3 == ['-', '-', '-'] || cursor.rest.take 3 == ['.', '.', '.'])

def skipComment (cursor : Cursor) : Cursor :=
  if cursor.isAt '#' then cursor.skipRun fun c => !isBreak c else cursor

/-- Pass over blanks, a comment and the line break, which must be all that is left of the
line. -/
def finishLine (cursor : Cursor) : Except Error Cursor :=
  let cursor := (cursor.skipRun isBlank).skipComment
  if cursor.isAtBreak then .ok cursor.newline
  else if cursor.rest.isEmpty then .ok cursor
  else .error .trailingText

/-- Pass over a byte order mark at the start of a line. It takes a column of the line. -/
def skipMark (cursor : Cursor) : Cursor :=
  if cursor.column == 0 && cursor.isAt '\uFEFF' then cursor.skip 1 else cursor

/-- Pass over white space and comments in front of a token, and tell whether a line ended
on the way. Tabs count as white space from the second line on only if `inFlow`. -/
def toToken (inFlow : Bool) : Nat → Bool → Cursor → Cursor × Bool
  | 0, _, cursor => (cursor, false)
  | fuel + 1, tabs, cursor =>
      let cursor :=
        (cursor.skipMark.skipRun fun c => c == ' ' || (tabs && c == '\t')).skipComment
      if cursor.isAtBreak then ((toToken inFlow fuel inFlow cursor.newline).1, true)
      else (cursor, false)

end Cursor

end Yaml

end MediaMigration
