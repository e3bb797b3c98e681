import MediaMigration.Yaml.Cursor

/-!
# Block scalars

A block scalar consists of the indented lines below its header. The header says whether
lines are kept or folded, what becomes of the line breaks at the end, and perhaps how far
the lines are indented; otherwise the first line that is not blank shows it.
-/

namespace MediaMigration

namespace Yaml

namespace Block

/-- What becomes of the line breaks at the end: all go, the first stays, or all stay. -/
inductive Chomping where
  | strip
  | clip
  | keep
deriving DecidableEq, Repr

structure Header where
  chomping : Chomping := .clip
  indent? : Option Nat := none
  length : Nat := 0

def chomping? : Char → Option Chomping
  | '-' => some .strip
  | '+' => some .keep
  | _ => none

def Header.withIndent (header : Header) : List Char → Except Error Header
  | c :: _ =>
      if c == '0' then .error .zeroIndentation
      else if c.isDigit then
        .ok { header with indent? := some (c.toNat - 48), length := header.length + 1 }
      else .ok header
  | [] => .ok header

def Header.withChomping (header : Header) : List Char → Header
  | c :: _ =>
      match chomping? c with
      | some chomping => { header with chomping, length := header.length + 1 }
      | none => header
  | [] => header

/-- Read a header: both parts are optional and stand in either order. -/
def Header.read (text : List Char) : Except Error Header :=
  let header := Header.withChomping {} text
  if header.length = 1 then header.withIndent (text.drop 1)
  else
    match header.withIndent text with
    | .error error => .error error
    | .ok header =>
        if header.length = 1 then .ok (header.withChomping (text.drop 1)) else .ok header

/-- Blank lines in front of a line of the scalar: their breaks, the widest indentation seen,
and the place of the first character behind the indentation. -/
structure Blanks where
  breaks : List Char
  widest : Nat
  cursor : Cursor

/-- Pass over blank lines and the indentation of the line behind them, which is at most
`indent?` columns wide. -/
def blankLines (indent? : Option Nat) : Nat → Cursor → Except Error Blanks
  | 0, cursor => .ok ⟨[], cursor.column, cursor⟩
  | fuel + 1, cursor =>
      let spaces := (cursor.rest.takeWhile (· == ' ')).length
      let stop := cursor.skip <|
        match indent? with
        | none => spaces
        | some indent => min spaces (indent - cursor.column)
      if stop.isAt '\t' && indent?.all (stop.column < ·) then .error .tabInIndentation
      else
        match stop.rest with
        | [] => .ok ⟨[], stop.column, stop⟩
        | c :: _ =>
            if isBreak c then
              match blankLines indent? fuel stop.newline with
              | .error error => .error error
              | .ok blanks =>
                  .ok { blanks with
                    breaks := c :: blanks.breaks
                    widest := max stop.column blanks.widest }
            else .ok ⟨[], stop.column, stop⟩

/-- What stands between the last line that was read and the next one: the break that ended
the line, whether the line began with a blank, and the breaks of blank lines. -/
structure Seam where
  lineBreak : List Char := []
  afterBlank : Bool := false
  breaks : List Char := []

def Seam.joint (seam : Seam) (folds beforeBlank : Bool) : List Char :=
  if folds && seam.lineBreak == ['\n'] && !seam.afterBlank && !beforeBlank then
    if seam.breaks.isEmpty then [' '] else seam.breaks
  else seam.lineBreak ++ seam.breaks

def Seam.tail (seam : Seam) : Chomping → List Char
  | .strip => []
  | .clip => seam.lineBreak
  | .keep => seam.lineBreak ++ seam.breaks

/-- The lines of the scalar from a place on, as far as they are indented by `indent`. -/
def lines (folds : Bool) (chomping : Chomping) (indent : Nat) :
    Nat → Seam → Cursor → Except Error (List Char × Cursor)
  | 0, seam, cursor => .ok (seam.tail chomping, cursor)
  | fuel + 1, seam, cursor =>
      if cursor.column = indent ∧ !cursor.rest.isEmpty then
        let (line, stop) := cursor.run fun c => !isBreak c
        let lineBreak := stop.rest.take 1
        let startsBlank := line.head?.any isBlank
        match blankLines (some indent) fuel (if lineBreak.isEmpty then stop else stop.newline) with
        | .error error => .error error
        | .ok blanks =>
            match lines folds chomping indent fuel ⟨lineBreak, startsBlank, blanks.breaks⟩
                blanks.cursor with
            | .error error => .error error
            | .ok (more, last) => .ok (seam.joint folds startsBlank ++ line ++ more, last)
      else .ok (seam.tail chomping, cursor)

/-- The block scalar at a place. Its lines are indented at least to the column `floor`; a
width in the header counts from the column of the block around it. -/
def read (folds : Bool) (floor fuel : Nat) (cursor : Cursor) :
    Except Error (List Char × Cursor) := do
  let inside := cursor.skip 1
  let header ← Header.read inside.rest
  let first ← (inside.skip header.length).finishLine
  let indent? := header.indent?.map fun width => (floor - 1) + width
  let blanks ← blankLines indent? fuel first
  let indent := indent?.getD (max blanks.widest (max floor 1))
  lines folds header.chomping indent fuel { breaks := blanks.breaks } blanks.cursor

end Block

end Yaml

end MediaMigration
