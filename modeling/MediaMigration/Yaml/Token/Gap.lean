import MediaMigration.Yaml.Cursor

/-!
# White space within a scalar

A scalar may go over several lines. The white space between two of its words is kept if
it lies within a line; if a line ends in it, blanks go and the line breaks are folded: a
single one becomes a space, and of several the first one goes.
-/

namespace MediaMigration

namespace Yaml

structure Gap where
  blanks : List Char
  breaks : List Char

namespace Gap

def ofRun (run : List Char) : Gap :=
  ⟨run.takeWhile isBlank, run.filter isBreak⟩

def spansLines (gap : Gap) : Bool :=
  !gap.breaks.isEmpty

def folded (gap : Gap) : List Char :=
  match gap.breaks with
  | [] => gap.blanks
  | ['\n'] => [' ']
  | '\n' :: more => more
  | breaks => breaks

/-- Is a line of the run indented by a tab before the column `floor`? The run begins
behind a line break at `column`. -/
def tabIndents (floor : Nat) : Nat → List Char → Bool
  | _, [] => false
  | column, c :: rest =>
      if isBreak c then tabIndents floor 0 rest
      else (c == '\t' && column < floor) || tabIndents floor (column + 1) rest

end Gap

def Cursor.pass (cursor : Cursor) : List Char → Cursor
  | [] => cursor
  | c :: run => (if isBreak c then cursor.newline else cursor.skip 1).pass run

def Cursor.gap (cursor : Cursor) : Gap × Cursor :=
  let run := cursor.rest.takeWhile isSpacing
  (.ofRun run, cursor.pass run)

def Cursor.gapHasTab (cursor : Cursor) (floor : Nat) : Bool :=
  Gap.tabIndents floor 0 ((cursor.rest.takeWhile isSpacing).dropWhile isBlank)

end Yaml

end MediaMigration
