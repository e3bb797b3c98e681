import MediaMigration.Text.Hexadecimal
import MediaMigration.Yaml.Token.Gap

/-!
# Quoted scalars

Within single quotes a doubled quote stands for one quote. Within double quotes a
backslash begins an escape, and one at the end of a line takes the line break away. White
space is folded as in any scalar.
-/

namespace MediaMigration

namespace Yaml

namespace Quoted

/-- Characters of a scalar without white space between them: what they stand for, how many
they are, and whether a backslash in front of a line break follows. -/
structure Run where
  text : List Char
  length : Nat
  joinsLines : Bool := false

def Run.nothing : Run :=
  ⟨[], 0, false⟩

def Run.cons (c : Char) (width : Nat) (run : Run) : Run :=
  { run with text := c :: run.text, length := run.length + width }

def singleRun : List Char → Run
  | '\'' :: '\'' :: rest => (singleRun rest).cons '\'' 2
  | '\'' :: _ => .nothing
  | c :: rest => if isSpacing c then .nothing else (singleRun rest).cons c 1
  | [] => .nothing

def letterEscapes : List (Char × Char) :=
  [('0', '\x00'), ('a', '\x07'), ('b', '\x08'), ('t', '\t'), ('\t', '\t'), ('n', '\n'),
    ('v', '\x0b'), ('f', '\x0c'), ('r', '\r'), ('e', '\x1b'), (' ', ' '), ('"', '"'),
    ('/', '/'), ('\\', '\\'), ('N', '\u0085'), ('_', '\u00a0'), ('L', '\u2028'),
    ('P', '\u2029')]

def digitCount? : Char → Option Nat
  | 'x' => some 2
  | 'u' => some 4
  | 'U' => some 8
  | _ => none

def numbered? (digits : List Char) : Option Char :=
  match digits.mapM Text.hexValue? with
  | none => none
  | some values =>
      let n := values.foldl (fun n value => n * 16 + value.val) 0
      if n.isValidChar then some (Char.ofNat n) else none

def escape? (letter : Char) (rest : List Char) : Option (Char × Nat) :=
  match letterEscapes.lookup letter with
  | some c => some (c, 0)
  | none =>
      match digitCount? letter with
      | none => none
      | some count =>
          if count ≤ (rest.take count).length then
            (numbered? (rest.take count)).map fun c => (c, count)
          else none

def doubleRun (text : List Char) : Except Error Run :=
  match text with
  | [] => .ok .nothing
  | '"' :: _ => .ok .nothing
  | ['\\'] => .error .malformedEscape
  | '\\' :: letter :: rest =>
      if isBreak letter then .ok ⟨[], 1, true⟩
      else
        match escape? letter rest with
        | none => .error .malformedEscape
        | some (c, digits) =>
            match doubleRun (rest.drop digits) with
            | .error error => .error error
            | .ok run => .ok (run.cons c (digits + 2))
  | c :: rest =>
      if isSpacing c then .ok .nothing
      else
        match doubleRun rest with
        | .error error => .error error
        | .ok run => .ok (run.cons c 1)
termination_by text.length
decreasing_by all_goals simp; try omega

def quote (single : Bool) : Char :=
  if single then '\'' else '"'

def content (single : Bool) : Nat → Cursor → Except Error (List Char × Cursor)
  | 0, _ => .error .unclosedQuote
  | fuel + 1, cursor =>
      if cursor.atDocumentMark then .error .documentMarkInQuote
      else
        match if single then .ok (singleRun cursor.rest) else doubleRun cursor.rest with
        | .error error => .error error
        | .ok run =>
            let stop := cursor.skip run.length
            if stop.rest.isEmpty then .error .unclosedQuote
            else if stop.isAt (quote single) then .ok (run.text, stop.skip 1)
            else
              let (gap, after) := (if run.joinsLines then stop.newline else stop).gap
              match content single fuel after with
              | .error error => .error error
              | .ok (text, last) =>
                  .ok (run.text ++ (if run.joinsLines then gap.breaks else gap.folded) ++ text,
                    last)

def read (single : Bool) (fuel : Nat) (cursor : Cursor) : Except Error (List Char × Cursor) :=
  content single fuel (cursor.skip 1)

end Quoted

end Yaml

end MediaMigration
