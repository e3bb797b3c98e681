/-!
# Placeholders

A template holds placeholders of the form dollar sign, opening brace, key, closing brace,
where a key is one or more ASCII letters, digits or underscores. Everything else is
literal text. A placeholder holds a dollar sign only as its first character, so no two
placeholders overlap and every position of a template can be judged by itself.
-/

namespace MediaMigration

/-- A placeholder and the UTF-8 bytes it takes up in its template, from `start` up to but
not including `stop`. -/
structure Placeholder where
  key : String
  start : Nat
  stop : Nat
deriving DecidableEq, Repr

namespace Placeholder

/-- The characters that keys are made of. -/
def isKeyChar (c : Char) : Bool :=
  c.isAlphanum || c == '_'

def keyAt? : List Char → Option (List Char)
  | '$' :: '{' :: rest =>
      let key := rest.takeWhile isKeyChar
      if key ≠ [] ∧ (rest.dropWhile isKeyChar).head? = some '}' then some key else none
  | _ => none

def scanFrom (offset : Nat) : List Char → List Placeholder
  | [] => []
  | c :: rest =>
      match keyAt? (c :: rest) with
      | some key =>
          ⟨String.ofList key, offset, offset + key.length + 3⟩ ::
            scanFrom (offset + c.utf8Size) rest
      | none => scanFrom (offset + c.utf8Size) rest

def scan (template : String) : List Placeholder :=
  scanFrom 0 template.toList

end Placeholder

end MediaMigration
