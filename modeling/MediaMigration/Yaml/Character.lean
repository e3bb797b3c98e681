import MediaMigration.Yaml.Error

/-!
# Characters of a YAML document

Which characters may stand in a document, and the classes that its tokens are told apart
by. A carriage return, a line feed, both together and a next-line character are all one
line break, written `'\n'` from here on; the line and paragraph separators are line breaks
that stay themselves.
-/

namespace MediaMigration

namespace Yaml

def isLegal (c : Char) : Bool :=
  let n := c.toNat
  n = 0x09 ∨ n = 0x0A ∨ n = 0x0D ∨ (0x20 ≤ n ∧ n ≤ 0x7E) ∨ n = 0x85 ∨ (0xA0 ≤ n ∧ n ≤ 0xFFFD) ∨
    0x10000 ≤ n

/-- Write every break that ends a line without separating paragraphs as a line feed. -/
def normalizeBreaks : List Char → List Char
  | '\r' :: '\n' :: rest => '\n' :: normalizeBreaks rest
  | '\r' :: rest => '\n' :: normalizeBreaks rest
  | '\u0085' :: rest => '\n' :: normalizeBreaks rest
  | c :: rest => c :: normalizeBreaks rest
  | [] => []

def charactersOf (text : String) : Except Error (List Char) :=
  match text.toList.find? fun c => !isLegal c with
  | some c => .error (.illegalCharacter c)
  | none => .ok (normalizeBreaks text.toList)

def isBreak (c : Char) : Bool :=
  c == '\n' || c == '\u2028' || c == '\u2029'

def isBlank (c : Char) : Bool :=
  c == ' ' || c == '\t'

def isSpacing (c : Char) : Bool :=
  isBlank c || isBreak c

def endsWord : List Char → Bool
  | [] => true
  | c :: _ => isSpacing c

def isNameCharacter (c : Char) : Bool :=
  c.isAlphanum || c == '_' || c == '-'

/-- May the character stand in a tag? Commas and brackets only may in a verbatim one. -/
def isTagCharacter (verbatim : Bool) (c : Char) : Bool :=
  isNameCharacter c || ";/?:@&=+$.!~*'()".toList.contains c ||
    (verbatim && [',', '[', ']'].contains c)

def isFlowIndicator (c : Char) : Bool :=
  [',', '[', ']', '\x7b', '\x7d'].contains c

end Yaml

end MediaMigration
