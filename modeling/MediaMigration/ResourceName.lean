import MediaMigration.Unicode.Alphanumeric
import MediaMigration.Unicode.Lowercase

/-!
# Resource names

Any text is made into a name that a storage service accepts: lower case, three to
sixty-three characters long, starting with a letter or a digit, with single hyphens in
place of separators and none at the end. Slashes stay, so that a name can be split into
a container and a prefix for its blobs.

The order of the steps matters. The cut to sixty-three characters comes before the last
cleaning of hyphens and before the padding, so both see the text as it was cut.
-/

namespace MediaMigration

namespace ResourceName

def maxLength : Nat := 63

def minLength : Nat := 3

def filler : Char := 'a'

/-- Spaces, underscores, colons and full stops separate words; a hyphen takes their place. -/
def separatorToHyphen (c : Char) : Char :=
  if c = ' ' ∨ c = '_' ∨ c = ':' ∨ c = '.' then '-' else c

def isParenthesis (c : Char) : Bool :=
  c == '(' || c == ')'

def isHyphen (c : Char) : Bool :=
  c == '-'

/-- Parentheses vanish, separators become hyphens, and the whole is put in lower case. -/
def normalize (text : List Char) : List Char :=
  Unicode.lowercase ((text.filter fun c => !isParenthesis c).map separatorToHyphen)

def dropTrailingHyphens (text : List Char) : List Char :=
  (text.reverse.dropWhile isHyphen).reverse

def trimHyphens (text : List Char) : List Char :=
  dropTrailingHyphens (text.dropWhile isHyphen)

def collapseHyphens : List Char → List Char
  | [] => []
  | c :: rest =>
      if c = '-' ∧ rest.head? = some '-' then collapseHyphens rest
      else c :: collapseHyphens rest

def startsAlphanumeric : List Char → Bool
  | [] => false
  | c :: _ => Unicode.isAlphanumeric c

def ensureStart (text : List Char) : List Char :=
  if startsAlphanumeric text then text else filler :: text

def pad (text : List Char) : List Char :=
  text ++ List.replicate (minLength - text.length) filler

def sanitizeChars (text : List Char) : List Char :=
  pad (dropTrailingHyphens
    ((ensureStart (collapseHyphens (trimHyphens (normalize text)))).take maxLength))

def sanitize (text : String) : String :=
  String.ofList (sanitizeChars text.toList)

end ResourceName

end MediaMigration
