import MediaMigration.Text.Hexadecimal
import MediaMigration.Text.AsciiCase

/-!
# Universally unique identifiers

An identifier is thirty-two hexadecimal digits. It is written in lower case in groups
of 8, 4, 4, 4 and 12 digits with hyphens between them. It is read from the bare digits,
from the written form, from the written form in braces, and from the written form behind
`urn:uuid:`, with letters of either case throughout.
-/

namespace MediaMigration

structure Uuid where
  digits : List (Fin 16)
  length_eq : digits.length = 32
deriving DecidableEq, Repr

namespace Uuid

def zero : Uuid :=
  ⟨List.replicate 32 ⟨0, Nat.zero_lt_succ 15⟩, by simp⟩

/-- The written form: thirty-six characters in the grouping 8-4-4-4-12. -/
def toChars (id : Uuid) : List Char :=
  let written := id.digits.map Text.hexDigit
  written.take 8 ++ '-' :: (written.drop 8).take 4 ++ '-' :: (written.drop 12).take 4 ++
    '-' :: (written.drop 16).take 4 ++ '-' :: written.drop 20

def toString (id : Uuid) : String :=
  String.ofList id.toChars

def ofDigits? (chars : List Char) : Option Uuid :=
  match chars.mapM Text.hexValue? with
  | none => none
  | some digits => if h : digits.length = 32 then some ⟨digits, h⟩ else none

/-- Thirty-six characters with hyphens at the places 8, 13, 18 and 23. -/
def ofGroups? (chars : List Char) : Option Uuid :=
  if chars.length = 36 ∧ chars[8]? = some '-' ∧ chars[13]? = some '-' ∧ chars[18]? = some '-' ∧
      chars[23]? = some '-' then
    ofDigits? (chars.take 8 ++ (chars.drop 9).take 4 ++ (chars.drop 14).take 4 ++
      (chars.drop 19).take 4 ++ chars.drop 24)
  else none

def urnMarker : List Char :=
  ['u', 'r', 'n', ':', 'u', 'u', 'i', 'd', ':']

def ofChars? (chars : List Char) : Option Uuid :=
  match chars.length with
  | 32 => ofDigits? chars
  | 36 => ofGroups? chars
  | 38 =>
      if chars.head? = some '{' ∧ chars.getLast? = some '}' then
        ofGroups? ((chars.drop 1).take 36)
      else none
  | 45 =>
      if (chars.take 9).map Char.toLower = urnMarker then ofGroups? (chars.drop 9) else none
  | _ => none

def parse? (text : String) : Option Uuid :=
  ofChars? text.toList

end Uuid

end MediaMigration
