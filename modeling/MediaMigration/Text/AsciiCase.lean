/-!
# Letter case of ASCII words

Key words are compared by their ASCII letters alone: `A` to `Z` match `a` to `z`,
and any other character only matches itself.
-/

namespace MediaMigration

namespace Text

/-- Do two words agree up to the case of their ASCII letters? -/
def equalIgnoringCase (s t : String) : Bool :=
  s.toList.map Char.toLower == t.toList.map Char.toLower

end Text

end MediaMigration
