import MediaMigration.Unicode.CodeRange

/-!
# White space

The twenty-five characters with the White_Space property, and trimming by it.
-/

namespace MediaMigration

namespace Unicode

def whiteSpaceRanges : List CodeRange :=
  [
    (0x9, 0xD), (0x20, 0x20), (0x85, 0x85), (0xA0, 0xA0), (0x1680, 0x1680), (0x2000, 0x200A),
    (0x2028, 0x2029), (0x202F, 0x202F), (0x205F, 0x205F), (0x3000, 0x3000)
  ]

def isWhiteSpace (c : Char) : Bool :=
  memberOf whiteSpaceRanges c

def trim (text : List Char) : List Char :=
  ((text.dropWhile isWhiteSpace).reverse.dropWhile isWhiteSpace).reverse

end Unicode

end MediaMigration
