/-!
# Ranges of code points

A character property is kept as a list of inclusive ranges of code points, in
increasing order. Membership is a plain search, so a property of every character
of a table is a finite check over its ranges.
-/

namespace MediaMigration

namespace Unicode

abbrev CodeRange := Nat × Nat

def CodeRange.holds (range : CodeRange) (c : Char) : Bool :=
  range.1 ≤ c.toNat && c.toNat ≤ range.2

def memberOf (table : List CodeRange) (c : Char) : Bool :=
  table.any fun range => range.holds c

end Unicode

end MediaMigration
