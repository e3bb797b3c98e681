import MediaMigration.Text.Hexadecimal

/-!
# What plain scalars stand for

A scalar without quotes and tag may be a null, a boolean, an integer or a real number; all
else is text. Integers that no machine word holds are told apart, and digits behind a
leading zero are text.
-/

namespace MediaMigration

namespace Yaml

inductive ScalarKind where
  | null
  | boolean
  | integer
  | wideInteger
  | real
  | text
deriving DecidableEq, Repr

namespace Scalar

def isNull (text : String) : Bool :=
  ["null", "Null", "NULL", "~"].contains text

def boolean? (text : String) : Option Bool :=
  if ["true", "True", "TRUE"].contains text then some true
  else if ["false", "False", "FALSE"].contains text then some false
  else none

def splitSign : List Char → Bool × List Char
  | '+' :: rest => (false, rest)
  | '-' :: rest => (true, rest)
  | chars => (false, chars)

def number? (base : Nat) (digits : List Char) : Option Nat :=
  if digits.isEmpty then none
  else
    match digits.mapM Text.hexValue? with
    | none => none
    | some values =>
        if values.all (·.val < base) then
          some (values.foldl (fun n value => n * base + value.val) 0)
        else none

/-- Are these two digits or more, the first of them zero? -/
def hasLeadingZero (chars : List Char) : Bool :=
  2 ≤ chars.length && chars.head? == some '0' && chars.all Char.isDigit

def magnitude? : List Char → Option Nat
  | '0' :: 'x' :: digits => number? 16 digits
  | '0' :: 'o' :: digits => number? 8 digits
  | '0' :: 'b' :: digits => number? 2 digits
  | chars => if hasLeadingZero chars then none else number? 10 chars

/-- Does a number fit into a word of `bits` bits, which is a signed one for a negative
number? -/
def fits (bits : Nat) (negative : Bool) (magnitude : Nat) : Bool :=
  if negative then magnitude ≤ Nat.pow 2 (bits - 1) else magnitude < Nat.pow 2 bits

/-- The kind of an integer; one beyond 128 bits is no integer. -/
def integerKind? (chars : List Char) : Option ScalarKind :=
  let (negative, digits) := splitSign chars
  match magnitude? digits with
  | none => none
  | some magnitude =>
      if fits 64 negative magnitude then some .integer
      else if fits 128 negative magnitude then some .wideInteger
      else none

/-- The digits of a decimal fraction, and the power of ten that they count. -/
structure Decimal where
  digits : List Char
  exponent : Int

def exponent? : List Char → Option Int
  | [] => some 0
  | c :: rest =>
      if c == 'e' || c == 'E' then
        let (negative, digits) := splitSign rest
        match digits.all Char.isDigit, number? 10 digits with
        | true, some n => some (if negative then -(n : Int) else n)
        | _, _ => none
      else none

/-- Read a decimal fraction without a sign. It has a digit in front of the point or behind
it, and perhaps an exponent. -/
def decimal? (chars : List Char) : Option Decimal :=
  let whole := chars.takeWhile Char.isDigit
  let behind := chars.drop whole.length
  let fraction := if behind.head? == some '.' then (behind.drop 1).takeWhile Char.isDigit else []
  let rest :=
    if behind.head? == some '.' then behind.drop (fraction.length + 1) else behind
  if whole.isEmpty && fraction.isEmpty then none
  else (exponent? rest).map fun exponent => ⟨whole ++ fraction, exponent - fraction.length⟩

/-- The least number that is rounded to infinity in double precision. -/
def overflowBound : Nat :=
  Nat.pow 2 1024 - Nat.pow 2 970

/-- Is the fraction finite in double precision? Its order of magnitude mostly tells. -/
def Decimal.isFinite (decimal : Decimal) : Bool :=
  let significant := decimal.digits.dropWhile (· == '0')
  let order := (significant.length : Int) + decimal.exponent
  if significant.isEmpty || order < 300 then true
  else if 310 < order then false
  else
    let mantissa := (number? 10 significant).getD 0
    mantissa * Nat.pow 10 decimal.exponent.toNat <
      overflowBound * Nat.pow 10 (-decimal.exponent).toNat

def isReal (text : String) : Bool :=
  let unsigned := (splitSign text.toList).2
  [".inf", ".Inf", ".INF"].contains (String.ofList unsigned) ||
    [".nan", ".NaN", ".NAN"].contains text ||
    (decimal? unsigned).any Decimal.isFinite

def kind (text : String) : ScalarKind :=
  if text.isEmpty || isNull text then .null
  else if (boolean? text).isSome then .boolean
  else
    match integerKind? text.toList with
    | some kind => kind
    | none =>
        if !hasLeadingZero (splitSign text.toList).2 && isReal text then .real else .text

end Scalar

end Yaml

end MediaMigration
