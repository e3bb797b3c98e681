import MediaMigration.Text.Hexadecimal
import MediaMigration.Yaml.Cursor
import MediaMigration.Yaml.Token.Basic

/-!
# Anchors, tags and directives

An anchor gives a name to a node and a reference repeats the node of a name. A tag says
what kind of value a node is; it is written in full, or as a handle that a directive
explains and a suffix.
-/

namespace MediaMigration

namespace Yaml

namespace Property

def endsName : List Char → Bool
  | [] => true
  | c :: _ => isSpacing c || "?:,]\x7d%@`".toList.contains c

def name (cursor : Cursor) : Except Error (String × Cursor) :=
  let (name, stop) := (cursor.skip 1).run isNameCharacter
  if name.isEmpty || !endsName stop.rest then .error .malformedAnchor
  else .ok (String.ofList name, stop)

/-- The number of octets that follow the first one of a character in UTF-8. -/
def followers? (octet : UInt8) : Option Nat :=
  if octet &&& 0x80 = 0 then some 0
  else if octet &&& 0xE0 = 0xC0 then some 1
  else if octet &&& 0xF0 = 0xE0 then some 2
  else if octet &&& 0xF8 = 0xF0 then some 3
  else none

def octet? (high low : Char) : Option UInt8 :=
  match Text.hexValue? high, Text.hexValue? low with
  | some high, some low => some (UInt8.ofNat (high.val * 16 + low.val))
  | _, _ => none

/-- How many octets of a character are due after one more, of `due` before it. -/
def dueAfter? (due : Nat) (octet : UInt8) : Option Nat :=
  if due = 0 then followers? octet
  else if octet &&& 0xC0 = 0x80 then some (due - 1)
  else none

/-- The octets of a tag at the start of a text and the number of characters that they take;
`due` octets of an escaped character are still to come. -/
def octets (verbatim : Bool) : Nat → List Char → Except Error (Bytes × Nat)
  | due, '%' :: high :: low :: rest =>
      match (octet? high low).bind fun octet => (dueAfter? due octet).map fun due => (octet, due) with
      | none => .error .malformedTag
      | some (octet, due) =>
          match octets verbatim due rest with
          | .error error => .error error
          | .ok (more, length) => .ok (octet :: more, length + 3)
  | due, c :: rest =>
      if due ≠ 0 || c == '%' then .error .malformedTag
      else if isTagCharacter verbatim c then
        match octets verbatim 0 rest with
        | .error error => .error error
        | .ok (more, length) => .ok (UInt8.ofNat c.toNat :: more, length + 1)
      else .ok ([], 0)
  | due, [] => if due = 0 then .ok ([], 0) else .error .malformedTag

/-- The part of a tag that counts: an octet zero and what follows it do not. -/
def counted (octets : Bytes) : Bytes :=
  octets.takeWhile (· ≠ 0)

def someOctets (verbatim : Bool) (cursor : Cursor) : Except Error (Bytes × Cursor) :=
  match octets verbatim 0 cursor.rest with
  | .error error => .error error
  | .ok (found, length) =>
      if found.isEmpty then .error .malformedTag else .ok (counted found, cursor.skip length)

/-- A handle, or what looks like the beginning of one: an exclamation mark, the characters
of a name, and perhaps another exclamation mark. -/
def handle (cursor : Cursor) : List Char × Cursor :=
  let (name, stop) := (cursor.skip 1).run isNameCharacter
  if stop.isAt '!' then ('!' :: name ++ ['!'], stop.skip 1) else ('!' :: name, stop)

/-- Is the text a handle with a name between two exclamation marks, which may be empty? -/
def isFullHandle (text : List Char) : Bool :=
  2 ≤ text.length && text.getLast? == some '!'

def bareTag (cursor : Cursor) : Except Error (Token × Cursor) := do
  if (cursor.skip 1).isAt '<' then
    let (suffix, stop) ← someOctets true (cursor.skip 2)
    if stop.isAt '>' then .ok (.tag "" suffix, stop.skip 1) else .error .malformedTag
  else
    let (text, stop) := handle cursor
    if isFullHandle text then
      let (suffix, stop) ← someOctets false stop
      .ok (.tag (String.ofList text) suffix, stop)
    else
      let (more, length) ← octets false 0 stop.rest
      let stop := stop.skip length
      match counted ((text.drop 1).map (fun c => UInt8.ofNat c.toNat) ++ more) with
      | [] => .ok (.tag "" "!".toUTF8.toList, stop)
      | suffix => .ok (.tag "!" suffix, stop)

/-- The tag at a place, which white space must follow, or a comma in a flow collection. -/
def tag (inFlow : Bool) (cursor : Cursor) : Except Error (Token × Cursor) :=
  match bareTag cursor with
  | .error error => .error error
  | .ok (token, stop) =>
      if endsWord stop.rest || (inFlow && stop.isAt ',') then .ok (token, stop)
      else .error .malformedTag

def number (cursor : Cursor) : Except Error (Nat × Cursor) :=
  let (digits, stop) := cursor.run Char.isDigit
  if digits.isEmpty || 9 < digits.length then .error .malformedDirective
  else .ok (digits.foldl (fun n c => n * 10 + (c.toNat - 48)) 0, stop)

def version (cursor : Cursor) : Except Error (Token × Cursor) := do
  let (major, stop) ← number (cursor.skipRun isBlank)
  if stop.isAt '.' then
    let (minor, stop) ← number (stop.skip 1)
    .ok (.version major minor, stop)
  else .error .malformedDirective

def explanation (cursor : Cursor) : Except Error (Token × Cursor) := do
  let place := cursor.skipRun isBlank
  if place.isAt '!' then
    let (text, stop) := handle place
    if (text == ['!'] || isFullHandle text) && stop.rest.head?.any isBlank then
      let (stands, stop) ← someOctets true (stop.skipRun isBlank)
      if endsWord stop.rest then .ok (.handle (String.ofList text) stands, stop)
      else .error .malformedDirective
    else .error .malformedDirective
  else .error .malformedDirective

def directive (cursor : Cursor) : Except Error (Token × Cursor) := do
  let (word, stop) := (cursor.skip 1).run isNameCharacter
  if word.isEmpty || !endsWord stop.rest then .error .malformedDirective
  else
    let (token, stop) ←
      match String.ofList word with
      | "YAML" => version stop
      | "TAG" => explanation stop
      | word => .error (.unknownDirective word)
    .ok (token, ← stop.finishLine)

end Property

end Yaml

end MediaMigration
