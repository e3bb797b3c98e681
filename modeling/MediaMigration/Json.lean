import MediaMigration.Text.Hexadecimal

/-!
# JSON documents

Values are written over several lines, each level indented by two spaces more than the one
around it. Fields keep their order, and an empty collection takes no lines of its own.
-/

namespace MediaMigration

inductive JsonValue where
  | text (value : String)
  | count (value : Nat)
  | flag (value : Bool)
  | list (items : List JsonValue)
  | record (fields : List (String × JsonValue))

namespace JsonValue

def letterEscapes : List (Char × Char) :=
  [('"', '"'), ('\\', '\\'), ('\x08', 'b'), ('\x0c', 'f'), ('\n', 'n'), ('\r', 'r'), ('\t', 't')]

def escaped (c : Char) : List Char :=
  match letterEscapes.lookup c with
  | some letter => ['\\', letter]
  | none => if c.toNat < 32 then '\\' :: 'u' :: Text.hexPadded 4 c.toNat else [c]

def quoted (text : String) : String :=
  "\"" ++ String.ofList (text.toList.flatMap escaped) ++ "\""

def newline (level : Nat) : String :=
  "\n" ++ String.ofList (List.replicate (2 * level) ' ')

def bracketed (opening closing : String) (level : Nat) : List String → String
  | [] => opening ++ closing
  | entries =>
      opening ++ ",".intercalate (entries.map fun entry => newline (level + 1) ++ entry) ++
        newline level ++ closing

mutual

def written (level : Nat) : JsonValue → String
  | text value => quoted value
  | count value => toString value
  | flag value => if value then "true" else "false"
  | list items => bracketed "[" "]" level (writtenItems (level + 1) items)
  | record fields => bracketed "\x7b" "\x7d" level (writtenFields (level + 1) fields)

def writtenItems (level : Nat) : List JsonValue → List String
  | [] => []
  | item :: rest => written level item :: writtenItems level rest

def writtenFields (level : Nat) : List (String × JsonValue) → List String
  | [] => []
  | (name, value) :: rest =>
      (quoted name ++ ": " ++ written level value) :: writtenFields level rest

end

def toText (value : JsonValue) : String :=
  written 0 value

end JsonValue

end MediaMigration
