import MediaMigration.FileTree.Basic

/-!
# Tokens

The words of a YAML document. The nesting that indentation expresses is spelled out by
tokens that open and close a block.
-/

namespace MediaMigration

namespace Yaml

inductive ScalarStyle where
  | plain
  | singleQuoted
  | doubleQuoted
  | literal
  | folded
deriving DecidableEq, Repr

/-- A word of a document. A tag consists of octets, since escapes may spell any of them. -/
inductive Token where
  | version (major minor : Nat)
  | handle (name : String) (stands : Bytes)
  | documentStart
  | documentEnd
  | blockSequenceStart
  | blockMappingStart
  | blockEnd
  | flowSequenceStart
  | flowSequenceEnd
  | flowMappingStart
  | flowMappingEnd
  | blockEntry
  | flowEntry
  | key
  | value
  | reference (name : String)
  | anchor (name : String)
  | tag (handle : String) (suffix : Bytes)
  | scalar (style : ScalarStyle) (text : String)
deriving DecidableEq, Repr

end Yaml

end MediaMigration
