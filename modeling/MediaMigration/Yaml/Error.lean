/-!
# Faults of a YAML document

A document is refused for its characters, its tokens, the arrangement of the tokens, or
the values that a reader asks of it.
-/

namespace MediaMigration

namespace Yaml

inductive Error where
  | illegalCharacter (c : Char)
  | unexpectedCharacter (c : Char)
  | missingColon
  | misplacedEntry
  | misplacedKey
  | misplacedValue
  | unexpectedColon
  | tabInIndentation
  | unclosedQuote
  | documentMarkInQuote
  | malformedEscape
  | zeroIndentation
  | trailingText
  | malformedAnchor
  | malformedTag
  | malformedDirective
  | unknownDirective (name : String)
  | unsupportedVersion (major minor : Nat)
  | repeatedDirective
  | missingDocumentStart
  | missingContent
  | missingDash
  | missingKey
  | unclosedSequence
  | unclosedMapping
  | unknownHandle (handle : String)
  | unknownAnchor (name : String)
  | severalDocuments
  | tooDeep
  | tooManyReferences
  | unexpectedValue (expected : String)
  | missingField (name : String)
  | repeatedField (name : String)
  | unknownField (name : String)
deriving DecidableEq, Repr

def Error.message : Error → String
  | illegalCharacter _ => "control characters are not allowed"
  | unexpectedCharacter _ => "found character that cannot start any token"
  | missingColon => "could not find expected ':'"
  | misplacedEntry => "block sequence entries are not allowed in this context"
  | misplacedKey => "mapping keys are not allowed in this context"
  | misplacedValue => "mapping values are not allowed in this context"
  | unexpectedColon => "found unexpected ':'"
  | tabInIndentation => "found a tab character that violates indentation"
  | unclosedQuote => "found unexpected end of stream"
  | documentMarkInQuote => "found unexpected document indicator"
  | malformedEscape => "found unknown escape character"
  | zeroIndentation => "found an indentation indicator equal to 0"
  | trailingText => "did not find expected comment or line break"
  | malformedAnchor => "did not find expected alphabetic or numeric character"
  | malformedTag => "did not find expected tag"
  | malformedDirective => "found malformed directive"
  | unknownDirective name => "found unknown directive name '" ++ name ++ "'"
  | unsupportedVersion _ _ => "found incompatible YAML document"
  | repeatedDirective => "found duplicate directive"
  | missingDocumentStart => "did not find expected <document start>"
  | missingContent => "did not find expected node content"
  | missingDash => "did not find expected '-' indicator"
  | missingKey => "did not find expected key"
  | unclosedSequence => "did not find expected ',' or ']'"
  | unclosedMapping => "did not find expected ',' or '\x7d'"
  | unknownHandle _ => "found undefined tag handle"
  | unknownAnchor _ => "unknown anchor"
  | severalDocuments => "deserializing from YAML containing more than one document is not supported"
  | tooDeep => "recursion limit exceeded"
  | tooManyReferences => "repetition limit exceeded"
  | unexpectedValue expected => "invalid value, expected " ++ expected
  | missingField name => "missing field '" ++ name ++ "'"
  | repeatedField name => "duplicate field '" ++ name ++ "'"
  | unknownField name => "unknown field '" ++ name ++ "'"

end Yaml

end MediaMigration
