import Reckoner.Text.Basic

/-!
# Faults of YAML documents

Why a text is no YAML document, or a document does not have the content that is asked for.
-/

namespace Reckoner

namespace Yaml

/-- What is wrong with a document. -/
inductive Problem where
  /-- The bytes are no characters. -/
  | encoding
  /-- A character cannot stand in a document. -/
  | controlCharacter
  /-- No token starts with the character. -/
  | strayCharacter
  /-- Collections are nested too deeply. -/
  | tooDeep
  /-- A key that has to be one is not followed by its value. -/
  | missingColon
  /-- A dash stands where no item can start. -/
  | misplacedEntry
  /-- A question mark stands where no key can start. -/
  | misplacedKey
  /-- A colon stands where no value can start. -/
  | misplacedValue
  /-- An anchor or an alias has no proper name. -/
  | badAnchor
  /-- A tag is not written properly. -/
  | badTag
  /-- A directive is unknown, comes twice or is not written properly. -/
  | badDirective
  /-- A backslash between double quotes is followed by no escape. -/
  | badEscape
  /-- A quote is not closed. -/
  | openQuote
  /-- A mark of a document stands in a quote. -/
  | documentInQuote
  /-- A tab stands where a line is indented. -/
  | tabInIndentation
  /-- The header of a block says something unknown. -/
  | badBlockHeader
  /-- A node is missing where one has to be. -/
  | noContent
  /-- Something else stands where the named thing should. -/
  | expected (what : String)
  /-- The handle of a tag has no directive. -/
  | undefinedHandle
  /-- An alias comes before its anchor. -/
  | unknownAnchor
  /-- A key stands twice in a mapping. -/
  | duplicateKey
  /-- What stands under `<<` is neither a mapping nor a sequence of mappings. -/
  | mergeOfOther
  /-- An anchor holds an alias of itself. -/
  | endlessAnchor
  /-- Binary text is not written properly. -/
  | badBase64
  /-- A node is not of the kind that is asked for. -/
  | unsuitable
  deriving DecidableEq, Repr

/-- What is said about a problem, without the line it was met in. -/
def Problem.message : Problem → Text
  | encoding => "invalid character encoding"
  | controlCharacter => "control characters are not allowed"
  | strayCharacter => "found character that cannot start any token"
  | tooDeep => "exceeded max depth of 10000"
  | missingColon => "could not find expected ':'"
  | misplacedEntry => "block sequence entries are not allowed in this context"
  | misplacedKey => "mapping keys are not allowed in this context"
  | misplacedValue => "mapping values are not allowed in this context"
  | badAnchor => "did not find expected alphabetic or numeric character"
  | badTag => "did not find expected tag URI"
  | badDirective => "found malformed directive"
  | badEscape => "found unknown escape character"
  | openQuote => "found unexpected end of stream"
  | documentInQuote => "found unexpected document indicator"
  | tabInIndentation => "found a tab character that violates indentation"
  | badBlockHeader => "did not find expected comment or line break"
  | noContent => "did not find expected node content"
  | expected what => "did not find expected " ++ Text.ofString what
  | undefinedHandle => "found undefined tag handle"
  | unknownAnchor => "unknown anchor referenced"
  | duplicateKey => "mapping key already defined"
  | mergeOfOther => "map merge requires map or sequence of maps as the value"
  | endlessAnchor => "anchor value contains itself"
  | badBase64 => "!!binary value contains invalid base64 data"
  | unsuitable => "cannot unmarshal into the wanted type"

/-- A problem and its line, counted from one. -/
structure Fault where
  line : Nat
  problem : Problem
  deriving DecidableEq, Repr

/-- The message about a document that cannot be read. -/
def Fault.message (f : Fault) : Text :=
  "yaml: line " ++ Text.ofNat f.line ++ ": " ++ f.problem.message

end Yaml

end Reckoner
