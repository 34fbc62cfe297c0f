/-!
The tokens of a YAML text. Indentation has become tokens of its own: a block collection begins with a
token for its kind and ends with `blockEnd`, and `key` stands before every key of a mapping.
-/

namespace Regroup.Yaml

/-- A part of a tag. An escape that encodes no character is kept as none. -/
abbrev TagText := List (Option Char)

inductive Style where
  | plain
  | quoted
  deriving DecidableEq, Repr, Inhabited

inductive Token where
  | version (major minor : Nat)
  | tagHandle (handle : List Char) (start : TagText)
  | documentStart
  | documentEnd
  | blockSequence
  | blockMapping
  | blockEnd
  | flowSequence
  | flowSequenceEnd
  | flowMapping
  | flowMappingEnd
  | blockEntry
  | flowEntry
  | key
  | value
  | alias (name : List Char)
  | anchor (name : List Char)
  | tag (handle : List Char) (suffix : TagText)
  | scalar (text : List Char) (style : Style)
  deriving DecidableEq, Repr, Inhabited

end Regroup.Yaml
