/-! # Tokens

A YAML text is a row of tokens: marks of structure, properties of nodes, and scalars.  Block
structure, which a text tells by its columns, is told by tokens that open and close. -/

namespace RealTime.Yaml

/-- How a scalar is written. -/
inductive Style where
  | plain
  | quoted
  /-- A block that keeps its line breaks. -/
  | literal
  /-- A block whose lines are folded. -/
  | folded
  deriving DecidableEq, Repr

/-- A unit of structure. -/
inductive Token where
  | versionDirective (major minor : Nat)
  | tagDirective (handle : String) (stem : List UInt8)
  | documentStart
  | documentEnd
  | blockSequenceStart
  | blockMappingStart
  | blockEnd
  | flowSequenceStart
  | flowSequenceEnd
  | flowMappingStart
  | flowMappingEnd
  | blockEntry
  | flowEntry
  | key
  | value
  | anchor (name : String)
  | alias (name : String)
  /-- A tag: an abbreviation and the octets behind it. -/
  | tag (handle : String) (suffix : List UInt8)
  | scalar (style : Style) (text : String)
  deriving DecidableEq, Repr

end RealTime.Yaml
