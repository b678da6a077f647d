/-!
# Tokens of a YAML document

Collections have their starts and ends as tokens whether they are written with brackets or by
indentation. `key` and `value` come before the two sides of a member, also where no indicator is
written.
-/

namespace Taxonomy.Yaml

inductive Token
  | version
  /-- What a tag handle stands for. -/
  | tagHandle (handle start : String)
  | documentStart
  | documentEnd
  | sequenceStart
  | mappingStart
  /-- The end of a collection that is written by indentation. -/
  | blockEnd
  | flowSequenceStart
  | flowSequenceEnd
  | flowMappingStart
  | flowMappingEnd
  | flowEntry
  | entry
  | key
  | value
  | reference (name : String)
  | anchor (name : String)
  | tag (handle suffix : String)
  | scalar (isPlain : Bool) (text : String)
  deriving DecidableEq, Repr, Inhabited

end Taxonomy.Yaml
