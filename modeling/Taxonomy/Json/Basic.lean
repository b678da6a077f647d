/-!
# JSON values

A value is kept as it is written: numbers and strings hold the characters between their ends,
escapes included, so that a value can be passed over whatever its strings stand for. Members keep
their order and may repeat.
-/

namespace Taxonomy

inductive Json
  | null
  | bool (value : Bool)
  | number (lexeme : List Char)
  | string (lexeme : List Char)
  | array (items : List Json)
  | object (members : List (List Char × Json))
  deriving Repr, Inhabited

/-- How a value is laid out: over indented lines, or on one line without blanks. -/
inductive Layout
  | pretty
  | compact
  deriving DecidableEq, Repr, Inhabited

end Taxonomy
