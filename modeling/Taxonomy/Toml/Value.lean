import Taxonomy.Decimal.Binary64

/-!
# TOML values

A document is a table. Dates and times are kept as the text they are written back with.
-/

namespace Taxonomy

inductive Toml
  | string (text : String)
  | integer (value : Int)
  | float (value : Binary64)
  | boolean (value : Bool)
  | datetime (text : String)
  | array (items : List Toml)
  | table (members : List (String × Toml))
  deriving Repr, Inhabited

end Taxonomy
