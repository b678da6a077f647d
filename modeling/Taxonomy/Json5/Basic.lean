import Taxonomy.Decimal.Binary64

/-!
# JSON5 values

Integers have 64 bits; every other number is a float. Members keep their order and may repeat.
-/

namespace Taxonomy

inductive Json5
  | null
  | bool (value : Bool)
  | integer (value : Int)
  | real (value : Binary64)
  | string (value : String)
  | array (items : List Json5)
  | object (members : List (String × Json5))
  deriving Repr, Inhabited

end Taxonomy
