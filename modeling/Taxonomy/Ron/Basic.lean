import Taxonomy.Decimal.Binary64

/-!
# Values of the object notation

A value is written as in a program: with options, tuples, records and maps. Names of records are not
kept, a record is a map whose keys are texts, and a tuple is a list. A name alone is a unit.
-/

namespace Taxonomy

inductive Ron
  | unit
  | bool (value : Bool)
  | integer (value : Int)
  | real (value : Binary64)
  | text (value : String)
  | optional (value : Option Ron)
  | list (items : List Ron)
  | map (entries : List (Ron × Ron))
  deriving Repr, Inhabited

end Taxonomy
