import Taxonomy.Schema.ClassMap

/-!
# Search entries

The search index is a flat list with one entry for each declared class, in the order of the class
map.
-/

namespace Taxonomy

/-- What a search interface knows of one class. -/
structure SearchEntry where
  id : String
  name : String
  description : String := ""
  kind : String
  properties : Option (List Property) := none
  deriving DecidableEq, Repr, Inhabited

namespace SearchEntry

/-- The kind of entry that stands for a class. -/
def classKind : String := "Class"

/-- The entry of a class, without properties. -/
def ofName (name : String) : SearchEntry :=
  { id := name, name, kind := classKind }

/-- The entry of a declared class, with its properties if they are wanted. -/
def ofClass (includeProperties : Bool) (c : ClassDeclaration) : SearchEntry :=
  { ofName c.name with properties := if includeProperties then some c.properties else none }

end SearchEntry

/-- The search index of the declared classes. -/
def ClassMap.searchIndex (m : ClassMap) (includeProperties : Bool) : List SearchEntry :=
  m.entries.map (SearchEntry.ofClass includeProperties)

end Taxonomy
