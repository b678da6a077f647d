import Taxonomy.Text.Span

/-!
# Class declarations

A class names at most one parent and lists its properties in order, repetitions included.
-/

namespace Taxonomy

/-- A property and the name of what its values are. -/
structure Property where
  name : String
  range : String
  deriving DecidableEq, Repr, Inhabited

/-- A declared class and the bytes of its declaration. -/
structure ClassDeclaration where
  name : String
  parent : Option String := none
  properties : List Property := []
  span : Span := {}
  deriving DecidableEq, Repr, Inhabited

/-- Declared without a parent. -/
def ClassDeclaration.isRoot (c : ClassDeclaration) : Bool :=
  c.parent.isNone

end Taxonomy
