import Taxonomy.Schema.ClassMap

/-!
# Writing schemas

A class map as a schema: one declaration on each line, with its parent and its properties if it has
any. Properties are written in their order, repetitions included. The parts of a declaration are
lists of characters, as the lexer takes them.
-/

namespace Taxonomy

/-- Written as in ` *name Range;`, with the blank in front. -/
def Property.chars (p : Property) : List Char :=
  " *".toList ++ p.name.toList ++ ' ' :: p.range.toList ++ [';']

namespace ClassDeclaration

/-- The part of a declaration that names the parent, with a blank in front. -/
def parentChars (c : ClassDeclaration) : List Char :=
  match c.parent with
  | none => []
  | some parent => " extends ".toList ++ parent.toList

/-- The block of the properties, with a blank in front; there is none if there are no properties. -/
def blockChars (c : ClassDeclaration) : List Char :=
  if c.properties.isEmpty then []
  else [' ', '{'] ++ c.properties.flatMap Property.chars ++ [' ', '}']

/-- A whole declaration. -/
def chars (c : ClassDeclaration) : List Char :=
  "class ".toList ++ c.name.toList ++ c.parentChars ++ c.blockChars ++ [' ', '.']

end ClassDeclaration

/-- The schema that declares the classes in their order. -/
def ClassMap.render (m : ClassMap) : String :=
  String.ofList (m.entries.flatMap fun c => c.chars ++ ['\n'])

end Taxonomy
