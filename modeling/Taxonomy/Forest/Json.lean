import Taxonomy.Forest.Tree
import Taxonomy.Json.Printer
import Taxonomy.Json.Reader
import Taxonomy.Json.Record

/-!
# Trees as JSON

A node is a record of its identifier, its label and its children. A node takes two levels of
nesting, its own and that of its children, so what is read back is limited in depth and what is
written is not.
-/

namespace Taxonomy.Tree

mutual

def toJson : Tree → Json
  | node id label children =>
    .record
      [("id", .ofString id), ("label", .ofString label), ("children", .array (listToJson children))]

def listToJson : List Tree → List Json
  | [] => []
  | t :: ts => t.toJson :: listToJson ts

end

def fieldNames : List String := ["id", "label", "children"]

/-- A node, given the levels of nesting allowed. -/
def ofJson? : Nat → Json → Option Tree
  | depth + 2, j =>
    match j.fields? fieldNames with
    | some [some id, some label, some children] =>
      match id.text?, label.text?, children.items?.bind (·.mapM (ofJson? depth)) with
      | some id, some label, some children => some (.node id label children)
      | _, _, _ => none
    | _ => none
  | _, _ => none

/-- The text of a forest. -/
def forestText (layout : Layout) (forest : List Tree) : String :=
  (Json.array (listToJson forest)).toText layout

/-- The forest that a text holds. -/
def forestOfText? (text : String) : Option (List Tree) :=
  (Json.ofText? text).bind (Json.list? ofJson? Json.maxDepth)

end Taxonomy.Tree
