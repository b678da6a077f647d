import Taxonomy.Json.Printer
import Taxonomy.Json.Reader
import Taxonomy.Json.Record
import Taxonomy.Search.Entry

/-!
# Search entries as JSON

An entry is a record of its texts; the properties are written last and only if the entry has some
list of them. When they are read they may be missing or null.
-/

namespace Taxonomy

namespace Property

def toJson (p : Property) : Json :=
  .record [("name", .ofString p.name), ("range", .ofString p.range)]

/-- A property, given the levels of nesting allowed. -/
def ofJson? : Nat → Json → Option Property
  | _ + 1, j =>
    match j.fields? ["name", "range"] with
    | some [some name, some range] =>
      match name.text?, range.text? with
      | some name, some range => some { name, range }
      | _, _ => none
    | _ => none
  | 0, _ => none

/-- The text of a list of properties. -/
def listText (layout : Layout) (ps : List Property) : String :=
  (Json.array (ps.map toJson)).toText layout

/-- The properties that a text holds. -/
def listOfText? (text : String) : Option (List Property) :=
  (Json.ofText? text).bind (Json.list? ofJson? Json.maxDepth)

end Property

namespace SearchEntry

def toJson (e : SearchEntry) : Json :=
  .record <|
    [("id", .ofString e.id), ("name", .ofString e.name), ("description", .ofString e.description),
      ("type", .ofString e.kind)] ++
    e.properties.toList.map fun ps => ("properties", .array (ps.map Property.toJson))

/-- The properties of an entry: a list, or none at all. -/
def propertiesOfJson? (depth : Nat) : Option Json → Option (Option (List Property))
  | none => some none
  | some .null => some none
  | some j => (Json.list? Property.ofJson? depth j).map some

/-- An entry, given the levels of nesting allowed. -/
def ofJson? : Nat → Json → Option SearchEntry
  | depth + 1, j =>
    match j.fields? ["id", "name", "description", "type", "properties"] with
    | some [some id, some name, some description, some kind, properties] =>
      match id.text?, name.text?, description.text?, kind.text?,
          propertiesOfJson? depth properties with
      | some id, some name, some description, some kind, some properties =>
        some { id, name, description, kind, properties }
      | _, _, _, _, _ => none
    | _ => none
  | 0, _ => none

/-- The text of a search index. -/
def indexText (layout : Layout) (entries : List SearchEntry) : String :=
  (Json.array (entries.map toJson)).toText layout

/-- The search index that a text holds. -/
def indexOfText? (text : String) : Option (List SearchEntry) :=
  (Json.ofText? text).bind (Json.list? ofJson? Json.maxDepth)

end SearchEntry

end Taxonomy
