import Taxonomy.Json.Basic
import Taxonomy.Json.Escape

/-!
# Decoding records

A record is an object with fields of known names, in any order, or an array of the fields' values in
order. Other members are passed over, whatever they hold. Decoding takes the number of nested arrays
and objects that are still allowed.
-/

namespace Taxonomy.Json

/-- How deep arrays and objects may nest in what is decoded. -/
def maxDepth : Nat := 127

/-- The text of a string. -/
def text? : Json → Option String
  | string lexeme => (unescape? lexeme).map String.ofList
  | _ => none

def items? : Json → Option (List Json)
  | array items => some items
  | _ => none

/-- A name that is given alone, or as the only key of an object, with nothing for a value. -/
def choice? : Json → Option String
  | string lexeme => text? (string lexeme)
  | object [(key, null)] => text? (string key)
  | _ => none

/-- The values of the members with a key, in order. -/
def valuesOf (key : String) (members : List (List Char × Json)) : List Json :=
  (members.filter fun m => unescape? m.1 == some key.toList).map (·.2)

/-- The value of each field, `none` where it is missing. A field that is given twice is an error, as
is a key that stands for no text, and an array with more values than there are fields. -/
def fields? (names : List String) : Json → Option (List (Option Json))
  | object members =>
    if members.all fun m => (unescape? m.1).isSome then
      names.mapM fun name =>
        match valuesOf name members with
        | [] => some none
        | [value] => some (some value)
        | _ => none
    else none
  | array items =>
    if items.length ≤ names.length then
      some (names.zipIdx.map fun n => items[n.2]?)
    else none
  | _ => none

/-- An array decoded item by item, its own bracket counted. -/
def list? {α : Type} (decode : Nat → Json → Option α) : Nat → Json → Option (List α)
  | depth + 1, array items => items.mapM (decode depth)
  | _, _ => none

end Taxonomy.Json
