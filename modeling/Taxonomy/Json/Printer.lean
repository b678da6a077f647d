import Taxonomy.Json.Basic
import Taxonomy.Json.Escape

/-!
# Writing JSON

Pretty layout puts every item on a line of its own, two blanks deeper than the brackets around it,
and a blank after each colon. Empty arrays and objects have nothing between their brackets.
-/

namespace Taxonomy

/-- Goes on to the next line at a depth, in a layout that has lines. -/
def Layout.newline : Layout → Nat → List Char
  | compact, _ => []
  | pretty, depth => '\n' :: List.replicate (2 * depth) ' '

/-- Between a key and its value. -/
def Layout.colon : Layout → List Char
  | compact => [':']
  | pretty => [':', ' ']

namespace Json

/-- The value of a text. -/
def ofString (s : String) : Json :=
  .string (escape s.toList)

/-- An object with the given members, in order. -/
def record (members : List (String × Json)) : Json :=
  .object (members.map fun m => (escape m.1.toList, m.2))

def quote (lexeme : List Char) : List Char :=
  '"' :: lexeme ++ ['"']

mutual

/-- A value at a depth. -/
def render (layout : Layout) (depth : Nat) : Json → List Char
  | null => "null".toList
  | bool b => if b then "true".toList else "false".toList
  | number lexeme => lexeme
  | string lexeme => quote lexeme
  | array [] => ['[', ']']
  | array (item :: items) =>
    '[' :: layout.newline (depth + 1) ++ render layout (depth + 1) item ++
      renderItems layout (depth + 1) items ++ layout.newline depth ++ [']']
  | object [] => ['{', '}']
  | object (member :: members) =>
    '{' :: layout.newline (depth + 1) ++ renderMember layout (depth + 1) member ++
      renderMembers layout (depth + 1) members ++ layout.newline depth ++ ['}']

/-- The items after the first. -/
def renderItems (layout : Layout) (depth : Nat) : List Json → List Char
  | [] => []
  | item :: items =>
    ',' :: layout.newline depth ++ render layout depth item ++ renderItems layout depth items

def renderMember (layout : Layout) (depth : Nat) : List Char × Json → List Char
  | (key, value) => quote key ++ layout.colon ++ render layout depth value

/-- The members after the first. -/
def renderMembers (layout : Layout) (depth : Nat) : List (List Char × Json) → List Char
  | [] => []
  | member :: members =>
    ',' :: layout.newline depth ++ renderMember layout depth member ++
      renderMembers layout depth members

end

/-- The text of a value, without a line break at the end. -/
def toText (layout : Layout) (j : Json) : String :=
  String.ofList (j.render layout 0)

end Json

end Taxonomy
