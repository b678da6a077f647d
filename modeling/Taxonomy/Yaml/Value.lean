import Taxonomy.Decimal.Reader
import Taxonomy.Text.Hex
import Taxonomy.Yaml.Node
import Taxonomy.Yaml.Token.Lexer

/-!
# YAML values

A plain scalar is what it looks like, unless a tag says what it is; every other scalar is a text. An
alias stands for the value that its anchor names.
-/

namespace Taxonomy.Yaml

inductive Key
  | text (value : String)
  | integer (value : Int)
  deriving DecidableEq, Repr, Inhabited

inductive Value
  /-- What does not fit its tag, or what an alias refers to before it is complete. -/
  | invalid
  | null
  | bool (value : Bool)
  | integer (value : Int)
  /-- A number that is no integer, as it is written. -/
  | real (lexeme : String)
  | text (value : String)
  | sequence (items : List Value)
  | mapping (members : List (Key × Value))
  deriving Repr, Inhabited

/-! ## Scalars -/

/-- The numbers that are written without digits. -/
def specialNumbers : List String :=
  [".inf", ".Inf", ".INF", "+.inf", "+.Inf", "+.INF", "-.inf", "-.Inf", "-.INF", ".nan",
    ".NaN", ".NAN"]

def isReal (text : String) : Bool :=
  text ∈ specialNumbers ||
    (text.toList.any Char.isDigit && (Decimal.ofChars? text.toList).isSome)

/-- An integer of 64 bits in a base, with a sign or none. -/
def based? (base : Nat) (cs : List Char) : Option Int :=
  let signed := Decimal.splitSign cs
  ((Text.natOfDigits? base signed.2).map (Decimal.applySign signed.1)).filter Decimal.fitsInt64

/-- An integer that starts with the mark of a base or with a plus sign. -/
def marked? : List Char → Option Int
  | '0' :: 'x' :: rest => based? 16 rest
  | '0' :: 'o' :: rest => based? 8 rest
  | '+' :: rest => Decimal.int64OfChars? rest
  | _ => none

namespace Value

/-- What a plain scalar looks like. -/
def ofPlain (text : String) : Value :=
  match marked? text.toList with
  | some i => integer i
  | none =>
    if text = "" || text = "~" || text = "null" then null
    else if text = "true" then bool true
    else if text = "false" then bool false
    else
      match Decimal.int64OfChars? text.toList with
      | some i => integer i
      | none => if isReal text then real text else Value.text text

/-- A plain scalar with a tag of the core schema. -/
def ofTagged (kind : String) (text : String) : Value :=
  if kind = "bool" then
    if text = "true" then bool true else if text = "false" then bool false else invalid
  else if kind = "int" then
    match Decimal.int64OfChars? text.toList with
    | some i => integer i
    | none => invalid
  else if kind = "float" then if isReal text then real text else invalid
  else if kind = "null" then if text = "~" || text = "null" then null else invalid
  else Value.text text

/-! ## Tags -/

/-- What the tags of the core schema start with. -/
def coreStart : String := "tag:yaml.org,2002:"

/-- The start of a tag and its suffix. A handle with a mark at both ends must have been declared. -/
def tag? (handles : List (String × String)) (handle suffix : String) : Option (String × String) :=
  match handles.lookup handle with
  | some start => some (start, suffix)
  | none =>
    if handle = "!!" then some (coreStart, suffix)
    else if isClosedHandle handle.toList then none
    else some (handle, suffix)

/-- The tag of a node, if it has one, is not made with an unknown handle. -/
def isTagKnown (handles : List (String × String)) (properties : Properties) : Bool :=
  properties.tag.all fun tag => (tag? handles tag.1 tag.2).isSome

/-- The value of a scalar. Tags that are not of the core schema say that it is a text. -/
def ofScalar? (handles : List (String × String)) (properties : Properties) (isPlain : Bool)
    (text : String) : Option Value :=
  match properties.tag with
  | none => some (if isPlain then ofPlain text else Value.text text)
  | some (handle, suffix) =>
    (tag? handles handle suffix).map fun tag =>
      if isPlain && tag.1 = coreStart then ofTagged tag.2 text else Value.text text

/-! ## Mappings -/

/-- Adds a member whose key is new. -/
def addMember? (key : Key) (value : Value) (members : List (Key × Value)) :
    Option (List (Key × Value)) :=
  if members.any (·.1 == key) then none else some ((key, value) :: members)

/-- The members that sides make. Keys are texts or integers, each there once. What is invalid is no
key, and what comes after it takes its place. -/
def membersOf? : List Value → Option (List (Key × Value))
  | [] => some []
  | [_] => some []
  | .invalid :: rest => membersOf? rest
  | .text s :: value :: rest => (membersOf? rest).bind (addMember? (.text s) value)
  | .integer i :: value :: rest => (membersOf? rest).bind (addMember? (.integer i) value)
  | _ => none

/-! ## Anchors -/

/-- What anchors name so far: each has a number, and each number a value when it is complete. -/
structure Anchors where
  numbers : List (String × Nat)
  values : List (Nat × Value)
  deriving Repr, Inhabited

namespace Anchors

/-- Gives the anchor of a node its number, which takes the place of an earlier one. -/
def declare (properties : Properties) (a : Anchors) : Anchors :=
  match properties.anchor with
  | some name => { a with numbers := (name, a.numbers.length) :: a.numbers }
  | none => a

/-- Gives the number that was next before some declarations a value. -/
def complete (properties : Properties) (number : Nat) (value : Value) (a : Anchors) : Anchors :=
  match properties.anchor with
  | some _ => { a with values := (number, value) :: a.values }
  | none => a

/-- The value that a name stands for; there must have been such an anchor. -/
def value? (name : String) (a : Anchors) : Option Value :=
  (a.numbers.lookup name).map fun number => (a.values.lookup number).getD .invalid

end Anchors

mutual

/-- The value of a node after what anchors name, and what they name after it. -/
def ofNode? (handles : List (String × String)) (a : Anchors) : Node → Option (Value × Anchors)
  | .reference name => (a.value? name).map fun value => (value, a)
  | .scalar properties isPlain content =>
    (ofScalar? handles properties isPlain content).map fun value =>
      (value, (a.declare properties).complete properties a.numbers.length value)
  | .sequence properties items =>
    match isTagKnown handles properties, ofNodes? handles (a.declare properties) items with
    | true, some (values, b) =>
      some (sequence values, b.complete properties a.numbers.length (sequence values))
    | _, _ => none
  | .mapping properties sides =>
    match isTagKnown handles properties, ofNodes? handles (a.declare properties) sides with
    | true, some (values, b) =>
      (membersOf? values).map fun members =>
        (mapping members, b.complete properties a.numbers.length (mapping members))
    | _, _ => none

def ofNodes? (handles : List (String × String)) (a : Anchors) :
    List Node → Option (List Value × Anchors)
  | [] => some ([], a)
  | node :: rest =>
    match ofNode? handles a node with
    | none => none
    | some (value, b) => (ofNodes? handles b rest).map fun r => (value :: r.1, r.2)

end

/-- The value of a text with one document; without a document it is an empty mapping. -/
def ofText? (text : String) : Option Value := do
  match ← Document.ofTokens? (← Token.ofText? text) with
  | some document => (ofNode? document.handles ⟨[], []⟩ document.content).map Prod.fst
  | none => some (mapping [])

end Value

end Taxonomy.Yaml
