import Taxonomy.Decimal.Reader
import Taxonomy.Json.Reader
import Taxonomy.Json5.Basic
import Taxonomy.Json5.Text

/-!
# Reading JSON5

A document is a value with blanks and comments around it. Keys may be names, commas may follow the
last item or member, and numbers may have a sign, a point at either end, or base 16.
-/

namespace Taxonomy.Json5

/-! ## Numbers -/

/-- A number without point and exponent must fit into 64 bits, any other must be finite. -/
def number? (isWhole : Bool) (lexeme : List Char) : Option Json5 :=
  if isWhole then (Decimal.int64OfChars? lexeme).map .integer
  else
    match Decimal.ofChars? lexeme with
    | some (.finite negative mantissa exponent) => some (.real (.finite negative mantissa exponent))
    | _ => none

/-- A number in base 16 after its mark, of 32 bits. -/
def readBased (cs : List Char) : Option (Json5 × List Char) :=
  match Text.natOfDigits? 16 (cs.takeWhile (Text.isDigitOf 16)) with
  | some n =>
    if n < 0x100000000 then some (.integer n, cs.dropWhile (Text.isDigitOf 16)) else none
  | none => none

/-- A number in base 10 after its sign: digits may miss on one side of a point. -/
def readDecimal (sign : List Char) (cs : List Char) : Option (Json5 × List Char) := do
  let (whole, rest) ← if cs.head? = some '.' then some ([], cs) else Json.readWhole cs
  let (fraction, rest) ←
    match rest with
    | '.' :: rest =>
      if whole.isEmpty then (Json.readDigits rest).map fun r => ('.' :: r.1, r.2)
      else some ('.' :: rest.takeWhile Char.isDigit, rest.dropWhile Char.isDigit)
    | _ => some ([], rest)
  let (exponent, rest) ← Json.readExponent rest
  let value ← number? (fraction.isEmpty && exponent.isEmpty)
    (sign ++ whole ++ fraction ++ exponent)
  return (value, rest)

/-- A number after its sign. There is no plus sign before infinity or what is no number, and no sign
at all before a number in base 16. -/
def readUnsigned (sign : List Char) : List Char → Option (Json5 × List Char)
  | 'I' :: 'n' :: 'f' :: 'i' :: 'n' :: 'i' :: 't' :: 'y' :: rest =>
    if sign = ['+'] then none else some (.real (.infinite (sign == ['-'])), rest)
  | 'N' :: 'a' :: 'N' :: rest => if sign = ['+'] then none else some (.real .nan, rest)
  | '0' :: 'x' :: rest | '0' :: 'X' :: rest => if sign.isEmpty then readBased rest else none
  | cs => readDecimal sign cs

def readNumber : List Char → Option (Json5 × List Char)
  | '+' :: rest => readUnsigned ['+'] rest
  | '-' :: rest => readUnsigned ['-'] rest
  | cs => readUnsigned [] cs

/-! ## Values -/

/-- The key of a member: a string or a name. -/
def readKey : List Char → Option (String × List Char)
  | '"' :: rest => (readString '"' rest).map fun r => (String.ofList r.1, r.2)
  | '\'' :: rest => (readString '\'' rest).map fun r => (String.ofList r.1, r.2)
  | cs => (readName cs).map fun r => (String.ofList r.1, r.2)

mutual

/-- A value that starts right here. The first argument bounds the steps. -/
def readValue : Nat → List Char → Option (Json5 × List Char)
  | 0, _ => none
  | steps + 1, cs =>
    match cs with
    | '"' :: rest => (readString '"' rest).map fun r => (.string (String.ofList r.1), r.2)
    | '\'' :: rest => (readString '\'' rest).map fun r => (.string (String.ofList r.1), r.2)
    | '[' :: rest =>
      ((skipSpace rest).bind (readItems steps)).map fun r => (.array r.1, r.2)
    | '{' :: rest =>
      ((skipSpace rest).bind (readMembers steps)).map fun r => (.object r.1, r.2)
    | 'n' :: 'u' :: 'l' :: 'l' :: rest => some (.null, rest)
    | 't' :: 'r' :: 'u' :: 'e' :: rest => some (.bool true, rest)
    | 'f' :: 'a' :: 'l' :: 's' :: 'e' :: rest => some (.bool false, rest)
    | cs => readNumber cs

/-- Items up to the bracket that closes the array. -/
def readItems : Nat → List Char → Option (List Json5 × List Char)
  | 0, _ => none
  | steps + 1, cs =>
    if cs.head? = some ']' then some ([], cs.drop 1)
    else do
      let (item, rest) ← readValue steps cs
      match ← skipSpace rest with
      | ',' :: rest =>
        let (items, rest) ← readItems steps (← skipSpace rest)
        return (item :: items, rest)
      | ']' :: rest => return ([item], rest)
      | _ => none

/-- Members up to the brace that closes the object. -/
def readMembers : Nat → List Char → Option (List (String × Json5) × List Char)
  | 0, _ => none
  | steps + 1, cs =>
    if cs.head? = some '\x7d' then some ([], cs.drop 1)
    else do
      let (key, rest) ← readKey cs
      match ← skipSpace rest with
      | ':' :: rest =>
        let (value, rest) ← readValue steps (← skipSpace rest)
        match ← skipSpace rest with
        | ',' :: rest =>
          let (members, rest) ← readMembers steps (← skipSpace rest)
          return ((key, value) :: members, rest)
        | '}' :: rest => return ([(key, value)], rest)
        | _ => none
      | _ => none

end

/-- The value of a document. Each character is the reason for two steps at most. -/
def ofText? (text : String) : Option Json5 := do
  let (value, rest) ← readValue (2 * text.length + 2) (← skipSpace text.toList)
  let rest ← skipSpace rest
  if rest.isEmpty then some value else none

end Taxonomy.Json5
