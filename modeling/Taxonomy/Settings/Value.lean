import Taxonomy.Decimal.Reader
import Taxonomy.Decimal.Shortest
import Taxonomy.Files.Path

/-!
# Values that sources give

A source does not know what its values are for. They are made into texts, switches and choices when
all sources have been put together, so a value that another one takes the place of may be anything.
-/

namespace Taxonomy

/-- What a source gives for a key. -/
inductive SettingValue
  | nothing
  | bool (value : Bool)
  | integer (value : Int)
  | real (value : Binary64)
  | text (value : String)
  | array (items : List SettingValue)
  | table (members : List (String × SettingValue))
  deriving Repr, Inhabited

/-- What a source gives, in order. -/
abbrev Layer := List (String × SettingValue)

namespace SettingValue

/-! ## What a value can be used as -/

/-- Anything but arrays and tables has a text. -/
def asText? : SettingValue → Option String
  | bool b => some (if b then "true" else "false")
  | integer i => some (toString i)
  | real x => some x.render
  | text s => some s
  | nothing | array _ | table _ => none

def asPath? (v : SettingValue) : Option Path :=
  v.asText?.map Path.mk

/-- The words for on and off. -/
def onWords : List String := ["1", "true", "on", "yes"]
def offWords : List String := ["0", "false", "off", "no"]

/-- A number is on unless it is zero, a text if it is one of the words. -/
def asBool? : SettingValue → Option Bool
  | bool b => some b
  | integer i => some (i != 0)
  | real x => some !x.isZero
  | text s =>
    if s.toLower ∈ onWords then some true
    else if s.toLower ∈ offWords then some false
    else none
  | nothing | array _ | table _ => none

/-- One of several names, in any case: as a text, or as the only key of a table. -/
def asChoice? {α : Type} (ofName? : String → Option α) : SettingValue → Option α
  | text s => ofName? s.toLower
  | table [member] => ofName? member.1.toLower
  | _ => none

def asTable? : SettingValue → Option Layer
  | table members => some members
  | _ => none

/-! ## What a text may be -/

/-- The value of a text that nothing is known about: a switch, an integer of 64 bits, a number, or
the text itself. -/
def ofText (s : String) : SettingValue :=
  if s.toLower = "true" then bool true
  else if s.toLower = "false" then bool false
  else
    match Decimal.int64OfChars? s.toList, Decimal.ofChars? s.toList with
    | some i, _ => integer i
    | none, some x => real x
    | none, none => text s

end SettingValue

end Taxonomy
