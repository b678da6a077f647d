import Taxonomy.Toml.Number

/-!
# Dates and times that a string holds

A date, a time or both may also be given as a string. The rules are a little wider than in a
document: the hour may be 24, and a distance from universal time is added up and may be a day at
most.
-/

namespace Taxonomy.Toml

/-- A fraction of a second, which has at least one digit if there is a point. -/
def readClockFraction : List Char → Option (List Char × List Char)
  | '.' :: rest =>
    if (rest.head?.map Char.isDigit).getD false then readSecondFraction ('.' :: rest) else none
  | cs => some ([], cs)

/-- A time of day, the end of the day among them. -/
def readClock (cs : List Char) : Option (List Char × List Char) :=
  readAll
    [readFixed 2 0 24, readMark ':', readFixed 2 0 59, readMark ':', readFixed 2 0 60,
      readClockFraction] cs

/-- A number with two digits. -/
def twoDigits (n : Nat) : List Char :=
  [Nat.digitChar (n / 10 % 10), Nat.digitChar (n % 10)]

/-- The minutes of a day. -/
def minutesOfDay : Nat := 1440

/-- A whole string that tells the distance from universal time, if any. -/
def clockOffset? : List Char → Option (List Char)
  | [] => some []
  | [c] => if c = 'Z' || c = 'z' then some ['Z'] else none
  | sign :: rest =>
    if sign = '+' || sign = '-' then
      match readAll [readFixed 2 0 99, readMark ':', readFixed 2 0 99] rest with
      | some (digits, []) =>
        let minutes :=
          60 * Decimal.natOfDigits (digits.take 2) + Decimal.natOfDigits (digits.drop 3)
        if minutes ≤ minutesOfDay then
          let sign := if minutes = 0 then '+' else sign
          some (sign :: twoDigits (minutes / 60) ++ ':' :: twoDigits (minutes % 60))
        else none
      | _ => none
    else none

/-- The date, time or both that a whole string gives. -/
def instant? (cs : List Char) : Option (List Char) :=
  if cs[2]? = some ':' then
    match readClock cs with
    | some (time, []) => some time
    | _ => none
  else
    match readDate cs with
    | some (date, []) => some date
    | some (date, mark :: rest) =>
      if mark = 'T' || mark = 't' || mark = ' ' then
        match readClock rest with
        | some (time, rest) =>
          (clockOffset? rest).map fun offset => date ++ 'T' :: time ++ offset
        | none => none
      else none
    | none => none

end Taxonomy.Toml
