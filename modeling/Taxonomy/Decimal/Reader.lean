import Taxonomy.Decimal.Binary64

/-!
# Reading decimal numbers

A decimal is an optional sign, digits with at most one point among them or at their ends, and an
optional exponent. `inf`, `infinity` and `nan` are numbers too, in any case.
-/

namespace Taxonomy.Decimal

/-- The number that a run of decimal digits writes. -/
def natOfDigits (digits : List Char) : Nat :=
  digits.foldl (fun n c => 10 * n + (c.toNat - 48)) 0

/-- Whether an integer is negative, from its optional sign, and the characters after that. -/
def splitSign : List Char → Bool × List Char
  | '-' :: rest => (true, rest)
  | '+' :: rest => (false, rest)
  | rest => (false, rest)

def applySign (negative : Bool) (n : Nat) : Int :=
  if negative then -(n : Int) else n

/-- An integer: an optional sign and digits alone. -/
def intOfChars? (cs : List Char) : Option Int :=
  let signed := splitSign cs
  if signed.2.isEmpty || !signed.2.all Char.isDigit then none
  else some (applySign signed.1 (natOfDigits signed.2))

/-- How many numbers 64 bits can tell apart. -/
def wordCount : Nat := 0x10000000000000000

/-- The integers of 64 bits. -/
def fitsInt64 (i : Int) : Bool :=
  -wordCount ≤ 2 * i && 2 * i < wordCount

/-- An integer of 64 bits. -/
def int64OfChars? (cs : List Char) : Option Int :=
  (intOfChars? cs).filter fitsInt64

/-- The number nearest to `digits * 10 ^ exponent`. An exponent that the digits cannot make up for
is settled without computing the power. -/
def nearest (negative : Bool) (digits : List Char) (exponent : Int) : Binary64 :=
  let n := natOfDigits digits
  let size : Int := (Nat.toDigits 10 n).length + exponent
  if n = 0 then .ofRatio negative 0 1
  else if 400 < size then .infinite negative
  else if size < -400 then .ofRatio negative 0 1
  else .ofRatio negative (n * Nat.pow 10 exponent.toNat) (Nat.pow 10 (-exponent).toNat)

/-- An exponent: the letter `e` and an integer, or nothing at all. -/
def exponent? : List Char → Option Int
  | [] => some 0
  | e :: rest => if e = 'e' || e = 'E' then intOfChars? rest else none

/-- Digits, a point or none, digits, and an exponent; there must be one digit before the
exponent. -/
def unsigned? (negative : Bool) (cs : List Char) : Option Binary64 :=
  let whole := cs.takeWhile Char.isDigit
  let afterWhole := cs.dropWhile Char.isDigit
  let hasPoint := afterWhole.head? == some '.'
  let afterPoint := if hasPoint then afterWhole.drop 1 else []
  let fraction := afterPoint.takeWhile Char.isDigit
  let rest := if hasPoint then afterPoint.dropWhile Char.isDigit else afterWhole
  if whole.isEmpty && fraction.isEmpty then none
  else
    (exponent? rest).map fun exponent =>
      nearest negative (whole ++ fraction) (exponent - fraction.length)

/-- The number that a text writes. -/
def ofChars? (cs : List Char) : Option Binary64 :=
  let signed := splitSign cs
  let lower := String.ofList (signed.2.map Char.toLower)
  if lower = "inf" || lower = "infinity" then some (.infinite signed.1)
  else if lower = "nan" then some .nan
  else unsigned? signed.1 signed.2

end Taxonomy.Decimal
