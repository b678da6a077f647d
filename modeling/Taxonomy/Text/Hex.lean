/-!
# Digits in other bases than ten

Digits are `0` to `9` and then letters, in either case.
-/

namespace Taxonomy.Text

/-- The value of a digit in base 16. -/
def hexValue? (c : Char) : Option Nat :=
  let n := c.toNat
  if 48 ≤ n && n ≤ 57 then some (n - 48)
  else if 97 ≤ n && n ≤ 102 then some (n - 87)
  else if 65 ≤ n && n ≤ 70 then some (n - 55)
  else none

/-- A digit of a base up to 16. -/
def isDigitOf (base : Nat) (c : Char) : Bool :=
  match hexValue? c with
  | some v => v < base
  | none => false

/-- The number that digits of a base write. -/
def natOfDigits (base : Nat) (digits : List Char) : Nat :=
  digits.foldl (fun n c => base * n + (hexValue? c).getD 0) 0

/-- The number that one digit of a base or more write. -/
def natOfDigits? (base : Nat) (cs : List Char) : Option Nat :=
  if !cs.isEmpty && cs.all (isDigitOf base) then some (natOfDigits base cs) else none

/-- The character with a code point. -/
def scalar? (n : Nat) : Option Char :=
  if n.isValidChar then some (Char.ofNat n) else none

/-- The character with the code point that digits in base 16 write. -/
def scalarOfHex? (digits : List Char) : Option Char :=
  (natOfDigits? 16 digits).bind scalar?

end Taxonomy.Text
