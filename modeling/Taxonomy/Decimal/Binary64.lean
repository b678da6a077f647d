/-!
# Double-precision numbers

A number is a mantissa times a power of two, kept exactly. `ofRatio` rounds a quotient to the
nearest number with 53 significant bits, ties to the even mantissa, and what is too large becomes
infinite.
-/

namespace Taxonomy

inductive Binary64
  | finite (negative : Bool) (mantissa : Nat) (exponent : Int)
  | infinite (negative : Bool)
  | nan
  deriving DecidableEq, Repr, Inhabited

namespace Binary64

/-- Significant bits of a mantissa. -/
def precision : Nat := 53

/-- The exponent of the smallest numbers. -/
def minExponent : Int := -1074

/-- The exponent of the largest numbers. -/
def maxExponent : Int := 971

/-- Equal to zero, of either sign. -/
def isZero : Binary64 → Bool
  | finite _ 0 _ => true
  | _ => false

/-- The quotient rounded to the nearest integer, a half to the even one. -/
def divNearest (num den : Nat) : Nat :=
  let quotient := num / den
  let twice := 2 * (num % den)
  if den < twice || (den == twice && quotient % 2 == 1) then quotient + 1 else quotient

/-- The number nearest to `num / den`. -/
def ofRatio (negative : Bool) (num den : Nat) : Binary64 :=
  if num = 0 then .finite negative 0 minExponent
  else
    let estimate : Int := (num.log2 : Int) - den.log2 - precision
    -- The quotient by 2 ^ estimate has 53 or 54 bits before the point.
    let tooLong := decide (den <<< (estimate + precision).toNat ≤
      num <<< (-(estimate + precision)).toNat)
    let exponent := max minExponent (if tooLong then estimate + 1 else estimate)
    let mantissa := divNearest (num <<< (-exponent).toNat) (den <<< exponent.toNat)
    let carried := mantissa == 1 <<< precision
    let mantissa := if carried then 1 <<< (precision - 1) else mantissa
    let exponent := if carried then exponent + 1 else exponent
    if maxExponent < exponent then .infinite negative else .finite negative mantissa exponent

end Binary64

end Taxonomy
