import Taxonomy.Decimal.Binary64

/-!
# The shortest decimal of a number

Among the decimals that read back as a number, the ones on the coarsest grid of powers of ten have
the fewest digits. On that grid one of the number's two neighbours reads back if any point does; the
nearer one is taken, and of two equally near the larger. Numbers are written positionally.
-/

namespace Taxonomy

namespace Decimal

/-- The decimals that read back as `mantissa * 2 ^ exponent` lie between two bounds, in units of
`2 ^ (exponent - 2)`; an even mantissa takes the bounds themselves in. -/
structure Interval where
  low : Nat
  value : Nat
  high : Nat
  closed : Bool
  exponent : Int

/-- The gap below the smallest mantissa of an exponent is half of the gap above it. -/
def Interval.of (mantissa : Nat) (exponent : Int) : Interval where
  low :=
    if mantissa = 1 <<< (Binary64.precision - 1) && Binary64.minExponent < exponent then
      4 * mantissa - 1
    else 4 * mantissa - 2
  value := 4 * mantissa
  high := 4 * mantissa + 2
  closed := mantissa % 2 == 0
  exponent := exponent - 2

namespace Interval

/-- Multiplies a bound, and `unit` a grid point, to the common denominator. -/
def scale (i : Interval) (grid : Int) (x : Nat) : Nat :=
  (x <<< i.exponent.toNat) * Nat.pow 10 (-grid).toNat

def unit (i : Interval) (grid : Int) : Nat :=
  Nat.pow 10 grid.toNat <<< (-i.exponent).toNat

/-- Whether `point * 10 ^ grid` reads back. -/
def holds (i : Interval) (grid : Int) (point : Nat) : Bool :=
  let x := point * i.unit grid
  if i.closed then i.scale grid i.low ≤ x && x ≤ i.scale grid i.high
  else i.scale grid i.low < x && x < i.scale grid i.high

/-- The point of a grid that reads back and is nearest to the value. -/
def nearestOn (i : Interval) (grid : Int) : Option Nat :=
  let v := i.scale grid i.value
  let u := i.unit grid
  let below := v / u
  match i.holds grid below, i.holds grid (below + 1) with
  | true, true => some (if 2 * (v % u) < u then below else below + 1)
  | true, false => some below
  | false, true => some (below + 1)
  | false, false => none

/-- The first grid from `grid` downwards that has a point, and the point. -/
def coarsest (i : Interval) : Nat → Int → Nat × Int
  | 0, grid => (0, grid)
  | steps + 1, grid =>
    match i.nearestOn grid with
    | some point => (point, grid)
    | none => i.coarsest steps (grid - 1)

end Interval

/-- The grids from the largest numbers down to the smallest. -/
def coarsestGrid : Int := 309
def gridCount : Nat := 640

/-- Digits times a power of ten, written out without an exponent. -/
def positional (digits : List Char) (grid : Int) : List Char :=
  if 0 ≤ grid then digits ++ List.replicate grid.toNat '0'
  else
    let places := (-grid).toNat
    let padded := List.replicate (places + 1 - digits.length) '0' ++ digits
    padded.take (padded.length - places) ++ '.' :: padded.drop (padded.length - places)

end Decimal

namespace Binary64

open Decimal in
/-- The shortest text that reads back as the number, without an exponent, and without a point if the
number is whole. -/
def render : Binary64 → String
  | nan => "NaN"
  | infinite negative => if negative then "-inf" else "inf"
  | finite negative mantissa exponent =>
    let sign := if negative then ['-'] else []
    let body :=
      if mantissa = 0 then ['0']
      else
        let shortest := (Interval.of mantissa exponent).coarsest gridCount coarsestGrid
        positional (Nat.toDigits 10 shortest.1) shortest.2
    String.ofList (sign ++ body)

end Binary64

end Taxonomy
