import Taxonomy.Decimal.Binary64
import Taxonomy.Decimal.Reader

/-!
# Numbers in JSON

An integer that fits into 64 bits is kept as it is. Every other number is scaled: the digits that
fit into 64 bits make an integer, which is multiplied or divided by the powers of ten that are left,
with a rounding at each step. A number too large for that is refused.
-/

namespace Taxonomy

namespace Binary64

/-- The power of ten nearest to `10 ^ k`. -/
def powerOfTen (k : Nat) : Binary64 :=
  ofRatio false (Nat.pow 10 k) 1

/-- The product, rounded. -/
def mul : Binary64 → Binary64 → Binary64
  | finite s m e, finite t n f =>
    let k := e + f
    ofRatio (s != t) ((m * n) <<< k.toNat) (1 <<< (-k).toNat)
  | _, _ => nan

/-- The quotient by a number that is not zero, rounded. -/
def div : Binary64 → Binary64 → Binary64
  | finite s m e, finite t n f =>
    let k := e - f
    ofRatio (s != t) (m <<< k.toNat) (n <<< (-k).toNat)
  | _, _ => nan

def isFinite : Binary64 → Bool
  | finite .. => true
  | _ => false

def withSign (negative : Bool) : Binary64 → Binary64
  | finite _ m e => finite negative m e
  | infinite _ => infinite negative
  | nan => nan

end Binary64

namespace Json

/-- A number as it is kept. -/
inductive Number
  | integer (value : Int)
  | real (value : Binary64)
  deriving Repr

/-- The exponents that one step of scaling can take. -/
def scaleStep : Nat := 308

/-- A number times a power of ten; none if it grows too large. The first argument bounds the steps:
after three of them nothing is left of a number below `2 ^ 64`. -/
def scale : Nat → Binary64 → Int → Option Binary64
  | 0, _, _ => none
  | steps + 1, x, exponent =>
    if 0 ≤ exponent then
      if exponent ≤ scaleStep then
        let product := x.mul (.powerOfTen exponent.toNat)
        if product.isFinite then some product else none
      else if x.isZero then some x
      else none
    else if -scaleStep ≤ exponent then some (x.div (.powerOfTen (-exponent).toNat))
    else if x.isZero then some x
    else scale steps (x.div (.powerOfTen scaleStep)) (exponent + scaleStep)

/-- Takes digits as long as the number that they make fits into 64 bits; also tells how many have
been taken. -/
def takeDigits (n : Nat) : List Char → Nat × Nat
  | [] => (n, 0)
  | c :: rest =>
    let next := 10 * n + (c.toNat - 48)
    if next < Decimal.wordCount then
      let taken := takeDigits next rest
      (taken.1, taken.2 + 1)
    else (n, 0)

/-- The number that a lexeme writes. -/
def number? (lexeme : List Char) : Option Number :=
  let signed := Decimal.splitSign lexeme
  let whole := signed.2.takeWhile Char.isDigit
  let rest := signed.2.dropWhile Char.isDigit
  let exact := Decimal.applySign signed.1 (Decimal.natOfDigits whole)
  if rest.isEmpty && Decimal.fitsInt64 exact && !(signed.1 && exact == 0) then some (.integer exact)
  else
    let fraction := if rest.head? = some '.' then (rest.drop 1).takeWhile Char.isDigit else []
    let power := rest.dropWhile fun c => c != 'e' && c != 'E'
    let left := takeDigits 0 whole
    let right := takeDigits left.1 fraction
    (Decimal.exponent? power).bind fun exponent =>
      let exponent := exponent + (whole.length - left.2 : Nat) - right.2
      (scale 4 (.ofRatio false right.1 1) exponent).map fun x => .real (x.withSign signed.1)

end Json

end Taxonomy
