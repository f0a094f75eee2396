/-! Finite binary64 numbers and their correctly rounded arithmetic, in exact natural numbers. -/
namespace ShellTree

/-- Rounds a quotient to the nearest natural number, a half to the even neighbour. -/
def divHalfEven (num den : Nat) : Nat :=
  let q := num / den
  let r := num % den
  if 2*r < den then q else if den < 2*r then q+1 else q + q % 2

/-- The bit of a significand that is not stored: `2^52`. -/
def Double.hiddenBit : Nat := 0x10000000000000

/-- A finite binary64 number. The magnitude is coded as the exponent field followed by the
52 bits of the fraction, so codes are ordered as the numbers they stand for. -/
structure Double where
  negative : Bool
  code : Nat
  finite : code < 2047 * Double.hiddenBit
  deriving DecidableEq, Repr

namespace Double

def zero (negative : Bool) : Double := ⟨negative, 0, by decide⟩

/-- The magnitude is `significand * 2^scale` in units of the least positive number, `2^-1074`. -/
def significand (x : Double) : Nat :=
  if x.code < hiddenBit then x.code else hiddenBit + x.code % hiddenBit

def scale (x : Double) : Nat := x.code / hiddenBit - 1

def units (x : Double) : Nat := x.significand * Nat.pow 2 x.scale

def isZero (x : Double) : Bool := x.code == 0

/-- One is `2^1074` times the unit. -/
def unitsPerOne : Nat := Nat.pow 2 1074

/-- Equality of the numbers: the two zeros are one number. -/
def sameValue (x y : Double) : Bool := x == y || (x.isZero && y.isZero)

/-- The code of the number nearest to `num / den`, a half going to the even significand.
A significand that rounds up to `2^53` carries into the exponent field. -/
def nearestCode (num den : Nat) : Nat :=
  let scaled := num * unitsPerOne
  let scale := (scaled / den).log2 - 52
  scale * hiddenBit + divHalfEven scaled (den * Nat.pow 2 scale)

/-- The number nearest to `num / den`, or nothing where that is infinite. -/
def ofRatio? (negative : Bool) (num den : Nat) : Option Double :=
  let code := nearestCode num den
  if h : code < 2047 * hiddenBit then some ⟨negative, code, h⟩ else none

def pow10? (n : Nat) : Option Double := ofRatio? false (Nat.pow 10 n) 1

def mul? (x y : Double) : Option Double :=
  ofRatio? (x.negative != y.negative) (x.units * y.units) (unitsPerOne * unitsPerOne)

def div? (x y : Double) : Option Double :=
  ofRatio? (x.negative != y.negative) x.units y.units

/-- Divides by `10^n` with the powers up to `10^308`, each quotient rounded. -/
def divPow10? (x : Double) (n : Nat) : Option Double :=
  if n ≤ 308 then
    pow10? n >>= x.div?
  else if x.isZero then some x
  else do (← pow10? 308 >>= x.div?).divPow10? (n - 308)
termination_by n

/-- Multiplies by `10^e`: one rounded product or quotient while `|e| ≤ 308`, nothing where the
result is infinite. -/
def scalePow10? (x : Double) : Int → Option Double
  | .ofNat n =>
    if n ≤ 308 then pow10? n >>= x.mul? else if x.isZero then some x else none
  | .negSucc n => x.divPow10? (n+1)

end Double
end ShellTree
