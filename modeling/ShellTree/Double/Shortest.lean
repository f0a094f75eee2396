import ShellTree.Double.Basic

/-! The shortest decimal digits that read back as a given binary64 number. -/
namespace ShellTree

/-- The decimal number `digits * 10^exponent`. -/
structure Decimal where
  digits : Nat
  exponent : Int
  deriving DecidableEq, Repr

namespace Double

/-- The numbers that round to `x`, in quarters of the unit `2^-1074`. -/
structure Interval where
  low : Nat
  value : Nat
  high : Nat
  closed : Bool

/-- Below a power of two the neighbours lie twice as close. The ends round to the even
significand. -/
def interval (x : Double) : Interval :=
  let gap := Nat.pow 2 x.scale
  let value := 4 * x.units
  let below := if x.significand = hiddenBit ∧ 0 < x.scale then gap else 2*gap
  ⟨value - below, value, value + 2*gap, x.significand % 2 == 0⟩

/-- Whether `num / den`, in the same quarters, rounds to the number of the interval. -/
def Interval.holds (i : Interval) (num den : Nat) : Bool :=
  if i.closed then i.low * den ≤ num && num ≤ i.high * den
  else i.low * den < num && num < i.high * den

/-- The number of quarters of the unit in one. -/
def quarters : Nat := Nat.pow 2 1076

/-- The grid of multiples of `10^exponent`: the numerator and denominator, in quarters, of its
step. -/
def gridStep (exponent : Int) : Nat × Nat :=
  match exponent with
  | .ofNat n => (quarters * Nat.pow 10 n, 1)
  | .negSucc n => (quarters, Nat.pow 10 (n+1))

/-- The grid point nearest to `x` if one rounds to it; a tie goes to the even multiple. -/
def gridPoint? (i : Interval) (exponent : Int) : Option Decimal :=
  let (num, den) := gridStep exponent
  let below := i.value * den / num
  let hit (k : Nat) := k != 0 && i.holds (k * num) den
  let nearest := divHalfEven (i.value * den) num
  let other := if nearest = below then below+1 else below
  if hit nearest then some ⟨nearest, exponent⟩
  else if hit other then some ⟨other, exponent⟩
  else none

/-- The decimal exponent of the leading digit of a positive number given in quarters. -/
def leadingExponent (value : Nat) : Int :=
  let tens := (Nat.toDigits 10 (value * Nat.pow 10 400 / quarters)).length
  (tens : Int) - 401

/-- The coarsest grid with a point that reads back: the fewest digits, then the nearest point. -/
def shortest (x : Double) : Decimal :=
  let i := x.interval
  let top := leadingExponent i.value
  let grids := (List.range 18).map fun (n : Nat) => top + 1 - n
  (grids.findSome? (gridPoint? i)).getD ⟨0, 0⟩

end Double

/-- Without trailing zeros; zero itself has exponent 0. -/
def Decimal.trim (d : Decimal) : Decimal :=
  let text := Nat.toDigits 10 d.digits
  let zeros := (text.reverse.takeWhile (· == '0')).length
  if d.digits = 0 then ⟨0, 0⟩ else ⟨d.digits / Nat.pow 10 zeros, d.exponent + zeros⟩

end ShellTree
