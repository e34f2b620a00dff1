import ScopeMachine.Number.Binary64

/-! The shortest decimal that reads back as a given number. Of the decimals with the fewest digits
inside the rounding interval the one nearest to the number is taken, and of two equally near ones
the even one. -/
namespace ScopeMachine

/-- The decimal `digits * 10 ^ exponent`. -/
structure Decimal where
  digits : Nat
  exponent : Int
  deriving DecidableEq, Repr

namespace Decimal

/-- Numerator and denominator of a decimal, counted in units of the binary format. -/
def unitRatio (d : Decimal) : Nat × Nat :=
  if 0 ≤ d.exponent then (d.digits * Nat.pow 10 d.exponent.toNat * Binary64.scale, 1)
  else (d.digits * Binary64.scale, Nat.pow 10 (-d.exponent).toNat)

/-- The same decimal with one zero less at the end, if it ends in one. -/
def dropZero (d : Decimal) : Decimal :=
  if d.digits % 10 == 0 then ⟨d.digits / 10, d.exponent + 1⟩ else d

end Decimal

namespace Binary64

/-- Whether `d` lies in the interval of reals that round to the magnitude of `x`. The gap below a
power of two is half as wide, and the ends belong to the interval when the significand is even. -/
def covers (x : Binary64) (d : Decimal) : Bool :=
  let step := Nat.pow 2 x.shift
  let low := 4 * x.units - (if x.significand == hidden && 0 < x.shift then step else 2 * step)
  let high := 4 * x.units + 2 * step
  let (n, m) := d.unitRatio
  if x.significand % 2 == 0 then decide (low * m ≤ 4 * n) && decide (4 * n ≤ high * m)
  else decide (low * m < 4 * n) && decide (4 * n < high * m)

/-- The magnitude of `x` divided by `10 ^ e`, as numerator and denominator. -/
def gridRatio (x : Binary64) (e : Int) : Nat × Nat :=
  if 0 ≤ e then (x.units, scale * Nat.pow 10 e.toNat)
  else (x.units * Nat.pow 10 (-e).toNat, scale)

/-- The neighbour of `x` on the grid of multiples of `10 ^ e` that reads back as `x`, if any. -/
def onGrid (x : Binary64) (e : Int) : Option Decimal :=
  let (n, m) := x.gridRatio e
  let below : Decimal := ⟨n / m, e⟩
  let above : Decimal := ⟨n / m + 1, e⟩
  match x.covers below, x.covers above with
  | true, true => some ⟨roundQuotient n m, e⟩
  | true, false => some below
  | false, true => some above
  | false, false => none

/-- The power of ten of the leading digit of a finite number other than zero. Scaled by `10 ^ 345`
even the unit has a whole part. -/
def leadingPower (x : Binary64) : Int :=
  (Nat.toDigits 10 (x.units * Nat.pow 10 345 / scale)).length - 346

/-- The shortest decimal of the magnitude of a finite number other than zero. Seventeen digits
always suffice. Rounding `9…` up on the coarsest grid leaves a zero at the end, which is dropped. -/
def shortest (x : Binary64) : Decimal :=
  let p := x.leadingPower
  (((List.range 17).findSome? fun (k : Nat) => x.onGrid (p - k)).map Decimal.dropZero).getD
    ⟨(x.gridRatio (p - 16)).1 / (x.gridRatio (p - 16)).2, p - 16⟩

end Binary64

end ScopeMachine
