/-! Binary floating point with 53 bits of precision, held as a sign and a magnitude word. Every
finite magnitude is a whole multiple of `2 ^ (-1074)`, the *unit*, so rounding and comparison are
exact computations on natural numbers. -/
namespace ScopeMachine

/-- A sign and a 63-bit magnitude word. Words grow with the magnitude they stand for; `top` is
infinity and every larger word is not a number. -/
structure Binary64 where
  negative : Bool
  word : Nat
  deriving DecidableEq, Repr

namespace Binary64

def hidden : Nat := Nat.pow 2 52

def top : Nat := 2047 * hidden

/-- The unit is two to this power, negated. -/
def unitPower : Nat := 1074

/-- The number of units in one. -/
def scale : Nat := Nat.pow 2 unitPower

/-- What is not a number may bear a seal, which tells it from others of its kind. -/
def sealedNaN (mark : Nat) : Binary64 := ⟨false, top + 2 + mark⟩

/-- What is not a number and bears no seal: arithmetic makes no other. -/
def nan : Binary64 := ⟨false, top + 1⟩

def infinity (negative : Bool) : Binary64 := ⟨negative, top⟩

def zero (negative : Bool) : Binary64 := ⟨negative, 0⟩

def isNaN (x : Binary64) : Bool := top < x.word

/-- The seal of what is not a number. -/
def seal? (x : Binary64) : Option Nat :=
  if top + 1 < x.word then some (x.word - (top + 2)) else none

/-- Puts a seal on what is not a number and bears none. -/
def sealed (mark : Nat) (x : Binary64) : Binary64 :=
  if x.isNaN && x.seal?.isNone then sealedNaN mark else x

def isInfinite (x : Binary64) : Bool := x.word == top

def isZero (x : Binary64) : Bool := x.word == 0

/-- The integer significand; a word without exponent field has no hidden bit. -/
def significand (x : Binary64) : Nat :=
  if x.word < hidden then x.word else x.word % hidden + hidden

/-- The power of two that one step of the significand is worth, in units. -/
def shift (x : Binary64) : Nat := x.word / hidden - 1

/-- The magnitude of a finite number in units. -/
def units (x : Binary64) : Nat := x.significand * Nat.pow 2 x.shift

def signedUnits (x : Binary64) : Int := if x.negative then -(x.units : Int) else x.units

/-- The whole number nearest to `n / d`; a half goes to the even neighbour. -/
def roundQuotient (n d : Nat) : Nat :=
  let q := n / d
  let r := n % d
  if 2 * r < d || (2 * r == d && q % 2 == 0) then q else q + 1

/-- The word of the magnitude nearest to `n / d` units, which is `top` from the middle of the last
gap on. A significand that rounds up to `2 ^ 53` carries into the exponent by itself. -/
def nearestWord (n d : Nat) : Nat :=
  let k := (n / d).log2 - 52
  min top (k * hidden + roundQuotient n (d * Nat.pow 2 k))

/-- The number nearest to `± n / d`. -/
def ofRatio (negative : Bool) (n d : Nat) : Binary64 := ⟨negative, nearestWord (n * scale) d⟩

def ofInt (i : Int) : Binary64 := ofRatio (i < 0) i.natAbs 1

/-- The number nearest to `± m * 10 ^ e`. Exponents past the range of the format are not expanded:
a positive `m` with `e > 400` is beyond every finite number, and one of `k` digits with
`e + k < -400` is closer to zero than to the unit. -/
def ofDecimal (negative : Bool) (m : Nat) (e : Int) : Binary64 :=
  if m = 0 then zero negative
  else if e > 400 then infinity negative
  else if e + (m.log2 / 3 + 1 : Nat) < -400 then zero negative
  else if 0 ≤ e then ofRatio negative (m * Nat.pow 10 e.toNat) 1
  else ofRatio negative m (Nat.pow 10 (-e).toNat)

def neg (x : Binary64) : Binary64 := if x.isNaN then nan else ⟨!x.negative, x.word⟩

/-- Sums round the exact sum once. An exact zero is negative only when both terms are. -/
def add (x y : Binary64) : Binary64 :=
  if x.isNaN || y.isNaN then nan
  else if x.isInfinite then
    if y.isInfinite && x.negative != y.negative then nan else x
  else if y.isInfinite then y
  else
    let s := x.signedUnits + y.signedUnits
    if s = 0 then zero (x.negative && y.negative) else ⟨s < 0, nearestWord s.natAbs 1⟩

def sub (x y : Binary64) : Binary64 := x.add y.neg

def mul (x y : Binary64) : Binary64 :=
  let negative := x.negative != y.negative
  if x.isNaN || y.isNaN then nan
  else if x.isInfinite || y.isInfinite then
    if x.isZero || y.isZero then nan else infinity negative
  else ⟨negative, nearestWord (x.units * y.units) scale⟩

/-- Quotients round the exact quotient once. A zero divisor of a finite number gives infinity. -/
def div (x y : Binary64) : Binary64 :=
  let negative := x.negative != y.negative
  if x.isNaN || y.isNaN then nan
  else if x.isInfinite then
    if y.isInfinite then nan else infinity negative
  else if y.isInfinite then zero negative
  else if y.isZero then
    if x.isZero then nan else infinity negative
  else ⟨negative, nearestWord (x.units * scale) y.units⟩

theorem scale_pos : 0 < scale := by
  unfold scale
  generalize unitPower = n
  exact Nat.two_pow_pos n

@[simp] theorem isNaN_nan : nan.isNaN = true := by simp [nan, isNaN]

@[simp] theorem seal?_nan : nan.seal? = none := by simp [nan, seal?]

@[simp] theorem seal?_sealedNaN (mark : Nat) : (sealedNaN mark).seal? = some mark := by
  have h : top + 1 < top + 2 + mark := by omega
  simp [sealedNaN, seal?, h]

theorem seal?_eq_none_of_isNaN_eq_false {x : Binary64} (h : x.isNaN = false) : x.seal? = none := by
  have hx : ¬ top < x.word := of_decide_eq_false h
  exact if_neg (by omega)

@[simp] theorem isNaN_infinity (b : Bool) : (infinity b).isNaN = false := by
  simp [infinity, isNaN]

@[simp] theorem isNaN_ofRatio (b : Bool) (n d : Nat) : (ofRatio b n d).isNaN = false :=
  decide_eq_false (Nat.not_lt.2 (Nat.min_le_left _ _))

@[simp] theorem isNaN_ofInt (i : Int) : (ofInt i).isNaN = false := by simp [ofInt]

@[simp] theorem isNaN_zero (b : Bool) : (zero b).isNaN = false := by simp [zero, isNaN]

@[simp] theorem isNaN_ofDecimal (b : Bool) (m : Nat) (e : Int) :
    (ofDecimal b m e).isNaN = false := by
  unfold ofDecimal
  split
  · simp
  split
  · simp
  split
  · simp
  split <;> simp

end Binary64

end ScopeMachine
