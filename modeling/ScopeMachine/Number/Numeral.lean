import ScopeMachine.Number.Shortest

/-! Decimal text of numbers. Whole numbers are written and read in full up to `digitLimit` digits.
A float is written with its shortest digits, positionally while the power of its leading digit is
between -4 and 15, and with a signed exponent of at least two digits otherwise. -/
namespace ScopeMachine

namespace Numeral

/-- The most digits a whole number may have in text. -/
def digitLimit : Nat := 4300

/-- The least number that is too long to be written. -/
def tooLong : Nat := Nat.pow 10 digitLimit

/-- The decimal digits of `n`. -/
def ofNat (n : Nat) : String := String.ofList (Nat.toDigits 10 n)

/-- The text of an integer of any length. -/
def ofInt (i : Int) : String := if i < 0 then "-" ++ ofNat i.natAbs else ofNat i.natAbs

/-- The text of an integer, unless it has more than `digitLimit` digits. -/
def ofInt? (i : Int) : Option String := if i.natAbs < tooLong then some (ofInt i) else none

/-- The number that a run of digit values spells, most significant first. -/
def valueOf (digits : List Nat) : Nat := digits.foldl (fun n d => 10 * n + d) 0

def zeros (n : Nat) : String := String.ofList (List.replicate n '0')

/-- The exponent mark of scientific notation. -/
def exponentText (p : Int) : String :=
  let digits := ofNat p.natAbs
  (if p < 0 then "e-" else "e+") ++ (if digits.length < 2 then "0" ++ digits else digits)

/-- The text of a decimal other than zero. A positional number always shows a fraction. -/
def ofDecimal (d : Decimal) : String :=
  let digits := Nat.toDigits 10 d.digits
  let point : Int := digits.length + d.exponent
  if -4 < point && point ≤ 16 then
    if 0 ≤ d.exponent then String.ofList digits ++ zeros d.exponent.toNat ++ ".0"
    else if 0 < point then
      String.ofList (digits.take point.toNat) ++ "." ++ String.ofList (digits.drop point.toNat)
    else "0." ++ zeros (-point).toNat ++ String.ofList digits
  else
    let fraction := if digits.length ≤ 1 then "" else "." ++ String.ofList (digits.drop 1)
    String.ofList (digits.take 1) ++ fraction ++ exponentText (point - 1)

/-- The text of a float. -/
def ofBinary64 (x : Binary64) : String :=
  if x.isNaN then "nan"
  else
    (if x.negative then "-" else "") ++
      (if x.isInfinite then "inf" else if x.isZero then "0.0" else ofDecimal x.shortest)

end Numeral

end ScopeMachine
