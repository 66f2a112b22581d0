import TftpReceiver.Text.Decimal

/-! Binary floating-point numbers of 64 bits, in exact arithmetic: rounding a quotient
to the nearest of them, and the fewest decimal digits that lead back to one. -/

namespace TftpReceiver

/-- The number `mantissa * 2 ^ exponent`, as it is rounded: with 53 bits, or with the
least exponent. -/
structure Binary64 where
  mantissa : Nat
  exponent : Int
  deriving DecidableEq, Repr, Inhabited

namespace Binary64

def minExponent : Int := -1074
def maxExponent : Int := 971

/-- Mantissas are below this. -/
def mantissaLimit : Nat := 9007199254740992

def zero : Binary64 := ⟨0, minExponent⟩

/-- A half goes to the even neighbour. -/
def roundDiv (n d : Nat) : Nat :=
  let q := n / d
  let r := n % d
  if d < 2 * r ∨ (2 * r = d ∧ q % 2 = 1) then q + 1 else q

/-- A quotient times a power of two, as a quotient. -/
def scaled (n d : Nat) (power : Int) : Nat × Nat :=
  if 0 ≤ power then (n * Nat.pow 2 power.toNat, d) else (n, d * Nat.pow 2 (-power).toNat)

/-- The nearest number to a quotient, if it is not too large. -/
def ofQuotient? (n d : Nat) : Option Binary64 :=
  let guess := max ((n.log2 : Int) - d.log2 - 53) minExponent
  let (a, b) := scaled n d (-guess)
  let exponent := if mantissaLimit ≤ a / b then guess + 1 else guess
  let (a, b) := scaled n d (-exponent)
  let mantissa := roundDiv a b
  let (mantissa, exponent) :=
    if mantissa = mantissaLimit then (mantissaLimit / 2, exponent + 1) else (mantissa, exponent)
  if maxExponent < exponent then none else some ⟨mantissa, exponent⟩

/-- The number as a quotient. -/
def quotient (x : Binary64) : Nat × Nat := scaled x.mantissa 1 x.exponent

def mul? (x y : Binary64) : Option Binary64 :=
  ofQuotient? (x.quotient.1 * y.quotient.1) (x.quotient.2 * y.quotient.2)

def div? (x y : Binary64) : Option Binary64 :=
  ofQuotient? (x.quotient.1 * y.quotient.2) (x.quotient.2 * y.quotient.1)

/-- The interval of what is rounded to the number, in quarters of its last bit; its ends
belong to it when the mantissa is even. -/
def interval (x : Binary64) : Nat × Nat :=
  let below := if 2 * x.mantissa = mantissaLimit ∧ minExponent < x.exponent then 1 else 2
  (4 * x.mantissa - below, 4 * x.mantissa + 2)

def isWithin (x : Binary64) (n d : Nat) : Bool :=
  let (low, high) := x.interval
  let (a, b) := scaled (4 * n) d (-x.exponent)
  if x.mantissa % 2 = 0 then low * b ≤ a && a ≤ high * b else low * b < a && a < high * b

/-- Digits and the power of ten that they are multiplied by. -/
def onGrid? (x : Binary64) (power : Int) : Option (Nat × Int) :=
  let (n, d) := x.quotient
  let unit := Nat.pow 10 power.natAbs
  let (n, d) := if 0 ≤ power then (n, d * unit) else (n * unit, d)
  let value := fun digits => if 0 ≤ power then (digits * unit, 1) else (digits, unit)
  let hits := fun digits => let (a, b) := value digits; 0 < digits && x.isWithin a b
  let low := n / d
  let nearest := roundDiv n d
  if hits nearest then some (nearest, power)
  else if hits low then some (low, power)
  else if hits (low + 1) then some (low + 1, power)
  else none

/-- The power of ten of the first digit. -/
def leading (x : Binary64) : Int :=
  let (n, d) := x.quotient
  if d ≤ n then (Nat.toDigits 10 (n / d)).length - 1
  else
    let size := (Nat.toDigits 10 (d / n)).length
    if d ≤ n * Nat.pow 10 (size - 1) then 1 - (size : Int) else -(size : Int)

def shortestFrom (x : Binary64) (first : Int) : (count : Nat) → Nat × Int
  | 0 => (x.mantissa, 0)
  | count + 1 => (x.onGrid? (first - 16 + count)).getD (shortestFrom x first count)

/-- The fewest digits that lead back to a number other than zero, the nearest of them. -/
def shortest (x : Binary64) : Nat × Int := shortestFrom x x.leading 18

end Binary64

end TftpReceiver
