/-! # The size of numbers

A JSON number is `significand * 10 ^ exponent`.  It is refused when it is too big
for a double.  The decision is that of arithmetic on doubles: the significand and
the power of ten are each rounded to the nearest double and multiplied, and the
product must not round to infinity.
-/
namespace SheetLint.Json

/-- The natural number of at most 53 significant bits that is nearest to `n`; a
tie goes to the one with an even last bit. -/
def nearestDouble (n : Nat) : Nat :=
  let shift := n.log2 + 1 - 53
  let unit := Nat.pow 2 shift
  let q := n / unit
  let r := n % unit
  if unit < 2 * r ∨ (unit = 2 * r ∧ q % 2 = 1) then (q + 1) * unit else q * unit

/-- The numbers from here on round to infinity: half a step above the greatest
double. -/
def doubleLimit : Nat := Nat.pow 2 1024 - Nat.pow 2 970

/-- The greatest power of ten that is a double. -/
def maxPower : Nat := 308

/-- Whether `significand * 10 ^ exponent` is too big for a double. -/
def isTooBig (significand : Nat) (exponent : Int) : Bool :=
  match exponent with
  | .negSucc _ => false
  | .ofNat e =>
    if maxPower < e then
      significand != 0
    else
      decide (doubleLimit ≤ nearestDouble significand * nearestDouble (Nat.pow 10 e))

example : isTooBig 17976931348623157 292 = false := by decide +kernel
example : isTooBig 17976931348623159 292 = true := by decide +kernel

end SheetLint.Json
