import Journey.Binary64

/-!
# Fixed Decimals

Text with a fixed number of places after the point.

The exact value of the floating point number is rounded once, a half going to
the even neighbour, so the text is right however large or small the number is.

## Main definitions

* `Decimal.roundedTo`: A finite number in units of the last place.
* `Decimal.fixed`: Text with a fixed number of places.
-/

namespace Journey

namespace Decimal

/-- Divide to the nearest whole number, a half going to the even neighbour. -/
def divideToEven (numerator denominator : Nat) : Nat :=
  let quotient := numerator / denominator
  let rest := numerator % denominator
  if denominator < 2 * rest ∨ (2 * rest = denominator ∧ quotient % 2 = 1) then quotient + 1
  else quotient

/-- The magnitude `m * 2 ^ e` in units of `10 ^ -places`. -/
def roundedTo (places m : Nat) (e : Int) : Nat :=
  divideToEven (m * Nat.pow 10 places * Nat.pow 2 e.toNat) (Nat.pow 2 (-e).toNat)

/-- The last digits of a number, as many as asked for. -/
def lastDigits : Nat → Nat → List Char
  | 0, _ => []
  | count + 1, n => lastDigits count (n / 10) ++ [Nat.digitChar (n % 10)]

/-- Text with exactly `places` digits after the point, however large the
    number is. -/
def fixed (places : Nat) (x : Float) : String :=
  match Binary64.ofFloat x with
  | .finite negative m e =>
    let units := roundedTo places m e
    let sign := if negative then "-" else ""
    sign ++ toString (units / Nat.pow 10 places) ++ "." ++ String.ofList (lastDigits places units)
  | .infinite negative => if negative then "-inf" else "inf"
  | .notANumber => "NaN"

end Decimal

end Journey
