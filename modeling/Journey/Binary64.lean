/-!
# Binary Floating Point, Exactly

What a 64-bit floating point number is as an exact quantity, and back.

A finite number is a sign, a whole significand and a power of two. Every exact
question about floating point in this library (its decimal text, rounding to
whole numbers, the length of a vector) is answered on that triple in `Nat`
arithmetic and never by further floating point operations, so that no answer
depends on an intermediate rounding.

## Main definitions

* `Binary64`: The exact reading of a floating point number.
* `Binary64.ofFloat`: Reading a number out of its bits.
* `Binary64.nearest`: The floating point number nearest to a dyadic rational.
* `Binary64.ceiling`: The least whole number not below.
* `Binary64.roundedMagnitude`: Nearest whole number, halves away from zero.
* `Binary64.hypotenuse`: The correctly rounded length of a vector.
-/

namespace Journey

/-- The exact reading of a floating point number. A finite one is
    `± significand * 2 ^ exponent`. -/
inductive Binary64 where
  | finite (negative : Bool) (significand : Nat) (exponent : Int)
  | infinite (negative : Bool)
  | notANumber
deriving DecidableEq, Repr

namespace Binary64

/-- The exponent of the least significant bit of the smallest positive number. -/
def leastExponent : Int := -1074

/-- Significands of normal numbers have this many bits. -/
def precision : Nat := 53

/-- Read the sign, exponent and significand fields of a number. -/
def ofFloat (x : Float) : Binary64 :=
  let bits := x.toBits.toNat
  let negative := decide (Nat.pow 2 63 ≤ bits)
  let field : Nat := bits / Nat.pow 2 52 % Nat.pow 2 11
  let fraction : Nat := bits % Nat.pow 2 52
  if field = 2047 then
    if fraction = 0 then .infinite negative else .notANumber
  else if field = 0 then .finite negative fraction leastExponent
  else .finite negative (fraction + Nat.pow 2 52) ((field : Int) - 1 + leastExponent)

/-- A non-negative number with the given sign put on it. -/
def withSign (negative : Bool) (x : Float) : Float := if negative then -x else x

/-- Divide by a power of two, to the nearest, a half to the even neighbour. -/
def halvings (n k : Nat) : Nat :=
  let quotient := n / Nat.pow 2 k
  let rest := n % Nat.pow 2 k
  if Nat.pow 2 k < 2 * rest ∨ (2 * rest = Nat.pow 2 k ∧ quotient % 2 = 1) then quotient + 1
  else quotient

/-- The number nearest to `n * 2 ^ e`, a tie going to the even significand and
    anything too large to infinity. -/
def nearest (n : Nat) (e : Int) : Float :=
  if n = 0 then 0
  else
    -- The exponent at which the significand fits, unless that is too small.
    let top := max (e + (n.log2 + 1) - precision) leastExponent
    let significand :=
      if top ≤ e then n * Nat.pow 2 (e - top).toNat else halvings n (top - e).toNat
    -- Rounding may have carried into one more bit.
    let (significand, top) :=
      if significand = Nat.pow 2 precision then (Nat.pow 2 52, top + 1) else (significand, top)
    if significand < Nat.pow 2 52 then Float.ofBits (UInt64.ofNat significand)
    else
      let field := (top - leastExponent).toNat + 1
      if 2047 ≤ field then Float.ofBits (UInt64.ofNat (2047 * Nat.pow 2 52))
      else Float.ofBits (UInt64.ofNat (field * Nat.pow 2 52 + (significand - Nat.pow 2 52)))

/-- The least whole number not below `x`. The sign of a result of zero is that
    of `x`. -/
def ceiling (x : Float) : Float :=
  match ofFloat x with
  | .finite negative m e =>
    if 0 ≤ e then x
    else
      let unit := Nat.pow 2 (-e).toNat
      let whole := m / unit
      -- Up means towards zero for a negative number.
      let whole := if negative ∨ m % unit = 0 then whole else whole + 1
      withSign negative (Float.ofNat whole)
  | _ => x

/-- The whole number nearest to the magnitude of a finite number, halves going
    away from zero. -/
def roundedMagnitude (significand : Nat) (exponent : Int) : Nat :=
  if 0 ≤ exponent then significand * Nat.pow 2 exponent.toNat
  else
    let k := (-exponent).toNat
    (2 * significand + Nat.pow 2 k) / Nat.pow 2 (k + 1)

/-- Extend a root `r` with `r * r ≤ n` by the powers of two below `2 ^ bits`. -/
def extendRoot (n : Nat) : Nat → Nat → Nat
  | 0, r => r
  | bits + 1, r =>
    let larger := r + Nat.pow 2 bits
    extendRoot n bits (if larger * larger ≤ n then larger else r)

/-- The whole part of the square root. -/
def wholeRoot (n : Nat) : Nat := extendRoot n (n.log2 / 2 + 1) 0

/-- The correctly rounded square root of `n * 2 ^ (2 * e)`. The root is taken
    with more bits than are kept; one more bit says whether it is inexact, so
    the only rounding is the last one. -/
def nearestRoot (n : Nat) (e : Int) : Float :=
  let spare := precision + 3
  let scaled := n * Nat.pow 4 spare
  let root := wholeRoot scaled
  let sticky := if root * root = scaled then 0 else 1
  nearest (2 * root + sticky) (e - spare - 1)

/-- The correctly rounded length of the vector `(x, y)`. It is infinite if a
    component is, whatever the other one, and else not a number if one is
    not. -/
def hypotenuse (x y : Float) : Float :=
  match ofFloat x, ofFloat y with
  | .infinite _, _ => x.abs
  | _, .infinite _ => y.abs
  | .finite _ m e, .finite _ n f =>
    let least := min e f
    let a := m * Nat.pow 2 (e - least).toNat
    let b := n * Nat.pow 2 (f - least).toNat
    nearestRoot (a * a + b * b) least
  | _, _ => x + y

end Binary64

end Journey
