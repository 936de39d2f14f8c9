import Journey.Binary64

/-!
# Number Literals

What the number literals of documents stand for.

A literal is read into a whole significand of at most 64 bits and a power of
ten. Digits of the whole part that no longer fit are counted and not read;
digits of the fraction that no longer fit are passed over. The significand is
then converted and multiplied or divided once by a power of ten, which is one
rounding more than the nearest number would need, so the last bit of a literal
with many digits is the one this rule gives. A literal that is too large for a
number is refused, and one that is too small is zero.

A literal without fraction and exponent is a whole number as long as it fits
into 64 bits. A negative zero is not one: only floating point has it.

## Main definitions

* `Literal`: The parts of a number literal.
* `Numeral`: What a literal stands for.
* `Literal.value?`: The value of a literal, unless it is too large.
-/

namespace Journey

/-- The parts of a number literal, digits as their values. -/
structure Literal where
  negative : Bool
  whole : List Nat
  fraction : List Nat
  /-- The sign and digits of the exponent, if it is written. -/
  exponent : Option (Bool × List Nat)
deriving DecidableEq, Repr

/-- What a literal stands for. -/
inductive Numeral where
  /-- A whole number from zero on. -/
  | natural (n : Nat)
  /-- The negation of a whole number. -/
  | negated (n : Nat)
  | real (x : Float)

namespace Numeral

/-- A numeral as floating point. -/
def toFloat : Numeral → Float
  | natural n => Float.ofNat n
  | negated n => -Float.ofNat n
  | real x => x

end Numeral

namespace Literal

/-- The largest significand. -/
def largestSignificand : Nat := Nat.pow 2 64 - 1

/-- The largest exponent that is read digit by digit. -/
def largestExponent : Nat := Nat.pow 2 31 - 1

/-- Append digits to a number as long as it stays within the limit. The digits
    left over are returned. -/
def appendDigits (limit : Nat) : Nat → List Nat → Nat × List Nat
  | n, [] => (n, [])
  | n, d :: rest =>
    if n * 10 + d ≤ limit then appendDigits limit (n * 10 + d) rest else (n, d :: rest)

/-- A power of ten, correctly rounded. -/
def powerOfTen (k : Nat) : Float := Float.ofScientific 1 false k

/-- Scale by a power of ten beyond the range of floating point, downwards. No
    significand survives two such divisions. -/
def scaleDown : Nat → Float → Int → Float
  | 0, _, _ => 0
  | steps + 1, x, e =>
    if -308 ≤ e then x / powerOfTen e.natAbs
    else if x == 0 then x
    else scaleDown steps (x / powerOfTen 308) (e + 308)

/-- The number `significand * 10 ^ e`, or nothing if it is too large. -/
def scaled? (significand : Nat) (e : Int) : Option Float :=
  let x := Float.ofNat significand
  if 0 ≤ e then
    if e ≤ 308 then
      let y := x * powerOfTen e.toNat
      if y.isFinite then some y else none
    else if significand = 0 then some x
    else none
  else some (scaleDown 4 x e)

/-- The magnitude of a literal with a fraction or an exponent, or with more
    digits than a significand holds. -/
def magnitude? (l : Literal) : Option Float :=
  let (significand, uncounted) := appendDigits largestSignificand 0 l.whole
  let (significand, unread) := appendDigits largestSignificand significand l.fraction
  let shift : Int := (uncounted.length : Int) - ((l.fraction.length - unread.length : Nat) : Int)
  match l.exponent with
  | none => scaled? significand shift
  | some (negative, digits) =>
    match appendDigits largestExponent 0 digits with
    | (e, []) => scaled? significand (if negative then shift - e else shift + e)
    -- An exponent with so many digits is beyond the range in any case.
    | (_, _ :: _) => if significand = 0 ∨ negative then some 0 else none

/-- The value of a literal, or nothing if it is too large for a number. -/
def value? (l : Literal) : Option Numeral :=
  let sign (x : Float) := if l.negative then -x else x
  match l.fraction, l.exponent, appendDigits largestSignificand 0 l.whole with
  | [], none, (n, []) =>
    if !l.negative then some (.natural n)
    else if 0 < n ∧ n ≤ Nat.pow 2 63 then some (.negated n)
    else some (.real (-Float.ofNat n))
  | _, _, _ => l.magnitude?.map fun x => .real (sign x)

/-- The literal of a natural number. -/
def ofNat (n : Nat) : Literal :=
  ⟨false, (toString n).toList.map fun c => c.toNat - '0'.toNat, [], none⟩

end Literal

end Journey
