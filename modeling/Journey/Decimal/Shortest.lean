import Journey.Binary64

/-!
# Shortest Decimals

The decimal with the fewest digits that reads back as a given floating point
number.

The numbers that round to a given one form an interval around it, whose ends
belong to it exactly when the significand is even. A decimal with its last
digit at the power `p` of ten is a point of the grid of multiples of `10 ^ p`,
and if any point of a grid lies in the interval then one of the two points next
to the number does. So it is enough to try those two on coarser grids first:
the first grid with a hit has the fewest digits, and of two hits the nearer one
is taken. A number may lie exactly halfway between them; which one is taken
then is a matter of the layout.

Two layouts are written from it. The plain one has neither an exponent nor a
trailing point, and its ties go away from zero. The scientific one is the
layout of numbers in documents: it is positional for moderate sizes, where it
always shows a fraction, and has an exponent otherwise, and its ties go to the
even digit.

## Main definitions

* `Decimal`: A whole number of digits at a power of ten.
* `Decimal.Tie`: Which of two equally near decimals is taken.
* `Decimal.shortest`: The shortest decimal of a floating point number.
* `Decimal.plain`: Text without an exponent.
* `Decimal.document`: Text as numbers are written in documents.
-/

namespace Journey

/-- The value `digits * 10 ^ exponent`. -/
structure Decimal where
  digits : Nat
  exponent : Int
deriving DecidableEq, Repr

namespace Decimal

/-- Which of two equally near decimals is taken. -/
inductive Tie where
  /-- The one whose last digit is even. -/
  | toEven
  /-- The one further from zero. -/
  | awayFromZero
deriving DecidableEq, Repr

/-- Whether a tie between some digits and the next larger ones goes to the
    larger ones. -/
def Tie.goesUp (tie : Tie) (digits : Nat) : Bool :=
  match tie with
  | toEven => digits % 2 = 1
  | awayFromZero => true

/-- The exact number `± m * 2 ^ e` together with the ends of the interval that
    rounds to it, as numerators over one power of two. -/
structure Interval where
  low : Nat
  value : Nat
  high : Nat
  denominator : Nat
  closed : Bool

/-- The interval of a significand and its exponent. Below a power of two the
    neighbour is only half as far away. -/
def Interval.around (m : Nat) (e : Int) : Interval :=
  let quarter := e - 2
  let scale := Nat.pow 2 quarter.toNat
  -- In quarters of the last place, halfway to the neighbours is two of them.
  let below := if m = Nat.pow 2 52 ∧ Binary64.leastExponent < e then 1 else 2
  { low := (4 * m - below) * scale
    value := 4 * m * scale
    high := (4 * m + 2) * scale
    denominator := Nat.pow 2 (-quarter).toNat
    closed := m % 2 = 0 }

/-- Whether a numerator, over the interval's denominator times `factor`, lies
    in the interval. -/
def Interval.contains (i : Interval) (factor numerator : Nat) : Bool :=
  if i.closed then i.low * factor ≤ numerator ∧ numerator ≤ i.high * factor
  else i.low * factor < numerator ∧ numerator < i.high * factor

/-- The point of the grid at power `p` that lies in the interval, the nearer of
    the number's two neighbours if both do. -/
def Interval.onGrid (i : Interval) (tie : Tie) (p : Int) : Option Nat :=
  let factor := Nat.pow 10 (-p).toNat
  let step := i.denominator * Nat.pow 10 p.toNat
  let value := i.value * factor
  let below := value / step
  let rest := value % step
  match i.contains factor (below * step), i.contains factor ((below + 1) * step) with
  | true, true =>
    let goesUp := step < 2 * rest ∨ (2 * rest = step ∧ tie.goesUp below)
    if goesUp then some (below + 1) else some below
  | true, false => some below
  | false, true => some (below + 1)
  | false, false => none

/-- Try grids from power `p` downwards. -/
def Interval.search (i : Interval) (tie : Tie) : Nat → Int → Decimal
  | 0, p => ⟨i.value / i.denominator, p⟩
  | tries + 1, p =>
    match i.onGrid tie p with
    | some digits => ⟨digits, p⟩
    | none => i.search tie tries (p - 1)

/-- The shortest decimal of the positive number `m * 2 ^ e`. The first grid
    tried is coarser than the number is large, and seventeen digits always
    suffice. -/
def shortest (tie : Tie) (m : Nat) (e : Int) : Decimal :=
  if m = 0 then ⟨0, 0⟩
  else
    -- The logarithm of two to the base ten, rounded up.
    let magnitude := (m.log2 + 1 + e) * 30103 / 100000 + 1
    (Interval.around m e).search tie 24 magnitude

/-- A number of zeros. -/
def zeros (n : Nat) : String := String.ofList (List.replicate n '0')

/-- The digits of a decimal in positional notation. -/
def positional (d : Decimal) : String :=
  let digits := (toString d.digits).toList
  if 0 ≤ d.exponent then String.ofList digits ++ zeros d.exponent.toNat
  else
    let places := (-d.exponent).toNat
    if places < digits.length then
      let whole := digits.length - places
      String.ofList (digits.take whole) ++ "." ++ String.ofList (digits.drop whole)
    else "0." ++ zeros (places - digits.length) ++ String.ofList digits

/-- A sign in front of a text. -/
def signed (negative : Bool) (text : String) : String := if negative then "-" ++ text else text

/-- The shortest text that reads back as the number, without an exponent and
    without a fraction where there is none. -/
def plain (x : Float) : String :=
  match Binary64.ofFloat x with
  | .finite negative m e => signed negative (shortest .awayFromZero m e).positional
  | .infinite negative => signed negative "inf"
  | .notANumber => "NaN"

/-- The shortest text of a number in a document: positional with a fraction
    for a point between five places before the first digit and sixteen places
    after it, and else with an exponent. A number that documents cannot hold
    is written `null`. -/
def document (x : Float) : String :=
  match Binary64.ofFloat x with
  | .finite negative m e =>
    let d := shortest .toEven m e
    let digits := toString d.digits
    let point := (digits.length : Int) + d.exponent
    let text :=
      if m = 0 then "0.0"
      else if 0 ≤ d.exponent ∧ point ≤ 16 then d.positional ++ ".0"
      else if -5 < point ∧ point ≤ 16 then d.positional
      else
        let first := String.ofList (digits.toList.take 1)
        let others := String.ofList (digits.toList.drop 1)
        let fraction := if others.isEmpty then "" else "." ++ others
        first ++ fraction ++ "e" ++ toString (point - 1)
    signed negative text
  | _ => "null"

end Decimal

end Journey
