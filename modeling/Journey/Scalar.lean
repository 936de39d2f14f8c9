/-!
# Scalars

The arithmetic that times, costs and distances are computed in.

The search only adds, subtracts, multiplies, divides and compares, so every
definition that prices or times something is written over a `Scalar` and never
over a particular number type. A program runs it on binary floating point; a
theorem about exact costs instantiates it with an ordered field. The class
holds operations and no laws: a statement that needs a law says which field it
is about.

Not-a-number shows up in the operations that pick one of two values. They are
written with `≤` alone, so that on a linear order they are the usual maximum
and minimum and on floating point they pass over an operand that is not
comparable with itself.

## Main definitions

* `Scalar`: Ordered arithmetic, without laws.
* `Scalar.same`: Neither of two values is larger.
* `Scalar.larger`, `Scalar.smaller`: One of two values, by order.
* `Scalar.secondsPerHour`: The number of seconds in an hour.
-/

namespace Journey

/-- Ordered arithmetic with natural number constants. No law is assumed. -/
class Scalar (α : Type) extends Zero α, Add α, Sub α, Mul α, Div α, Neg α, NatCast α,
    LT α, LE α where
  /-- The strict order is decidable. -/
  decideLt : (a b : α) → Decidable (a < b)
  /-- The order is decidable. -/
  decideLe : (a b : α) → Decidable (a ≤ b)
  /-- Whether a value stands for a number, infinities excluded. -/
  isFinite : α → Bool

instance decidableLt {α : Type} [Scalar α] (a b : α) : Decidable (a < b) := Scalar.decideLt a b

instance decidableLe {α : Type} [Scalar α] (a b : α) : Decidable (a ≤ b) := Scalar.decideLe a b

/-- Binary floating point of 64 bits. -/
instance : Scalar Float where
  natCast := Float.ofNat
  decideLt := fun a b => inferInstanceAs (Decidable (a < b))
  decideLe := fun a b => inferInstanceAs (Decidable (a ≤ b))
  isFinite := Float.isFinite

namespace Scalar

variable {α : Type} [Scalar α]

/-- Two values neither of which is larger. On floating point the two zeros are
    the same and nothing is the same as not-a-number. -/
def same (a b : α) : Bool := decide (a ≤ b) && decide (b ≤ a)

/-- The larger of two values, or the other one if one is not a number. Of two
    zeros it is the second, whatever their signs. -/
def larger (a b : α) : α := if a ≤ b ∨ ¬ a ≤ a then b else a

/-- The smaller of two values, or the other one if one is not a number. Of two
    zeros it is the second, whatever their signs. -/
def smaller (a b : α) : α := if b ≤ a ∨ ¬ a ≤ a then b else a

/-- The number of seconds in an hour. -/
def secondsPerHour : α := ((3600 : Nat) : α)

/-- A value that is finite and not negative. -/
def isNonnegative (a : α) : Bool := isFinite a && decide (0 ≤ a)

/-- A value that is finite and positive. -/
def isPositive (a : α) : Bool := isFinite a && decide (0 < a)

/-- A value that is finite and not positive. -/
def isNonpositive (a : α) : Bool := isFinite a && decide (a ≤ 0)

end Scalar

end Journey
