import Journey.Planar
import Journey.Proofs.Exact

/-!
# Measuring and Order

What measuring has to do with the order of numbers.

Distances are compared, and what is compared is never less than zero. Neither measuring nor
the order has a law of its own, and rounding breaks many of those that exact numbers have:
a root that is squared again can be less than what it is the root of, and a sum can be no
more than one of its terms. What is left is in four classes. `Scalar.Ordered` says that
what is not negative can be compared and that squares are not negative. `Planar.Ordered`
says of the size of roots that more than a root has a square that is large enough.
`Planar.Monotone` says that squares of differences, and their sums, keep to the order, if
not strictly. `Planar.Symmetric` has the two laws under which a way takes as long in one
direction as in the other.

## Main definitions

* `Scalar.Ordered`: The order of what is not negative.
* `Planar.Ordered`: The laws of roots that rounding does not break.
* `Planar.Monotone`: What is further away has no smaller square.
* `Planar.Symmetric`: The laws by which there is as far as back.
* `Planar.RootsUp`: Roots are not too small.

## Theorems

* `Planar.RootsUp.ordered`: The laws of roots hold of exact numbers.
* `Point.squaredDistance_nonneg`: No squared distance is negative.
-/

namespace Journey

/-- What is not negative can be compared, and squares are not negative. -/
class Scalar.Ordered (α : Type) [Scalar α] : Prop where
  le_trans : ∀ a b c : α, a ≤ b → b ≤ c → a ≤ c
  le_of_lt : ∀ a b : α, a < b → a ≤ b
  /-- What is not negative can be compared. -/
  le_or_lt : ∀ a b : α, 0 ≤ a → 0 ≤ b → a ≤ b ∨ b < a
  /-- Nothing is more than what is not finite. -/
  le_of_not_isFinite : ∀ a b : α, 0 ≤ a → 0 ≤ b → ¬ Scalar.isFinite b → a ≤ b
  add_nonneg : ∀ a b : α, 0 ≤ a → 0 ≤ b → 0 ≤ a + b
  /-- The difference of two numbers may be infinite, but it has a square. -/
  sub_mul_self_nonneg : ∀ a b : α, Scalar.isFinite a → Scalar.isFinite b → 0 ≤ (a - b) * (a - b)

/-- Roots keep to the order of what is not negative. -/
class Planar.Ordered (α : Type) [Scalar α] [Planar α] : Prop extends Scalar.Ordered α where
  squareRoot_nonneg : ∀ a : α, 0 ≤ a → 0 ≤ Planar.squareRoot a
  /-- A root may be too small, but the next larger number is not. -/
  le_mul_self : ∀ a r : α, 0 ≤ a → Planar.squareRoot a < r → a ≤ r * r

/-- Sums and squares of differences keep to the order. -/
class Planar.Monotone (α : Type) [Scalar α] [Planar α] : Prop extends Scalar.Ordered α where
  not_lt_of_le : ∀ a b : α, a ≤ b → ¬ b < a
  /-- Numbers that are finite can be compared. -/
  le_of_not_lt : ∀ a b : α, Scalar.isFinite a → Scalar.isFinite b → ¬ a < b → b ≤ a
  add_le_add : ∀ a b c d : α, 0 ≤ a → 0 ≤ b → a ≤ c → b ≤ d → a + b ≤ c + d
  /-- What is further away has no smaller square. -/
  sub_mul_self_le : ∀ a b c : α, Scalar.isFinite a → Scalar.isFinite b → Scalar.isFinite c →
    c ≤ a ∧ a ≤ b ∨ b ≤ a ∧ a ≤ c → (a - c) * (a - c) ≤ (b - c) * (b - c)
  /-- The largest number is one, and so is its opposite. -/
  largest_isFinite : ∀ a : α, Planar.largest? = some a → Scalar.isFinite a ∧ Scalar.isFinite (-a)

/-- The order in which two times are added does not matter, and the distance there is the
    distance back. -/
class Planar.Symmetric (α : Type) [Scalar α] [Planar α] : Prop where
  add_comm : ∀ a b : α, a + b = b + a
  distance_comm : ∀ p q : Point α, p.distance q = q.distance p

/-- No root is negative, or too small. -/
def Planar.RootsUp (α : Type) [Scalar α] [Planar α] : Prop :=
  ∀ a : α, 0 ≤ a → 0 ≤ Planar.squareRoot a ∧ a ≤ Planar.squareRoot a * Planar.squareRoot a

section Exact

variable {K : Type} [Field K] [LinearOrder K] [IsStrictOrderedRing K]

instance : Scalar.Ordered K where
  le_trans := fun _ _ _ => le_trans
  le_of_lt := fun _ _ => le_of_lt
  le_or_lt := fun a b _ _ => le_or_gt a b
  le_of_not_isFinite := fun _ _ _ _ hfinite => absurd rfl hfinite
  add_nonneg := fun _ _ => add_nonneg
  sub_mul_self_nonneg := fun a b _ _ => mul_self_nonneg (a - b)

variable [Planar K]

/-- Exact numbers keep to the order if their roots are not too small. -/
theorem Planar.RootsUp.ordered (h : Planar.RootsUp K) : Planar.Ordered K where
  squareRoot_nonneg := fun a ha => (h a ha).1
  le_mul_self := fun a r ha hlt => by
    rcases h a ha with ⟨hnonneg, hroot⟩
    exact hroot.trans (mul_self_le_mul_self hnonneg hlt.le)

instance : Planar.Monotone K where
  not_lt_of_le := fun _ _ => not_lt_of_ge
  le_of_not_lt := fun _ _ _ _ => le_of_not_gt
  add_le_add := fun _ _ _ _ _ _ => add_le_add
  sub_mul_self_le := by
    rintro a b c - - - (⟨hca, hab⟩ | ⟨hba, hac⟩)
    · exact mul_self_le_mul_self (sub_nonneg.mpr hca) (sub_le_sub_right hab c)
    · rw [← neg_sub c a, ← neg_sub c b, neg_mul_neg, neg_mul_neg]
      exact mul_self_le_mul_self (sub_nonneg.mpr hac) (sub_le_sub_left hba c)
  largest_isFinite := fun _ _ => ⟨rfl, rfl⟩

end Exact

variable {α : Type} [Scalar α] [Scalar.Ordered α]

theorem Scalar.Ordered.le_refl {a : α} (h : 0 ≤ a) : a ≤ a :=
  (le_or_lt a a h h).elim id (le_of_lt a a)

/-- No squared distance of two places that are somewhere is negative. -/
theorem Point.squaredDistance_nonneg {a b : Point α} (ha : a.isFinite) (hb : b.isFinite) :
    0 ≤ a.squaredDistance b := by
  unfold isFinite at ha hb
  rw [Bool.and_eq_true] at ha hb
  exact Scalar.Ordered.add_nonneg _ _ (Scalar.Ordered.sub_mul_self_nonneg _ _ ha.1 hb.1)
    (Scalar.Ordered.sub_mul_self_nonneg _ _ ha.2 hb.2)

end Journey
