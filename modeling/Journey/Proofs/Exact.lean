import Mathlib.Algebra.Order.Field.Basic
import Mathlib.Tactic.Linarith
import Mathlib.Tactic.Ring
import Journey.Parameters

/-!
# Exact Arithmetic

The scalars of a linearly ordered field.

Everything that prices or times something is written over a `Scalar`, which
holds operations and no laws. In a linearly ordered field the laws are those of
the field, and this module makes such a field a scalar: every value is finite,
and choosing the larger or the smaller of two values is what `max` and `min`
do. A statement about exact costs is a statement over such a field.

Validated parameters are the reason why costs only ever grow. The checks go
through lists of named components one by one, so the facts that the search
needs are read off them once, here.

## Main definitions

* `exactScalar`: The scalar of a linearly ordered field.

## Theorems

* `Scalar.larger_eq_max`: The larger of two values is their maximum.
* `Scalar.same_iff`: Neither of two values is larger when they are equal.
* `Parameters.extents_nonneg`: No radius of validated parameters is negative.
* `Parameters.validate_ok`: What validated parameters satisfy.
* `Parameters.waitingCost_nonneg` and its companions: No rate is negative.
-/

namespace Journey

/-- A linearly ordered field computes exactly. -/
instance exactScalar {K : Type} [Field K] [LinearOrder K] : Scalar K where
  toZero := inferInstance
  toAdd := inferInstance
  toSub := inferInstance
  toMul := inferInstance
  toDiv := inferInstance
  toNeg := inferInstance
  toNatCast := inferInstance
  toLT := inferInstance
  toLE := inferInstance
  decideLt := fun a b => inferInstanceAs (Decidable (a < b))
  decideLe := fun a b => inferInstanceAs (Decidable (a ≤ b))
  isFinite := fun _ => true

section Order

variable {K : Type} [Field K] [LinearOrder K]

namespace Scalar

theorem larger_eq_max (a b : K) : larger a b = max a b := by
  unfold larger
  by_cases h : a ≤ b
  · rw [if_pos (Or.inl h), max_eq_right h]
  · rw [if_neg (by simp only [h, le_refl, not_true_eq_false, or_self, not_false_eq_true]),
      max_eq_left (le_of_not_ge h)]

theorem same_iff (a b : K) : same a b = true ↔ a = b := by
  unfold same
  rw [Bool.and_eq_true, decide_eq_true_iff, decide_eq_true_iff]
  exact ⟨fun ⟨h1, h2⟩ => le_antisymm h1 h2, fun h => ⟨h.le, h.ge⟩⟩

-- Every value of an ordered field is finite, so only the sign is checked.
theorem isNonnegative_iff (a : K) : isNonnegative a = true ↔ 0 ≤ a := by
  unfold isNonnegative isFinite exactScalar
  rw [Bool.true_and, decide_eq_true_iff]

theorem isNonpositive_iff (a : K) : isNonpositive a = true ↔ a ≤ 0 := by
  unfold isNonpositive isFinite exactScalar
  rw [Bool.true_and, decide_eq_true_iff]

theorem isPositive_iff (a : K) : isPositive a = true ↔ 0 < a := by
  unfold isPositive isFinite exactScalar
  rw [Bool.true_and, decide_eq_true_iff]

end Scalar

end Order

namespace Parameters

variable {K : Type} [Field K] [LinearOrder K]

theorem validate_eq_ok_iff {α : Type} [Scalar α] (p : Parameters α) :
    p.validate = .ok () ↔ p.defect? = none := by
  unfold validate
  cases p.defect? with
  | none => simp only
  | some e => simp only [reduceCtorEq]

/-- No radius and no duration of validated parameters is negative. -/
theorem extents_nonneg {α : Type} [Scalar α] {p : Parameters α} (h : p.validate = .ok ()) :
    0 ≤ p.searchRadius ∧ 0 ≤ p.extensionRadius ∧ 0 ≤ p.minTransferTime := by
  rw [validate_eq_ok_iff] at h
  simp only [defect?, Option.or_eq_none_iff, extentDefect?, List.findSome?_eq_none_iff] at h
  have hextent : ∀ name value, (name, value) ∈
      [("search radius", p.searchRadius), ("extension radius", p.extensionRadius),
        ("minimal transfer time", p.minTransferTime)] → 0 ≤ value := by
    intro name value hmem
    have hnone := h.2.2.2 (name, value) hmem
    by_contra hneg
    have hnot : ¬ Scalar.isNonnegative value := fun hc =>
      hneg (of_decide_eq_true (Bool.and_eq_true_iff.mp hc).2)
    rw [if_neg hnot] at hnone
    exact absurd hnone (Option.some_ne_none _)
  exact ⟨hextent "search radius" _ (by simp), hextent "extension radius" _ (by simp),
    hextent "minimal transfer time" _ (by simp)⟩

/-- What validated parameters satisfy, as far as the search depends on it. -/
theorem validate_ok {p : Parameters K} (h : p.validate = .ok ()) :
    p.inVehicleUtility ≤ 0 ∧ p.waitingUtility ≤ 0 ∧ p.walkUtility ≤ 0 ∧ 0 ≤ p.minTransferTime := by
  have htime := (extents_nonneg h).2.2
  rw [validate_eq_ok_iff] at h
  unfold defect? at h
  simp only [Option.or_eq_none_iff] at h
  have hu := h.1
  unfold utilityDefect? at hu
  simp only [List.findSome?_eq_none_iff] at hu
  have hutility : ∀ name value, (name, value) ∈
      [("in-vehicle time", p.inVehicleUtility), ("waiting", p.waitingUtility),
        ("walking", p.walkUtility)] → value ≤ 0 := by
    intro name value hmem
    have hnone := hu (name, value) (List.mem_append_left _ hmem)
    by_contra hpos
    rw [if_neg (by rwa [Scalar.isNonpositive_iff])] at hnone
    exact absurd hnone (by simp only [reduceCtorEq, not_false_eq_true])
  exact ⟨hutility "in-vehicle time" _ (by simp), hutility "waiting" _ (by simp),
    hutility "walking" _ (by simp), htime⟩

variable [IsStrictOrderedRing K]

theorem costPerSecond_nonneg {u : K} (h : u ≤ 0) : 0 ≤ costPerSecond u := by
  unfold costPerSecond Scalar.secondsPerHour
  exact div_nonneg (neg_nonneg.mpr h) (Nat.cast_nonneg 3600)

theorem inVehicleCost_nonneg {p : Parameters K} (h : p.validate = .ok ()) : 0 ≤ p.inVehicleCost :=
  costPerSecond_nonneg (validate_ok h).1

theorem waitingCost_nonneg {p : Parameters K} (h : p.validate = .ok ()) : 0 ≤ p.waitingCost :=
  costPerSecond_nonneg (validate_ok h).2.1

theorem walkCost_nonneg {p : Parameters K} (h : p.validate = .ok ()) : 0 ≤ p.walkCost :=
  costPerSecond_nonneg (validate_ok h).2.2.1

end Parameters

end Journey
