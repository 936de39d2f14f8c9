import Journey.Proofs.Exact
import Journey.Search.Workspace

/-!
# Bounds

The bound of a search does not depend on the order of what it was told.

Every complete journey tightens the bound, and what is left is the least of their
costs. In floating point this is not quite one value: there are two zeros, and
not-a-number is a cost that bounds nothing. So bounds are compared by `Alike`,
which is all that a search can see of them, and the laws of the order that are
needed are collected in `Ranked`. They hold of exact numbers and of floating
point alike, because each speaks about values that are equal to themselves.

## Main definitions

* `Scalar.Alike`: Values that no comparison tells apart.
* `Scalar.Ranked`: The laws of a strict order on numbers.
* `Scalar.IsLeast`: The bound that some costs leave.

## Theorems

* `Scalar.rel_tightened`: Bounds that are alike are tightened alike.
* `Scalar.IsLeast.tightened`: One more cost is taken into account.
* `Scalar.IsLeast.rel_alike`: The costs determine the bound.
-/

namespace Journey

namespace Scalar

variable {α : Type} [Scalar α]

/-- No comparison with a third value tells the two apart. -/
def Alike (a b : α) : Prop := ∀ c : α, (a < c ↔ b < c) ∧ (c < a ↔ c < b)

/-- The order ranks all numbers, which are the values that are at most
    themselves. -/
class Ranked (α : Type) [Scalar α] : Prop where
  /-- Of two values only one can be less than the other. -/
  lt_asymm : ∀ a b : α, a < b → ¬ b < a
  /-- Nothing is less than a value that is no number. -/
  number_of_lt : ∀ a b : α, a < b → a ≤ a
  /-- A third number is after the lesser value or before the greater one. -/
  lt_or_lt : ∀ a b c : α, a < b → c ≤ c → a < c ∨ c < b

/-- A linearly ordered field is ranked. -/
instance exactRanked {K : Type} [Field K] [LinearOrder K] : Ranked K where
  lt_asymm := fun _ _ h => not_lt_of_gt h
  number_of_lt := fun a _ _ => le_refl a
  lt_or_lt := fun _ _ c h _ => h.gt_or_lt c

/-- The bound that some costs leave is the least number among them. -/
def IsLeast (costs : α → Prop) : Option α → Prop
  | none => ∀ c, costs c → ¬ c ≤ c
  | some b => costs b ∧ b ≤ b ∧ ∀ c, costs c → ¬ c < b

theorem Alike.refl (a : α) : Alike a a := fun _ => ⟨Iff.rfl, Iff.rfl⟩

/-- Bounds that are alike are tightened alike by the same cost. -/
theorem rel_tightened {b b' : Option α} (h : Option.Rel Alike b b') (cost : α) :
    Option.Rel Alike (Workspace.tightened b cost) (Workspace.tightened b' cost) := by
  unfold Workspace.tightened
  cases h with
  | none =>
      simp only
      split
      · exact Option.Rel.some (Alike.refl cost)
      · exact Option.Rel.none
  | @some a a' h =>
      simp only
      by_cases hlt : cost < a
      · rw [if_pos hlt, if_pos ((h cost).2.mp hlt)]
        exact Option.Rel.some (Alike.refl cost)
      · rw [if_neg hlt, if_neg (fun hc => hlt ((h cost).2.mpr hc))]
        exact Option.Rel.some h

theorem isLeast_none {costs : α → Prop} (h : ∀ c, ¬ costs c) : IsLeast costs none :=
  fun c hc => absurd hc (h c)

namespace IsLeast

variable {costs costs' : α → Prop} {b b' : Option α}

theorem congr (h : IsLeast costs b) (hiff : ∀ c, costs' c ↔ costs c) : IsLeast costs' b := by
  have heq : costs' = costs := funext fun c => propext (hiff c)
  rw [heq]
  exact h

variable [Ranked α]

/-- One more cost is taken into account. -/
theorem tightened (h : IsLeast costs b) (cost : α) :
    IsLeast (fun c => costs c ∨ c = cost) (Workspace.tightened b cost) := by
  unfold Workspace.tightened
  cases b with
  | none =>
      simp only
      split
      · rename_i hnumber
        refine ⟨Or.inr rfl, hnumber, fun c hc hlt => ?_⟩
        rcases hc with hc | rfl
        · exact h c hc (Ranked.number_of_lt c cost hlt)
        · exact Ranked.lt_asymm c c hlt hlt
      · rename_i hnumber
        rintro c (hc | rfl)
        · exact h c hc
        · exact hnumber
  | some least =>
      rcases h with ⟨hleast, hnumber, hle⟩
      simp only
      split
      · rename_i hlt
        refine ⟨Or.inr rfl, Ranked.number_of_lt cost least hlt, fun c hc hless => ?_⟩
        rcases hc with hc | rfl
        · -- What is less than the new bound is less than the old one.
          rcases Ranked.lt_or_lt c cost least hless hnumber with hc' | hc'
          · exact hle c hc hc'
          · exact Ranked.lt_asymm cost least hlt hc'
        · exact Ranked.lt_asymm c c hless hless
      · rename_i hnot
        refine ⟨Or.inl hleast, hnumber, fun c hc => ?_⟩
        rcases hc with hc | rfl
        · exact hle c hc
        · exact hnot

/-- The costs determine the bound that they leave. -/
theorem rel_alike (h : IsLeast costs b) (h' : IsLeast costs b') : Option.Rel Alike b b' := by
  cases b with
  | none =>
      cases b' with
      | none => exact Option.Rel.none
      | some a' => exact absurd h'.2.1 (h a' h'.1)
  | some a =>
      cases b' with
      | none => exact absurd h.2.1 (h' a h.1)
      | some a' =>
          have hle : ¬ a < a' := h'.2.2 a h.1
          have hge : ¬ a' < a := h.2.2 a' h'.1
          -- Neither is less, so whatever is beyond one is beyond the other.
          refine Option.Rel.some fun c => ⟨⟨fun hc => ?_, fun hc => ?_⟩, fun hc => ?_, fun hc => ?_⟩
          · exact (Ranked.lt_or_lt a c a' hc h'.2.1).resolve_left hle
          · exact (Ranked.lt_or_lt a' c a hc h.2.1).resolve_left hge
          · exact (Ranked.lt_or_lt c a a' hc h'.2.1).resolve_right hge
          · exact (Ranked.lt_or_lt c a' a hc h.2.1).resolve_right hle

-- In exact arithmetic this is one bound.
theorem eq {K : Type} [Field K] [LinearOrder K] {costs : K → Prop} {b b' : Option K}
    (h : IsLeast costs b) (h' : IsLeast costs b') : b = b' := by
  cases h.rel_alike h' with
  | none => rfl
  | @some a a' halike =>
      have hle : ¬ a' < a := fun hlt => lt_irrefl a' ((halike a').2.mp hlt)
      have hge : ¬ a < a' := fun hlt => lt_irrefl a ((halike a).2.mpr hlt)
      rw [le_antisymm (not_lt.mp hle) (not_lt.mp hge)]

-- Costs may be left out as long as each of them is no less than one that stays.
theorem of_forall_exists_le {K : Type} [Field K] [LinearOrder K] {costs costs' : K → Prop}
    {b : Option K} (h : IsLeast costs b) (hsub : ∀ c, costs' c → costs c)
    (hstays : ∀ c, costs c → ∃ c', costs' c' ∧ c' ≤ c) : IsLeast costs' b := by
  cases b with
  | none => exact fun c hc => h c (hsub c hc)
  | some b =>
      rcases h with ⟨hb, hnumber, hle⟩
      rcases hstays b hb with ⟨c, hc, hcb⟩
      have heq : c = b := le_antisymm hcb (not_lt.mp (hle c (hsub c hc)))
      exact ⟨heq ▸ hc, hnumber, fun c' hc' => hle c' (hsub c' hc')⟩

end IsLeast

end Scalar

end Journey
