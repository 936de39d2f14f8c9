import Mathlib.Algebra.Order.Monoid.WithTop
import Journey.Proofs.Exact
import Journey.Proofs.Search.Run

/-!
# What a Search Does Not Lose

Labels are replaced, and still nothing found is ever lost.

In exact arithmetic the best label of a route-stop is only replaced by one that
costs no more, and the bound on complete journeys only gets tighter. So once a
route-stop can be reached at some cost, it can be reached at that cost for the
rest of the search, or a complete journey is known that makes it pointless.
`Covered` is this disjunction, and `Run.covered` says that it stays.

Costs are compared in `WithTop`, where `⊤` stands for a demand that any arrival
meets: a route-stop is covered at `⊤` when it was reached at all.

## Main definitions

* `Workspace.Covered`: A route-stop is reached at a cost, or need not be.
* `Workspace.BoundTold`: The bound is the cost of a complete journey.
* `Workspace.Leaves`: There is a way on to the destination at a cost.

## Theorems

* `Workspace.Offered.covered`: What was offered is covered, stored or not.
* `Workspace.Run.covered`, `Workspace.Run.leaves`: Nothing is lost.
* `Workspace.Run.boundTold`: The bound never promises too much.
-/

namespace Journey

variable {K : Type} [Field K] [LinearOrder K]

namespace Label

-- A label that is beaten costs at least as much.
theorem le_of_isBeatenBy {l : Label K} {cost : K} {transfers : Nat}
    (h : l.isBeatenBy cost transfers = true) : cost ≤ l.cost := by
  unfold isBeatenBy at h
  rcases Bool.or_eq_true_iff.mp h with h | h
  · exact le_of_lt (of_decide_eq_true h)
  · exact le_of_eq ((Scalar.same_iff _ _).mp (Bool.and_eq_true_iff.mp h).1)

-- A label that is not beaten costs no more.
theorem le_of_not_isBeatenBy {l : Label K} {cost : K} {transfers : Nat}
    (h : l.isBeatenBy cost transfers = false) : l.cost ≤ cost := by
  unfold isBeatenBy at h
  exact le_of_not_gt (of_decide_eq_false (Bool.or_eq_false_iff.mp h).1)

end Label

namespace Workspace

variable {t : Timetable K} {policy : TransferPolicy K} {q : SearchQuery K} {w w' : Workspace K}

/-- A route-stop is reached at a cost, or a complete journey costs no more. -/
def Covered (w : Workspace K) (i : Nat) (c : WithTop K) : Prop :=
  (∃ b, w.bound = some b ∧ (b : WithTop K) ≤ c) ∨
    ∃ id l, w.Holds i id l ∧ (l.cost : WithTop K) ≤ c

/-- The bound is at least the cost of a way to the destination that is held. -/
def BoundTold (w : Workspace K) : Prop :=
  ∀ b, w.bound = some b → ∃ i id l e, w.Holds i id l ∧ w.egress[i]? = some (some e) ∧
    l.cost + e.cost ≤ b

/-- There is a way on to the destination from a route-stop at a cost. -/
def Leaves (w : Workspace K) (i : Nat) (c : K) : Prop :=
  ∃ e, w.egress[i]? = some (some e) ∧ e.cost ≤ c

omit [Field K] in
theorem Covered.mono {i : Nat} {c c' : WithTop K} (h : w.Covered i c) (hc : c ≤ c') :
    w.Covered i c' := by
  rcases h with ⟨b, hb, hle⟩ | ⟨id, l, hl, hle⟩
  · exact Or.inl ⟨b, hb, le_trans hle hc⟩
  · exact Or.inr ⟨id, l, hl, le_trans hle hc⟩

omit [Field K] in
theorem Holds.covered {i id : Nat} {l : Label K} (h : w.Holds i id l) : w.Covered i l.cost :=
  Or.inr ⟨id, l, h, le_refl _⟩

theorem exceedsBound_eq_true {c : K} (h : w.exceedsBound c = true) :
    ∃ b, w.bound = some b ∧ b < c := by
  unfold exceedsBound at h
  cases hb : w.bound with
  | none =>
      rw [hb] at h
      exact absurd h (by simp only [Option.any_none, Bool.false_eq_true, not_false_eq_true])
  | some b =>
      rw [hb, Option.any_some, decide_eq_true_eq] at h
      exact ⟨b, rfl, h⟩

-- Tightening a bound takes the lesser of two costs.
theorem tightened_cases (bound : Option K) (total : K) :
    ∃ b, tightened bound total = some b ∧ b ≤ total ∧ (b = total ∨ bound = some b) ∧
      ∀ b', bound = some b' → b ≤ b' := by
  unfold tightened
  cases bound with
  | none =>
      exact ⟨total, if_pos (le_refl total), le_refl total, Or.inl rfl,
        fun b' hb' => absurd hb' (by simp only [reduceCtorEq, not_false_eq_true])⟩
  | some least =>
      by_cases h : total < least
      · refine ⟨total, if_pos h, le_refl total, Or.inl rfl, fun b' hb' => ?_⟩
        rw [Option.some.injEq] at hb'
        exact hb' ▸ le_of_lt h
      · refine ⟨least, if_neg h, le_of_not_gt h, Or.inr rfl, fun b' hb' => ?_⟩
        rw [Option.some.injEq] at hb'
        exact le_of_eq hb'

-- The bound after storing a label: the one before, or a tighter one of which
-- the label at a destination is the reason.
theorem Stored.bound_cases {l : Label K} (h : Stored t w l w') (hf : w.Fits t) :
    w'.bound = w.bound ∨ ∃ e b, w.egress[l.routeStop]? = some (some e) ∧ w'.bound = some b ∧
      (b = l.cost + e.cost ∨ w.bound = some b) ∧ ∀ b', w.bound = some b' → b ≤ b' := by
  rcases hf.egress_exists h.lt_size with ⟨e, he⟩
  cases e with
  | none => exact Or.inl (h.bound_other he)
  | some e =>
      rcases tightened_cases w.bound (l.cost + e.cost) with ⟨b, hb, -, hcases, hle⟩
      exact Or.inr ⟨e, b, he, (h.bound_destination e he).trans hb, hcases, hle⟩

theorem Stored.bound_le {l : Label K} (h : Stored t w l w') (hf : w.Fits t) {b : K}
    (hb : w.bound = some b) : ∃ b', w'.bound = some b' ∧ b' ≤ b := by
  rcases h.bound_cases hf with heq | ⟨e, b', -, hb', -, hle⟩
  · exact ⟨b, heq.trans hb, le_refl b⟩
  · exact ⟨b', hb', hle b hb⟩

/-- What was offered is covered, whether it was stored or turned down. -/
theorem Offered.covered {l : Label K} (h : Offered t w l w') : w'.Covered l.routeStop l.cost := by
  cases h with
  | exceeded h =>
      rcases exceedsBound_eq_true h with ⟨b, hb, hlt⟩
      exact Or.inl ⟨b, hb, WithTop.coe_le_coe.mpr (le_of_lt hlt)⟩
  | kept h hkept =>
      exact h.covered.mono (WithTop.coe_le_coe.mpr (Label.le_of_not_isBeatenBy hkept))
  | stored h => exact h.holds_self.covered

namespace Event

theorem covered (h : Event t policy q w w') (hf : w.Fits t) {i : Nat} {c : WithTop K}
    (hc : w.Covered i c) : w'.Covered i c := by
  cases h.effect with
  | quiet h =>
      rcases hc with ⟨b, hb, hle⟩ | ⟨id, l, hl, hle⟩
      · exact Or.inl ⟨b, h.bound.trans hb, hle⟩
      · exact Or.inr ⟨id, l, (h.holds_iff i id l).mpr hl, hle⟩
  | @stored stored _ legal hs hbeaten =>
      rcases hc with ⟨b, hb, hle⟩ | ⟨id, l, hl, hle⟩
      · rcases hs.bound_le hf hb with ⟨b', hb', hle'⟩
        exact Or.inl ⟨b', hb', le_trans (WithTop.coe_le_coe.mpr hle') hle⟩
      · -- The route-stop keeps its label or holds a better one.
        by_cases hi : i = stored.routeStop
        · subst hi
          exact hs.holds_self.covered.mono
            (le_trans (WithTop.coe_le_coe.mpr (Label.le_of_isBeatenBy (hbeaten id l hl))) hle)
        · exact (hs.holds_of_ne hi hl).covered.mono hle
  | egress => exact hc

theorem leaves (h : Event t policy q w w') {i : Nat} {c : K} (hc : w.Leaves i c) :
    w'.Leaves i c := by
  rcases hc with ⟨e, he, hle⟩
  cases h.effect with
  | quiet h => exact ⟨e, by rw [h.egress]; exact he, hle⟩
  | stored legal h => exact ⟨e, by rw [h.egress]; exact he, hle⟩
  | egress candidate stop written marked cheaper =>
      -- A way on is only replaced by a cheaper one.
      have hget := (write?_eq_some written).2.2 i
      split at hget
      · rename_i hi
        subst hi
        exact ⟨_, hget, le_trans (le_of_lt (cheaper e he)) hle⟩
      · exact ⟨e, hget.trans he, hle⟩

variable [IsStrictOrderedRing K]

theorem boundTold (h : Event t policy q w w') (hf : w.Fits t) (hb : w.BoundTold) :
    w'.BoundTold := by
  intro b hbound
  cases h.effect with
  | quiet h =>
      rw [h.bound] at hbound
      rcases hb b hbound with ⟨i, id, l, e, hl, he, hle⟩
      exact ⟨i, id, l, e, (h.holds_iff i id l).mpr hl, by rw [h.egress]; exact he, hle⟩
  | @stored stored _ legal hs hbeaten =>
      -- If the bound is the old one, its reason may have been replaced by a better label.
      have hbefore : w.bound = some b → ∃ i id l e, w'.Holds i id l ∧
          w'.egress[i]? = some (some e) ∧ l.cost + e.cost ≤ b := by
        intro hbound
        rcases hb b hbound with ⟨i, id, l, e, hl, he, hle⟩
        by_cases hi : i = stored.routeStop
        · subst hi
          refine ⟨_, _, _, e, hs.holds_self, by rw [hs.egress]; exact he, ?_⟩
          exact le_trans (add_le_add_left (Label.le_of_isBeatenBy (hbeaten id l hl)) _) hle
        · exact ⟨i, id, l, e, hs.holds_of_ne hi hl, by rw [hs.egress]; exact he, hle⟩
      rcases hs.bound_cases hf with heq | ⟨e, b', he, hb', hcases, -⟩
      · exact hbefore (heq.symm.trans hbound)
      · rw [hbound, Option.some.injEq] at hb'
        subst hb'
        -- A bound that is new is told by the label that made it so.
        rcases hcases with rfl | hcases
        · exact ⟨_, _, _, e, hs.holds_self, by rw [hs.egress]; exact he, le_refl _⟩
        · exact hbefore hcases
  | egress candidate stop written marked cheaper =>
      rcases hb b hbound with ⟨i, id, l, e, hl, he, hle⟩
      have hget := (write?_eq_some written).2.2 i
      split at hget
      · rename_i hi
        subst hi
        exact ⟨_, id, l, _, hl, hget, le_trans (add_le_add_right (le_of_lt (cheaper e he)) _) hle⟩
      · exact ⟨i, id, l, e, hl, hget.trans he, hle⟩

end Event

namespace Run

theorem covered (h : Run t policy q w w') (hf : w.Fits t) {i : Nat} {c : WithTop K}
    (hc : w.Covered i c) : w'.Covered i c :=
  (h.invariant (fun w => w.Fits t ∧ w.Covered i c)
    (fun _ _ hevent hw => ⟨hevent.fits hw.1, hevent.covered hw.1 hw.2⟩) ⟨hf, hc⟩).2

theorem leaves (h : Run t policy q w w') {i : Nat} {c : K} (hc : w.Leaves i c) : w'.Leaves i c :=
  h.invariant (fun w => w.Leaves i c) (fun _ _ hevent hw => hevent.leaves hw) hc

theorem boundTold [IsStrictOrderedRing K] (h : Run t policy q w w') (hf : w.Fits t)
    (hb : w.BoundTold) : w'.BoundTold :=
  (h.invariant (fun w => w.Fits t ∧ w.BoundTold)
    (fun _ _ hevent hw => ⟨hevent.fits hw.1, hevent.boundTold hw.1 hw.2⟩) ⟨hf, hb⟩).2

end Run

theorem Clean.boundTold (h : w.Clean) : w.BoundTold := by
  intro b hb
  rw [h.bound] at hb
  exact absurd hb (by simp only [reduceCtorEq, not_false_eq_true])

end Workspace

end Journey
