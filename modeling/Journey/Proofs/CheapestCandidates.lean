import Mathlib.Order.Basic
import Journey.Candidate

/-!
# Cheapest Candidates

Of several candidates at a stop the cheapest one, and of equally cheap ones the first.

This is how the ways to a stop are chosen everywhere: a candidate that is offered takes
the place of what there is only if it is cheaper. The offers come with numbers that
say what "first" means. For the candidates of a query these are their positions, and for
the candidates of several modes the positions of the modes.

`Cheapest` speaks about the offers made so far, and there is one lemma for each of the
three things that can become of one more offer.

## Main definitions

* `Candidate.Cheapest`: The cheapest of the candidates at a stop.

## Theorems

* `Candidate.Cheapest.elsewhere`: An offer at another stop changes nothing.
* `Candidate.Cheapest.stays`: An offer that is no cheaper comes too late.
* `Candidate.Cheapest.of_forall_lt`: An offer that is cheaper than all others prevails.
-/

namespace Journey

namespace Candidate

variable {α : Type} [Preorder α] {offers : List (Candidate α × Nat)} {stop : Nat}
  {c : Candidate α} {k : Nat} {x : Candidate α × Nat}

/-- A candidate with its number is the cheapest one at a stop, and the first of equally
    cheap candidates. -/
structure Cheapest (offers : List (Candidate α × Nat)) (stop : Nat) (c : Candidate α) (k : Nat) :
    Prop where
  offered : (c, k) ∈ offers
  lies : c.stop = stop
  least : ∀ x ∈ offers, x.1.stop = stop → c.cost ≤ x.1.cost
  first : ∀ x ∈ offers, x.1.stop = stop → x.2 < k → c.cost < x.1.cost

namespace Cheapest

theorem elsewhere (h : Cheapest offers stop c k) (hx : x.1.stop ≠ stop) :
    Cheapest (offers ++ [x]) stop c k := by
  refine ⟨List.mem_append_left _ h.offered, h.lies, fun y hy hs => ?_, fun y hy hs hlt => ?_⟩
  · rcases List.mem_append.mp hy with hy | hy
    · exact h.least y hy hs
    · exact absurd (List.mem_singleton.mp hy ▸ hs) hx
  · rcases List.mem_append.mp hy with hy | hy
    · exact h.first y hy hs hlt
    · exact absurd (List.mem_singleton.mp hy ▸ hs) hx

theorem stays (h : Cheapest offers stop c k) (hx : c.cost ≤ x.1.cost) (hk : k ≤ x.2) :
    Cheapest (offers ++ [x]) stop c k := by
  refine ⟨List.mem_append_left _ h.offered, h.lies, fun y hy hs => ?_, fun y hy hs hlt => ?_⟩
  · rcases List.mem_append.mp hy with hy | hy
    · exact h.least y hy hs
    · rw [List.mem_singleton.mp hy]
      exact hx
  · rcases List.mem_append.mp hy with hy | hy
    · exact h.first y hy hs hlt
    · rw [List.mem_singleton.mp hy] at hlt
      exact absurd hlt (Nat.not_lt_of_le hk)

theorem of_forall_lt (hx : x.1.stop = stop)
    (hless : ∀ y ∈ offers, y.1.stop = stop → x.1.cost < y.1.cost) :
    Cheapest (offers ++ [x]) stop x.1 x.2 := by
  refine ⟨List.mem_append_right _ (List.mem_singleton.mpr rfl), hx, fun y hy hs => ?_,
    fun y hy hs hlt => ?_⟩
  · rcases List.mem_append.mp hy with hy | hy
    · exact le_of_lt (hless y hy hs)
    · rw [List.mem_singleton.mp hy]
  · rcases List.mem_append.mp hy with hy | hy
    · exact hless y hy hs
    · rw [List.mem_singleton.mp hy] at hlt
      exact absurd hlt (Nat.lt_irrefl _)

-- In particular if it is cheaper than the cheapest one.
theorem replaced (h : Cheapest offers stop c k) (hx : x.1.stop = stop)
    (hlt : x.1.cost < c.cost) : Cheapest (offers ++ [x]) stop x.1 x.2 :=
  of_forall_lt hx fun y hy hs => lt_of_lt_of_le hlt (h.least y hy hs)

end Cheapest

end Candidate

end Journey
