import Journey.Proofs.Exact
import Journey.Proofs.Timetable.WellFormed
import Journey.Search.Workspace

/-!
# Journeys

What a traveller can do, whatever a search finds.

To say that a search is right one needs a notion of a journey that does not
mention labels. A traveller comes to a route-stop as an access candidate says,
rides on any vehicle that has not left, and walks along one footpath between two
rides. `Travels` is this relation. It counts the rides, because a search is only
asked for so many, and it tells whether the traveller has just left a vehicle,
because walks do not follow one another.

The places of a journey are route-stops. A stop that no route visits is nowhere
on a journey, nor is it anywhere in a search.

## Main definitions

* `Footpath.time`, `Footpath.cost`: What walking along a footpath takes and
  costs.
* `Timetable.Travels`: Where a traveller can be at a time.
* `Timetable.anywhere`: Vehicles may be changed everywhere.

## Theorems

* `Timetable.Travels.exists_ride`: A traveller who leaves a vehicle boarded it.
-/

namespace Journey

namespace Footpath

variable {α : Type} [Scalar α]

/-- What walking along a footpath takes. -/
def time (p : Parameters α) (f : Footpath α) : α := Scalar.larger f.duration p.minTransferTime

/-- What walking along a footpath costs at a flat price of transfers. -/
def cost (p : Parameters α) (price : α) (f : Footpath α) : α := f.time p * p.walkCost + price

section Exact

variable {K : Type} [Field K] [LinearOrder K] {p : Parameters K} {f : Footpath K}

theorem time_nonneg (h : 0 ≤ f.duration) : 0 ≤ f.time p := by
  unfold time
  rw [Scalar.larger_eq_max]
  exact le_max_of_le_left h

theorem cost_nonneg [IsStrictOrderedRing K] (h : 0 ≤ f.duration) (hwalk : 0 ≤ p.walkCost)
    {price : K} (hprice : 0 ≤ price) : 0 ≤ f.cost p price :=
  add_nonneg (mul_nonneg (time_nonneg h) hwalk) hprice

end Exact

end Footpath

namespace Timetable

variable {α : Type} [Scalar α] {t : Timetable α} {q : SearchQuery α} {change : Nat → Nat → Prop}

/-- After a number of rides a traveller can be at a route-stop at a time, either
    having just left a vehicle there or not. The relation `change` says between
    which route-stops vehicles may be changed. -/
inductive Travels (t : Timetable α) (q : SearchQuery α) (change : Nat → Nat → Prop) :
    (rides : Nat) → (alighted : Bool) → (routeStop : Nat) → (time : α) → Prop where
  /-- From the facility to a stop. -/
  | access {c : Candidate α} {i : Nat} (candidate : c ∈ q.access)
      (stop : t.stopOf? i = some c.stop) : Travels t q change 0 false i (q.departureTime + c.time)
  /-- With a vehicle that leaves at the time or later. -/
  | ride {n d i j : Nat} {T departs arrives : α} (before : Travels t q change n false i T)
      (serves : t.Serves d i) (departure : t.departure? d i = some departs) (caught : T ≤ departs)
      (ahead : t.Ahead i j) (arrival : t.arrival? d j = some arrives) :
      Travels t q change (n + 1) true j arrives
  /-- On foot from a vehicle. -/
  | walk {n i j : Nat} {T : α} {f : Footpath α} (before : Travels t q change n true i T)
      (path : t.Leads f i j) (allowed : change i j) :
      Travels t q change n false j (T + f.time q.parameters)

/-- Vehicles may be changed everywhere. -/
def anywhere (_ _ : Nat) : Prop := True

/-- A traveller who has just left a vehicle had boarded it. -/
theorem Travels.exists_ride {n j : Nat} {T : α} (h : Travels t q change n true j T) :
    ∃ m d i T' departs, n = m + 1 ∧ Travels t q change m false i T' ∧ t.Serves d i ∧
      t.departure? d i = some departs ∧ T' ≤ departs ∧ t.Ahead i j ∧ t.arrival? d j = some T := by
  cases h with
  | @ride m d i _ T' departs _ before serves departure caught ahead arrival =>
      exact ⟨m, d, i, T', departs, rfl, before, serves, departure, caught, ahead, arrival⟩

end Timetable

end Journey
