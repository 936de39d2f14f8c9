import Mathlib.Algebra.Order.Field.Rat
import Mathlib.Algebra.Order.Floor.Ring
import Mathlib.Data.Rat.Floor
import Mathlib.Data.Rat.Sqrt
import Journey.Proofs.Exact
import Journey.Timetable.Assembly
import Journey.Timetable.PackedTree
import Journey.Search.Engine

/-!
# Sample Networks

Networks small enough to be searched by evaluation.

What is said of all timetables is vacuous if no timetable satisfies it, and what
is said not to hold needs a network on which it fails. Both are shown on networks
over the rational numbers. Their stops lie on a line, at intervals of one
kilometre, so every distance is rational; all their vehicles leave a stop when
they arrive; and every second costs one unit, however it is spent.

## Main definitions

* `Sample.line`, `Sample.network`: A line by its stops and times, and a network
  by its lines.
* `Sample.query`: A query by its candidates.
* `Sample.changeover`, `Sample.trip`: A network with one change of vehicles, and
  the query that needs it.
* `Sample.answer`: What a new engine answers.

## Theorems

* `Sample.hypotenuse_nonneg`: Lengths are not negative.
* `Sample.build_eq_ok`: A draft without defects becomes a timetable.
* `Sample.search?_of_answer`: Where an answer comes from.
-/

namespace Journey

namespace Sample

/-- Measuring along the axes, which is exact for points on one of them. -/
instance : Planar ℚ where
  hypotenuse x y := |x| + |y|
  squareRoot := Rat.sqrt
  ceiling x := (⌈x⌉ : ℤ)
  largest? := none

/-- Stops are looked up in the tree that is used with floating point. -/
instance : MarkerTree ℚ := MarkerTree.packed

theorem hypotenuse_nonneg (x y : ℚ) : 0 ≤ Planar.hypotenuse x y :=
  add_nonneg (abs_nonneg x) (abs_nonneg y)

/-- A line whose vehicles leave at the given times and take the given time to
    each of its stops. -/
def line (name : String) (calls : List (String × ℚ)) (times : List ℚ) : RoutePlan ℚ :=
  { id := ⟨name⟩
    line := ⟨name⟩
    mode := ⟨"bus"⟩
    calls := calls.map fun (stop, offset) => ⟨⟨stop⟩, offset, offset⟩
    trips := times.map fun time => ⟨name, time⟩ }

/-- Stops in a row, with lines and footpaths between them. At every stop
    vehicles can be changed. -/
def network (stops : List String) (lines : List (RoutePlan ℚ))
    (footpaths : List (String × String × ℚ)) : Draft ℚ :=
  { stops := (stops.zipIdx.map fun (name, position) =>
      ⟨⟨name⟩, name, ⟨1000 * (position : ℚ), 0⟩, ⟨[]⟩⟩).toArray
    routes := lines.toArray
    footpaths := (footpaths.map fun (origin, target, duration) =>
      ⟨⟨origin⟩, ⟨target⟩, duration⟩).toArray
    intraStop := true
    footpathRule := none }

/-- A candidate for access or egress that takes no time. -/
def candidate (stop : Nat) (cost : ℚ) : Candidate ℚ :=
  { stop, time := 0, cost, distance := 0, mode := Mode.walk }

/-- Parameters by which every second costs one unit. -/
def parameters : Parameters ℚ :=
  { inVehicleUtility := -3600
    waitingUtility := -3600
    walkUtility := -3600
    accessModeUtilities := ⟨[]⟩
    transferPenalty := ⟨0, 0, none, none⟩
    walkSpeed := 1
    distanceFactor := 1
    searchRadius := 0
    extensionRadius := 0
    minTransferTime := 0
    maxTransfers := 0 }

/-- A query for leaving at time zero. -/
def query (access egress : List (Candidate ℚ)) (maxTransfers : Nat) : SearchQuery ℚ :=
  { departureTime := 0, access, egress, maxTransfers, parameters }

theorem build_eq_ok {α : Type} [Scalar α] [Planar α] [MarkerTree α] {d : Draft α}
    (h : d.defect?.isNone) : d.build = .ok d.assemble := by
  unfold Draft.build
  rw [Option.isNone_iff_eq_none.mp h]

/-- Two lines with one vehicle each, and a footpath from where the first one ends
    to where the second one begins. -/
def changeover : Draft ℚ :=
  network ["A", "B", "C", "E"]
    [line "one" [("A", 0), ("B", 10)] [0], line "two" [("C", 0), ("E", 10)] [50]] [("B", "C", 0)]

/-- From the beginning of the first line to the end of the second. -/
def trip : SearchQuery ℚ := query [candidate 0 0] [candidate 3 0] 1

theorem build_changeover : changeover.build = .ok changeover.assemble :=
  build_eq_ok (by decide +kernel)

/-- What a new engine answers: whether there is an answer, and the cost of the
    itinerary if there is one. -/
def answer (d : Draft ℚ) (q : SearchQuery ℚ) : Option (Option ℚ) :=
  ((Engine.new d.assemble (TransferPolicy.flat 0)).search? q).map fun r => r.2.map (·.totalCost)

theorem search?_of_answer {d : Draft ℚ} {q : SearchQuery ℚ} {cost : Option ℚ}
    (h : answer d q = some cost) : ∃ e' found,
      (Engine.new d.assemble (TransferPolicy.flat 0)).search? q = some (e', found) ∧
        found.map (·.totalCost) = cost := by
  unfold answer at h
  rcases Option.map_eq_some_iff.mp h with ⟨⟨e', found⟩, hsearch, hcost⟩
  exact ⟨e', found, hsearch, hcost⟩

end Sample

end Journey
