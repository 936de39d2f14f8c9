import Journey.Timetable.Marker

/-!
# Locators

Which stops are near a place, and which one is nearest.

Both questions are put to a tree of markers, which compares squared distances.
A marker exactly at the radius counts as near. A tree answers in any order, and
with any of several nearest markers. So what it finds is sorted, and of the
markers that are as near as the one it yields the first one is taken. Neither
answer depends on how the tree was made.

## Main definitions

* `Locator`: Markers that can be looked up.
* `Locator.within`: The markers in a circle.
* `Locator.nearest?`: The nearest marker and its distance.
* `Timetable.stopsWithin`, `Timetable.nearestStop?`: The same for stops.
-/

namespace Journey

/-- Markers that can be looked up by place. -/
structure Locator (α : Type) where
  markers : List (Marker α)

namespace Locator

/-- Put an index into its place among some that are in order. -/
def insertIndex (index : Nat) : List Nat → List Nat
  | [] => [index]
  | head :: rest =>
    if index ≤ head then index :: head :: rest else head :: insertIndex index rest

/-- Indices in increasing order. -/
def sortIndices (indices : List Nat) : List Nat := indices.foldr insertIndex []

/-- The locator of the stops of a table. -/
def ofStops {α : Type} (stops : Array (Stop α)) : Locator α := { markers := Stop.markers stops }

variable {α : Type} [Scalar α] [MarkerTree α]

/-- The markers at most `radius` away, by increasing index. A circle needs a
    radius that is not negative. -/
def within (l : Locator α) (center : Point α) (radius : α) : List Nat :=
  if 0 ≤ radius then
    sortIndices ((MarkerTree.located l.markers center (radius * radius)).map (·.val.index))
  else []

/-- The first of the markers that are as near as the one that a tree yields. -/
def firstNearest (l : Locator α) (center : Point α) (m : Marker α) : Nat :=
  let bound := m.squaredDistance center
  let nearest := (MarkerTree.located l.markers center bound).filter fun other =>
    other.val.squaredDistance center ≤ bound
  (nearest.map (·.val.index)).min?.getD m.index

/-- The nearest marker and its distance, if there are any markers. Of several
    nearest markers it is the one with the least index. -/
def nearest? [Planar α] (l : Locator α) (center : Point α) : Option (Option (Nat × α)) :=
  (MarkerTree.neighbour? l.markers center).map fun nearest =>
    nearest.map fun m =>
      (l.firstNearest center m.val, Planar.squareRoot (m.val.squaredDistance center))

end Locator

namespace Timetable

variable {α : Type} [Scalar α] [MarkerTree α]

/-- The stops at most `radius` away from a place, by increasing index. -/
def stopsWithin (t : Timetable α) (center : Point α) (radius : α) : List Nat :=
  (Locator.ofStops t.stops).within center radius

/-- The stop nearest to a place and its distance. There is none if there are no
    stops, and there may be no answer if the place is nowhere. -/
def nearestStop? [Planar α] (t : Timetable α) (center : Point α) : Option (Option (Nat × α)) :=
  (Locator.ofStops t.stops).nearest? center

end Timetable

end Journey
