import Journey.Timetable

/-!
# Markers

Indices at places, and what is asked of a tree of them.

A tree is made from some markers once and then answers where they are. It is
that of a library, so everything that looks stops up is written over a class of
trees, and what a tree may be relied on for is a matter of its own. A tree hands
out the markers it was made from, and never any others.

## Main definitions

* `Marker`: An index at a place.
* `MarkerTree`: What a tree of markers answers.
* `Stop.markers`: The stops of a table as markers.
-/

namespace Journey

/-- An index at a place. -/
structure Marker (α : Type) where
  index : Nat
  position : Point α

namespace Marker

variable {α : Type} [Scalar α]

/-- The square of the distance of a marker from a place. -/
def squaredDistance (m : Marker α) (center : Point α) : α := m.position.squaredDistance center

end Marker

/-- What a tree of markers answers. No law is assumed. -/
class MarkerTree (α : Type) where
  /-- The markers whose squared distance from a place is at most a bound, in any
      order. -/
  located : (markers : List (Marker α)) → (center : Point α) → (bound : α) →
    List { m : Marker α // m ∈ markers }
  /-- A marker that none is nearer to a place than, if there are any markers.
      There need not be an answer where distances cannot be compared. -/
  neighbour? : (markers : List (Marker α)) → (center : Point α) →
    Option (Option { m : Marker α // m ∈ markers })

namespace Stop

/-- The stops of a table as markers at their positions, by increasing index. -/
def markers {α : Type} (stops : Array (Stop α)) : List (Marker α) :=
  stops.toList.zipIdx.map fun (stop, index) => ⟨index, stop.position⟩

end Stop

end Journey
