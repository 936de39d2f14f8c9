import Journey.Scalar
import Journey.Binary64

/-!
# Points of the Plane

Stops and facilities lie in a projected, metric plane.

Distances and walking times need three operations that ordered arithmetic does
not have: the length of a vector, a square root and rounding up. They are kept
in a class of their own, apart from `Scalar`, so that whatever does not measure
anything does not depend on them, and so that they may be chosen freely where
only arithmetic matters. How far a place can be from the origin belongs to them.

## Main definitions

* `Planar`: The operations of measuring.
* `Point`: A place in the plane.
* `Point.distance`: The distance of two points.
* `Point.squaredDistance`: Its square, without a root.
-/

namespace Journey

/-- The operations of measuring. No law is assumed. -/
class Planar (α : Type) where
  /-- The length of the vector with the given components. -/
  hypotenuse : α → α → α
  /-- The square root. -/
  squareRoot : α → α
  /-- The least whole number not below. -/
  ceiling : α → α
  /-- The largest number, if there is one. -/
  largest? : Option α

/-- Measuring in floating point rounds once. -/
instance : Planar Float where
  hypotenuse := Binary64.hypotenuse
  squareRoot := Float.sqrt
  ceiling := Binary64.ceiling
  largest? := some 1.7976931348623157e308

/-- A place in the plane. -/
structure Point (α : Type) where
  x : α
  y : α
deriving DecidableEq, Repr

namespace Point

variable {α : Type} [Scalar α]

/-- The distance of two points. -/
def distance [Planar α] (a b : Point α) : α := Planar.hypotenuse (a.x - b.x) (a.y - b.y)

/-- The square of the distance of two points, computed without a root. -/
def squaredDistance (a b : Point α) : α :=
  let dx := a.x - b.x
  let dy := a.y - b.y
  dx * dx + dy * dy

/-- Whether both components are numbers. -/
def isFinite (p : Point α) : Bool := Scalar.isFinite p.x && Scalar.isFinite p.y

/-- Whether two points have the same components. -/
def same (a b : Point α) : Bool := Scalar.same a.x b.x && Scalar.same a.y b.y

end Point

end Journey
