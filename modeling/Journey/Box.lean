import Journey.Planar

/-!
# Boxes

Rectangles along the axes, and how far they are from a point.

A box around points is never further from a place than any of the points, so a
search can leave out all of them at once. That holds as long as coordinates can
be compared: one that is not a number replaces a side of the box and is itself
replaced by the next coordinate, and a side at infinity is at no distance that
could be told from a place that is infinitely far away in the same direction.

A box grows from one without points, whose lower sides are at the largest number
and whose upper sides are at the smallest. So a box around points that are all
infinitely far away in one direction begins at the largest number.

## Main definitions

* `Box`: A rectangle.
* `Box.around?`: The box around some points.
* `Box.squaredDistance`: The square of the distance from a point.
-/

namespace Journey

/-- A rectangle along the axes. -/
structure Box (α : Type) where
  lower : Point α
  upper : Point α
deriving DecidableEq, Repr

namespace Box

variable {α : Type} [Scalar α] [Planar α]

/-- The first of two coordinates if it is less, and otherwise the second. -/
def lesser (a b : α) : α := if a < b then a else b

/-- The first of two coordinates if it is greater, and otherwise the second. -/
def greater (a b : α) : α := if b < a then a else b

/-- A coordinate as a lower side, which is at most the largest number. -/
def lowerSide (x : α) : α :=
  match (Planar.largest? : Option α) with
  | some largest => lesser largest x
  | none => x

/-- A coordinate as an upper side, which is at least the smallest number. -/
def upperSide (x : α) : α :=
  match (Planar.largest? : Option α) with
  | some largest => greater (-largest) x
  | none => x

/-- The box around a point. -/
def ofPoint (p : Point α) : Box α :=
  { lower := ⟨lowerSide p.x, lowerSide p.y⟩, upper := ⟨upperSide p.x, upperSide p.y⟩ }

/-- Extend a box to a point. -/
def extend (b : Box α) (p : Point α) : Box α :=
  { lower := ⟨lesser b.lower.x p.x, lesser b.lower.y p.y⟩
    upper := ⟨greater b.upper.x p.x, greater b.upper.y p.y⟩ }

/-- The box around some points, if there are any. -/
def around? : List (Point α) → Option (Box α)
  | [] => none
  | p :: rest => some (rest.foldl extend (ofPoint p))

/-- Whether a point lies in a box. -/
def contains (b : Box α) (p : Point α) : Bool :=
  decide (b.lower.x ≤ p.x) && decide (b.lower.y ≤ p.y)
    && decide (p.x ≤ b.upper.x) && decide (p.y ≤ b.upper.y)

/-- The point of a box that is nearest to a point. -/
def clamp (b : Box α) (p : Point α) : Point α :=
  { x := lesser b.upper.x (greater b.lower.x p.x)
    y := lesser b.upper.y (greater b.lower.y p.y) }

/-- The square of the distance of a box from a point. -/
def squaredDistance (b : Box α) (p : Point α) : α :=
  if b.contains p then 0 else (b.clamp p).squaredDistance p

end Box

end Journey
