import Journey.Planar

/-!
# Access Legs

The way between a facility and a stop with an access mode.

A leg has a part that is travelled with the mode and, at either end, possibly a
stage on foot: to where the vehicle is fetched, and from where it is left. Legs
are found in a straight line at a constant speed. A mode without a positive
speed connects nothing.

## Main definitions

* `AccessLeg`: The way between a facility and a stop.
* `AccessLeg.reversed`: The same way in the other direction.
* `LegRouter`: How the legs of a mode are found.
* `LegRouter.route?`: The leg between two places.
-/

namespace Journey

/-- The way between a facility and a stop with an access mode. -/
structure AccessLeg (α : Type) where
  /-- How far the mode is used, in metres. -/
  distance : α
  /-- The stage on foot before the mode is used. -/
  stageBefore : Option α
  /-- The stage on foot after the mode was used. -/
  stageAfter : Option α
  /-- How long the mode is used, in seconds. -/
  travelTime : α
deriving DecidableEq, Repr

/-- How the legs of a mode are found: in a straight line at a constant
    speed. -/
structure LegRouter (α : Type) where
  /-- In metres per second. -/
  speed : α
  /-- The ratio of travelled distance to distance. -/
  distanceFactor : α
  stageBefore : Option α
  stageAfter : Option α
deriving DecidableEq, Repr

namespace AccessLeg

variable {α : Type}

/-- The same leg travelled in the other direction. -/
def reversed (l : AccessLeg α) : AccessLeg α :=
  { l with stageBefore := l.stageAfter, stageAfter := l.stageBefore }

variable [Scalar α]

/-- How long the stages on foot take. -/
def stageTime (l : AccessLeg α) : α := l.stageBefore.getD 0 + l.stageAfter.getD 0

/-- How long the leg takes from door to door. -/
def totalTime (l : AccessLeg α) : α := l.travelTime + l.stageTime

end AccessLeg

namespace LegRouter

variable {α : Type} [Scalar α] [Planar α]

/-- The leg from one place to another, unless the speed is not positive. The
    mode is used for whole seconds, rounded up. -/
def route? (r : LegRouter α) (origin target : Point α) : Option (AccessLeg α) :=
  if 0 < r.speed then
    let distance := origin.distance target * r.distanceFactor
    some {
      distance
      stageBefore := r.stageBefore
      stageAfter := r.stageAfter
      travelTime := Planar.ceiling (distance / r.speed) }
  else none

end LegRouter

end Journey
