import Journey.Access.Request

/-!
# Walking Access

Walking in a straight line to the stops around a facility.

If there are fewer than two stops within the search radius, one looks as far as
the nearest stop and a bit further. From a facility that is nowhere it cannot be
told which stop that is. A walk takes whole seconds, rounded up.

## Main definitions

* `Walking.candidates?`: The stops within walking distance.
-/

namespace Journey

namespace Walking

variable {α : Type} [Scalar α] [Planar α] [MarkerTree α]

/-- The stops to walk to. -/
def stops? (t : Timetable α) (p : Parameters α) (center : Point α) : Option (List Nat) :=
  let near := t.stopsWithin center p.searchRadius
  if near.length < 2 then
    (t.nearestStop? center).map fun nearest =>
      match nearest with
      | some (_, distance) => t.stopsWithin center (distance + p.extensionRadius)
      | none => near
  else some near

/-- The walk between a facility and a stop. -/
def candidate (p : Parameters α) (center : Point α) (index : Nat) (stop : Stop α) : Candidate α :=
  let distance := stop.position.distance center
  let time := Planar.ceiling (distance / p.walkSpeed)
  { stop := index
    time
    cost := time * p.accessModeCost Mode.nonNetworkWalk
    distance := distance * p.distanceFactor
    mode := Mode.nonNetworkWalk }

/-- The stops within walking distance, by increasing index. -/
def candidates? (t : Timetable α) (r : AccessRequest α) : Option (List (Candidate α)) :=
  let center := r.facility.position
  (stops? t r.parameters center).map fun indices =>
    (t.stopRows indices).map fun (index, stop) => candidate r.parameters center index stop

end Walking

end Journey
