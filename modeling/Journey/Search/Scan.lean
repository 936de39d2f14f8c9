import Journey.Search.Workspace

/-!
# Scanning a Route

Riding the vehicles of one route from the route-stops reached earlier.

A scan follows a route from its first improved route-stop to its end and holds
the earliest vehicle that it could have boarded on the way. Where an earlier
vehicle can be boarded than the one held, that one is held from then on and the
route-stop keeps its label. Everywhere else the vehicle held is left, which
makes a label if it is not too expensive and better than the one there.

## Main definitions

* `Boarding`: The vehicle held and how it was boarded.
* `Workspace.board?`: Boarding an earlier vehicle.
* `Workspace.alight?`: Leaving the vehicle held.
* `Workspace.scanRoute?`: The scan of a route.
-/

namespace Journey

/-- The vehicle held and how it was boarded. -/
structure Boarding (α : Type) where
  routeStop : Nat
  /-- The label of the route-stop at boarding. -/
  label : Nat
  trip : Nat
  /-- When the traveller enters: on arrival, or when the vehicle arrives. -/
  enterTime : α
  waitingTime : α
  /-- The cost of the label. -/
  cost : α
  /-- The transfer cost of the label. -/
  transferCost : α
  /-- The transfers of the label. -/
  transfers : Nat
deriving DecidableEq, Repr

namespace Boarding

variable {α : Type} [Scalar α]

/-- Boarding the vehicle of a trip, which arrives at the given time, from a
    label. -/
def ofLabel (id : Nat) (l : Label α) (trip : Nat) (vehicleArrival : α) : Boarding α :=
  let enterTime := Scalar.larger l.time vehicleArrival
  { routeStop := l.routeStop
    label := id
    trip
    enterTime
    waitingTime := enterTime - l.time
    cost := l.cost
    transferCost := l.transferCost
    transfers := l.transfers }

/-- The cost of having ridden until the given time. -/
def costUntil (b : Boarding α) (p : Parameters α) (arrivalTime : α) : α :=
  b.cost + b.waitingTime * p.waitingCost + (arrivalTime - b.enterTime) * p.inVehicleCost

/-- The arrival at a route-stop at the given time. -/
def toLabel (b : Boarding α) (p : Parameters α) (routeStop : Nat) (boardingTime arrivalTime : α) :
    Label α :=
  { previous := some b.label
    routeStop
    step := .ride b.trip boardingTime
    time := arrivalTime
    cost := b.costUntil p arrivalTime
    transferCost := b.transferCost
    transfers := b.transfers }

end Boarding

namespace Workspace

variable {α : Type} [Scalar α]

/-- Board at a route-stop if it has a label from which an earlier vehicle can
    be boarded than the one held. -/
def board? (w : Workspace α) (t : Timetable α) (held : Option (Boarding α)) (routeStop : Nat) :
    Option (Option (Boarding α)) := do
  match ← w.best[routeStop]? with
  | none => return none
  | some id =>
    let label ← w.labels[id]?
    match ← t.nextTrip? routeStop label.time with
    | none => return none
    | some trip =>
      -- Trips are numbered in the order of leaving, so less means earlier.
      if held.any (·.trip ≤ trip) then return none
      else return some (Boarding.ofLabel id label trip (← t.arrival? trip routeStop))

/-- Leave the vehicle held at a route-stop, if that is an arrival worth
    storing. -/
def alight? (w : Workspace α) (t : Timetable α) (p : Parameters α) (b : Boarding α)
    (routeStop : Nat) : Option (Workspace α) := do
  let arrivalTime ← t.arrival? b.trip routeStop
  let cost := b.costUntil p arrivalTime
  if w.exceedsBound cost then return w
  else if ← w.improves? routeStop cost b.transfers then
    -- The vehicle may leave after the traveller has entered it.
    let boardingTime ← t.departure? b.trip b.routeStop
    let w ← w.store? (b.toLabel p routeStop boardingTime arrivalTime)
    w.markReached? routeStop
  else return w

/-- Visit a route-stop of the route. -/
def scanStop? (t : Timetable α) (p : Parameters α) (state : Workspace α × Option (Boarding α))
    (routeStop : Nat) : Option (Workspace α × Option (Boarding α)) := do
  let (w, held) := state
  match ← w.board? t held routeStop with
  -- A vehicle is not left where another one is boarded.
  | some boarding => return (w, some boarding)
  | none =>
    match held with
    | none => return (w, none)
    | some boarding => return (← w.alight? t p boarding routeStop, some boarding)

/-- Take the route-stop from which a route is to be scanned. A route without an
    improved route-stop is scanned as a whole. -/
def takeScanStart? (w : Workspace α) (route : Nat) (row : Route) : Option (Workspace α × Nat) := do
  let start ← w.scanStart[route]?
  let scanStart ← write? w.scanStart route none
  return ({ w with scanStart }, start.getD row.firstRouteStop)

/-- Scan a route. -/
def scanRoute? (t : Timetable α) (p : Parameters α) (w : Workspace α) (route : Nat) :
    Option (Workspace α) := do
  let row ← t.routes[route]?
  let (w, first) ← w.takeScanStart? route row
  -- The vehicle held at the end of the route is of no use to anyone.
  let (w, _) ← (Span.mk first row.routeStops.stop).toList.foldlM (scanStop? t p) (w, none)
  return w

end Workspace

end Journey
