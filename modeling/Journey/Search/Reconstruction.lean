import Journey.Itinerary
import Journey.Search.Workspace

/-!
# Reconstruction

From the labels of a search to an itinerary.

The best destination is the one of least total cost, and of equally good ones
the one with the fewest transfers and then the first one. The chain of its
label is told from the oldest label to the newest, each of which becomes a leg,
apart from a change of vehicles at one stop: that takes time but is no leg, and
its cost is charged to the ride that follows, or to the egress.

A chain with a gap, or one whose legs do not make a consistent trip, gives no
itinerary.

## Main definitions

* `Workspace.winner?`: The best destination.
* `Progress`: A trip told so far.
* `Progress.extend?`: Telling one more label.
* `Workspace.itinerary?`: The itinerary to the best destination.
-/

namespace Journey

/-- A way to the destination that a search has found. -/
structure Arrival (α : Type) where
  /-- The cost including the egress. -/
  totalCost : α
  /-- The position of the label at the destination. -/
  id : Nat
  label : Label α
  /-- The position of the egress candidate. -/
  candidate : Nat
deriving DecidableEq, Repr

/-- A trip told so far. -/
structure Progress (α : Type) where
  legs : List (Leg α)
  /-- When the next leg starts. -/
  time : α
  /-- The cost of changes of vehicle that has not been charged to a leg. -/
  uncharged : α
deriving DecidableEq, Repr

namespace Arrival

variable {α : Type} [Scalar α]

/-- Whether an arrival is better than another one: cheaper, or as cheap with
    fewer transfers. -/
def isBetterThan (a b : Arrival α) : Bool :=
  decide (a.totalCost < b.totalCost)
    || (Scalar.same a.totalCost b.totalCost && decide (a.label.transfers < b.label.transfers))

/-- The better one of two arrivals, the first one if neither is. -/
def better (a : Option (Arrival α)) (b : Arrival α) : Arrival α :=
  match a with
  | some a => if b.isBetterThan a then b else a
  | none => b

end Arrival

namespace Progress

variable {α : Type} [Scalar α]

/-- Before the first leg. -/
def start (departureTime : α) : Progress α := { legs := [], time := departureTime, uncharged := 0 }

/-- Add a leg that charges nothing but its own cost. -/
def addConnection {α : Type} (p : Progress α) (c : Connection α) (time : α) : Progress α :=
  { p with legs := p.legs ++ [.connection c], time }

/-- The access leg. -/
def addAccess (p : Progress α) (label : Label α) (stop : Stop α) (c : Candidate α) : Progress α :=
  p.addConnection
    { kind := .access
      origin := .origin
      target := .stop stop.id
      mode := c.mode
      departureTime := p.time
      travelTime := label.time - p.time
      distance := c.distance
      cost := c.cost } label.time

/-- A ride, which is charged with the changes of vehicle before it. -/
def addRide (p : Progress α) (boarded label : Label α) (origin target : Stop α) (route : Route)
    (trip : Trip α) (boardingTime : α) : Progress α :=
  let ride : Ride α :=
    { origin := origin.id
      target := target.id
      line := route.line
      route := route.id
      mode := route.mode
      trip := trip.id
      departureTime := boardingTime
      arrivalTime := label.time
      -- Labels carry sums, so the ride alone is the difference.
      cost := label.cost - boarded.cost + p.uncharged }
  { legs := p.legs ++ [.ride ride], time := label.time, uncharged := 0 }

/-- A walk between two different stops. -/
def addWalk [Planar α] (p : Progress α) (label : Label α) (origin target : Stop α)
    (duration cost : α) : Progress α :=
  p.addConnection
    { kind := .transfer
      origin := .stop origin.id
      target := .stop target.id
      mode := Mode.transitWalk
      departureTime := p.time
      travelTime := duration
      distance := origin.position.distance target.position
      cost } label.time

/-- A change of vehicles at one stop. -/
def addChange (p : Progress α) (label : Label α) (cost : α) : Progress α :=
  { p with time := label.time, uncharged := p.uncharged + cost }

/-- The egress leg, which is charged with the changes of vehicle before it. -/
def addEgress (p : Progress α) (stop : Stop α) (c : Candidate α) : List (Leg α) :=
  p.legs ++ [.connection
    { kind := .egress
      origin := .stop stop.id
      target := .destination
      mode := c.mode
      departureTime := p.time
      travelTime := c.time
      distance := c.distance
      cost := c.cost + p.uncharged }]

/-- Tell one more label. There is a gap if the label it extends is missing. -/
def extend? [Planar α] (t : Timetable α) (q : SearchQuery α) (labels : Array (Label α))
    (p : Progress α) (label : Label α) : Option (Option (Progress α)) := do
  let stop ← t.stopOf? label.routeStop
  match label.step, label.previous with
  | .access candidate, _ =>
    return some (p.addAccess label (← t.stops[stop]?) (← q.access[candidate]?))
  | .ride _ _, none | .transfer _ _, none => return none
  | .ride trip boardingTime, some previous =>
    let boarded ← labels[previous]?
    let origin ← t.stopOf? boarded.routeStop
    let route ← t.routeOf? label.routeStop
    return some (p.addRide boarded label (← t.stops[origin]?) (← t.stops[stop]?) route
      (← t.trips[trip]?) boardingTime)
  | .transfer duration cost, some previous =>
    let origin ← t.stopOf? (← labels[previous]?).routeStop
    -- A walk from a stop to itself is a change and not a leg.
    if origin = stop then return some (p.addChange label cost)
    else return some (p.addWalk label (← t.stops[origin]?) (← t.stops[stop]?) duration cost)

/-- Tell labels one after the other until there is a gap. -/
def extendAll? [Planar α] (t : Timetable α) (q : SearchQuery α) (labels : Array (Label α)) :
    Progress α → List (Label α) → Option (Option (Progress α))
  | p, [] => some (some p)
  | p, label :: rest => do
    match ← p.extend? t q labels label with
    | none => return none
    | some p => extendAll? t q labels p rest

end Progress

namespace Workspace

variable {α : Type} [Scalar α]

/-- The destinations by increasing route-stop. -/
def destinationList {α : Type} (w : Workspace α) : List Nat :=
  (List.range w.egress.size).filter w.destinations.contains

/-- The way to the destination that ends at a route-stop, if one does. -/
def arrivalAt? (w : Workspace α) (routeStop : Nat) : Option (Option (Arrival α)) := do
  match ← w.best[routeStop]?, ← w.egress[routeStop]? with
  | some id, some egress =>
    let label ← w.labels[id]?
    return some { totalCost := label.cost + egress.cost, id, label, candidate := egress.candidate }
  | _, _ => return none

/-- The best way to the destination. -/
def winner? (w : Workspace α) : Option (Option (Arrival α)) :=
  w.destinationList.foldlM (fun best routeStop => do
    match ← w.arrivalAt? routeStop with
    | some arrival => return some (Arrival.better best arrival)
    | none => return best) none

/-- The legs of a way to the destination, unless there is a gap. -/
def legs? [Planar α] (w : Workspace α) (t : Timetable α) (q : SearchQuery α) (a : Arrival α) :
    Option (Option (List (Leg α))) := do
  let chain ← Label.chain? w.labels a.id
  -- A chain has the newest label first.
  let labels := chain.reverse.map Prod.snd
  match ← (Progress.start q.departureTime).extendAll? t q w.labels labels with
  | none => return none
  | some progress =>
    let candidate ← q.egress[a.candidate]?
    return some (progress.addEgress (← t.stops[candidate.stop]?) candidate)

/-- The itinerary to the best destination, if there is one. -/
def itinerary? [Planar α] (w : Workspace α) (t : Timetable α) (q : SearchQuery α) :
    Option (Option (Itinerary α)) := do
  match ← w.winner? with
  | none => return none
  | some arrival =>
    match ← w.legs? t q arrival with
    | none => return none
    | some legs =>
      return (Itinerary.assemble legs arrival.totalCost arrival.label.transferCost
        arrival.label.transfers).toOption

end Workspace

end Journey
