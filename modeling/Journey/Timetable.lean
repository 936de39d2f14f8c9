import Journey.Identifier
import Journey.Dictionary
import Journey.Planar
import Journey.Span

/-!
# Timetables

A snapshot of a transit network, laid out for searching.

A stop visited by a route at some position is a route-stop. The route-stops of
one route stand next to each other in the order of travel, and so do its trips
in the order of departure, so that comparing two positions within a route
compares how far along the route they are, or which vehicle is earlier. A trip
is given by the time at which its vehicle would leave a reference point, and a
route-stop by how much later vehicles arrive there and leave from there.

Everything refers to everything else by position. A look-up of a position that
the timetable does not have yields nothing.

## Main definitions

* `Stop`, `RouteStop`, `Route`, `Trip`, `Footpath`: The rows of the tables.
* `Timetable`: The tables.
* `Timetable.nextTrip?`: The earliest vehicle that can be boarded.
* `Timetable.arrival?`, `Timetable.departure?`: When a vehicle is where.
-/

namespace Journey

/-- A physical stop. -/
structure Stop (α : Type) where
  id : StopId
  name : String
  position : Point α
  /-- Free attributes, which filters of access modes look at. -/
  attributes : Dictionary String

/-- One visit of a route at a stop. -/
structure RouteStop (α : Type) where
  route : Nat
  stop : Nat
  /-- The position along the route, counted from zero. -/
  sequence : Nat
  /-- How long after the reference time vehicles arrive. -/
  arrivalOffset : α
  /-- How long after the reference time vehicles leave. -/
  departureOffset : α

/-- One direction of one stopping pattern of a line. -/
structure Route where
  id : RouteId
  line : LineId
  mode : Mode
  /-- Where its route-stops are. -/
  routeStops : Span
  /-- Where its trips are. -/
  trips : Span

/-- One vehicle of a route. -/
structure Trip (α : Type) where
  id : String
  /-- The reference time, to which the offsets of route-stops are added. -/
  time : α

/-- A walk from one stop to another, in this direction. -/
structure Footpath (α : Type) where
  origin : Nat
  target : Nat
  /-- Walking time in seconds. -/
  duration : α

/-- A transit network, laid out for searching. -/
structure Timetable (α : Type) where
  stops : Array (Stop α)
  /-- The positions of the stops by identifier. -/
  stopLookup : Dictionary Nat
  routes : Array Route
  /-- The route-stops of one route after those of another. -/
  routeStops : Array (RouteStop α)
  /-- The trips of one route after those of another, parallel to the
      routes. -/
  trips : Array (Trip α)
  /-- The times of the trips, kept apart for searching. -/
  tripTimes : Array α
  /-- The footpaths from one stop after those from another. -/
  footpaths : Array (Footpath α)
  /-- Where the footpaths from each stop are. -/
  footpathSpans : Array Span
  /-- The route-stops at each stop. -/
  routeStopsByStop : Array (List Nat)
  /-- The modes of the routes, in order and without repetitions. -/
  modes : List Mode

namespace Route

/-- The first route-stop of a route. -/
def firstRouteStop (r : Route) : Nat := r.routeStops.start

end Route

namespace Timetable

variable {α : Type}

/-- The stop with an identifier. -/
def findStop? (t : Timetable α) (id : StopId) : Option Nat := t.stopLookup.get? id.text

/-- The route with an identifier. Routes are few and are not looked up in a
    search, so they are gone through. -/
def findRoute? (t : Timetable α) (id : RouteId) : Option Nat := t.routes.findIdx? (·.id = id)

/-- The route of a route-stop. -/
def routeOf? (t : Timetable α) (routeStop : Nat) : Option Route := do
  let rs ← t.routeStops[routeStop]?
  t.routes[rs.route]?

/-- The mode of the route of a route-stop. -/
def modeOf? (t : Timetable α) (routeStop : Nat) : Option Mode :=
  (t.routeOf? routeStop).map (·.mode)

/-- The stop of a route-stop, by its position. -/
def stopOf? (t : Timetable α) (routeStop : Nat) : Option Nat :=
  t.routeStops[routeStop]?.map (·.stop)

/-- The route-stops at a stop. -/
def routeStopsAt? (t : Timetable α) (stop : Nat) : Option (List Nat) := t.routeStopsByStop[stop]?

/-- The footpaths from a stop. -/
def footpathsFrom? (t : Timetable α) (stop : Nat) : Option (List (Footpath α)) := do
  let span ← t.footpathSpans[stop]?
  span.slice? t.footpaths

variable [Scalar α]

/-- The earliest trip of a route-stop's route whose vehicle leaves the
    route-stop at the given time or later. There is none within if all vehicles
    have left. Trips are compared by their reference times, from which the
    offset of the route-stop is taken once. -/
def nextTrip? (t : Timetable α) (routeStop : Nat) (time : α) : Option (Option Nat) := do
  let rs ← t.routeStops[routeStop]?
  let route ← t.routes[rs.route]?
  let times ← route.trips.slice? t.tripTimes
  -- Subtracting once from the time rounds differently than adding to each trip.
  let reference := time - rs.departureOffset
  return (times.findIdx? fun time => !decide (time < reference)).map (route.trips.start + ·)

/-- When the vehicle of a trip arrives at a route-stop. -/
def arrival? (t : Timetable α) (trip routeStop : Nat) : Option α := do
  let time ← t.tripTimes[trip]?
  let rs ← t.routeStops[routeStop]?
  return time + rs.arrivalOffset

/-- When the vehicle of a trip leaves a route-stop. -/
def departure? (t : Timetable α) (trip routeStop : Nat) : Option α := do
  let time ← t.tripTimes[trip]?
  let rs ← t.routeStops[routeStop]?
  return time + rs.departureOffset

end Timetable

end Journey
