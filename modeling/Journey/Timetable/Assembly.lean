import Journey.Timetable.Draft
import Journey.Timetable.Locator

/-!
# Assembling Timetables

From a draft without defects to a timetable.

The tables are written down route after route, and what a route adds to each of
them is the span of the route. Every visit is also entered at its stop.

Footpaths come from three sources, in this order: those that were added, then
the one from each stop to itself, then those generated between nearby stops.
Of several footpaths between the same two stops in the same direction only the
first is kept. They are sorted by the stops that they start from, and the span of a stop
is found by going through the sorted table from run to run.

## Main definitions

* `RouteTables`: The tables that are written route after route.
* `Draft.writeCall`, `Draft.writeRoute`: Writing down a visit, and a route.
* `Footpath.sortByOrigin`, `Footpath.writeSpans`: Sorting footpaths, and finding
  the runs.
* `Draft.footpathTable`: The footpaths of a draft.
* `Draft.assemble`: The tables of a draft without defects.
* `Draft.build`: The timetable of a draft, or its first defect.
-/

namespace Journey

namespace Footpath

variable {α : Type}

/-- Whether two footpaths join the same stops in the same direction. -/
def sameEnds (a b : Footpath α) : Bool := a.origin == b.origin && a.target == b.target

/-- Keep the first of several footpaths with the same ends. -/
def keepFirst (footpaths : List (Footpath α)) : List (Footpath α) :=
  (footpaths.foldl (fun kept f => if kept.any f.sameEnds then kept else kept.push f) #[]).toList

/-- Put a footpath into its place among some that are sorted by origin, before
    those with the same one. -/
def insertByOrigin (f : Footpath α) : List (Footpath α) → List (Footpath α)
  | [] => [f]
  | head :: rest =>
    if f.origin ≤ head.origin then f :: head :: rest else head :: insertByOrigin f rest

/-- The footpaths by increasing origin. Those with the same one stay in their
    order. -/
def sortByOrigin (footpaths : List (Footpath α)) : List (Footpath α) :=
  footpaths.foldr insertByOrigin []

/-- Write down where the run of each origin is in a sorted table, of which the
    part from `start` on is left. -/
def writeSpans (start : Nat) (spans : Array Span) : List (Footpath α) → Array Span
  | [] => spans
  | f :: rest =>
    let stop := start + ((f :: rest).takeWhile (·.origin == f.origin)).length
    writeSpans stop (spans.setIfInBounds f.origin ⟨start, stop⟩)
      (rest.dropWhile (·.origin == f.origin))
termination_by footpaths => footpaths.length
decreasing_by exact Nat.lt_succ_of_le (List.dropWhile_sublist _).length_le

end Footpath

/-- The tables that are written route after route. -/
structure RouteTables (α : Type) where
  routes : Array Route
  routeStops : Array (RouteStop α)
  trips : Array (Trip α)
  /-- The positions of the route-stops at each stop. -/
  routeStopsByStop : Array (List Nat)
  /-- The modes so far, in order and without repetitions. -/
  modes : List Mode

namespace Draft

variable {α : Type}

/-- The position of a stop that has been added. -/
def stopIndex (d : Draft α) (id : StopId) : Nat := (d.stopLookup.get? id.text).getD d.stops.size

/-- Write down a visit of a route, with its position among those of the route. -/
def writeCall (d : Draft α) (route : Nat) (tables : RouteTables α) :
    Call α × Nat → RouteTables α
  | (call, sequence) =>
    let stop := d.stopIndex call.stop
    { tables with
      routeStops := tables.routeStops.push
        { route, stop, sequence
          arrivalOffset := call.arrivalOffset, departureOffset := call.departureOffset }
      routeStopsByStop := tables.routeStopsByStop.modify stop (· ++ [tables.routeStops.size]) }

/-- Write down a route after those before it. Its spans are what it adds to the
    tables. -/
def writeRoute (d : Draft α) (tables : RouteTables α) (plan : RoutePlan α) : RouteTables α :=
  let written := plan.calls.zipIdx.foldl (d.writeCall tables.routes.size) tables
  let trips := written.trips ++ plan.trips
  { written with
    trips
    modes := plan.mode.insertSorted written.modes
    routes := written.routes.push
      { id := plan.id, line := plan.line, mode := plan.mode
        routeStops := ⟨tables.routeStops.size, written.routeStops.size⟩
        trips := ⟨written.trips.size, trips.size⟩ } }

/-- The tables with all routes of a draft written down. -/
def routeTables (d : Draft α) : RouteTables α :=
  d.routes.toList.foldl d.writeRoute
    { routes := #[], routeStops := #[], trips := #[], modes := []
      routeStopsByStop := Array.replicate d.stops.size [] }

/-- The footpaths that were added. -/
def addedFootpaths (d : Draft α) : List (Footpath α) :=
  d.footpaths.toList.map fun f =>
    { origin := d.stopIndex f.origin, target := d.stopIndex f.target, duration := f.duration }

variable [Scalar α]

/-- The footpath of no length from each stop to itself. -/
def ownFootpaths (d : Draft α) : List (Footpath α) :=
  if d.intraStop then
    (List.range d.stops.size).map fun s => { origin := s, target := s, duration := 0 }
  else []

/-- The footpaths that a rule generates from one stop. -/
def generatedFrom [Planar α] [MarkerTree α] (d : Draft α) (rule : FootpathRule α)
    (origin : Nat) (stop : Stop α) : List (Footpath α) :=
  ((Locator.ofStops d.stops).within stop.position rule.maxDistance).filterMap fun target =>
    if target = origin then none
    else
      d.stops[target]?.map fun other =>
        { origin, target
          duration :=
            stop.position.distance other.position * rule.distanceFactor / rule.walkSpeed }

/-- The footpaths between nearby stops. -/
def generatedFootpaths [Planar α] [MarkerTree α] (d : Draft α) : List (Footpath α) :=
  match d.footpathRule with
  | none => []
  | some rule =>
    d.stops.toList.zipIdx.flatMap fun (stop, origin) => d.generatedFrom rule origin stop

/-- The footpaths of a draft, those from one stop after those from another. -/
def footpathTable [Planar α] [MarkerTree α] (d : Draft α) : List (Footpath α) :=
  -- The order decides which of several footpaths between two stops is kept.
  Footpath.sortByOrigin
    (Footpath.keepFirst (d.addedFootpaths ++ d.ownFootpaths ++ d.generatedFootpaths))

/-- The tables of a draft without defects. -/
def assemble [Planar α] [MarkerTree α] (d : Draft α) : Timetable α :=
  let tables := d.routeTables
  let footpaths := d.footpathTable
  { stops := d.stops
    stopLookup := d.stopLookup
    routes := tables.routes
    routeStops := tables.routeStops
    trips := tables.trips
    tripTimes := tables.trips.map (·.time)
    footpaths := footpaths.toArray
    -- A stop without footpaths keeps an empty span.
    footpathSpans := Footpath.writeSpans 0 (Array.replicate d.stops.size ⟨0, 0⟩) footpaths
    routeStopsByStop := tables.routeStopsByStop
    modes := tables.modes }

/-- The timetable of a draft, or its first defect. -/
def build [Planar α] [MarkerTree α] (d : Draft α) : Except (Defect α) (Timetable α) :=
  match d.defect? with
  | some defect => .error defect
  | none => .ok d.assemble

end Draft

end Journey
