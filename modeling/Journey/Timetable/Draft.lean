import Journey.Timetable
import Journey.Decimal.Shortest

/-!
# Drafts of Timetables

What a timetable is made from, and what can be wrong with it.

A draft collects stops, routes and footpaths by their identifiers. Stops are
checked as they are added, since everything else refers to them; routes and
footpaths are only checked when the timetable is assembled, so they may refer
to stops that are added later.

Of several defects the first one counts: first the rule that footpaths are
generated by, then the routes in order, then the footpaths in order. Within a
route, what can be seen from its own rows comes before its unknown stops.

## Main definitions

* `Stop.lookup`: The positions of stops by identifier.
* `Draft`: The content of a timetable before it is checked.
* `Draft.addStop`: Adding a stop.
* `Defect`: What can be wrong.
* `Draft.defect?`: The first defect of a draft.
-/

namespace Journey

/-- One visit in the stopping pattern of a route. -/
structure Call (α : Type) where
  stop : StopId
  arrivalOffset : α
  departureOffset : α

/-- A route by its stopping pattern and its trips. -/
structure RoutePlan (α : Type) where
  id : RouteId
  line : LineId
  mode : Mode
  calls : List (Call α)
  trips : List (Trip α)

/-- A footpath by the identifiers of its stops. -/
structure PlannedFootpath (α : Type) where
  origin : StopId
  target : StopId
  duration : α

/-- How footpaths between nearby stops are generated. -/
structure FootpathRule (α : Type) where
  /-- The greatest distance of two stops that are connected. -/
  maxDistance : α
  walkSpeed : α
  /-- The ratio of walked distance to distance. -/
  distanceFactor : α

namespace Stop

variable {α : Type}

/-- The positions of some stops by identifier. -/
def lookup (stops : List (Stop α)) : Dictionary Nat :=
  stops.zipIdx.foldl (fun d (stop, index) => d.insert stop.id.text index) .empty

theorem lookup_concat (stops : List (Stop α)) (stop : Stop α) :
    lookup (stops ++ [stop]) = (lookup stops).insert stop.id.text stops.length := by
  unfold lookup
  rw [List.zipIdx_append, List.foldl_append, Nat.zero_add, List.zipIdx_singleton, List.foldl_cons,
    List.foldl_nil]

end Stop

/-- The content of a timetable before it is checked. -/
structure Draft (α : Type) where
  stops : Array (Stop α)
  /-- The positions of the stops by identifier, which are written down as stops
      are added. -/
  stopLookup : Dictionary Nat := Stop.lookup stops.toList
  stopLookup_eq : stopLookup = Stop.lookup stops.toList := by rfl
  routes : Array (RoutePlan α)
  footpaths : Array (PlannedFootpath α)
  /-- Whether every stop has a footpath of no length to itself. -/
  intraStop : Bool
  footpathRule : Option (FootpathRule α)

/-- What refers to a stop. -/
inductive Referrer where
  | route (id : RouteId)
  | footpath
deriving DecidableEq, Repr

/-- What is wrong with the rule that footpaths are generated by. -/
inductive FootpathRuleDefect where
  | maxDistance
  | walkSpeed
  | distanceFactor
deriving DecidableEq, Repr

/-- What is wrong with a draft. -/
inductive Defect (α : Type) where
  | duplicateStop (id : StopId)
  | duplicateRoute (id : RouteId)
  | invalidCoordinate (id : StopId)
  | unknownStop (id : StopId) (referrer : Referrer)
  | tooFewStops (id : RouteId)
  | invalidOffsets (id : RouteId) (position : Nat)
  | unsortedTrips (id : RouteId) (position : Nat)
  | invalidFootpath (origin target : StopId) (duration : α)
  | invalidFootpathRule (defect : FootpathRuleDefect)
deriving DecidableEq, Repr

namespace Referrer

/-- How a referrer is named in a message. -/
def text : Referrer → String
  | route id => "route " ++ id.text
  | footpath => "a transfer"

end Referrer

namespace FootpathRuleDefect

/-- What the rule asks for. -/
def text : FootpathRuleDefect → String
  | maxDistance => "max distance must be non-negative"
  | walkSpeed => "walk speed must be positive"
  | distanceFactor => "distance factor must be positive"

end FootpathRuleDefect

namespace Defect

/-- The text of a defect. -/
def message : Defect Float → String
  | duplicateStop id => "duplicate stop id " ++ id.text
  | duplicateRoute id => "duplicate route id " ++ id.text
  | invalidCoordinate id => "stop " ++ id.text ++ " has a non-finite coordinate"
  | unknownStop id referrer => "unknown stop " ++ id.text ++ " referenced by " ++ referrer.text
  | tooFewStops id => "route " ++ id.text ++ " must visit at least two stops"
  | invalidOffsets id position =>
    "route " ++ id.text ++ " has inconsistent time offsets at position " ++ toString position
  | unsortedTrips id position =>
    "route " ++ id.text ++ " has unsorted or duplicate departures at position " ++ toString position
  | invalidFootpath origin target duration =>
    "transfer from " ++ origin.text ++ " to " ++ target.text ++ " has invalid duration "
      ++ Decimal.plain duration
  | invalidFootpathRule defect => "invalid footpath generation parameters: " ++ defect.text

end Defect

variable {α : Type} [Scalar α]

namespace FootpathRule

/-- The first of the parameters that is out of range. -/
def defect? (r : FootpathRule α) : Option FootpathRuleDefect :=
  if !Scalar.isNonnegative r.maxDistance then some .maxDistance
  else if !Scalar.isPositive r.walkSpeed then some .walkSpeed
  else if !Scalar.isPositive r.distanceFactor then some .distanceFactor
  else none

end FootpathRule

namespace Call

/-- Whether a visit begins after the one before has ended and does not end
    before it begins. -/
def isConsistent (previous : Option α) (c : Call α) : Bool :=
  Scalar.isFinite c.arrivalOffset && Scalar.isFinite c.departureOffset
    && previous.all (fun p => decide (p ≤ c.arrivalOffset))
    && decide (c.arrivalOffset ≤ c.departureOffset)

/-- The position of the first visit with inconsistent offsets. -/
def firstInconsistent? (previous : Option α) : List (Call α) → Option Nat
  | [] => none
  | c :: rest =>
    if c.isConsistent previous then (firstInconsistent? (some c.departureOffset) rest).map (· + 1)
    else some 0

end Call

namespace Trip

/-- Whether a trip is later than the one before. -/
def isLater (previous : Option α) (t : Trip α) : Bool :=
  Scalar.isFinite t.time && previous.all (fun p => decide (p < t.time))

/-- The position of the first trip that is not later than the one before. -/
def firstUnsorted? (previous : Option α) : List (Trip α) → Option Nat
  | [] => none
  | t :: rest =>
    if t.isLater previous then (firstUnsorted? (some t.time) rest).map (· + 1) else some 0

end Trip

namespace Draft

/-- Nothing yet. Every stop will have a footpath to itself. -/
def empty {α : Type} : Draft α :=
  { stops := #[], routes := #[], footpaths := #[], intraStop := true, footpathRule := none }

/-- Whether a stop with an identifier has been added. -/
def hasStop {α : Type} (d : Draft α) (id : StopId) : Bool := d.stopLookup.contains id.text

/-- The draft with one more stop. -/
def pushStop {α : Type} (d : Draft α) (stop : Stop α) : Draft α :=
  { d with
    stops := d.stops.push stop
    stopLookup := d.stopLookup.insert stop.id.text d.stops.size
    stopLookup_eq := by
      rw [d.stopLookup_eq, Array.toList_push, Stop.lookup_concat, Array.length_toList] }

/-- Add a stop and return its index. -/
def addStop (d : Draft α) (stop : Stop α) : Except (Defect α) (Draft α × Nat) :=
  if d.hasStop stop.id then .error (.duplicateStop stop.id)
  else if !stop.position.isFinite then .error (.invalidCoordinate stop.id)
  else .ok (d.pushStop stop, d.stops.size)

/-- Add stops until one is refused. -/
def addStops (d : Draft α) : List (Stop α) → Except (Defect α) (Draft α)
  | [] => .ok d
  | stop :: rest =>
    match d.addStop stop with
    | .error defect => .error defect
    | .ok (d, _) => addStops d rest

/-- Add a route. -/
def addRoute {α : Type} (d : Draft α) (route : RoutePlan α) : Draft α :=
  { d with routes := d.routes.push route }

/-- Add a footpath. Of several footpaths between the same two stops, in the same
    direction, the first one counts. -/
def addFootpath {α : Type} (d : Draft α) (footpath : PlannedFootpath α) : Draft α :=
  { d with footpaths := d.footpaths.push footpath }

/-- The first defect of a route, given the identifiers of the routes before
    it. -/
def routeDefect? (d : Draft α) (earlier : List RouteId) (r : RoutePlan α) : Option (Defect α) :=
  if earlier.contains r.id then some (.duplicateRoute r.id)
  else if r.calls.length < 2 then some (.tooFewStops r.id)
  else
    match Call.firstInconsistent? none r.calls with
    | some position => some (.invalidOffsets r.id position)
    | none =>
      match Trip.firstUnsorted? none r.trips with
      | some position => some (.unsortedTrips r.id position)
      | none =>
        -- Stops are looked up only for a route whose own rows are in order.
        (r.calls.find? fun c => !d.hasStop c.stop).map fun c => .unknownStop c.stop (.route r.id)

/-- The first defect of a list of routes, given the identifiers of the routes
    before them. -/
def routesDefect? (d : Draft α) : List RouteId → List (RoutePlan α) → Option (Defect α)
  | _, [] => none
  | earlier, r :: rest =>
    match d.routeDefect? earlier r with
    | some defect => some defect
    | none => routesDefect? d (r.id :: earlier) rest

/-- The first defect of a footpath. -/
def footpathDefect? (d : Draft α) (f : PlannedFootpath α) : Option (Defect α) :=
  if !d.hasStop f.origin then some (.unknownStop f.origin .footpath)
  else if !d.hasStop f.target then some (.unknownStop f.target .footpath)
  else if !Scalar.isNonnegative f.duration then
    some (.invalidFootpath f.origin f.target f.duration)
  else none

/-- The first defect of a draft whose stops have been accepted. -/
def defect? (d : Draft α) : Option (Defect α) :=
  match d.footpathRule.bind FootpathRule.defect? with
  | some defect => some (.invalidFootpathRule defect)
  | none =>
    match d.routesDefect? [] d.routes.toList with
    | some defect => some defect
    | none => d.footpaths.toList.findSome? d.footpathDefect?

end Draft

end Journey
