import Journey.Scalar
import Journey.Identifier

/-!
# Itineraries

A complete trip from an origin facility to a destination facility.

An itinerary is a list of legs, each of which is a ride on one vehicle or a
connection outside the timetable: the access to the first stop, a walk between
two stops or the egress from the last one. It is assembled from its legs only
if they make a consistent trip, which is checked leg by leg and then pair by
pair, so that the earliest inconsistency of the first kind found is the one
reported. Boundary times are compared with a tolerance that absorbs rounding.

## Main definitions

* `Place`: Where a leg starts or ends.
* `Ride`, `Connection`, `Leg`: The parts of a trip.
* `Itinerary`: A trip and its totals.
* `Itinerary.inconsistency?`: What keeps legs from making a trip.
* `Itinerary.assemble`: The itinerary of consistent legs.
-/

namespace Journey

/-- Where a leg starts or ends. -/
inductive Place where
  /-- The facility the trip starts from. -/
  | origin
  /-- The facility the trip leads to. -/
  | destination
  | stop (id : StopId)
deriving DecidableEq, Repr

/-- A ride on one vehicle between two stops of a route. -/
structure Ride (α : Type) where
  origin : StopId
  target : StopId
  line : LineId
  route : RouteId
  mode : Mode
  /-- The identifier of the vehicle's trip. -/
  trip : String
  /-- When the vehicle leaves the boarding stop. -/
  departureTime : α
  /-- When the vehicle reaches the alighting stop. -/
  arrivalTime : α
  /-- The cost of waiting and riding, and of changing onto the vehicle at the
      boarding stop. -/
  cost : α
deriving DecidableEq, Repr

/-- What a connection outside the timetable connects. -/
inductive ConnectionKind where
  /-- The origin with the first stop. -/
  | access
  /-- Two stops. -/
  | transfer
  /-- The last stop with the destination. -/
  | egress
deriving DecidableEq, Repr

/-- A walk, or a movement with another access mode, outside the timetable. -/
structure Connection (α : Type) where
  kind : ConnectionKind
  origin : Place
  target : Place
  mode : Mode
  departureTime : α
  /-- How long it takes, in seconds. -/
  travelTime : α
  /-- How long it is, in metres. -/
  distance : α
  cost : α
deriving DecidableEq, Repr

/-- One leg of a trip. -/
inductive Leg (α : Type) where
  | ride (ride : Ride α)
  | connection (connection : Connection α)
deriving DecidableEq, Repr

/-- A trip and its totals. -/
structure Itinerary (α : Type) where
  legs : List (Leg α)
  /-- What access, rides, transfers and egress cost together. -/
  totalCost : α
  /-- The part of the total that goes to transfer penalties. -/
  transferCost : α
  /-- The number of transfers, those at one stop included. -/
  transfers : Nat
deriving DecidableEq, Repr

/-- Why legs do not make a trip. -/
inductive ItineraryError (α : Type) where
  /-- There are no legs. -/
  | noLegs
  /-- A leg takes negative time. -/
  | negativeDuration (travelTime : α)
  /-- A leg starts elsewhere than the one before it ends. -/
  | disconnected (reached left : Place)
  /-- A leg starts before the previous one has ended. -/
  | overlap (previousEnd start : α)
deriving DecidableEq, Repr

namespace Place

/-- The stop at a place, if it is one. -/
def stop? : Place → Option StopId
  | stop id => some id
  | origin | destination => none

end Place

namespace Leg

variable {α : Type}

/-- Where a leg starts. -/
def origin : Leg α → Place
  | ride r => .stop r.origin
  | connection c => c.origin

/-- Where a leg ends. -/
def target : Leg α → Place
  | ride r => .stop r.target
  | connection c => c.target

/-- When a leg starts. -/
def departureTime : Leg α → α
  | ride r => r.departureTime
  | connection c => c.departureTime

/-- When a leg ends. -/
def arrivalTime [Add α] : Leg α → α
  | ride r => r.arrivalTime
  | connection c => c.departureTime + c.travelTime

/-- How long a leg takes: its end less its start. -/
def travelTime [Add α] [Sub α] (leg : Leg α) : α := leg.arrivalTime - leg.departureTime

/-- The mode of transport of a leg. -/
def mode : Leg α → Mode
  | ride r => r.mode
  | connection c => c.mode

/-- The cost of a leg. -/
def cost : Leg α → α
  | ride r => r.cost
  | connection c => c.cost

/-- The ride, if a leg is one. -/
def ride? : Leg α → Option (Ride α)
  | ride r => some r
  | connection _ => none

/-- The connection, if a leg is one. -/
def connection? : Leg α → Option (Connection α)
  | ride _ => none
  | connection c => some c

end Leg

namespace Itinerary

variable {α : Type}

/-- The rides of a trip. -/
def rides (i : Itinerary α) : List (Ride α) := i.legs.filterMap Leg.ride?

/-- The walks between two stops. -/
def walks (i : Itinerary α) : List (Connection α) :=
  (i.legs.filterMap Leg.connection?).filter (·.kind = .transfer)

variable [Scalar α]

/-- Differences of boundary times up to this one count as rounding. -/
def tolerance : α := ((1 : Nat) : α) / ((1000000000 : Nat) : α)

/-- A leg that takes negative time. -/
def negativeDuration? (leg : Leg α) : Option (ItineraryError α) :=
  if leg.travelTime < -tolerance then some (.negativeDuration leg.travelTime) else none

/-- What is wrong between two consecutive legs: first where they meet, then
    when. -/
def junctionError? (previous next : Leg α) : Option (ItineraryError α) :=
  if previous.target ≠ next.origin then some (.disconnected previous.target next.origin)
  else if next.departureTime < previous.arrivalTime - tolerance then
    some (.overlap previous.arrivalTime next.departureTime)
  else none

/-- The first junction of a list of legs at which something is wrong. -/
def junctionsError? : List (Leg α) → Option (ItineraryError α)
  | previous :: next :: rest => (junctionError? previous next).or (junctionsError? (next :: rest))
  | [_] | [] => none

/-- What keeps legs from making a trip: that there are none, else the first
    one that takes negative time, else the first faulty junction. -/
def inconsistency? (legs : List (Leg α)) : Option (ItineraryError α) :=
  if legs.isEmpty then some .noLegs
  else (legs.findSome? negativeDuration?).or (junctionsError? legs)

/-- The itinerary of consistent legs. -/
def assemble (legs : List (Leg α)) (totalCost transferCost : α) (transfers : Nat) :
    Except (ItineraryError α) (Itinerary α) :=
  match inconsistency? legs with
  | some error => .error error
  | none => .ok { legs, totalCost, transferCost, transfers }

/-- When a trip starts. -/
def departureTime (i : Itinerary α) : α := (i.legs.head?.map Leg.departureTime).getD 0

/-- When a trip ends. -/
def arrivalTime (i : Itinerary α) : α := (i.legs.getLast?.map Leg.arrivalTime).getD 0

/-- How long a trip takes. -/
def travelTime (i : Itinerary α) : α := i.arrivalTime - i.departureTime

end Itinerary

end Journey
