import Journey.Access.Request
import Journey.Access.Leg
import Journey.Access.LegCache
import Journey.Access.Mode
import Journey.Random.Draw

/-!
# Intermodal Access

Getting between facilities and stops with several modes.

A mode connects the facility to every stop in its radius that passes its filter
and to which its router finds a leg, if the traveller passes its filter. Legs
worth keeping are looked up from the stop to the facility and turned round for
the way to the stop; others are found in the direction of travel.

## Main definitions

* `Intermodal`: Modes with the routers of their legs.
* `Intermodal.configure`: Checking that every mode has one.
* `Found`: The cheapest candidate of every stop.
* `Intermodal.addMode`: The candidates of one mode.
* `Intermodal.candidates`: The candidates of a request.
-/

namespace Journey

/-- Modes with the routers of their legs. -/
structure Intermodal (α : Type) where
  modes : AccessModes α
  routers : Dictionary (LegRouter α)

/-- The cheapest candidate of every stop, by increasing stop. -/
abbrev Found (α : Type) := List (Candidate α)

namespace Found

variable {α : Type} [Scalar α]

/-- Offer a candidate, which replaces one of the same stop if it is cheaper. -/
def offer (c : Candidate α) : Found α → Found α
  | [] => [c]
  | head :: rest =>
    if c.stop < head.stop then c :: head :: rest
    else if c.stop = head.stop then (if c.cost < head.cost then c else head) :: rest
    else head :: offer c rest

end Found

namespace AccessLeg

/-- The mode in which a leg is reported. Walking to a stop is not walking in
    the network. -/
def reportedMode (mode : Mode) : Mode := if mode = Mode.walk then Mode.nonNetworkWalk else mode

/-- The candidate that a leg makes of a stop. Stages cost as much as walking to
    a stop. -/
def candidate {α : Type} [Scalar α] (l : AccessLeg α) (p : Parameters α) (mode : Mode)
    (stop : Nat) : Candidate α :=
  { stop
    time := l.totalTime
    cost := l.travelTime * p.accessModeCost mode
      + l.stageTime * p.accessModeCost Mode.nonNetworkWalk
    distance := l.distance
    mode := reportedMode mode }

end AccessLeg

namespace Intermodal

variable {α : Type} [Scalar α]

/-- The first mode without a router. -/
def missingRouter? (modes : AccessModes α) (routers : Dictionary (LegRouter α)) : Option Mode :=
  (modes.modes.find? fun m => !routers.contains m.mode.text).map (·.mode)

/-- Put modes and routers together. -/
def configure (modes : AccessModes α) (routers : Dictionary (LegRouter α)) :
    Except (ConfigurationError α) (Intermodal α) :=
  match modes.defect?.or ((missingRouter? modes routers).map .missingLegRouter) with
  | some error => .error error
  | none => .ok { modes, routers }

variable [Planar α] [MarkerTree α] {κ : Type} [LegStore κ α]

/-- The leg from a place to another in the direction of a request. -/
def directLeg? (router : LegRouter α) (r : AccessRequest α) (stop : Stop α) :
    Option (AccessLeg α) :=
  match r.direction with
  | .access => router.route? r.facility.position stop.position
  | .egress => router.route? stop.position r.facility.position

/-- The leg that is kept for a stop, turned round for the way to the stop. -/
def keptLeg (m : AccessMode α) (router : LegRouter α) (r : AccessRequest α) (stop : Stop α)
    (cache : κ) : Option (AccessLeg α) × κ :=
  let key : LegKey := { mode := m.mode, stop := stop.id, facility := r.facility.id }
  -- Kept from the stop to the facility, whatever the direction of travel.
  let (leg, cache) := LegStore.route cache key (router.route? stop.position r.facility.position)
  match r.direction with
  | .access => (leg.map AccessLeg.reversed, cache)
  | .egress => (leg, cache)

/-- The leg of a mode for a stop. -/
def leg (m : AccessMode α) (router : LegRouter α) (r : AccessRequest α) (stop : Stop α)
    (cache : κ) : Option (AccessLeg α) × κ :=
  if m.routedOnNetwork then keptLeg m router r stop cache
  else (directLeg? router r stop, LegStore.count cache)

/-- Add the candidate of a mode for a stop. -/
def addStop (m : AccessMode α) (router : LegRouter α) (r : AccessRequest α)
    (state : Found α × κ) (stop : Nat × Stop α) : Found α × κ :=
  let (found, cache) := state
  let (index, stop) := stop
  if AttributeFilter.allows m.stopFilter stop.attributes then
    match leg m router r stop cache with
    | (some leg, cache) => (Found.offer (leg.candidate r.parameters m.mode index) found, cache)
    | (none, cache) => (found, cache)
  else (found, cache)

/-- Add the candidates of a mode. -/
def addMode (i : Intermodal α) (t : Timetable α) (r : AccessRequest α)
    (state : Found α × κ) (m : AccessMode α) : Found α × κ :=
  if AttributeFilter.allows m.travellerFilter r.traveller then
    match i.routers.get? m.mode.text with
    | some router => (t.stopsNear r.facility.position m.maxRadius).foldl (addStop m router r) state
    | none => state
  else state

/-- Draw modes until one has candidates, but no more than `attempts` times. -/
def drawModes {γ : Type} [Generator γ] (i : Intermodal α) (t : Timetable α) (r : AccessRequest α) :
    (attempts : Nat) → κ → γ → Found α × κ × γ
  | 0, cache, generator => ([], cache, generator)
  | attempts + 1, cache, generator =>
    let (choice, generator) := Generator.draw generator i.modes.modes.length
    let (found, cache) := match i.modes.modes[choice]? with
      | some mode => addMode i t r ([], cache) mode
      | none => ([], cache)
    -- What was routed in vain stays in the cache.
    if found.isEmpty then drawModes i t r attempts cache generator
    else (found, cache, generator)

/-- The candidates of a request, by increasing stop. -/
def candidates {γ : Type} [Generator γ] (i : Intermodal α) (t : Timetable α) (r : AccessRequest α)
    (cache : κ) (generator : γ) : Found α × κ × γ :=
  match i.modes.selection with
  | .leastCostPerStop =>
    let (found, cache) := i.modes.modes.foldl (addMode i t r) ([], cache)
    (found, cache, generator)
  | .randomSingleMode => drawModes i t r (2 * i.modes.modes.length) cache generator

end Intermodal

end Journey
