import Journey.Search.Workspace
import Journey.Search.TransferPolicy

/-!
# Transfers

Walking from the route-stops that vehicles reached in a round.

Every footpath from a stop leads to all route-stops of its target, which is
often the stop itself. The walks start from the labels that the route-stops had
when the vehicles of the round had been ridden, never from one that was stored
by another walk of the round. A walk takes at least the minimal transfer time.

## Main definitions

* `Departing`: A ride that was left, as the start of walks.
* `Departing.walk?`: The arrival at a route-stop on foot.
* `Workspace.relax?`: All walks of a round.
-/

namespace Journey

/-- A ride that was left, as the start of walks. -/
structure Departing (α : Type) where
  /-- The position of the ride's label. -/
  id : Nat
  label : Label α
  /-- The mode of the ride. -/
  mode : Mode

namespace Departing

variable {α : Type} [Scalar α]

/-- What a transfer policy is asked about a walk that takes the given time. -/
def context (d : Departing α) (q : SearchQuery α) (labels : Array (Label α)) (toMode : Mode)
    (duration : α) : TransferContext α :=
  let arrivalTime := d.label.time + duration
  { labels
    ride := d.id
    fromMode := d.mode
    toMode
    arrivalTime
    totalTravelTime := arrivalTime - q.departureTime
    transfers := d.label.transfers + 1
    existingCost := d.label.transferCost
    parameters := q.parameters }

/-- The arrival at a route-stop after a walk that takes the given time and that
    the transfer policy prices with the given increment. -/
def walk (d : Departing α) (p : Parameters α) (routeStop : Nat) (duration increment : α) :
    Label α :=
  let cost := duration * p.walkCost + increment
  { previous := some d.id
    routeStop
    step := .transfer duration cost
    time := d.label.time + duration
    cost := d.label.cost + cost
    transferCost := d.label.transferCost + increment
    transfers := d.label.transfers + 1 }

/-- The arrival at a route-stop on foot. -/
def walk? (d : Departing α) (t : Timetable α) (policy : TransferPolicy α) (q : SearchQuery α)
    (labels : Array (Label α)) (duration : α) (routeStop : Nat) : Option (Label α) := do
  let toMode ← t.modeOf? routeStop
  let increment ← policy t (d.context q labels toMode duration)
  return d.walk q.parameters routeStop duration increment

end Departing

namespace Workspace

variable {α : Type} [Scalar α]

/-- Store an arrival on foot, if it is worth storing. -/
def offerWalk? (w : Workspace α) (t : Timetable α) (label : Label α) : Option (Workspace α) := do
  if w.exceedsBound label.cost then return w
  else if ← w.improves? label.routeStop label.cost label.transfers then
    let w ← w.store? label
    w.markImproved? t label.routeStop
  else return w

/-- Walk along a footpath to all route-stops of its target. -/
def relaxFootpath? (t : Timetable α) (policy : TransferPolicy α) (q : SearchQuery α)
    (d : Departing α) (w : Workspace α) (path : Footpath α) : Option (Workspace α) := do
  let duration := Scalar.larger path.duration q.parameters.minTransferTime
  let targets ← t.routeStopsAt? path.target
  targets.foldlM (fun w target => do
    -- The policy is shown the labels of the walks before this one as well.
    w.offerWalk? t (← d.walk? t policy q w.labels duration target)) w

/-- Walk from a route-stop that was reached by the label at a position, unless
    that label is already too expensive. -/
def relaxFrom? (t : Timetable α) (policy : TransferPolicy α) (q : SearchQuery α)
    (w : Workspace α) (source : Nat × Nat) : Option (Workspace α) := do
  let (routeStop, id) := source
  let label ← w.labels[id]?
  -- The bound may have become tighter since the ride was stored.
  if w.exceedsBound label.cost then return w
  else
    let mode ← t.modeOf? routeStop
    let stop ← t.stopOf? routeStop
    let footpaths ← t.footpathsFrom? stop
    footpaths.foldlM (relaxFootpath? t policy q ⟨id, label, mode⟩) w

/-- The route-stops that vehicles reached, with the labels they have now. -/
def sources? (w : Workspace α) : Option (List (Nat × Nat)) := do
  let found ← w.reached.toList.mapM fun routeStop => do
    return (← w.best[routeStop]?).map fun id => (routeStop, id)
  return found.filterMap id

/-- Put away the list that the walks of a round started from. -/
def putAway {α : Type} (w : Workspace α) (sources : List (Nat × Nat)) : Workspace α :=
  { w with walkedFrom := sources }

/-- All walks of a round. -/
def relax? (t : Timetable α) (policy : TransferPolicy α) (q : SearchQuery α) (w : Workspace α) :
    Option (Workspace α) := do
  -- The sources are fixed first, so that no walk follows on another one. Nothing of
  -- what the list held before is among them.
  let sources ← w.sources?
  let w ← sources.foldlM (relaxFrom? t policy q) w
  return w.putAway sources

end Workspace

end Journey
