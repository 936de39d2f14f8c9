import Journey.Timetable
import Journey.Parameters
import Journey.Candidate
import Journey.IndexSet
import Journey.Search.Label

/-!
# The Workspace of a Search

What a search has found out so far.

A workspace belongs to one timetable and is used for one query after the other.
It keeps, for every route-stop, the best label found and the best way on to the
destination, and the least total cost of a complete journey found so far, which
bounds what is still worth following. Everything that a query may have changed
is either remembered in a set, so that only that is reset before the next
query, or reset as a whole. One list is never reset, since every round fills it
anew before it reads it.

All operations look things up by position and yield nothing if a position does
not exist.

## Main definitions

* `SearchQuery`: What is searched for.
* `Statistics`: How a search went.
* `Workspace`: The state of a search.
* `Workspace.store?`: Making a label the best one of its route-stop.
* `Workspace.reset`: Forgetting a query.
-/

namespace Journey

/-- What is searched for. -/
structure SearchQuery (α : Type) where
  departureTime : α
  /-- Where the journey may begin. -/
  access : List (Candidate α)
  /-- Where the journey may end. -/
  egress : List (Candidate α)
  /-- The greatest number of transfers. -/
  maxTransfers : Nat
  parameters : Parameters α

/-- How a search went. -/
structure Statistics where
  /-- The number of rounds. -/
  rounds : Nat
  /-- How many route-stops each round improved by transfers. -/
  improvedPerRound : List Nat
  /-- Whether the search was cut off rather than finished. -/
  roundCapHit : Bool
  /-- The number of labels stored. -/
  labels : Nat
deriving DecidableEq, Repr

/-- The way from a route-stop to the destination. -/
structure Egress (α : Type) where
  cost : α
  /-- The position of the egress candidate. -/
  candidate : Nat
deriving DecidableEq, Repr

/-- The state of a search. -/
structure Workspace (α : Type) where
  /-- All labels of the query in the order of storing. -/
  labels : Array (Label α)
  /-- The best label of every route-stop. -/
  best : Array (Option Nat)
  /-- The way on from every route-stop at an egress candidate. -/
  egress : Array (Option (Egress α))
  /-- The first improved route-stop of every route. -/
  scanStart : Array (Option Nat)
  /-- The route-stops with a label. -/
  labelled : IndexSet
  /-- The route-stops with a way to the destination. -/
  destinations : IndexSet
  /-- The route-stops improved since the round began, by access or on foot. -/
  improved : IndexSet
  /-- The route-stops improved since the round began, by vehicle. -/
  reached : IndexSet
  /-- The routes scanned in the round. -/
  touched : IndexSet
  /-- What the walks of the last round started from. The list outlives the query
      only so that its room is used again. -/
  walkedFrom : List (Nat × Nat)
  /-- The least total cost of a complete journey so far. -/
  bound : Option α
  statistics : Statistics
deriving DecidableEq, Repr

namespace Statistics

/-- Before the first round. -/
def initial : Statistics :=
  { rounds := 0, improvedPerRound := [], roundCapHit := false, labels := 0 }

end Statistics

namespace Workspace

variable {α : Type}

/-- The workspace of a timetable before its first query. -/
def ofTimetable (t : Timetable α) : Workspace α :=
  let routeStops := t.routeStops.size
  let routes := t.routes.size
  { labels := #[]
    best := Array.replicate routeStops none
    egress := Array.replicate routeStops none
    scanStart := Array.replicate routes none
    labelled := IndexSet.ofCapacity routeStops
    destinations := IndexSet.ofCapacity routeStops
    improved := IndexSet.ofCapacity routeStops
    reached := IndexSet.ofCapacity routeStops
    touched := IndexSet.ofCapacity routes
    walkedFrom := []
    bound := none
    statistics := Statistics.initial }

/-- Write an entry of a table. -/
def write? {β : Type} (table : Array β) (index : Nat) (value : β) : Option (Array β) :=
  if h : index < table.size then some (table.set index value h) else none

/-- Remove the entries at the members of a set. -/
def erase {β : Type} (table : Array (Option β)) (indices : IndexSet) : Array (Option β) :=
  indices.toList.foldl (fun table index => table.setIfInBounds index none) table

/-- Forget a query. -/
def reset (w : Workspace α) : Workspace α :=
  { w with
    labels := #[]
    best := erase w.best w.labelled
    egress := erase w.egress w.destinations
    scanStart := Array.replicate w.scanStart.size none
    labelled := w.labelled.clear
    destinations := w.destinations.clear
    improved := w.improved.clear
    reached := w.reached.clear
    bound := none
    statistics := Statistics.initial }

/-- The best label of a route-stop, if it has one. -/
def labelAt? (w : Workspace α) (routeStop : Nat) : Option (Option (Label α)) := do
  match ← w.best[routeStop]? with
  | none => return none
  | some id => return some (← w.labels[id]?)

variable [Scalar α]

/-- Whether a cost is beyond that of a complete journey already found. -/
def exceedsBound (w : Workspace α) (cost : α) : Bool :=
  w.bound.any fun bound => decide (bound < cost)

/-- Whether an arrival at a route-stop is better than its best label. -/
def improves? (w : Workspace α) (routeStop : Nat) (cost : α) (transfers : Nat) : Option Bool :=
  (w.labelAt? routeStop).map fun label => label.all (·.isBeatenBy cost transfers)

/-- The bound once a complete journey of a total cost is known. -/
def tightened (bound : Option α) (total : α) : Option α :=
  match bound with
  | some least => if total < least then some total else some least
  -- A total that is not a number is not even equal to itself and bounds nothing.
  | none => if total ≤ total then some total else none

/-- Store a label as the best one of its route-stop. If there is a way on to
    the destination, the bound may become tighter. -/
def store? (w : Workspace α) (label : Label α) : Option (Workspace α) := do
  -- The label that was there before stays in `labels` for the chains through it.
  let best ← write? w.best label.routeStop (some w.labels.size)
  let labelled ← w.labelled.mark label.routeStop
  let egress ← w.egress[label.routeStop]?
  let bound := match egress with
    | some e => tightened w.bound (label.cost + e.cost)
    | none => w.bound
  return { w with labels := w.labels.push label, best, labelled, bound }

/-- Note that a route-stop was improved by access or on foot, so that its route
    is scanned from there or from before. -/
def markImproved? (w : Workspace α) (t : Timetable α) (routeStop : Nat) : Option (Workspace α) := do
  let improved ← w.improved.mark routeStop
  let rs ← t.routeStops[routeStop]?
  let start ← w.scanStart[rs.route]?
  -- Route-stops are numbered along their route, so less means before.
  let first := start.all (routeStop < ·)
  let scanStart ← if first then write? w.scanStart rs.route (some routeStop) else some w.scanStart
  return { w with improved, scanStart }

/-- Note that a route-stop was improved by vehicle. -/
def markReached? (w : Workspace α) (routeStop : Nat) : Option (Workspace α) := do
  return { w with reached := ← w.reached.mark routeStop }

end Workspace

end Journey
