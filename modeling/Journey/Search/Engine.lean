import Journey.Search.Rounds
import Journey.Search.Reconstruction

/-!
# Search Engines

A timetable, a transfer policy and a workspace to search in.

An engine answers one query after the other in the same workspace. A query that
refers to a stop that does not exist has no answer, and leaves no engine.

## Main definitions

* `Engine`: A timetable, a policy and a workspace.
* `Engine.search?`: The least-cost itinerary of a query.
* `Engine.labelAt?`: What the last query knows about a route-stop.
-/

namespace Journey

/-- A timetable, a transfer policy and a workspace to search in. -/
structure Engine (α : Type) where
  timetable : Timetable α
  policy : TransferPolicy α
  workspace : Workspace α

namespace Engine

variable {α : Type}

/-- An engine that has not searched yet. -/
def new (timetable : Timetable α) (policy : TransferPolicy α) : Engine α :=
  { timetable, policy, workspace := Workspace.ofTimetable timetable }

/-- How the last search went. -/
def statistics (e : Engine α) : Statistics := e.workspace.statistics

/-- The best label that the last query found for a route-stop. -/
def labelAt? (e : Engine α) (routeStop : Nat) : Option (Option (Label α)) :=
  e.workspace.labelAt? routeStop

/-- Find the itinerary of least cost from an access candidate to an egress
    candidate. There is none if no egress candidate can be reached. -/
def search? [Scalar α] [Planar α] (e : Engine α) (q : SearchQuery α) :
    Option (Engine α × Option (Itinerary α)) := do
  let workspace ← e.workspace.explore? e.timetable e.policy q
  let itinerary ← workspace.itinerary? e.timetable q
  return ({ e with workspace }, itinerary)

end Engine

end Journey
