import Journey.Plan.Request
import Journey.Access.Resolver
import Journey.Search.Pool

/-!
# Planners

From facilities to an itinerary.

A planner finds the candidates at both ends of a journey and searches between
them on an engine of its pool. The candidates at the origin are found first,
which matters where modes are drawn at random. If there are none at one of the
ends there is nothing to search for.

## Main definitions

* `Planner`: A pool of engines and a resolver.
* `Planner.ofModeChanges`: A planner with time-proportional transfer costs.
* `Planner.plan?`: Planning a journey.
-/

namespace Journey

/-- A pool of engines and a resolver, with what it leaves behind. -/
structure Planner (γ α : Type) where
  pool : Pool α
  resolver : Resolver α
  access : AccessState γ α

namespace Planner

variable {γ α : Type}

/-- A planner with the given transfer costs. -/
def ofPolicy (t : Timetable α) (policy : TransferPolicy α) (resolver : Resolver α)
    (access : AccessState γ α) : Planner γ α :=
  { pool := Pool.new t policy, resolver, access }

variable [Scalar α]

/-- A planner with time-proportional transfer costs and, if any are listed,
    penalties for changes of mode. -/
def ofModeChanges (t : Timetable α) (changes : List (ModeChangePenalty α))
    (resolver : Resolver α) (access : AccessState γ α) : Except (PlanError α) (Planner γ α) :=
  match ModeChangeTable.configured changes t.modes with
  | .error error => .error (.configuration error)
  | .ok table => .ok (ofPolicy t (TransferPolicy.timeProportional table) resolver access)

/-- Why a journey is not planned: what is wrong with the request, or else with
    the parameters. -/
def refusal? (r : PlanRequest α) (p : Parameters α) : Option (PlanError α) :=
  (r.error?.map .request).or (p.defect?.map .configuration)

variable [Planar α] [MarkerTree α] [Generator γ]

/-- The candidates at both ends of a journey. -/
def candidates? (planner : Planner γ α) (r : PlanRequest α) (p : Parameters α) :
    Option (List (Candidate α) × List (Candidate α) × Planner γ α) := do
  let t := planner.pool.timetable
  let (access, state) ← planner.resolver.candidates? t (r.accessRequest p) planner.access
  let (egress, state) ← planner.resolver.candidates? t (r.egressRequest p) state
  return (access, egress, { planner with access := state })

/-- Search between candidates on an engine of the pool. -/
def searchBetween? (planner : Planner γ α) (query : SearchQuery α) :
    Option (Option (Itinerary α)) × Planner γ α :=
  let (pool, itinerary) := planner.pool.withEngine fun engine pool =>
    match engine.search? query with
    | some (engine, itinerary) => (some engine, pool, some itinerary)
    | none => (none, pool, none)
  (itinerary, { planner with pool })

/-- Plan a journey. There is no itinerary if there is no way to go; there is
    not even an answer if the candidates cannot be told or one lies outside the
    timetable. -/
def plan? (planner : Planner γ α) (r : PlanRequest α) (p : Parameters α) :
    Option (Except (PlanError α) (Option (Itinerary α))) × Planner γ α :=
  match refusal? r p with
  | some error => (some (.error error), planner)
  | none =>
    match planner.candidates? r p with
    | none => (none, planner)
    | some (access, egress, planner) =>
      if access.isEmpty || egress.isEmpty then (some (.ok none), planner)
      else
        let (itinerary, planner) := planner.searchBetween?
          { departureTime := r.departureTime
            access
            egress
            maxTransfers := p.maxTransfers
            parameters := p }
        (itinerary.map .ok, planner)

end Planner

end Journey
