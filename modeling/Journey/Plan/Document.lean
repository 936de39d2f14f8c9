import Journey.Parameters.Document
import Journey.Access.Document
import Journey.Json.Parser
import Journey.Plan.Planner

/-!
# Query Documents

Queries written as JSON documents.

A query names two facilities and a time. Everything else has a default: the
parameters, no penalties for changes of mode, walking to the stops, a traveller
without attributes and the seed zero.

## Main definitions

* `QueryDocument`: The content of a document.
* `QueryDocument.parse`: Reading a document.
* `QueryDocument.request`: The journey to plan.
* `QueryDocument.planner`: The planner that a document asks for.
-/

namespace Journey

/-- The content of a query document. -/
structure QueryDocument where
  origin : Facility Float
  destination : Facility Float
  departureTime : Float
  parameters : Parameters Float
  modeChanges : List (ModeChangePenalty Float)
  accessModes : Option AccessSection
  traveller : Traveller
  /-- What random modes are drawn with. -/
  seed : Nat

namespace Json

/-- A point. -/
def point? : Decoder (Point Float) := fun json => do
  match ← json.record? [["x"], ["y"]] with
  | [x, y] => return { x := ← required float? x, y := ← required float? y }
  | _ => none

/-- A facility. -/
def facility? : Decoder (Facility Float) := fun json => do
  match ← json.record? [["id"], ["coord"]] with
  | [id, position] =>
    return { id := ← required identifier? id, position := ← required point? position }
  | _ => none

/-- The fields of a query, in their order. -/
def queryFields : List (List String) :=
  [["origin"], ["destination"], ["departure_time"], ["parameters"], ["router"], ["intermodal"],
    ["traveller"], ["seed"]]

/-- A query document. -/
def query? : Decoder QueryDocument := fun json => do
  match ← json.record? queryFields with
  | [origin, destination, time, parameters, router, intermodal, traveller, seed] =>
    return {
      origin := ← required facility? origin
      destination := ← required facility? destination
      departureTime := ← required time? time
      parameters := ← withDefault parameters? Parameters.standard parameters
      modeChanges := ← withDefault modeChanges? [] router
      accessModes := ← withDefault (nullable? (accessSection? 1)) none intermodal
      traveller := ← withDefault (dictionary? text?) .empty traveller
      seed := ← withDefault natural? 0 seed }
  | _ => none

end Json

namespace QueryDocument

/-- Read a document. -/
def parse (text : String) : Option QueryDocument := (Json.parse text).bind Json.query?

/-- The journey to plan. -/
def request (q : QueryDocument) : PlanRequest Float :=
  { origin := q.origin
    destination := q.destination
    departureTime := q.departureTime
    traveller := q.traveller }

/-- The resolver that a document asks for. -/
def resolver (q : QueryDocument) : Except (PlanError Float) (Resolver Float) :=
  match q.accessModes with
  | none => .ok .walking
  | some modes =>
    match modes.resolver with
    | .ok resolver => .ok resolver
    | .error error => .error (.configuration error)

/-- What the resolver finds before its first request. -/
def accessState (q : QueryDocument) : AccessState Keystream Float :=
  let capacity := (q.accessModes.map AccessSection.cacheCapacity).getD LegCache.usualCapacity
  { cache := LegCache.ofCapacity capacity, generator := Keystream.ofSeed q.seed }

/-- The planner that a document asks for, or the first thing wrong with its
    access modes or else with its penalties. -/
def planner (q : QueryDocument) (t : Timetable Float) :
    Except (PlanError Float) (Planner Keystream Float) := do
  Planner.ofModeChanges t q.modeChanges (← q.resolver) q.accessState

end QueryDocument

end Journey
