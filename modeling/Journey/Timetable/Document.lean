import Journey.Timetable.Assembly
import Journey.Timetable.PackedTree
import Journey.Json.Decode
import Journey.Json.Parser

/-!
# Timetable Documents

Timetables written as JSON documents.

A document lists stops, routes and footpaths, and may ask for footpaths to be
generated. A stop without a name is called by its identifier.

## Main definitions

* `TimetableDocument`: The content of a document.
* `TimetableDocument.parse`: Reading a document.
* `TimetableDocument.toTimetable`: Checking and assembling it.
* `LoadError`: Why a timetable cannot be loaded.
-/

namespace Journey

/-- The content of a timetable document. -/
structure TimetableDocument where
  stops : List (Stop Float)
  routes : List (RoutePlan Float)
  footpaths : List (PlannedFootpath Float)
  footpathRule : Option (FootpathRule Float)
  intraStop : Bool

/-- Why a timetable cannot be loaded. -/
inductive LoadError where
  | unreadable
  | malformed
  | defective (defect : Defect Float)

namespace Json

/-- A stop. Its name is its identifier if it has none of its own. -/
def stop? : Decoder (Stop Float) := fun json => do
  match ← json.record? [["id"], ["name"], ["x"], ["y"], ["attributes"]] with
  | [id, name, x, y, attributes] =>
    let id : StopId ← required identifier? id
    let name ← withDefault text? "" name
    let x ← required float? x
    let y ← required float? y
    let attributes ← withDefault (dictionary? text?) .empty attributes
    return { id, name := if name.isEmpty then id.text else name, position := ⟨x, y⟩, attributes }
  | _ => none

/-- A visit of a route at a stop. -/
def call? : Decoder (Call Float) := fun json => do
  match ← json.record?
    [["stop"], ["arrival_offset", "arrival"], ["departure_offset", "departure"]] with
  | [stop, arrival, departure] =>
    return {
      stop := ← required identifier? stop
      arrivalOffset := ← required float? arrival
      departureOffset := ← required float? departure }
  | _ => none

/-- A trip. -/
def trip? : Decoder (Trip Float) := fun json => do
  match ← json.record? [["id"], ["time"]] with
  | [id, time] => return { id := ← required text? id, time := ← required time? time }
  | _ => none

/-- A route. -/
def routePlan? : Decoder (RoutePlan Float) := fun json => do
  match ← json.record? [["id"], ["line"], ["mode"], ["stops"], ["departures"]] with
  | [id, line, mode, stops, departures] =>
    return {
      id := ← required identifier? id
      line := ← required identifier? line
      mode := ← required identifier? mode
      calls := ← required (list? call?) stops
      trips := ← withDefault (list? trip?) [] departures }
  | _ => none

/-- A footpath. -/
def footpath? : Decoder (PlannedFootpath Float) := fun json => do
  match ← json.record? [["from"], ["to"], ["duration"]] with
  | [origin, target, duration] =>
    return {
      origin := ← required identifier? origin
      target := ← required identifier? target
      duration := ← required float? duration }
  | _ => none

/-- The usual ratio of walked distance to distance. -/
def usualDistanceFactor : Float := 1.3

/-- A rule for generating footpaths. -/
def footpathRule? : Decoder (FootpathRule Float) := fun json => do
  match ← json.record? [["max_distance"], ["walk_speed"], ["distance_factor"]] with
  | [maxDistance, walkSpeed, distanceFactor] =>
    return {
      maxDistance := ← required float? maxDistance
      walkSpeed := ← required float? walkSpeed
      distanceFactor := ← withDefault float? usualDistanceFactor distanceFactor }
  | _ => none

/-- A timetable document. -/
def timetable? : Decoder TimetableDocument := fun json => do
  match ← json.record?
      [["stops"], ["routes"], ["transfers"], ["footpaths"], ["intra_stop_transfers"]] with
  | [stops, routes, footpaths, rule, intraStop] =>
    return {
      stops := ← required (list? stop?) stops
      routes := ← withDefault (list? routePlan?) [] routes
      footpaths := ← withDefault (list? footpath?) [] footpaths
      footpathRule := ← withDefault (nullable? footpathRule?) none rule
      intraStop := ← withDefault bool? true intraStop }
  | _ => none

end Json

namespace TimetableDocument

/-- Read a document. -/
def parse (text : String) : Option TimetableDocument := (Json.parse text).bind Json.timetable?

/-- The draft of a document, or the first stop that is refused. -/
def toDraft (document : TimetableDocument) : Except (Defect Float) (Draft Float) := do
  let draft ← Draft.empty.addStops document.stops
  return { draft with
    routes := document.routes.toArray
    footpaths := document.footpaths.toArray
    intraStop := document.intraStop
    footpathRule := document.footpathRule }

/-- Check a document and assemble its timetable. -/
def toTimetable (document : TimetableDocument) : Except (Defect Float) (Timetable Float) := do
  (← document.toDraft).build

end TimetableDocument

/-- Read a timetable from the text of a document. -/
def Timetable.load (text : String) : Except LoadError (Timetable Float) :=
  match TimetableDocument.parse text with
  | none => .error .malformed
  | some document =>
    match document.toTimetable with
    | .error defect => .error (.defective defect)
    | .ok timetable => .ok timetable

end Journey
