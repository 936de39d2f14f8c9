import Journey.Planar
import Journey.Identifier
import Journey.Dictionary
import Journey.Parameters
import Journey.Candidate
import Journey.Timetable.Locator

/-!
# Access Requests

Asking for the candidates at one end of a journey.

A journey begins and ends at facilities, which are not part of a timetable. For
either end there is a request for the stops between which and the facility a
traveller can get, and for how.

## Main definitions

* `Facility`: An origin or a destination.
* `Direction`: Which end of the journey is asked about.
* `AccessRequest`: What is asked.
* `Timetable.stopsNear`: The stops around a facility.
-/

namespace Journey

/-- An origin or a destination, such as a home or a workplace. -/
structure Facility (α : Type) where
  id : FacilityId
  position : Point α
deriving DecidableEq, Repr

/-- Which end of a journey is asked about. -/
inductive Direction where
  /-- From the facility to a stop. -/
  | access
  /-- From a stop to the facility. -/
  | egress
deriving DecidableEq, Repr

/-- The attributes of a traveller, which filters of access modes look at. -/
abbrev Traveller := Dictionary String

/-- What is asked about one end of a journey. -/
structure AccessRequest (α : Type) where
  facility : Facility α
  direction : Direction
  /-- When the journey begins, in seconds after midnight. -/
  departureTime : α
  parameters : Parameters α
  traveller : Traveller

namespace Timetable

variable {α : Type} [Scalar α]

/-- The rows of stops at the given positions. -/
def stopRows (t : Timetable α) (indices : List Nat) : List (Nat × Stop α) :=
  indices.filterMap fun index => t.stops[index]?.map fun stop => (index, stop)

/-- The stops at most `radius` away from a place, by increasing index. -/
def stopsNear [MarkerTree α] (t : Timetable α) (center : Point α) (radius : α) :
    List (Nat × Stop α) :=
  t.stopRows (t.stopsWithin center radius)

end Timetable

end Journey
