import Journey.Access.Request
import Journey.Decimal.Shortest

/-!
# Plan Requests

A journey to plan, and why it may be refused.

## Main definitions

* `PlanRequest`: From where to where, and when.
* `PlanError`: Why nothing is planned.
* `PlanRequest.validate`: Accepting requests that make sense.
-/

namespace Journey

/-- A journey to plan. -/
structure PlanRequest (α : Type) where
  origin : Facility α
  destination : Facility α
  /-- In seconds after midnight. -/
  departureTime : α
  traveller : Traveller

/-- What is wrong with a request. -/
inductive RequestError (α : Type) where
  | departureTime (time : α)
  | facility (id : FacilityId)
deriving DecidableEq, Repr

/-- Why nothing is planned. -/
inductive PlanError (α : Type) where
  | configuration (error : ConfigurationError α)
  | request (error : RequestError α)
deriving DecidableEq, Repr

namespace RequestError

/-- What is wrong. -/
def message : RequestError Float → String
  | departureTime time => "departure time " ++ Decimal.plain time ++ " is not a number of seconds"
  | facility id => "facility " ++ id.text ++ " has a non-finite coordinate"

end RequestError

namespace PlanError

/-- The text of an error. -/
def message : PlanError Float → String
  | configuration error => "invalid configuration: " ++ error.message
  | request error => "invalid request: " ++ error.message

end PlanError

namespace PlanRequest

variable {α : Type} [Scalar α]

/-- What is wrong with a request: its time, or else the first facility that is
    nowhere. -/
def error? (r : PlanRequest α) : Option (RequestError α) :=
  if !Scalar.isFinite r.departureTime then some (.departureTime r.departureTime)
  else
    [r.origin, r.destination].findSome? fun facility =>
      if facility.position.isFinite then none else some (.facility facility.id)

/-- Accept a request that makes sense. -/
def validate (r : PlanRequest α) : Except (PlanError α) Unit :=
  match r.error? with
  | some error => .error (.request error)
  | none => .ok ()

/-- The request for the candidates at the origin. -/
def accessRequest (r : PlanRequest α) (p : Parameters α) : AccessRequest α :=
  { facility := r.origin
    direction := .access
    departureTime := r.departureTime
    parameters := p
    traveller := r.traveller }

/-- The request for the candidates at the destination. -/
def egressRequest (r : PlanRequest α) (p : Parameters α) : AccessRequest α :=
  { facility := r.destination
    direction := .egress
    departureTime := r.departureTime
    parameters := p
    traveller := r.traveller }

end PlanRequest

end Journey
