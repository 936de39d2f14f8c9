import Journey.Timetable
import Journey.Parameters
import Journey.Parameters.ModeChange
import Journey.Search.Label

/-!
# Transfer Policies

What a transfer adds to the cost of a journey.

A policy is asked about every transfer that the search considers and answers
with an increment. Every label carries the sum of the increments along its
chain, so a policy may price the earlier transfers anew by answering the
difference between a new sum and the old one.

The price of the time-proportional policy grows with the time travelled.
Without a table of mode changes every transfer of a journey costs what the
whole journey up to now makes it cost. With one, a journey is divided into runs
of rides of the same mode: a transfer within a run is priced by the time since
the run started, and the one that leaves the run for another mode has the
penalty of the pair of modes added to its base.

## Main definitions

* `TransferContext`: What a policy may look at.
* `TransferPolicy`: What a transfer costs.
* `TransferPolicy.flat`: The same for every transfer.
* `TransferPolicy.timeProportional`: By the time travelled.
* `Label.runStart?`: Where a run of rides of one mode started.
-/

namespace Journey

/-- What a policy may look at when it prices a transfer. -/
structure TransferContext (α : Type) where
  labels : Array (Label α)
  /-- The position of the label that the transfer extends. -/
  ride : Nat
  fromMode : Mode
  toMode : Mode
  /-- When the transfer ends. -/
  arrivalTime : α
  /-- How long after the departure of the journey the transfer ends. -/
  totalTravelTime : α
  /-- The number of transfers including this one. -/
  transfers : Nat
  /-- The sum of the increments so far. -/
  existingCost : α
  parameters : Parameters α

/-- What a transfer adds to the cost of a journey. There is no answer when a
    label or a route-stop does not exist. -/
abbrev TransferPolicy (α : Type) := Timetable α → TransferContext α → Option α

namespace Label

variable {α : Type}

/-- The label before a boarding: the one a walk came from, or a ride itself if
    it was left at the boarding. -/
def rideBefore? (labels : Array (Label α)) (boarding : Label α) : Option (Option (Label α)) :=
  match boarding.step, boarding.previous with
  | .transfer _ _, some previous => labels[previous]?.map some
  | .transfer _ _, none => some none
  | .ride _ _, _ => some (some boarding)
  | .access _, _ => some none

/-- Where the run of rides of a mode started that ends with the given ride,
    looking at no more than `length` rides. -/
def runStartWithin? (t : Timetable α) (labels : Array (Label α)) (mode : Mode) :
    (length : Nat) → Label α → Option (Label α)
  | 0, _ => none
  | length + 1, ride =>
    match ride.previous with
    -- A ride without a predecessor does not occur in a search.
    | none => some ride
    | some id => do
      let boarding ← labels[id]?
      match ← rideBefore? labels boarding with
      | none => return boarding
      | some previous =>
        if previous.isRide then
          if (← t.modeOf? previous.routeStop) = mode then
            runStartWithin? t labels mode length previous
          else return boarding
        else return boarding

/-- Where the run of rides of one mode started that ends with a label: the
    label its first ride was boarded from. A label that is no ride is its own
    start. -/
def runStart? (t : Timetable α) (labels : Array (Label α)) (id : Nat) : Option (Label α) := do
  let label ← labels[id]?
  if label.isRide then
    let mode ← t.modeOf? label.routeStop
    runStartWithin? t labels mode labels.size label
  else return label

end Label

namespace TransferPolicy

variable {α : Type}

/-- The same price for every transfer. -/
def flat (price : α) : TransferPolicy α := fun _ _ => some price

variable [Scalar α]

/-- What makes every transfer of a journey cost what its travel time makes it
    cost. -/
def repriced (c : TransferContext α) : α :=
  c.parameters.transferPenalty.cost c.totalTravelTime * (c.transfers : α) - c.existingCost

/-- What makes the transfers since the start of the current run cost what the
    time since then makes them cost, the last one with a penalty for a change
    of mode. -/
def repricedSince (start : Label α) (pair : α) (c : TransferContext α) : α :=
  let penalty := c.parameters.transferPenalty
  -- All transfers since the start but the one that is priced.
  let earlier := c.transfers - start.transfers - 1
  let elapsed := c.arrivalTime - start.time
  start.transferCost + penalty.cost elapsed * (earlier : α) + penalty.costWithBase pair elapsed
    - c.existingCost

/-- A price that grows with the time travelled, with or without penalties for
    changes of mode. -/
def timeProportional : Option (ModeChangeTable α) → TransferPolicy α
  | none => fun _ c => some (repriced c)
  | some table => fun t c => do
    let start ← Label.runStart? t c.labels c.ride
    return repricedSince start (table.penalty c.fromMode c.toMode) c

end TransferPolicy

end Journey
