import Journey.Scalar

/-!
# Labels

What a search knows about arriving at a route-stop.

Every arrival that the search accepts is stored as a label and never changed;
labels are referred to by the order in which they were stored. A label names
the one it extends, which was stored before it, so following predecessors leads
back to an access candidate in finitely many steps. When a route-stop gets a
better label, the chains through the one it had stay as they are.

## Main definitions

* `Step`: How a route-stop was reached.
* `Label`: An arrival at a route-stop.
* `Label.isBeatenBy`: When another arrival is better.
* `Label.chain?`: A label and all its predecessors.
-/

namespace Journey

/-- How a route-stop was reached. -/
inductive Step (α : Type) where
  /-- From the facility, as the candidate at this position says. -/
  | access (candidate : Nat)
  /-- By the vehicle of a trip, which left the predecessor's route-stop at
      `boardingTime`. -/
  | ride (trip : Nat) (boardingTime : α)
  /-- On foot from the predecessor's stop. The cost is that of the walk and of
      the transfer together. -/
  | transfer (duration cost : α)
deriving DecidableEq, Repr

/-- An arrival at a route-stop. -/
structure Label (α : Type) where
  /-- The label this one extends, by the order of storing. -/
  previous : Option Nat
  routeStop : Nat
  step : Step α
  time : α
  cost : α
  /-- The part of the cost that goes to transfer penalties. -/
  transferCost : α
  /-- The number of transfers. -/
  transfers : Nat
deriving DecidableEq, Repr

namespace Step

variable {α : Type}

/-- Whether a vehicle was used. -/
def isRide : Step α → Bool
  | ride _ _ => true
  | access _ | transfer _ _ => false

/-- Whether this is a walk between stops. -/
def isTransfer : Step α → Bool
  | transfer _ _ => true
  | access _ | ride _ _ => false

end Step

namespace Label

variable {α : Type}

/-- Whether the label is an arrival by vehicle. -/
def isRide (l : Label α) : Bool := l.step.isRide

/-- Whether the label is an arrival on foot from another stop. -/
def isTransfer (l : Label α) : Bool := l.step.isTransfer

/-- Whether an arrival of the given cost and number of transfers is better: it
    is cheaper, or costs the same with fewer transfers. -/
def isBeatenBy [Scalar α] (l : Label α) (cost : α) (transfers : Nat) : Bool :=
  decide (cost < l.cost) || (Scalar.same cost l.cost && decide (transfers < l.transfers))

/-- A label and its predecessors with their positions, the newest first, if
    there are at most `length` of them. -/
def chainWithin? (labels : Array (Label α)) : (length : Nat) → Nat → Option (List (Nat × Label α))
  | 0, _ => none
  | length + 1, id => do
    let label ← labels[id]?
    match label.previous with
    | none => return [(id, label)]
    | some previous => return (id, label) :: (← chainWithin? labels length previous)

/-- A label and its predecessors with their positions, the newest first. -/
def chain? (labels : Array (Label α)) (id : Nat) : Option (List (Nat × Label α)) :=
  -- No chain is longer, since predecessors are stored earlier.
  chainWithin? labels labels.size id

end Label

end Journey
