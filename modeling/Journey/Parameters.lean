import Journey.Scalar
import Journey.Dictionary
import Journey.Configuration

/-!
# Search Parameters

What a search weighs and how far it looks.

Preferences are given as marginal utilities per hour, which are zero or
negative. A search works with costs per second, which are their negation, so
that every cost it adds up is zero or positive. A transfer penalty is given
directly as a cost: a base and an amount per hour of travel, kept between two
bounds.

## Main definitions

* `TransferPenalty`: The price of a transfer.
* `TransferPenalty.costWithBase`: The price after some time of travel.
* `Parameters`: The parameters of a search.
* `Parameters.defect?`: The first parameter that is out of range.
-/

namespace Journey

/-- The price of a transfer. A missing bound does not bound, and bounds that
    are the wrong way round are exchanged. -/
structure TransferPenalty (α : Type) where
  base : α
  perHour : α
  minimum : Option α
  maximum : Option α
deriving DecidableEq, Repr

/-- The parameters of a search. -/
structure Parameters (α : Type) where
  /-- Marginal utility of time in a vehicle, per hour. -/
  inVehicleUtility : α
  /-- Marginal utility of waiting for a vehicle, per hour. -/
  waitingUtility : α
  /-- Marginal utility of walking, per hour. -/
  walkUtility : α
  /-- Marginal utilities of other access modes, per hour. A mode that is not
      listed has that of walking. -/
  accessModeUtilities : Dictionary α
  transferPenalty : TransferPenalty α
  /-- Speed of walking in a straight line, in metres per second. -/
  walkSpeed : α
  /-- The ratio of walked distance to distance. -/
  distanceFactor : α
  /-- How far around a facility stops are looked for, in metres. -/
  searchRadius : α
  /-- How much further than the nearest stop to look if there are fewer than
      two stops within the search radius. -/
  extensionRadius : α
  /-- How long any transfer takes at least, in seconds. -/
  minTransferTime : α
  /-- The greatest number of transfers. -/
  maxTransfers : Nat

namespace TransferPenalty

variable {α : Type} [Scalar α]

/-- The lower bound, after exchanging bounds that are the wrong way round. -/
def lower (p : TransferPenalty α) : Option α :=
  match p.minimum, p.maximum with
  | some a, some b => some (Scalar.smaller a b)
  | minimum, _ => minimum

/-- The upper bound, after exchanging bounds that are the wrong way round. -/
def upper (p : TransferPenalty α) : Option α :=
  match p.minimum, p.maximum with
  | some a, some b => some (Scalar.larger a b)
  | _, maximum => maximum

/-- Keep a cost between the bounds. -/
def clamp (p : TransferPenalty α) (cost : α) : α :=
  let cost := match p.upper with
    | some upper => Scalar.smaller cost upper
    | none => cost
  match p.lower with
  | some lower => Scalar.larger cost lower
  | none => cost

/-- The price of a transfer after `elapsed` seconds of travel, with `extra`
    added to the base. -/
def costWithBase (p : TransferPenalty α) (extra elapsed : α) : α :=
  p.clamp (p.base + extra + p.perHour * elapsed / Scalar.secondsPerHour)

/-- The price of a transfer after `elapsed` seconds of travel. -/
def cost (p : TransferPenalty α) (elapsed : α) : α := p.costWithBase 0 elapsed

/-- The first component that is negative or no number. -/
def defect? (p : TransferPenalty α) : Option (ConfigurationError α) :=
  let components : List (String × Option α) :=
    [("base", some p.base), ("per_hour", some p.perHour), ("min", p.minimum), ("max", p.maximum)]
  components.findSome? fun (name, value) =>
    value.bind fun v => if Scalar.isNonnegative v then none else some (.invalidPenalty name v)

end TransferPenalty

namespace Parameters

variable {α : Type} [Scalar α]

/-- The cost per second of something with a marginal utility per hour. -/
def costPerSecond (utility : α) : α := -utility / Scalar.secondsPerHour

/-- The cost of a second in a vehicle. -/
def inVehicleCost (p : Parameters α) : α := costPerSecond p.inVehicleUtility

/-- The cost of a second of waiting. -/
def waitingCost (p : Parameters α) : α := costPerSecond p.waitingUtility

/-- The cost of a second of walking. -/
def walkCost (p : Parameters α) : α := costPerSecond p.walkUtility

/-- The cost of a second with an access mode. -/
def accessModeCost (p : Parameters α) (mode : Mode) : α :=
  match p.accessModeUtilities.get? mode.text with
  | some utility => costPerSecond utility
  | none => p.walkCost

/-- The first of the utilities that is positive or no number. -/
def utilityDefect? (p : Parameters α) : Option (ConfigurationError α) :=
  let utilities : List (String × α) :=
    [("in-vehicle time", p.inVehicleUtility), ("waiting", p.waitingUtility),
      ("walking", p.walkUtility)]
      ++ p.accessModeUtilities.entries.map fun (mode, utility) => ("access mode " ++ mode, utility)
  utilities.findSome? fun (name, value) =>
    if Scalar.isNonpositive value then none else some (.positiveUtility name value)

/-- The first of the speeds and factors that is not positive. -/
def speedDefect? (p : Parameters α) : Option (ConfigurationError α) :=
  let quantities : List (String × α) :=
    [("beeline walk speed", p.walkSpeed), ("beeline distance factor", p.distanceFactor)]
  quantities.findSome? fun (name, value) =>
    if Scalar.isPositive value then none else some (.notPositive name value)

/-- The first of the radii and durations that is negative. -/
def extentDefect? (p : Parameters α) : Option (ConfigurationError α) :=
  let quantities : List (String × α) :=
    [("search radius", p.searchRadius), ("extension radius", p.extensionRadius),
      ("minimal transfer time", p.minTransferTime)]
  quantities.findSome? fun (name, value) =>
    if Scalar.isNonnegative value then none else some (.negative name value)

/-- The first parameter that is out of range: utilities before the transfer
    penalty, speeds and factors after it and radii and durations last. -/
def defect? (p : Parameters α) : Option (ConfigurationError α) :=
  p.utilityDefect?.or (p.transferPenalty.defect?.or (p.speedDefect?.or p.extentDefect?))

/-- Accept parameters that are in range. -/
def validate (p : Parameters α) : Except (ConfigurationError α) Unit :=
  match p.defect? with
  | some defect => .error defect
  | none => .ok ()

end Parameters

end Journey
