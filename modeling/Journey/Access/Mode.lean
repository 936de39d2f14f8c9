import Journey.Identifier
import Journey.Dictionary
import Journey.Configuration
import Journey.Scalar

/-!
# Access Modes

With what modes, and where, facilities and stops may be connected.

A mode may be limited to stops and to travellers with a certain attribute. The
modes are combined in one of two ways: the cheapest one counts at every stop,
or one mode is drawn at random and used alone.

## Main definitions

* `AttributeFilter`: A required value of an attribute.
* `AccessMode`: A mode and its limits.
* `ModeSelection`: How modes are combined.
* `AccessModes`: The modes and how they are combined.
* `AccessModes.defect?`: What is wrong with them.
-/

namespace Journey

/-- A required value of an attribute. -/
structure AttributeFilter where
  key : String
  value : String
deriving DecidableEq, Repr

/-- A mode and its limits. -/
structure AccessMode (α : Type) where
  mode : Mode
  /-- How far around the facility stops are looked for, in metres. -/
  maxRadius : α
  /-- Whether legs are worth keeping because they are hard to find. -/
  routedOnNetwork : Bool
  stopFilter : Option AttributeFilter
  travellerFilter : Option AttributeFilter
deriving DecidableEq, Repr

/-- How modes are combined. -/
inductive ModeSelection where
  /-- The cheapest mode at every stop. -/
  | leastCostPerStop
  /-- One mode for all stops, drawn at random. -/
  | randomSingleMode
deriving DecidableEq, Repr

/-- The modes and how they are combined. -/
structure AccessModes (α : Type) where
  modes : List (AccessMode α)
  selection : ModeSelection
deriving DecidableEq, Repr

namespace AttributeFilter

/-- Whether something with the given attributes passes the filter. -/
def accepts (f : AttributeFilter) (attributes : Dictionary String) : Bool :=
  attributes.get? f.key == some f.value

/-- Whether something passes a filter, if there is one. -/
def allows (f : Option AttributeFilter) (attributes : Dictionary String) : Bool :=
  f.all (·.accepts attributes)

end AttributeFilter

namespace ModeSelection

/-- The name of a way of combining modes. -/
def label : ModeSelection → String
  | leastCostPerStop => "least_cost_per_stop"
  | randomSingleMode => "random_single_mode"

/-- The way of combining modes with a name. -/
def ofLabel? (name : String) : Option ModeSelection :=
  [leastCostPerStop, randomSingleMode].find? (·.label = name)

end ModeSelection

namespace AccessModes

variable {α : Type} [Scalar α]

/-- What is wrong with the modes: that there are none, or else the first radius
    that is negative or no number. -/
def defect? (m : AccessModes α) : Option (ConfigurationError α) :=
  if m.modes.isEmpty then some .noAccessModes
  else
    m.modes.findSome? fun mode =>
      if Scalar.isNonnegative mode.maxRadius then none
      else some (.negative "max_radius" mode.maxRadius)

end AccessModes

end Journey
