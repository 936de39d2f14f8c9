import Journey.Identifier
import Journey.Decimal.Shortest

/-!
# Configuration Errors

What is refused before anything is searched for.

Parameters, tables of penalties and access modes are checked when they are put
to use. A negative cost would let the search prune journeys that can still win,
so everything that could produce one is refused here.

## Main definitions

* `ConfigurationError`: Why a configuration is refused.
* `ConfigurationError.message`: Its text.
-/

namespace Journey

/-- Why a configuration is refused. -/
inductive ConfigurationError (α : Type) where
  /-- A marginal utility is positive, which would make costs negative. -/
  | positiveUtility (name : String) (value : α)
  /-- A component of the transfer penalty is negative or no number. -/
  | invalidPenalty (name : String) (value : α)
  /-- A speed or a factor is not positive. -/
  | notPositive (name : String) (value : α)
  /-- A radius or a duration is negative. -/
  | negative (name : String) (value : α)
  /-- A penalty for a change of mode names a mode that no route has. -/
  | unknownMode (mode : Mode)
  /-- A penalty for a change of mode goes from a mode to itself. -/
  | sameModePenalty (mode : Mode)
  /-- A penalty for a change of mode is negative or no number. -/
  | invalidModePenalty (origin target : Mode) (penalty : α)
  /-- Two penalties are given for one change of mode. -/
  | duplicateModePenalty (origin target : Mode)
  /-- There is no access mode. -/
  | noAccessModes
  /-- An access mode has no way to find its legs. -/
  | missingLegRouter (mode : Mode)
deriving DecidableEq, Repr

namespace ConfigurationError

/-- The text of a configuration error. -/
def message : ConfigurationError Float → String
  | positiveUtility name value =>
    "marginal utility of " ++ name ++ " must not be positive, got " ++ Decimal.plain value
  | invalidPenalty name value =>
    "transfer penalty " ++ name ++ " must be a non-negative number, got " ++ Decimal.plain value
  | notPositive name value => name ++ " must be positive, got " ++ Decimal.plain value
  | negative name value => name ++ " must not be negative, got " ++ Decimal.plain value
  | unknownMode mode => "mode-to-mode penalty references unknown mode " ++ mode.text
  | sameModePenalty mode => "mode-to-mode penalty from " ++ mode.text ++ " to itself"
  | invalidModePenalty origin target penalty =>
    "mode-to-mode penalty from " ++ origin.text ++ " to " ++ target.text
      ++ " must be non-negative, got " ++ Decimal.plain penalty
  | duplicateModePenalty origin target =>
    "duplicate mode-to-mode penalty from " ++ origin.text ++ " to " ++ target.text
  | noAccessModes => "intermodal access needs at least one mode"
  | missingLegRouter mode => "no access leg router registered for mode " ++ mode.text

end ConfigurationError

end Journey
