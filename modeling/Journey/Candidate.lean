import Journey.Identifier

/-!
# Candidates

Stops at which a journey may begin or end.

A candidate says what it takes to get between a facility and a stop. Lists of
them are what connects facilities, which are not part of a timetable, to the
search, which knows nothing but the timetable.

## Main definitions

* `Candidate`: A stop together with the way to or from it.
-/

namespace Journey

/-- A stop together with the way between it and a facility. -/
structure Candidate (α : Type) where
  /-- The position of the stop in the timetable. -/
  stop : Nat
  /-- How long the way takes, in seconds. -/
  time : α
  cost : α
  /-- How long the way is, in metres. -/
  distance : α
  /-- The mode in which it is reported. -/
  mode : Mode
deriving DecidableEq, Repr

end Journey
