import Journey.Access.Walking
import Journey.Access.Intermodal

/-!
# Access Resolvers

How the candidates at the ends of journeys are found.

A resolver is asked again and again, and what one request leaves behind is
there for the next: the legs that were kept, and how far the random generator
has got.

## Main definitions

* `Resolver`: Walking, or several modes.
* `AccessState`: What is left behind from one request to the next.
* `Resolver.candidates?`: The candidates of a request.
-/

namespace Journey

/-- How candidates are found. -/
inductive Resolver (α : Type) where
  /-- On foot in a straight line. -/
  | walking
  /-- With several modes. -/
  | intermodal (modes : Intermodal α)

/-- What is left behind from one request to the next. -/
structure AccessState (γ α : Type) where
  cache : LegCache α
  generator : γ

namespace Resolver

variable {α : Type} [Scalar α] [Planar α] [MarkerTree α] {γ : Type} [Generator γ]

/-- The candidates of a request, by increasing stop. Walking has no answer for
    a facility whose nearest stop cannot be told. -/
def candidates? (resolver : Resolver α) (t : Timetable α) (r : AccessRequest α)
    (state : AccessState γ α) : Option (List (Candidate α) × AccessState γ α) :=
  match resolver with
  | .walking => (Walking.candidates? t r).map fun found => (found, state)
  | .intermodal modes =>
    let (found, cache, generator) := modes.candidates t r state.cache state.generator
    some (found, { cache, generator })

end Resolver

end Journey
