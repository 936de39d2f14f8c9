/-!
# Spans

Ranges of positions in a table whose rows are grouped.

A table that lists the route-stops of one route after those of another is
divided into consecutive spans, one for each route, and a group is read by
slicing the table at its span.

## Main definitions

* `Span`: A range of positions.
* `Span.slice?`: The rows of a table in a range, if it lies in the table.
-/

namespace Journey

/-- The positions from `start` on and before `stop`. -/
structure Span where
  start : Nat
  stop : Nat
deriving DecidableEq, Repr

instance : Inhabited Span := ⟨⟨0, 0⟩⟩

namespace Span

/-- The number of positions. -/
def size (s : Span) : Nat := s.stop - s.start

/-- The positions in order. -/
def toList (s : Span) : List Nat := List.range' s.start s.size

/-- The rows of a table at the positions of a span. A span that does not lie in
    the table has none. -/
def slice? {β : Type} (s : Span) (table : Array β) : Option (List β) :=
  if s.start ≤ s.stop ∧ s.stop ≤ table.size then some (table.extract s.start s.stop).toList
  else none

end Span

end Journey
