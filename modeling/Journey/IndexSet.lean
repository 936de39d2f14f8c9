/-!
# Index Sets

Sets of indices below a fixed capacity that remember the order of insertion
and can be emptied at no cost.

Every index has a stamp, and the set has a generation: an index is a member
when its stamp is the current generation. Emptying the set moves on to the next
generation and touches no stamp. Generations are counted in 32 bits; when they
run out, all stamps are reset once.

Inserting at or beyond the capacity is refused. An index beyond the capacity is
simply not a member.

## Main definitions

* `IndexSet`: The stamps, the generation and the members.
* `IndexSet.ofCapacity`: The empty set over the indices below a capacity.
* `IndexSet.insert`: Insertion, refused beyond the capacity.
* `IndexSet.clear`: Emptying.
-/

namespace Journey

/-- A set of indices that remembers the order of insertion. -/
structure IndexSet where
  stamps : Array Nat
  generation : Nat
  /-- The members, the one inserted last at the end. -/
  members : Array Nat
deriving DecidableEq, Repr

namespace IndexSet

/-- The last generation before the stamps are reset. -/
def lastGeneration : Nat := Nat.pow 2 32 - 1

/-- The empty set over the indices below a capacity. -/
def ofCapacity (capacity : Nat) : IndexSet :=
  { stamps := Array.replicate capacity 0, generation := 1, members := #[] }

/-- The empty set over no indices at all, before its first generation. -/
def empty : IndexSet := { stamps := #[], generation := 0, members := #[] }

instance : Inhabited IndexSet := ⟨empty⟩

/-- The number of indices the set can hold. -/
def capacity (s : IndexSet) : Nat := s.stamps.size

/-- The number of members. -/
def size (s : IndexSet) : Nat := s.members.size

/-- Whether there are no members. -/
def isEmpty (s : IndexSet) : Bool := s.members.isEmpty

/-- The members in the order of their insertion. -/
def toList (s : IndexSet) : List Nat := s.members.toList

/-- Whether an index is a member. -/
def contains (s : IndexSet) (index : Nat) : Bool := s.stamps[index]? == some s.generation

/-- Insert an index and say whether it was new. Indices at or beyond the
    capacity are refused. -/
def insert (s : IndexSet) (index : Nat) : Option (IndexSet × Bool) :=
  if h : index < s.stamps.size then
    if s.stamps[index] = s.generation then some (s, false)
    else
      some ({ s with
        stamps := s.stamps.set index s.generation h
        members := s.members.push index }, true)
  else none

/-- Insert an index whether it is new or not. -/
def mark (s : IndexSet) (index : Nat) : Option IndexSet := (s.insert index).map Prod.fst

/-- Remove all members. -/
def clear (s : IndexSet) : IndexSet :=
  if s.generation = lastGeneration then
    { stamps := Array.replicate s.stamps.size 0, generation := 1, members := #[] }
  else { s with generation := s.generation + 1, members := #[] }

end IndexSet

end Journey
