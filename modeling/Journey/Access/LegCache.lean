import Journey.Identifier
import Journey.Access.Leg

/-!
# Leg Caches

Legs that are kept because the same stops and facilities recur.

Legs are kept in the direction from the stop to the facility. That a pair is
not connected is kept too, so that it is not tried again. A cache that is full
keeps what it has.

Which legs are worth their room is a matter of its own, so whoever asks for
legs works with any store that answers with a kept leg or takes a new one.

## Main definitions

* `LegKey`: What a leg is kept under.
* `LegStore`: Where legs may be kept.
* `LegCache`: The legs that are kept.
* `LegCache.route`: A leg from the cache, or a new one.
-/

namespace Journey

/-- What a leg is kept under. -/
structure LegKey where
  mode : Mode
  stop : StopId
  facility : FacilityId
deriving DecidableEq, Repr

/-- Where legs may be kept. No law is assumed. -/
class LegStore (κ : Type) (α : outParam Type) where
  /-- The leg that is kept under a key, or else the given one, which may then be
      kept. -/
  route : κ → LegKey → Option (AccessLeg α) → Option (AccessLeg α) × κ
  /-- Count a leg that had to be routed without the store. -/
  count : κ → κ

/-- The legs that are kept. -/
structure LegCache (α : Type) where
  /-- How many legs are kept at most. -/
  capacity : Nat
  entries : List (LegKey × Option (AccessLeg α))
  /-- How often a leg had to be routed, whether it was then kept or not. -/
  routed : Nat
deriving DecidableEq, Repr

namespace LegCache

variable {α : Type}

/-- How many legs are kept if nothing else is asked for. -/
def usualCapacity : Nat := 100000

/-- A cache that keeps nothing yet. -/
def ofCapacity (capacity : Nat) : LegCache α := { capacity, entries := [], routed := 0 }

/-- The leg that is kept under a key. An unconnected pair is kept as having no
    leg. -/
def get? (c : LegCache α) (key : LegKey) : Option (Option (AccessLeg α)) := c.entries.lookup key

/-- How many legs are kept. -/
def size (c : LegCache α) : Nat := c.entries.length

/-- Forget all legs. -/
def clear (c : LegCache α) : LegCache α := { c with entries := [] }

/-- Count a leg that had to be routed. -/
def count (c : LegCache α) : LegCache α := { c with routed := c.routed + 1 }

/-- Keep a leg, if there is room. -/
def keep (c : LegCache α) (key : LegKey) (leg : Option (AccessLeg α)) : LegCache α :=
  if c.size < c.capacity then { c with entries := (key, leg) :: c.entries } else c

/-- The leg that is kept under a key, or else the given one, which is then
    kept. -/
def route (c : LegCache α) (key : LegKey) (leg : Option (AccessLeg α)) :
    Option (AccessLeg α) × LegCache α :=
  match c.get? key with
  | some found => (found, c)
  | none => (leg, c.count.keep key leg)

instance : LegStore (LegCache α) α := { route, count }

end LegCache

end Journey
