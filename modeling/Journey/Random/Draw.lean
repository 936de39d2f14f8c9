import Journey.Random.Keystream

/-!
# Draws

Choosing one of several things at random.

Whatever draws is written over a class of generators, so that it can be run on
a keystream and reasoned about on a given list of outcomes.

A draw from a keystream scales 64 random bits down to the number of choices by
taking the high half of a product. Products whose low half lies in the last,
incomplete part of the range are rejected and drawn again, so that all choices
are equally likely.

## Main definitions

* `Generator`: What can be drawn from.
* `Keystream.draw`: A draw from a keystream.
-/

namespace Journey

/-- What can be drawn from. -/
class Generator (γ : Type) where
  /-- Draw a number below a bound that is not zero. -/
  draw : γ → Nat → Nat × γ

namespace Keystream

/-- The largest low half of a product that is not rejected: one less than the
    number of choices shifted to the top of 64 bits. -/
def zone (choices : Nat) : Nat := choices * Nat.pow 2 (63 - choices.log2) - 1

/-- Draw until a product is accepted, but no more than `attempts` times. At
    least half of all products are. -/
def drawWithin (choices : Nat) : (attempts : Nat) → Keystream → Nat × Keystream
  | 0, k => (0, k)
  | attempts + 1, k =>
    let (bits, k) := k.next64
    let product := bits * choices
    -- The high half is the draw, the low half decides whether it counts.
    if product % Nat.pow 2 64 ≤ zone choices then (product / Nat.pow 2 64, k)
    else drawWithin choices attempts k

/-- Draw a number below `choices`. -/
def draw (choices : Nat) (k : Keystream) : Nat × Keystream := drawWithin choices (Nat.pow 2 16) k

end Keystream

instance : Generator Keystream where
  draw k choices := Keystream.draw choices k

end Journey
