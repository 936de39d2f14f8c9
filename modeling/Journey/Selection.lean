import Journey.Selection.Medians

/-!
# Selection

The least few elements of a list, apart from the others.

Sorting a whole list to find its least elements does more than is asked. A
pivot splits the list, and only the part in which the boundary lies has to be
split further, until it is short enough to be sorted. A pivot is the median of
a few elements, which is nearly always good enough; if it was not for many
times in a row, the pivots are chosen with more care.

If only one element is left over it is looked for directly.

## Main definitions

* `Selection.medianOf`: The median of three elements, by position.
* `Selection.middling`: The position of a pivot.
* `Selection.arrange`: Bringing the least elements to the front.
* `Selection.least`: The least elements and the others.
-/

namespace Journey

namespace Selection

variable {β : Type}

/-- The position of the median of three elements: the first position, unless its
    element lies on one side of the other two. -/
def medianOf (less : β → β → Bool) (xs : Array β) (i j k : Nat) : Nat :=
  let isBelow := lessAt less xs i j
  if isBelow = lessAt less xs i k then (if lessAt less xs j k = isBelow then j else k) else i

/-- The position of a middling element among the `8 * n` ones from a position
    on. If there are many, each of the three that are compared is itself a
    middling one of an eighth. -/
def middling (less : β → β → Bool) (xs : Array β) : (depth : Nat) → (start n : Nat) → Nat
  | 0, start, _ => start
  | depth + 1, start, n =>
    let sample (i : Nat) : Nat := if 8 ≤ n then middling less xs depth i (n / 8) else i
    medianOf less xs (sample start) (sample (start + 4 * n)) (sample (start + 7 * n))

/-- How often a list is split before the pivots are chosen with more care. -/
def splitLimit : Nat := 16

/-- Arrange a list so that no element before a position is greater than the one
    there, and none after it is less. If an element is known that none is less
    than, a pivot equal to it is split off with all its equals, so that many
    equal elements do not slow down the search. -/
def arrange (less : β → β → Bool) : (splits : Nat) → (position : Nat) → (bound : Option β) →
    List β → List β
  | 0, position, _, xs => arrangeByMedians less xs.length position xs
  | splits + 1, position, bound, xs =>
    if xs.length ≤ shortLength then sorted less xs
    else
      let candidate := middling less xs.toArray xs.length 0 (xs.length / 8)
      -- The bound is a pivot that was split off before, and nothing is less.
      let isLeast := match bound, xs[candidate]? with
        | some b, some pivot => !less b pivot
        | _, _ => false
      if isLeast then
        match split (fun a b => !less b a) candidate xs with
        | none => xs
        | some (low, pivot, high) =>
          if position ≤ low.length then low ++ pivot :: high
          else low ++ pivot :: arrange less splits (position - low.length - 1) none high
      else
        match split less candidate xs with
        | none => xs
        | some (low, pivot, high) =>
          if low.length < position then
            low ++ pivot :: arrange less splits (position - low.length - 1) (some pivot) high
          else if position < low.length then
            arrange less splits position bound low ++ pivot :: high
          else low ++ pivot :: high

/-- The `count` least elements and the others. -/
def least (less : β → β → Bool) (count : Nat) (xs : List β) : List β × List β :=
  let arranged := if xs.length = count + 1 then greatestLast less xs
    else arrange less splitLimit count none xs
  arranged.splitAt count

end Selection

end Journey
