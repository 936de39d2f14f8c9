import Journey.Selection.Split

/-!
# Arranging by Medians

Arranging a list around a position, with pivots that are never extreme.

A pivot that is less than almost all elements, or greater, splits off little.
There are lists for which picking a few elements and taking their median runs
into this again and again. Medians of many medians do not: the middle of the
list is filled with medians of nine elements from all over it, and the median of
these is the pivot. It is found by the same method, on a list that is at most a
twelfth as long.

## Main definitions

* `Selection.middle`: The median of three elements, by position.
* `Selection.gatherMedians`: Filling the middle of a list with medians.
* `Selection.arrangeByMedians`: Arranging a list.
-/

namespace Journey

namespace Selection

variable {β : Type}

/-- Whether the element at a position is less than that at another. -/
def lessAt (less : β → β → Bool) (xs : Array β) (i j : Nat) : Bool :=
  match xs[i]?, xs[j]? with
  | some a, some b => less a b
  | _, _ => false

/-- The position of the median of three elements: the second position, unless
    its element lies outside of the other two. -/
def middle (less : β → β → Bool) (xs : Array β) (i j k : Nat) : Nat :=
  let (low, high) := if lessAt less xs k i then (k, i) else (i, k)
  if lessAt less xs high j then high
  else if lessAt less xs j low then low
  else j

/-- How many medians are gathered in a list of `n` elements. -/
def medianCount (n : Nat) : Nat :=
  if n ≤ 1024 then n / 12 else if n ≤ 128 * 1024 then n / 64 else n / 1024

/-- Where the medians of a list of `n` elements are gathered. -/
def medianStart (n : Nat) : Nat := n / 2 - medianCount n / 2

/-- Bring a median of nine elements to the `i`-th place for medians. It is the
    median of three medians: of three elements each from the left, from about
    the middle and from the right. -/
def gatherMedian (less : β → β → Bool) (xs : Array β) (i : Nat) : Array β :=
  let count := medianCount xs.size
  let start := medianStart xs.size
  -- What is not looked at is left out evenly between the groups.
  let gap := (xs.size - 9 * count) / 4
  let place := start + i
  let left := start - 4 * count - gap + 3 * i
  let right := start + count + gap + 3 * i
  let a := middle less xs left (place - count) right
  let b := middle less xs (left + 1) place (right + 1)
  let c := middle less xs (left + 2) (place + count) (right + 2)
  xs.swapIfInBounds (middle less xs a b c) place

/-- Fill the middle of a list with medians. -/
def gatherMedians (less : β → β → Bool) (xs : Array β) : Array β :=
  (List.range (medianCount xs.size)).foldl (gatherMedian less) xs

/-- Arrange a list so that no element before a position is greater than the one
    there, and none after it is less. The depth bounds the number of steps; the
    length of the list is enough. -/
def arrangeByMedians (less : β → β → Bool) : (depth : Nat) → (position : Nat) → List β → List β
  | 0, _, xs => xs
  | depth + 1, position, xs =>
    if xs.length ≤ shortLength then sorted less xs
    else if position + 1 = xs.length then greatestLast less xs
    else if position = 0 then leastFirst less xs
    else
      let count := medianCount xs.length
      let start := medianStart xs.length
      let gathered := (gatherMedians less xs.toArray).toList
      let medians := arrangeByMedians less depth (count / 2) ((gathered.drop start).take count)
      let ready := gathered.take start ++ medians ++ gathered.drop (start + count)
      match split less (start + count / 2) ready with
      | none => ready
      | some (low, pivot, high) =>
        if position < low.length then arrangeByMedians less depth position low ++ pivot :: high
        else if low.length < position then
          low ++ pivot :: arrangeByMedians less depth (position - low.length - 1) high
        else low ++ pivot :: high

end Selection

end Journey
