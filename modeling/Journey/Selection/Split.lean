/-!
# Splitting Lists

Lists in which small elements come before large ones.

A list is split at one of its elements, the pivot, into the elements less than
it and the others. Among equal elements it matters which come first, so every
operation says in what order it leaves the elements. Splitting lets them pass
one by one: an element less than the pivot joins those, and the others move up
by one place to make room, their first one going to the end; any other element
comes in front of what is left of them.

An extreme element is brought to its end of the list by changing places with
the one that stands there. Sorting keeps equal elements in order.

## Main definitions

* `Selection.split`: Splitting a list at a pivot.
* `Selection.sorted`: A list in increasing order.
* `Selection.leastFirst`, `Selection.greatestLast`: Bringing an extreme element
  to its end.
-/

namespace Journey

namespace Selection

variable {β : Type}

/-- Let an element pass. The first part holds the elements less than the pivot. -/
def pass (isLess : β → Bool) (parts : List β × List β) (x : β) : List β × List β :=
  let (low, high) := parts
  if isLess x then (low ++ [x], high.rotateLeft) else (low, x :: high.rotateLeft)

/-- Split a list at the element at a position: the elements that are less, the
    pivot and the others. The first element, which made room for the pivot,
    passes last. -/
def split (less : β → β → Bool) (position : Nat) (xs : List β) : Option (List β × β × List β) := do
  let pivot ← xs[position]?
  let first ← xs.head?
  let others := (xs.set position first).tail
  let (low, high) := others.rotateLeft.foldl (pass fun x => less x pivot) ([], [])
  return (low.rotateRight, pivot, high)

/-- Up to what length a list is sorted rather than split. -/
def shortLength : Nat := 16

/-- A list in increasing order, equal elements as they stand. -/
def sorted (less : β → β → Bool) (xs : List β) : List β := xs.mergeSort fun a b => !less b a

/-- Bring the first of the least elements to the front. The first element takes
    its place. -/
def leastFirst (less : β → β → Bool) (xs : List β) : List β :=
  match xs.findIdx? fun x => xs.all fun y => !less y x, xs with
  | some i, first :: _ =>
    match xs[i]? with
    | some x => x :: (xs.set i first).tail
    | none => xs
  | _, _ => xs

/-- Bring the first of the greatest elements to the end. The last element takes
    its place. -/
def greatestLast (less : β → β → Bool) (xs : List β) : List β :=
  match xs.findIdx? fun x => xs.all fun y => !less x y, xs.getLast? with
  | some i, some last =>
    match xs[i]? with
    | some x => (xs.set i last).dropLast ++ [x]
    | none => xs
  | _, _ => xs

end Selection

end Journey
