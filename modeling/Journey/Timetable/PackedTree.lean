import Journey.Box
import Journey.Selection
import Journey.Timetable.Locator

/-!
# Packed Trees

The tree that is used with floating point.

Things at places are put into groups that are close together, and these into
larger groups, up to a single group of all. A search goes only into groups whose
boxes are near enough. For things that are somewhere this is no more than a short
cut. Where coordinates are infinite or not numbers it decides what is found: the
distance of a box may be unknown where the distances of some of what is in it are
known, and what is in such a box is not found.

A group that is too large is cut into strips by one coordinate and the strips
into groups by the other, all about equally large. This takes an order of the
coordinates, which there is not if one of them is not a number.

A distance can be too large to be a number, and between places that are not
both somewhere it is not a number at all. When the nearest one is looked for,
what is at such a distance is passed over as long as there is something else. If
there is not, the choice is between things that are all infinitely far away, and
the first one is taken; but where it would be between distances that cannot be
compared there is no answer.

## Main definitions

* `PackedTree.groups`: The next smaller groups of a group.
* `PackedTree.located`: What a search comes upon.
* `PackedTree.nearest?`: The nearest of some things.
* `MarkerTree.packed`: Such a tree of markers.
* `Locator.ofMarkers?`: Accepting markers that can be put into groups.
-/

namespace Journey

namespace PackedTree

/-- The size of the largest group that is not divided further, and the number
    of groups that a larger one may hold. -/
def groupSize : Nat := 6

/-- The size of the groups in a group of `n` things if they were full: the
    largest power of the group size that is less than `n`. -/
def fullSize (n : Nat) : Nat :=
  if n ≤ groupSize * groupSize then groupSize
  else groupSize * fullSize ((n + groupSize - 1) / groupSize)
termination_by n
decreasing_by simp only [groupSize] at *; omega

/-- Into how many strips a group of `n` things is cut, and every strip into how
    many groups. Two make enough groups if four full ones hold everything, and
    three are always enough. -/
def strips (n : Nat) : Nat := if n ≤ 4 * fullSize n then 2 else 3

variable {α β : Type} [Scalar α]

/-- Cut a list into pieces of a size, by increasing coordinate, with a limited
    number of cuts. -/
def cut (coordinate : β → α) (size : Nat) : (cuts : Nat) → List β → List (List β)
  | 0, xs => [xs]
  | cuts + 1, xs =>
    if xs.length ≤ size then [xs]
    else
      let (piece, rest) := Selection.least (fun a b => coordinate a < coordinate b) size xs
      piece :: cut coordinate size cuts rest

/-- Cut a list into a number of pieces that are about equally large. -/
def cutEvenly (coordinate : β → α) (pieces : Nat) (xs : List β) : List (List β) :=
  cut coordinate ((xs.length + pieces - 1) / pieces) (pieces - 1) xs

/-- The groups in a group of things. -/
def groups (place : β → Point α) (xs : List β) : List (List β) :=
  let pieces := strips xs.length
  (cutEvenly (fun x => (place x).y) pieces xs).flatMap (cutEvenly (fun x => (place x).x) pieces)

/-- The things whose squared distance from a place is at most `bound`. -/
def reached (place : β → Point α) (center : Point α) (bound : α) (xs : List β) : List β :=
  xs.filter fun x => (place x).squaredDistance center ≤ bound

/-- What a search in a group comes upon, going into groups and to things whose
    squared distance from a place is at most `bound`. -/
def located [Planar α] (place : β → Point α) (center : Point α) (bound : α) :
    (depth : Nat) → List β → List β
  | 0, _ => []
  | depth + 1, xs =>
    match Box.around? (xs.map place) with
    | none => []
    | some box =>
      if box.squaredDistance center ≤ bound then
        if xs.length ≤ groupSize then reached place center bound xs
        else (groups place xs).flatMap (located place center bound depth)
      else []

/-- The nearer of the nearest thing so far and another one. If neither is
    nearer, the nearest so far remains. -/
def nearer (place : β → Point α) (center : Point α) (best : Option β) (x : β) : Option β :=
  match best with
  | none => some x
  | some b =>
    if (place x).squaredDistance center < (place b).squaredDistance center then some x else some b

/-- The first of some things, if there is a choice to make between their
    distances. A single one does not have to be compared with any. -/
def first? (place : β → Point α) (center : Point α) (xs : List β) : Option (Option β) :=
  match xs with
  | [] => some none
  | [x] => some (some x)
  | x :: _ =>
    let distances := xs.map fun x => (place x).squaredDistance center
    if distances.all fun d => Scalar.same d d then some (some x) else none

/-- The nearest of some things, the first one of several. There is no answer if
    no distance is finite and they cannot be compared. -/
def nearest? (place : β → Point α) (center : Point α) (xs : List β) : Option (Option β) :=
  let near := xs.filter fun x => Scalar.isFinite ((place x).squaredDistance center)
  match near.foldl (nearer place center) none with
  | some x => some (some x)
  | none => first? place center xs

end PackedTree

/-- A tree that puts markers into groups. -/
@[reducible]
def MarkerTree.packed {α : Type} [Scalar α] [Planar α] : MarkerTree α where
  located markers center bound :=
    -- No group is as large as the one it is in, so this is as deep as groups can be.
    PackedTree.located (·.val.position) center bound markers.length markers.attach
  neighbour? markers center := PackedTree.nearest? (·.val.position) center markers.attach

instance : MarkerTree Float := MarkerTree.packed

namespace Locator

variable {α : Type} [Scalar α]

/-- Whether the coordinates of some markers can be put in order. -/
def orderable (markers : List (Marker α)) : Bool :=
  markers.all fun m => m.position.same m.position

/-- A locator of some markers, unless they have to be put into groups and cannot
    be. -/
def ofMarkers? (markers : List (Marker α)) : Option (Locator α) :=
  if markers.length ≤ PackedTree.groupSize || orderable markers then some { markers } else none

end Locator

end Journey
