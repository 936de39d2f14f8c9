import Mathlib.Data.List.Sort
import Journey.Timetable.Locator

/-!
# Locators and Trees

What a locator answers, whatever tree it asks.

A tree is only known by what its library says of it: around a place it locates what is near
enough, in an order of its own, and what it yields as the neighbour of a place is a marker
that no other one is nearer than. `MarkerTree.Faithful` says so of markers that are
somewhere, and nothing about others.

The order that the tree leaves open is decided by the locator. What is located is sorted, so
it comes by increasing index, and of the markers as near as the neighbour the first one
counts. So the answers are the same with every tree.

## Main definitions

* `Point.IsNearest`: Nothing is nearer.
* `MarkerTree.Faithful`: What a tree may be relied on for.

## Theorems

* `Locator.within_eq`: The markers in a circle, in order.
* `Locator.firstNearest_spec`: The first of the nearest markers.
* `Locator.nearest?_cases`: The nearest marker is found.
-/

namespace Journey

variable {α : Type} [Scalar α]

/-- Nothing is nearer than one of some things at places, unless there are none. -/
def Point.IsNearest {β : Type} (place : β → Point α) (center : Point α) (xs : List β) :
    Option β → Prop
  | none => xs = []
  | some best => best ∈ xs ∧
      ∀ x ∈ xs, (place best).squaredDistance center ≤ (place x).squaredDistance center

-- Things can be looked up by something else that leads to them.
theorem Point.IsNearest.map {β γ : Type} {place : β → Point α} {center : Point α} {f : γ → β}
    {xs : List γ} {best : Option γ}
    (h : Point.IsNearest (fun x => place (f x)) center xs best) :
    Point.IsNearest place center (xs.map f) (best.map f) := by
  cases best with
  | none => exact List.map_eq_nil_iff.mpr h
  | some best =>
      refine ⟨List.mem_map_of_mem h.1, fun y hy => ?_⟩
      rcases List.mem_map.mp hy with ⟨x, hx, rfl⟩
      exact h.2 x hx

/-- What a tree may be relied on for, if its markers are somewhere. -/
class MarkerTree.Faithful (α : Type) [Scalar α] [MarkerTree α] : Prop where
  /-- What is located is what is near enough, in any order. -/
  located : ∀ (ms : List (Marker α)) (center : Point α) (bound : α),
    (∀ m ∈ ms, m.position.isFinite) → center.isFinite →
      ((located ms center bound).map Subtype.val).Perm
        (ms.filter fun m => m.squaredDistance center ≤ bound)
  /-- No marker is nearer than the neighbour, and there is one unless there are no markers. -/
  neighbour? : ∀ (ms : List (Marker α)) (center : Point α),
    (∀ m ∈ ms, m.position.isFinite) → center.isFinite →
      ∃ nearest, neighbour? ms center = some nearest ∧
        Point.IsNearest Marker.position center ms (nearest.map Subtype.val)

namespace Locator

theorem sortIndices_eq (indices : List Nat) :
    sortIndices indices = indices.insertionSort (· ≤ ·) := by
  have hinsert : ∀ index l, insertIndex index l = l.orderedInsert (· ≤ ·) index := by
    intro index l
    induction l with
    | nil => rfl
    | cons head rest ih =>
        unfold insertIndex
        rw [ih, List.orderedInsert_cons]
  unfold sortIndices List.insertionSort
  congr 1
  funext index l
  exact hinsert index l

theorem perm_sortIndices (indices : List Nat) : (sortIndices indices).Perm indices := by
  rw [sortIndices_eq]
  exact indices.perm_insertionSort _

theorem pairwise_sortIndices (indices : List Nat) : (sortIndices indices).Pairwise (· ≤ ·) := by
  rw [sortIndices_eq]
  exact indices.pairwise_insertionSort _

-- What is sorted already is what sorting any rearrangement of it gives.
theorem sortIndices_of_perm {indices sorted : List Nat} (h : indices.Perm sorted)
    (hsorted : sorted.Pairwise (· < ·)) : sortIndices indices = sorted :=
  ((perm_sortIndices indices).trans h).eq_of_pairwise'
    (pairwise_sortIndices indices) (hsorted.imp Nat.le_of_lt)

variable [MarkerTree α] {l : Locator α} {center : Point α} {radius : α}

/-- Only markers of the locator are found. -/
theorem mem_markers_of_mem_within {index : Nat} (h : index ∈ l.within center radius) :
    ∃ m ∈ l.markers, m.index = index := by
  unfold within at h
  split at h
  · rcases List.mem_map.mp ((perm_sortIndices _).mem_iff.mp h) with ⟨m, -, rfl⟩
    exact ⟨m.val, m.property, rfl⟩
  · exact absurd h List.not_mem_nil

variable [MarkerTree.Faithful α]

/-- The markers in a circle are found in order. -/
theorem within_eq (hsorted : l.markers.Pairwise (·.index < ·.index))
    (hl : ∀ m ∈ l.markers, m.position.isFinite) (hcenter : center.isFinite) (radius : α) :
    l.within center radius = if 0 ≤ radius then
      (l.markers.filter fun m => m.squaredDistance center ≤ radius * radius).map (·.index)
    else [] := by
  unfold within
  split
  · refine sortIndices_of_perm ?_ (List.pairwise_map.mpr (hsorted.filter _))
    have hmap := (MarkerTree.Faithful.located l.markers center (radius * radius) hl hcenter).map
      (·.index)
    rwa [List.map_map] at hmap
  · rfl

/-- Of the markers that are as near as a given one the first one is taken. -/
theorem firstNearest_spec (hl : ∀ m ∈ l.markers, m.position.isFinite) (hcenter : center.isFinite)
    {nearest : Marker α}
    (hnearest : Point.IsNearest Marker.position center l.markers (some nearest)) :
    (∃ m ∈ l.markers, m.index = l.firstNearest center nearest ∧
      m.squaredDistance center ≤ nearest.squaredDistance center) ∧
    ∀ m ∈ l.markers, m.squaredDistance center ≤ nearest.squaredDistance center →
      l.firstNearest center nearest ≤ m.index := by
  rcases hnearest with ⟨hmem, hleast⟩
  have hlocated := MarkerTree.Faithful.located l.markers center (nearest.squaredDistance center) hl
    hcenter
  unfold firstNearest
  dsimp only
  generalize hties : ((MarkerTree.located l.markers center (nearest.squaredDistance center)).filter
    fun other => decide (other.val.squaredDistance center ≤
      nearest.squaredDistance center)).map (·.val.index) = ties
  have hfound : ∀ index, index ∈ ties ↔ ∃ m ∈ l.markers, m.index = index ∧
      m.squaredDistance center ≤ nearest.squaredDistance center := by
    intro index
    rw [← hties]
    constructor
    · intro h
      rcases List.mem_map.mp h with ⟨m, hm, rfl⟩
      exact ⟨m.val, m.property, rfl, of_decide_eq_true (List.mem_filter.mp hm).2⟩
    · rintro ⟨m, hm, rfl, hle⟩
      rcases List.mem_map.mp (hlocated.mem_iff.mpr
        (List.mem_filter.mpr ⟨hm, decide_eq_true hle⟩)) with ⟨m', hm', rfl⟩
      exact List.mem_map.mpr ⟨m', List.mem_filter.mpr ⟨hm', decide_eq_true hle⟩, rfl⟩
  cases hfirst : ties.min? with
  | none =>
      rw [List.min?_eq_none_iff] at hfirst
      have htie := (hfound nearest.index).mpr ⟨nearest, hmem, rfl, hleast nearest hmem⟩
      rw [hfirst] at htie
      exact absurd htie List.not_mem_nil
  | some first =>
      rcases List.min?_eq_some_iff.mp hfirst with ⟨hfirst, hmin⟩
      exact ⟨(hfound first).mp hfirst, fun m hm hle => hmin _ ((hfound _).mpr ⟨m, hm, rfl, hle⟩)⟩

/-- The nearest marker is found, and the first one of several, unless there are no markers. The
    distance is the root of the squared one. -/
theorem nearest?_cases [Planar α] (hl : ∀ m ∈ l.markers, m.position.isFinite)
    (hcenter : center.isFinite) :
    l.markers = [] ∧ l.nearest? center = some none ∨
      ∃ nearest, Point.IsNearest Marker.position center l.markers (some nearest) ∧
        l.nearest? center = some (some (l.firstNearest center nearest,
          Planar.squareRoot (nearest.squaredDistance center))) := by
  rcases MarkerTree.Faithful.neighbour? l.markers center hl hcenter with
    ⟨nearest, hneighbour, hnearest⟩
  unfold nearest?
  rw [hneighbour]
  cases nearest with
  | none => exact Or.inl ⟨hnearest, rfl⟩
  | some m => exact Or.inr ⟨m.val, hnearest, rfl⟩

end Locator

end Journey
