import Mathlib.Data.List.Range
import Journey.Access.Request
import Journey.Proofs.Timetable.Locators

/-!
# Stops Around a Place

Which stops are found around a place, and in which order.

Stops are looked for as markers, which are numbered. What is found are the numbers of those
in a circle, by increasing number, and later the rows of the table they belong to. So a
stop is found exactly if its square distance is at most the square of the radius and
the radius is not negative, and no stop is found twice. This much takes a tree that does
what it should, and stops that are somewhere. But whatever the tree does, nothing is found
that is not a stop of the timetable.

## Theorems

* `Timetable.getElem?_of_mem_stopsWithin`: Only stops are found.
* `Timetable.mem_stopsWithin_iff`: The stops in a circle.
* `Timetable.pairwise_stopsWithin`: They are found in order.
* `Timetable.mem_stopsNear_iff`: The rows of the stops in a circle.
-/

namespace Journey

variable {α : Type}

theorem Stop.mem_markers_iff {stops : Array (Stop α)} {m : Marker α} :
    m ∈ Stop.markers stops ↔ ∃ stop, stops[m.index]? = some stop ∧ m.position = stop.position := by
  unfold Stop.markers
  simp only [List.mem_map, Prod.exists, List.mem_zipIdx_iff_getElem?, Array.getElem?_toList]
  constructor
  · rintro ⟨stop, index, hget, rfl⟩
    exact ⟨stop, hget, rfl⟩
  · rintro ⟨stop, hget, hposition⟩
    exact ⟨stop, m.index, hget, by rw [← hposition]⟩

theorem Stop.pairwise_markers (stops : Array (Stop α)) :
    (Stop.markers stops).Pairwise (·.index < ·.index) := by
  unfold Stop.markers
  rw [List.pairwise_map]
  have hsorted : (stops.toList.zipIdx.map Prod.snd).Pairwise (· < ·) := by
    rw [List.zipIdx_map_snd]
    exact List.pairwise_lt_range'
  exact List.pairwise_map.mp hsorted

-- Markers are where the stops are.
theorem Stop.isFinite_markers [Scalar α] {stops : Array (Stop α)}
    (h : ∀ stop ∈ stops, stop.position.isFinite) :
    ∀ m ∈ Stop.markers stops, m.position.isFinite := by
  intro m hm
  rcases Stop.mem_markers_iff.mp hm with ⟨stop, hget, hposition⟩
  exact hposition ▸ h stop (Array.mem_of_getElem? hget)

namespace Timetable

/-- Every stop is somewhere. -/
def Located [Scalar α] (t : Timetable α) : Prop := ∀ stop ∈ t.stops, stop.position.isFinite

variable [Scalar α] {t : Timetable α} {center : Point α} {radius : α} {index : Nat}

variable [MarkerTree α]

/-- Only stops are found. -/
theorem getElem?_of_mem_stopsWithin (h : index ∈ t.stopsWithin center radius) :
    ∃ stop, t.stops[index]? = some stop := by
  rcases Locator.mem_markers_of_mem_within h with ⟨m, hm, rfl⟩
  rcases Stop.mem_markers_iff.mp hm with ⟨stop, hget, -⟩
  exact ⟨stop, hget⟩

section Finding

variable [MarkerTree.Faithful α]

theorem stopsWithin_eq (ht : t.Located) (hcenter : center.isFinite) (radius : α) :
    t.stopsWithin center radius = if 0 ≤ radius then
      ((Stop.markers t.stops).filter fun m => m.squaredDistance center ≤ radius * radius).map
        (·.index)
    else [] :=
  Locator.within_eq (l := Locator.ofStops t.stops) (Stop.pairwise_markers t.stops)
    (Stop.isFinite_markers ht) hcenter radius

/-- The stops in a circle. -/
theorem mem_stopsWithin_iff (ht : t.Located) (hcenter : center.isFinite) :
    index ∈ t.stopsWithin center radius ↔ 0 ≤ radius ∧ ∃ stop, t.stops[index]? = some stop ∧
      stop.position.squaredDistance center ≤ radius * radius := by
  rw [stopsWithin_eq ht hcenter]
  by_cases hradius : 0 ≤ radius
  · rw [if_pos hradius, and_iff_right hradius]
    simp only [List.mem_map, List.mem_filter, Stop.mem_markers_iff, Marker.squaredDistance]
    constructor
    · rintro ⟨m, ⟨⟨stop, hstop, hposition⟩, hle⟩, rfl⟩
      exact ⟨stop, hstop, hposition ▸ of_decide_eq_true hle⟩
    · rintro ⟨stop, hstop, hle⟩
      exact ⟨⟨index, stop.position⟩, ⟨⟨stop, hstop, rfl⟩, decide_eq_true hle⟩, rfl⟩
  · rw [if_neg hradius]
    exact ⟨fun hc => absurd hc List.not_mem_nil, fun hc => absurd hc.1 hradius⟩

/-- Stops are found by increasing index. -/
theorem pairwise_stopsWithin (ht : t.Located) (hcenter : center.isFinite) (radius : α) :
    (t.stopsWithin center radius).Pairwise (· < ·) := by
  rw [stopsWithin_eq ht hcenter]
  split
  · exact List.pairwise_map.mpr ((Stop.pairwise_markers t.stops).filter _)
  · exact List.Pairwise.nil

end Finding

omit [Scalar α] [MarkerTree α] in
theorem mem_stopRows_iff {indices : List Nat} {stop : Stop α} :
    (index, stop) ∈ t.stopRows indices ↔ index ∈ indices ∧ t.stops[index]? = some stop := by
  unfold stopRows
  simp only [List.mem_filterMap, Option.map_eq_some_iff, Prod.mk.injEq]
  constructor
  · rintro ⟨_, hmem, _, hget, rfl, rfl⟩
    exact ⟨hmem, hget⟩
  · rintro ⟨hmem, hget⟩
    exact ⟨index, hmem, stop, hget, rfl, rfl⟩

omit [Scalar α] [MarkerTree α] in
-- Rows that exist are found for all indices, in the same order.
theorem stopRows_map_fst {indices : List Nat}
    (h : ∀ index ∈ indices, ∃ stop, t.stops[index]? = some stop) :
    (t.stopRows indices).map Prod.fst = indices := by
  induction indices with
  | nil => rfl
  | cons index indices ih =>
      rcases h index List.mem_cons_self with ⟨stop, hget⟩
      unfold stopRows at ih ⊢
      rw [List.filterMap_cons, hget, Option.map_some, List.map_cons,
        ih fun i hi => h i (List.mem_cons_of_mem _ hi)]

theorem stopsNear_map_fst (t : Timetable α) (center : Point α) (radius : α) :
    (t.stopsNear center radius).map Prod.fst = t.stopsWithin center radius :=
  stopRows_map_fst fun _ => getElem?_of_mem_stopsWithin

theorem getElem?_of_mem_stopsNear {stop : Stop α} (h : (index, stop) ∈ t.stopsNear center radius) :
    t.stops[index]? = some stop :=
  (mem_stopRows_iff.mp h).2

/-- The rows of the stops in a circle. -/
theorem mem_stopsNear_iff [MarkerTree.Faithful α] (ht : t.Located) (hcenter : center.isFinite)
    {stop : Stop α} : (index, stop) ∈ t.stopsNear center radius ↔
      t.stops[index]? = some stop ∧ 0 ≤ radius ∧
        stop.position.squaredDistance center ≤ radius * radius := by
  unfold stopsNear
  rw [mem_stopRows_iff, mem_stopsWithin_iff ht hcenter]
  constructor
  · rintro ⟨⟨hradius, stop', hget', hle⟩, hget⟩
    rw [hget, Option.some.injEq] at hget'
    subst hget'
    exact ⟨hget, hradius, hle⟩
  · rintro ⟨hget, hradius, hle⟩
    exact ⟨⟨hradius, stop, hget, hle⟩, hget⟩

end Timetable

end Journey
