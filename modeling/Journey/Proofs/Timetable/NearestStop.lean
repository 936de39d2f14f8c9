import Journey.Proofs.Timetable.Edits
import Journey.Proofs.Timetable.Layout
import Journey.Proofs.Timetable.NearStops

/-!
# The Nearest Stop

Which stop is said to be the nearest one.

A tree is relied on for a marker that no other one is nearer than, as long as the markers
are somewhere, and the stops of a timetable that has been built are. From the distance of
this marker the first of several nearest stops is found by looking around once more.

## Main definitions

* `Timetable.IsNearest`: No stop is nearer.

## Theorems

* `Timetable.located_of_build`: Stops are somewhere.
* `Timetable.nearestStop?_cases`: The nearest stop is found, unless there are no stops.
-/

namespace Journey

variable {α : Type} [Scalar α]

namespace Timetable

variable {t : Timetable α} {center : Point α}

/-- No stop is nearer than this one. -/
def IsNearest (t : Timetable α) (center : Point α) (stop : Stop α) : Prop :=
  ∀ other ∈ t.stops, stop.position.squaredDistance center ≤ other.position.squaredDistance center

-- A stop is nearest if its marker is.
theorem IsNearest.of_marker {nearest : Marker α}
    (h : Point.IsNearest Marker.position center (Stop.markers t.stops) (some nearest)) :
    ∃ stop, t.stops[nearest.index]? = some stop ∧ nearest.position = stop.position ∧
      t.IsNearest center stop := by
  rcases h with ⟨hmem, hleast⟩
  rcases Stop.mem_markers_iff.mp hmem with ⟨stop, hget, hposition⟩
  refine ⟨stop, hget, hposition, fun other hother => ?_⟩
  rcases Array.getElem?_of_mem hother with ⟨index, hother⟩
  have hle := hleast ⟨index, other.position⟩ (Stop.mem_markers_iff.mpr ⟨other, hother, rfl⟩)
  rwa [hposition] at hle

variable [MarkerTree α]

/-- However a draft is made, the stops of its timetable are somewhere. -/
theorem located_of_build [Planar α] {edits : List (Edit α)}
    (h : (Draft.ofEdits edits).build = .ok t) : t.Located := by
  rcases Draft.build_eq_ok h with ⟨-, rfl⟩
  exact Draft.located_ofEdits edits

/-- The nearest stop is found, unless there are no stops. Of several nearest stops it is the
    first one. -/
theorem nearestStop?_cases [Planar α] [MarkerTree.Faithful α] (ht : t.Located)
    (hcenter : center.isFinite) :
    t.stops = #[] ∧ t.nearestStop? center = some none ∨
      ∃ nearest ∈ t.stops, t.IsNearest center nearest ∧ ∃ index, t.nearestStop? center =
          some (some (index, Planar.squareRoot (nearest.position.squaredDistance center))) ∧
        (∃ stop, t.stops[index]? = some stop ∧ stop.position.squaredDistance center ≤
          nearest.position.squaredDistance center) ∧
        ∀ (index' : Nat) (stop : Stop α), t.stops[index']? = some stop →
          stop.position.squaredDistance center ≤ nearest.position.squaredDistance center →
            index ≤ index' := by
  have hmarkers : ∀ m ∈ (Locator.ofStops t.stops).markers, m.position.isFinite :=
    Stop.isFinite_markers ht
  rcases Locator.nearest?_cases hmarkers hcenter with
    ⟨hempty, hnone⟩ | ⟨m, hm, hsome⟩
  · refine Or.inl ⟨Array.eq_empty_iff_forall_not_mem.mpr fun stop hstop => ?_, hnone⟩
    rcases Array.getElem?_of_mem hstop with ⟨index, hget⟩
    have hmem : ⟨index, stop.position⟩ ∈ (Locator.ofStops t.stops).markers :=
      Stop.mem_markers_iff.mpr ⟨stop, hget, rfl⟩
    rw [hempty] at hmem
    exact absurd hmem List.not_mem_nil
  · rcases Locator.firstNearest_spec hmarkers hcenter hm with
      ⟨⟨first, hfirst, hindex, hle⟩, hleast⟩
    rcases IsNearest.of_marker hm with ⟨nearest, hget, hposition, hnearest⟩
    rcases Stop.mem_markers_iff.mp hfirst with ⟨stop, hstop, hplace⟩
    unfold Marker.squaredDistance at hsome hle hleast
    rw [hposition] at hsome hle hleast
    refine Or.inr ⟨nearest, Array.mem_of_getElem? hget, hnearest, _, hsome, ?_, ?_⟩
    · exact ⟨stop, hindex ▸ hstop, hplace ▸ hle⟩
    · exact fun index' other hother hle' =>
        hleast ⟨index', other.position⟩ (Stop.mem_markers_iff.mpr ⟨other, hother, rfl⟩) hle'

end Timetable

end Journey
