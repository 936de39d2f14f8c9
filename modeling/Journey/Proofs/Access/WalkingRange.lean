import Mathlib
import Journey.Access.Walking
import Journey.Proofs.MonotoneRounding
import Journey.Proofs.Sample
import Journey.Proofs.Timetable.NearestStop
import Journey.Proofs.Timetable.PackedTree

/-!
# How Far to Walk

Which stops are walked to.

With two stops within the search radius it is all of those. Otherwise one looks again, as
far as the nearest stop and a bit further, so that the one stop within the search radius, if
there is one, is found again: it is the nearest. That far is a root, which is squared again
before the distance is compared with it. Where roots are not too small this finds the
nearest stop whatever the extension, and nothing is lost (`Walking.candidates?_of_rootsUp`).

In floating point a root can be too small, by rounding. As soon as the extension makes a
difference to the root, it is more than makes up for that, but an extension of nothing does
not, and neither does one that is lost in rounding. Then not even the nearest stop is found,
nor is any other (`Walking.candidates?_range`). `Walking.nearest_lost` is a timetable with a
single stop for which this happens.

## Main definitions

* `Walking.Covers`: Nothing is lost of what should be found.
* `Walking.widened`: How far one looks the second time.
* `Walking.Reaches`: One looks far enough.

## Theorems

* `Walking.covers_stopsWithin`, `Walking.covers_widened`: Where one has looked far enough.
* `Walking.candidates?_range`: What is found otherwise.
* `Walking.candidates?_of_rootsUp`: What is found in exact arithmetic.
* `Walking.nearest_lost`: The nearest stop is not always found.
-/

namespace Journey

namespace Walking

variable {α : Type} [Scalar α] [Planar α] [MarkerTree α] {t : Timetable α} {p : Parameters α}
  {center : Point α}

/-- Every stop within the search radius is among some stops, and so is every nearest one. -/
def Covers (t : Timetable α) (p : Parameters α) (center : Point α) (found : List Nat) : Prop :=
  ∀ index stop, t.stops[index]? = some stop →
    stop.position.squaredDistance center ≤ p.searchRadius * p.searchRadius ∨
      t.IsNearest center stop → index ∈ found

/-- How far one looks if a stop is the nearest. -/
def widened (p : Parameters α) (center : Point α) (nearest : Stop α) : α :=
  Planar.squareRoot (nearest.position.squaredDistance center) + p.extensionRadius

/-- There are two stops within the search radius, or one looks no less far than to the
    nearest stop. -/
def Reaches (t : Timetable α) (p : Parameters α) (center : Point α) (nearest : Stop α) : Prop :=
  2 ≤ (t.stopsWithin center p.searchRadius).length ∨
    nearest.position.squaredDistance center ≤ widened p center nearest * widened p center nearest

section Looking

variable [Planar.Ordered α] [MarkerTree.Faithful α] (ht : t.Located) (hcenter : center.isFinite)
include ht hcenter

theorem covers_stopsWithin (hsearch : 0 ≤ p.searchRadius)
    (htwo : 2 ≤ (t.stopsWithin center p.searchRadius).length) :
    Covers t p center (t.stopsWithin center p.searchRadius) := by
  intro index stop hget hstop
  refine (Timetable.mem_stopsWithin_iff ht hcenter).mpr ⟨hsearch, stop, hget, ?_⟩
  rcases hstop with hwithin | hnearest
  · exact hwithin
  · -- Any of the two is at least as far away as the nearest stop.
    rcases List.exists_mem_of_length_pos (Nat.lt_of_lt_of_le Nat.two_pos htwo) with ⟨other, hother⟩
    rcases (Timetable.mem_stopsWithin_iff ht hcenter).mp hother with ⟨-, row, hrow, hwithin⟩
    exact Scalar.Ordered.le_trans _ _ _ (hnearest row (Array.mem_of_getElem? hrow)) hwithin

theorem covers_widened {nearest : Stop α} {nearestIndex : Nat} (hsearch : 0 ≤ p.searchRadius)
    (hfew : (t.stopsWithin center p.searchRadius).length < 2) {radius : α} (hradius : 0 ≤ radius)
    (hget : t.stops[nearestIndex]? = some nearest) (hnearest : t.IsNearest center nearest)
    (hreach : nearest.position.squaredDistance center ≤ radius * radius) :
    Covers t p center (t.stopsWithin center radius) := by
  have hfound : nearestIndex ∈ t.stopsWithin center radius :=
    (Timetable.mem_stopsWithin_iff ht hcenter).mpr ⟨hradius, nearest, hget, hreach⟩
  intro index stop hstop hcase
  have hmem := Array.mem_of_getElem? hstop
  rcases hcase with hwithin | hleast
  · -- The nearest stop is within the search radius as well, and there is room for one only.
    have hindex : index ∈ t.stopsWithin center p.searchRadius :=
      (Timetable.mem_stopsWithin_iff ht hcenter).mpr ⟨hsearch, stop, hstop, hwithin⟩
    have hother : nearestIndex ∈ t.stopsWithin center p.searchRadius :=
      (Timetable.mem_stopsWithin_iff ht hcenter).mpr ⟨hsearch, nearest, hget,
        Scalar.Ordered.le_trans _ _ _ (hnearest stop hmem) hwithin⟩
    rcases List.length_eq_one_iff.mp (Nat.le_antisymm (Nat.le_of_lt_succ hfew)
      (List.length_pos_of_mem hindex)) with ⟨only, honly⟩
    rw [honly, List.mem_singleton] at hindex hother
    rw [hindex, ← hother]
    exact hfound
  · exact (Timetable.mem_stopsWithin_iff ht hcenter).mpr ⟨hradius, stop, hstop,
      Scalar.Ordered.le_trans _ _ _ (hleast nearest (Array.mem_of_getElem? hget)) hreach⟩

/-- Which stops are walked to. -/
theorem stops?_cases (hsearch : 0 ≤ p.searchRadius) (hextension : 0 ≤ p.extensionRadius) :
    t.stops = #[] ∧ stops? t p center = some [] ∨
      ∃ nearest ∈ t.stops, t.IsNearest center nearest ∧ ∃ found, stops? t p center = some found ∧
        (Reaches t p center nearest → Covers t p center found) ∧
        (¬ Reaches t p center nearest → found = [] ∧
          ¬ Planar.squareRoot (nearest.position.squaredDistance center) <
            widened p center nearest) := by
  unfold stops?
  dsimp only
  rcases Timetable.nearestStop?_cases ht hcenter with
    ⟨hempty, hnone⟩ | ⟨nearest, hmem, hnearest, index, hsome, -⟩
  · have hnil : t.stopsWithin center p.searchRadius = [] := by
      refine List.eq_nil_iff_forall_not_mem.mpr fun index hindex => ?_
      rcases (Timetable.mem_stopsWithin_iff ht hcenter).mp hindex with ⟨-, stop, hget, -⟩
      rw [hempty] at hget
      exact absurd (Array.mem_of_getElem? hget) (Array.not_mem_empty stop)
    rw [hnil, hnone]
    exact Or.inl ⟨hempty, rfl⟩
  · have hsquared := Point.squaredDistance_nonneg (ht nearest hmem) hcenter
    refine Or.inr ⟨nearest, hmem, hnearest, ?_⟩
    by_cases hfew : (t.stopsWithin center p.searchRadius).length < 2
    · rw [if_pos hfew, hsome]
      have hradius : 0 ≤ widened p center nearest :=
        Scalar.Ordered.add_nonneg _ _ (Planar.Ordered.squareRoot_nonneg _ hsquared) hextension
      refine ⟨_, rfl, fun hreaches => ?_, fun hreaches => ⟨?_, fun hlt => hreaches (Or.inr ?_)⟩⟩
      · rcases Array.getElem?_of_mem hmem with ⟨nearestIndex, hget⟩
        exact covers_widened ht hcenter hsearch hfew hradius hget hnearest
          (hreaches.resolve_left (Nat.not_le_of_lt hfew))
      · -- Otherwise the nearest stop would be reached as well.
        refine List.eq_nil_iff_forall_not_mem.mpr fun i hi => hreaches (Or.inr ?_)
        rcases (Timetable.mem_stopsWithin_iff ht hcenter).mp hi with ⟨-, stop, hstop, hle⟩
        exact Scalar.Ordered.le_trans _ _ _ (hnearest stop (Array.mem_of_getElem? hstop)) hle
      · exact Planar.Ordered.le_mul_self _ _ hsquared hlt
    · rw [if_neg hfew]
      have htwo := Nat.le_of_not_lt hfew
      exact ⟨_, rfl, fun _ => covers_stopsWithin ht hcenter hsearch htwo,
        fun h => absurd (Or.inl htwo) h⟩

end Looking

-- Only the radius depends on what is found at first.
theorem stops?_eq_stopsWithin {found : List Nat} (h : stops? t p center = some found) :
    ∃ radius, found = t.stopsWithin center radius := by
  unfold stops? at h
  dsimp only at h
  split at h
  · rcases Option.map_eq_some_iff.mp h with ⟨nearest, -, rfl⟩
    split
    · exact ⟨_, rfl⟩
    · exact ⟨_, rfl⟩
  · exact ⟨_, (Option.some.inj h).symm⟩

/-- There is one candidate for each stop that is walked to, by increasing index. -/
theorem exists_candidates? [MarkerTree.Faithful α] (ht : t.Located) {r : AccessRequest α}
    (hfacility : r.facility.position.isFinite) {stops : List Nat}
    (h : stops? t r.parameters r.facility.position = some stops) :
    ∃ found, candidates? t r = some found ∧ found.map (·.stop) = stops ∧
      stops.Pairwise (· < ·) := by
  unfold candidates?
  dsimp only
  rw [h]
  rcases stops?_eq_stopsWithin h with ⟨radius, rfl⟩
  refine ⟨_, rfl, ?_, t.pairwise_stopsWithin ht hfacility _⟩
  rw [List.map_map]
  exact t.stopsNear_map_fst _ _

variable {edits : List (Edit α)} {r : AccessRequest α}

/-- What is found from a facility that is somewhere. If one looks no less far than to the
    nearest stop, it is every stop within the search radius and the nearest one, and else it
    is nothing. But that can only be if the extension makes no difference. -/
theorem candidates?_range [Planar.Ordered α] [MarkerTree.Faithful α]
    (hbuild : (Draft.ofEdits edits).build = .ok t)
    (hfacility : r.facility.position.isFinite) (hp : r.parameters.validate = .ok ()) :
    ∃ found, candidates? t r = some found ∧ (found.map (·.stop)).Pairwise (· < ·) ∧
      (t.stops = #[] ∧ found = [] ∨
        ∃ nearest ∈ t.stops, t.IsNearest r.facility.position nearest ∧
          (Reaches t r.parameters r.facility.position nearest →
            Covers t r.parameters r.facility.position (found.map (·.stop))) ∧
          (¬ Reaches t r.parameters r.facility.position nearest → found = [] ∧
            ¬ Planar.squareRoot (nearest.position.squaredDistance r.facility.position) <
              widened r.parameters r.facility.position nearest)) := by
  rcases Parameters.extents_nonneg hp with ⟨hsearch, hextension, -⟩
  have ht := Timetable.located_of_build hbuild
  rcases stops?_cases ht hfacility hsearch hextension with
    ⟨hempty, hstops⟩ | ⟨nearest, hmem, hnearest, stops, hstops, hreached, hlost⟩
  · rcases exists_candidates? ht hfacility hstops with ⟨found, hfound, hmap, -⟩
    rw [List.map_eq_nil_iff] at hmap
    subst hmap
    exact ⟨[], hfound, List.Pairwise.nil, Or.inl ⟨hempty, rfl⟩⟩
  · rcases exists_candidates? ht hfacility hstops with ⟨found, hfound, rfl, hsorted⟩
    refine ⟨found, hfound, hsorted, Or.inr ⟨nearest, hmem, hnearest, hreached, fun h => ?_⟩⟩
    exact ⟨List.map_eq_nil_iff.mp (hlost h).1, (hlost h).2⟩

end Walking

namespace Sample

/-- A network of a single stop, at a distance that is not rational. -/
def outpost : List (Edit Float) := [.addStop ⟨⟨"S"⟩, "S", ⟨2, 3⟩, ⟨[]⟩⟩]

def outskirts : Timetable Float := (Draft.ofEdits outpost).assemble

/-- Looking for the stop from the origin, within a kilometre. -/
def ramble (extensionRadius : Float) : AccessRequest Float :=
  { facility := ⟨⟨"home"⟩, ⟨0, 0⟩⟩
    direction := .access
    departureTime := 0
    parameters :=
      { inVehicleUtility := -3600
        waitingUtility := -3600
        walkUtility := -3600
        accessModeUtilities := ⟨[]⟩
        transferPenalty := ⟨0, 0, none, none⟩
        walkSpeed := 1
        distanceFactor := 1
        searchRadius := 1000
        extensionRadius
        minTransferTime := 0
        maxTransfers := 0 }
    traveller := ⟨[]⟩ }

theorem build_outskirts : (Draft.ofEdits outpost).build = .ok outskirts :=
  build_eq_ok (by decide +kernel)

end Sample

namespace Walking

open Sample

/-- With an extension of two hundred metres the stop is found. -/
theorem candidates?_range_outskirts :
    (ramble 200).facility.position.isFinite ∧ (ramble 200).parameters.validate = .ok () ∧
      ∃ found, candidates? outskirts (ramble 200) = some found ∧ 0 ∈ found.map (·.stop) := by
  have hfacility : (ramble 200).facility.position.isFinite := by decide +kernel
  have hp : (ramble 200).parameters.validate = .ok () :=
    (Parameters.validate_eq_ok_iff _).mpr (by decide +kernel)
  have hsize : outskirts.stops.size = 1 := by decide +kernel
  have hfar : ∀ stop ∈ outskirts.stops,
      let radius := widened (ramble 200).parameters ⟨0, 0⟩ stop
      stop.position.squaredDistance ⟨0, 0⟩ ≤ radius * radius := by
    decide +kernel
  refine ⟨hfacility, hp, ?_⟩
  rcases candidates?_range build_outskirts hfacility hp with
    ⟨found, hfound, -, ⟨hempty, -⟩ | ⟨nearest, hmem, hnearest, hreached, -⟩⟩
  · rw [hempty] at hsize
    exact absurd hsize (by decide)
  · rcases Array.mem_iff_getElem.mp hmem with ⟨index, hindex, hget⟩
    obtain rfl : index = 0 := by omega
    exact ⟨found, hfound, hreached (Or.inr (hfar nearest hmem)) 0 nearest
      (Array.getElem?_eq_some_iff.mpr ⟨hindex, hget⟩) (Or.inr hnearest)⟩

/-- Without an extension it is lost: the only stop is well within the search radius, and
    nothing is found. -/
theorem nearest_lost :
    (Draft.ofEdits outpost).build = .ok outskirts ∧ (ramble 0).facility.position.isFinite ∧
      (ramble 0).parameters.validate = .ok () ∧
      outskirts.stopsWithin (ramble 0).facility.position (ramble 0).parameters.searchRadius = [0] ∧
      candidates? outskirts (ramble 0) = some [] := by
  refine ⟨build_outskirts, by decide +kernel, ?_, by decide +kernel, by decide +kernel⟩
  exact (Parameters.validate_eq_ok_iff _).mpr (by decide +kernel)

section Exact

variable {K : Type} [Field K] [LinearOrder K] [IsStrictOrderedRing K] [Planar K] [MarkerTree K]
  {t : Timetable K} {edits : List (Edit K)} {r : AccessRequest K}

/-- Where roots are not too small, one always looks far enough. -/
theorem Reaches.of_rootsUp (hroots : Planar.RootsUp K) {p : Parameters K} {center : Point K}
    (hextension : 0 ≤ p.extensionRadius) (nearest : Stop K) : Reaches t p center nearest := by
  have hsquared : 0 ≤ nearest.position.squaredDistance center :=
    add_nonneg (mul_self_nonneg _) (mul_self_nonneg _)
  rcases hroots _ hsquared with ⟨hroot, hle⟩
  exact Or.inr (hle.trans (mul_self_le_mul_self hroot (le_add_of_nonneg_right hextension)))

/-- What is found in exact arithmetic: every stop within the search radius, and the nearest
    one if there is any. -/
theorem candidates?_of_rootsUp [MarkerTree.Faithful K] (hroots : Planar.RootsUp K)
    (hbuild : (Draft.ofEdits edits).build = .ok t) (hp : r.parameters.validate = .ok ()) :
    ∃ found, candidates? t r = some found ∧ (found.map (·.stop)).Pairwise (· < ·) ∧
      Covers t r.parameters r.facility.position (found.map (·.stop)) ∧
      (t.stops = #[] ∨ ∃ nearest ∈ t.stops, t.IsNearest r.facility.position nearest) := by
  have hordered := hroots.ordered
  rcases Parameters.extents_nonneg hp with ⟨hsearch, hextension, -⟩
  have ht := Timetable.located_of_build hbuild
  rcases stops?_cases ht rfl hsearch hextension with
    ⟨hempty, hstops⟩ | ⟨nearest, hmem, hnearest, stops, hstops, hreached, -⟩
  · rcases exists_candidates? ht rfl hstops with ⟨found, hfound, hmap, hsorted⟩
    refine ⟨found, hfound, hmap ▸ hsorted, fun index stop hget => ?_, Or.inl hempty⟩
    rw [hempty] at hget
    exact absurd (Array.mem_of_getElem? hget) (Array.not_mem_empty stop)
  · rcases exists_candidates? ht rfl hstops with ⟨found, hfound, rfl, hsorted⟩
    exact ⟨found, hfound, hsorted, hreached (Reaches.of_rootsUp hroots hextension nearest),
      Or.inr ⟨nearest, hmem, hnearest⟩⟩

end Exact

end Walking

end Journey
