import Mathlib.Data.List.Count
import Journey.Proofs.Sample
import Journey.Proofs.Timetable.KeptFootpaths
import Journey.Proofs.Timetable.Chronology
import Journey.Proofs.Timetable.Edits
import Journey.Proofs.Timetable.NearStops
import Journey.Proofs.Timetable.PackedTree

/-!
# The Sources of Footpaths

Which footpaths a built timetable has, how long they take and in which order they are
listed.

Footpaths are added one by one, run from each stop to itself, and are generated between
stops that are near. Whichever of the three sources has a footpath between two stops
puts one into the timetable, and if several do, the first of them decides how long it
takes. From a stop the footpaths that were added are listed first, in the order in which
their targets came up, then the one to the stop itself, then the generated ones by
increasing index.

Nothing here depends on the arithmetic, so two stops are near if their squared distance
is at most the square of the radius, which is what is compared. In exact arithmetic and
with the length of vectors for their hypotenuse, `isNear_iff_distance_le` says that they
are at most the radius apart.

## Main definitions

* `Timetable.isNear`: Two stops are at most a radius apart.
* `Draft.addedBetween`: The footpaths added between two stops.
* `Draft.addedTargets`, `Draft.nearTargets`: Where footpaths from a stop lead.
* `Draft.targetsFrom`: The targets of all footpaths from a stop, in order.
* `Draft.Prioritised`: The footpaths of a timetable are those of the three sources.

## Theorems

* `Locator.within_ofStops`: Which stops are near a place.
* `Draft.filter_generatedFootpaths`: What is generated from one stop.
* `Draft.mem_footpaths_iff`: A footpath of the timetable is the first with its ends.
* `Draft.exists_footpath_iff`: The sources have the same ends as the timetable.
* `Draft.prioritised_assemble`: Drafts without defects have the footpaths of the sources.
* `Draft.prioritised_of_build`: Built timetables have the footpaths of the sources.
* `Timetable.isNear_iff_distance_le`: What being near is in exact arithmetic.
-/

namespace Journey

section Lists

variable {β γ : Type}

theorem eraseDups_of_nodup [BEq β] [LawfulBEq β] {l : List β} (h : l.Nodup) :
    l.eraseDups = l := by
  induction l with
  | nil => rfl
  | cons a l ih =>
      rcases List.nodup_cons.mp h with ⟨ha, hl⟩
      have hkeep : (l.filter fun b => !b == a) = l := List.filter_eq_self.mpr fun b hb => by
        rw [Bool.not_eq_true', beq_eq_false_iff_ne]
        rintro rfl
        exact ha hb
      rw [List.eraseDups_cons, hkeep, ih hl]

-- Going through a table for what one row contributes.
theorem flatMap_zipIdx_single (g : β → List γ) {l : List β} {x : β} :
    ∀ {n s : Nat}, l[s]? = some x →
      ((l.zipIdx n).flatMap fun p => if p.2 = n + s then g p.1 else []) = g x := by
  induction l with
  | nil =>
      intro n s h
      rw [List.getElem?_nil] at h
      exact absurd h (by simp only [reduceCtorEq, not_false_eq_true])
  | cons a l ih =>
      intro n s h
      rw [List.zipIdx_cons, List.flatMap_cons]
      cases s with
      | zero =>
          rw [List.getElem?_cons_zero, Option.some.injEq] at h
          rw [if_pos (Nat.add_zero n).symm, h, List.flatMap_eq_nil_iff.mpr, List.append_nil]
          intro p hp
          have hle := List.le_snd_of_mem_zipIdx hp
          exact if_neg (by omega)
      | succ s =>
          rw [if_neg (by simp only; omega), List.nil_append]
          have hrest := ih (n := n + 1) (s := s) (by rwa [List.getElem?_cons_succ] at h)
          rwa [show n + 1 + s = n + (s + 1) by omega] at hrest

end Lists

-- The radius of a rule without defects is not negative.
theorem FootpathRule.maxDistance_nonneg {α : Type} [Scalar α] {rule : FootpathRule α}
    (h : rule.defect? = none) : 0 ≤ rule.maxDistance := by
  unfold defect? at h
  split at h
  · exact absurd h (by simp only [reduceCtorEq, not_false_eq_true])
  rename_i hmax
  rw [Bool.not_eq_true', Bool.not_eq_false, Scalar.isNonnegative, Bool.and_eq_true] at hmax
  exact of_decide_eq_true hmax.2

/-- The stops near a place, by increasing index. -/
theorem Locator.within_ofStops {α : Type} [Scalar α] [MarkerTree α] [MarkerTree.Faithful α]
    {stops : Array (Stop α)} (hstops : ∀ stop ∈ stops, stop.position.isFinite) {center : Point α}
    (hcenter : center.isFinite) {radius : α} (hradius : 0 ≤ radius) :
    (Locator.ofStops stops).within center radius
      = (List.range stops.size).filter fun u => stops[u]?.any fun other =>
          decide (other.position.squaredDistance center ≤ radius * radius) := by
  rw [within_eq (l := ofStops stops) (Stop.pairwise_markers stops)
    (Stop.isFinite_markers hstops) hcenter, if_pos hradius]
  unfold ofStops Stop.markers
  dsimp only
  rw [List.filter_map, List.map_map, List.range_eq_range', ← Array.length_toList,
    ← List.zipIdx_map_snd 0 stops.toList, List.filter_map]
  refine congrArg (List.map Prod.snd) (List.filter_congr fun p hp => ?_)
  rw [List.mem_zipIdx_iff_getElem?, Array.getElem?_toList] at hp
  simp only [Function.comp_apply, hp, Option.any_some]
  rfl

namespace Timetable

/-- Whether the squared distance of two stops is at most the square of a radius. -/
def isNear {α : Type} [Scalar α] (t : Timetable α) (radius : α) (s u : Nat) : Bool :=
  t.stops[s]?.any fun stop => t.stops[u]?.any fun other =>
    decide (other.position.squaredDistance stop.position ≤ radius * radius)

/-- If lengths are those of Euclid, two stops are near if and only if their distance is
    at most the radius. -/
theorem isNear_iff_distance_le {K : Type} [Field K] [LinearOrder K] [IsStrictOrderedRing K]
    [Planar K] (hnonneg : ∀ x y : K, 0 ≤ Planar.hypotenuse x y)
    (hsquare : ∀ x y : K, Planar.hypotenuse x y * Planar.hypotenuse x y = x * x + y * y)
    (t : Timetable K) {radius : K} (hradius : 0 ≤ radius) (s u : Nat) :
    t.isNear radius s u = true ↔ ∃ stop other, t.stops[s]? = some stop ∧
      t.stops[u]? = some other ∧ stop.position.distance other.position ≤ radius := by
  have hle : ∀ a b : Point K, b.squaredDistance a ≤ radius * radius ↔ a.distance b ≤ radius := by
    intro a b
    have hswap : b.squaredDistance a = a.distance b * a.distance b := by
      unfold Point.squaredDistance Point.distance
      rw [hsquare]
      ring
    rw [hswap]
    exact (mul_self_le_mul_self_iff (hnonneg _ _) hradius).symm
  unfold isNear
  simp only [Option.any_eq_true, decide_eq_true_eq, hle, exists_and_left]

end Timetable

namespace Draft

variable {α : Type} [Scalar α]

/-- The footpaths that were added between two stops, in the order in which they were. -/
def addedBetween (d : Draft α) (t : Timetable α) (s u : Nat) : List (PlannedFootpath α) :=
  d.footpaths.toList.filter fun p =>
    t.findStop? p.origin == some s && t.findStop? p.target == some u

/-- The stops to which footpaths from a stop were added, in the order in which they came
    up first. -/
def addedTargets (d : Draft α) (t : Timetable α) (s : Nat) : List Nat :=
  ((d.footpaths.toList.filter fun p => t.findStop? p.origin == some s).filterMap fun p =>
    t.findStop? p.target).eraseDups

/-- The other stops near a stop by increasing index, if footpaths are generated. -/
def nearTargets (d : Draft α) (t : Timetable α) (s : Nat) : List Nat :=
  match d.footpathRule with
  | none => []
  | some rule =>
    (List.range t.stops.size).filter fun u => u != s && t.isNear rule.maxDistance s u

/-- The targets of all footpaths from a stop: those that were added, and after them the
    stop itself and then those nearby, unless they were added. -/
def targetsFrom (d : Draft α) (t : Timetable α) (s : Nat) : List Nat :=
  let added := d.addedTargets t s
  added ++ ((if d.intraStop then [s] else []) ++ d.nearTargets t s).filter (· ∉ added)

/-- The footpaths of a timetable are those of the three sources, and of several between the
    same two stops in the same direction the first. -/
structure Prioritised [Planar α] (d : Draft α) (t : Timetable α) : Prop where
  /-- Footpaths lead from stops to stops. -/
  in_range : ∀ f ∈ t.footpaths, f.origin < t.stops.size ∧ f.target < t.stops.size
  /-- There is at most one from one stop to another. -/
  distinct : (t.footpaths.toList.map fun f => (f.origin, f.target)).Nodup
  /-- There is one if one was added, or at a stop where vehicles can be changed, or
      between different stops that are near. -/
  exists_iff : ∀ s u, s < t.stops.size → u < t.stops.size →
    ((∃ f ∈ t.footpaths, f.origin = s ∧ f.target = u) ↔
      d.addedBetween t s u ≠ [] ∨ (s = u ∧ d.intraStop = true) ∨
        (s ≠ u ∧ ∃ rule, d.footpathRule = some rule ∧ t.isNear rule.maxDistance s u = true))
  /-- If any was added, it takes as long as the first of them. -/
  added : ∀ f ∈ t.footpaths, ∀ p, (d.addedBetween t f.origin f.target).head? = some p →
    f.duration = p.duration
  /-- Otherwise it takes no time if it does not lead elsewhere. -/
  own : ∀ f ∈ t.footpaths, d.addedBetween t f.origin f.target = [] → f.origin = f.target →
    f.duration = 0
  /-- Otherwise it takes as long as walking the distance by the rule does. -/
  generated : ∀ f ∈ t.footpaths, d.addedBetween t f.origin f.target = [] →
    f.origin ≠ f.target → ∃ rule stop other, d.footpathRule = some rule ∧
      t.stops[f.origin]? = some stop ∧ t.stops[f.target]? = some other ∧
      f.duration = stop.position.distance other.position * rule.distanceFactor / rule.walkSpeed
  /-- From a stop they are listed in the order of their sources. -/
  in_order : ∀ s, s < t.stops.size → ∃ l, t.footpathsFrom? s = some l ∧
    (∀ f, f ∈ l ↔ f ∈ t.footpaths ∧ f.origin = s) ∧ l.map (·.target) = d.targetsFrom t s

section Targets

omit [Scalar α] in
-- Something was added between two stops if one of the targets of the first is the second.
theorem mem_targets_iff (d : Draft α) (t : Timetable α) (s u : Nat) :
    (u ∈ (d.footpaths.toList.filter fun p => t.findStop? p.origin == some s).filterMap fun p =>
      t.findStop? p.target) ↔ d.addedBetween t s u ≠ [] := by
  unfold addedBetween
  simp only [List.mem_filterMap, List.mem_filter, beq_iff_eq, ne_eq, List.filter_eq_nil_iff,
    Bool.and_eq_true, not_forall, not_not, and_assoc, exists_prop]

theorem mem_nearTargets_iff (d : Draft α) (t : Timetable α) {s u : Nat} (hu : u < t.stops.size) :
    u ∈ d.nearTargets t s ↔
      s ≠ u ∧ ∃ rule, d.footpathRule = some rule ∧ t.isNear rule.maxDistance s u = true := by
  unfold nearTargets
  cases d.footpathRule with
  | none => simp only [List.not_mem_nil, reduceCtorEq, false_and, exists_false, and_false]
  | some rule =>
      simp only [List.mem_filter, List.mem_range, hu, true_and, Bool.and_eq_true, bne_iff_ne,
        Option.some.injEq, exists_eq_left', ne_comm]

theorem ne_of_mem_nearTargets {d : Draft α} {t : Timetable α} {s u : Nat}
    (hu : u ∈ d.nearTargets t s) : u ≠ s := by
  unfold nearTargets at hu
  split at hu
  · exact absurd hu List.not_mem_nil
  · exact bne_iff_ne.mp (Bool.and_eq_true_iff.mp (List.mem_filter.mp hu).2).1

-- The first of several targets stays, so what was added is left out of what follows.
theorem eraseDups_sources (d : Draft α) (t : Timetable α) (s : Nat) :
    ((d.footpaths.toList.filter fun p => t.findStop? p.origin == some s).filterMap
        (fun p => t.findStop? p.target)
      ++ ((if d.intraStop then [s] else []) ++ d.nearTargets t s)).eraseDups
      = d.targetsFrom t s := by
  have hown : (if d.intraStop then [s] else []).Nodup := by
    split
    · exact List.nodup_singleton s
    · exact List.nodup_nil
  have hnear : (d.nearTargets t s).Nodup := by
    unfold nearTargets
    split
    · exact List.nodup_nil
    · exact List.nodup_range.filter _
  have hdisjoint : List.Disjoint (if d.intraStop then [s] else []) (d.nearTargets t s) := by
    intro u hu hnear
    split at hu
    · rw [List.mem_singleton] at hu
      exact ne_of_mem_nearTargets hnear hu
    · exact absurd hu List.not_mem_nil
  unfold targetsFrom addedTargets
  rw [List.eraseDups_append, List.removeAll,
    eraseDups_of_nodup ((hown.append hnear hdisjoint).filter _)]
  refine congrArg _ (List.filter_congr fun u _ => ?_)
  simp only [List.mem_eraseDups, List.elem_eq_mem, decide_not]

end Targets

section Added

-- Both ends of a footpath without defects have been added.
theorem hasStop_of_footpathDefect? (d : Draft α) {p : PlannedFootpath α}
    (h : d.footpathDefect? p = none) :
    d.hasStop p.origin = true ∧ d.hasStop p.target = true := by
  refine ⟨?_, (d.sound_of_footpathDefect? h).1⟩
  by_contra horigin
  unfold footpathDefect? at h
  rw [if_pos (by rwa [Bool.not_eq_true', Bool.eq_false_iff])] at h
  exact absurd h (by simp only [reduceCtorEq, not_false_eq_true])

variable [Planar α] [MarkerTree α] {d : Draft α}
  (hd : ∀ p ∈ d.footpaths.toList, d.hasStop p.origin = true ∧ d.hasStop p.target = true)
include hd

-- The first footpath added between two stops has the duration of the first that was planned.
theorem find?_addedFootpaths (f : Footpath α) :
    d.addedFootpaths.find? f.sameEnds
      = (d.addedBetween d.assemble f.origin f.target).head?.map fun p =>
          { origin := f.origin, target := f.target, duration := p.duration } := by
  unfold addedFootpaths addedBetween
  rw [List.head?_filter, List.find?_map]
  have hsame : ∀ p ∈ d.footpaths.toList,
      (d.assemble.findStop? p.origin == some f.origin
          && d.assemble.findStop? p.target == some f.target)
        = (f.sameEnds ∘ fun p => ⟨d.stopIndex p.origin, d.stopIndex p.target, p.duration⟩) p := by
    intro p hp
    rw [d.findStop?_of_hasStop (hd p hp).1, d.findStop?_of_hasStop (hd p hp).2, BEq.comm,
      BEq.comm (b := some f.target)]
    rfl
  rw [List.find?_congr hsame]
  cases hfind : d.footpaths.toList.find? _ with
  | none => rfl
  | some p =>
      have hends := List.find?_some hfind
      rw [Function.comp_apply, Footpath.sameEnds_iff] at hends
      rw [Option.map_some, Option.map_some, hends.1, hends.2]

theorem map_target_addedFootpaths (s : Nat) :
    (d.addedFootpaths.filter (·.origin == s)).map (·.target)
      = (d.footpaths.toList.filter fun p => d.assemble.findStop? p.origin == some s).filterMap
          fun p => d.assemble.findStop? p.target := by
  unfold addedFootpaths
  have horigin : ∀ p ∈ d.footpaths.toList,
      (d.assemble.findStop? p.origin == some s) = (d.stopIndex p.origin == s) := by
    intro p hp
    rw [d.findStop?_of_hasStop (hd p hp).1]
    rfl
  have htarget : ∀ p ∈ d.footpaths.toList.filter (d.stopIndex ·.origin == s),
      d.assemble.findStop? p.target = (some ∘ fun p => d.stopIndex p.target) p := fun p hp =>
    d.findStop?_of_hasStop (hd p (List.mem_filter.mp hp).1).2
  rw [List.filter_congr horigin, List.filterMap_congr htarget, List.filterMap_eq_map,
    List.filter_map, List.map_map]
  rfl

end Added

section Generated

-- The footpath from a stop to itself.
theorem filter_ownFootpaths (d : Draft α) {s : Nat} (hs : s < d.stops.size) :
    d.ownFootpaths.filter (·.origin == s)
      = if d.intraStop then [⟨s, s, 0⟩] else [] := by
  unfold ownFootpaths
  split
  · rw [List.filter_map]
    have hself : (List.range d.stops.size).filter (· == s) = [s] := by
      rw [List.filter_beq, List.count_eq_one_of_mem List.nodup_range (List.mem_range.mpr hs),
        List.replicate_one]
    exact congrArg (List.map fun s => (⟨s, s, 0⟩ : Footpath α)) hself
  · rfl

-- A footpath from a stop to itself takes no time.
theorem of_mem_ownFootpaths {d : Draft α} {f : Footpath α} (hf : f ∈ d.ownFootpaths) :
    f.origin < d.stops.size ∧ f.target = f.origin ∧ f.duration = 0 := by
  unfold ownFootpaths at hf
  split at hf
  · rcases List.mem_map.mp hf with ⟨s, hs, rfl⟩
    exact ⟨List.mem_range.mp hs, rfl, rfl⟩
  · exact absurd hf List.not_mem_nil

variable [Planar α] [MarkerTree α]

theorem origin_of_mem_generatedFrom (d : Draft α) {rule : FootpathRule α} {s : Nat}
    {stop : Stop α} {f : Footpath α} (hf : f ∈ d.generatedFrom rule s stop) : f.origin = s := by
  rcases List.mem_filterMap.mp hf with ⟨target, -, hf⟩
  split at hf
  · exact absurd hf (by simp only [reduceCtorEq, not_false_eq_true])
  · rcases Option.map_eq_some_iff.mp hf with ⟨other, -, rfl⟩
    rfl

/-- What is generated from one stop. -/
theorem filter_generatedFootpaths (d : Draft α) {rule : FootpathRule α}
    (hrule : d.footpathRule = some rule) {s : Nat} {stop : Stop α} (hs : d.stops[s]? = some stop) :
    d.generatedFootpaths.filter (·.origin == s) = d.generatedFrom rule s stop := by
  unfold generatedFootpaths
  simp only [hrule]
  rw [List.filter_flatMap, ← flatMap_zipIdx_single (d.generatedFrom rule s) (n := 0)
    ((Array.getElem?_toList ..).trans hs)]
  refine List.flatMap_congr fun ⟨other, origin⟩ _ => ?_
  rw [Nat.zero_add]
  by_cases horigin : origin = s
  · subst horigin
    rw [if_pos rfl]
    exact List.filter_eq_self.mpr fun f hf =>
      beq_iff_eq.mpr (d.origin_of_mem_generatedFrom hf)
  · rw [if_neg horigin]
    refine List.filter_eq_nil_iff.mpr fun f hf => ?_
    rw [beq_iff_eq, d.origin_of_mem_generatedFrom hf]
    exact horigin

-- Footpaths are generated to the other stops nearby.
theorem map_target_generatedFrom [MarkerTree.Faithful α] {d : Draft α} (hstops : d.Located)
    {rule : FootpathRule α} (hrule : d.footpathRule = some rule) (hmax : 0 ≤ rule.maxDistance)
    {s : Nat} {stop : Stop α} (hs : d.stops[s]? = some stop) :
    (d.generatedFrom rule s stop).map (·.target) = d.nearTargets d.assemble s := by
  unfold nearTargets
  simp only [hrule]
  show _ = (List.range d.stops.size).filter _
  unfold generatedFrom Timetable.isNear
  rw [List.map_filterMap,
    Locator.within_ofStops hstops (hstops stop (Array.mem_of_getElem? hs)) hmax,
    List.filterMap_filter, ← List.filterMap_eq_filter]
  refine List.filterMap_congr fun u hu => ?_
  have hu' : u < d.stops.size := List.mem_range.mp hu
  have hother : d.stops[u]? = some d.stops[u] := Array.getElem?_eq_getElem hu'
  have hsame : d.assemble.stops = d.stops := rfl
  simp only [hsame, hs, hother, Option.any_some, Option.guard]
  -- Of what is near, only the stop itself is left out.
  by_cases hself : u = s
  · simp only [hself, if_true, Option.map_none, ite_self, bne_self_eq_false, Bool.false_and,
      Bool.false_eq_true, if_false]
  · simp only [hself, if_false, Option.map_some, bne_iff_ne.mpr hself, Bool.true_and]

-- What is generated leads elsewhere and takes as long as the rule says.
theorem duration_of_mem_generatedFootpaths {d : Draft α} {f : Footpath α}
    (hf : f ∈ d.generatedFootpaths) : f.target ≠ f.origin ∧ ∃ rule stop other,
      d.footpathRule = some rule ∧ d.stops[f.origin]? = some stop ∧
      d.stops[f.target]? = some other ∧ f.duration
        = stop.position.distance other.position * rule.distanceFactor / rule.walkSpeed := by
  unfold generatedFootpaths at hf
  split at hf
  · exact absurd hf List.not_mem_nil
  · rename_i rule hrule
    rcases List.mem_flatMap.mp hf with ⟨⟨stop, origin⟩, hstop, hf⟩
    rw [List.mem_zipIdx_iff_getElem?, Array.getElem?_toList] at hstop
    rcases List.mem_filterMap.mp hf with ⟨target, -, hf⟩
    split at hf
    · exact absurd hf (by simp only [reduceCtorEq, not_false_eq_true])
    · rename_i hne
      rcases Option.map_eq_some_iff.mp hf with ⟨other, hother, rfl⟩
      exact ⟨hne, rule, stop, other, hrule, hstop, hother, rfl⟩

end Generated

section Table

variable [Planar α] [MarkerTree α] {d : Draft α}

/-- Where the footpaths of all sources lead from one stop. -/
theorem map_target_sources [MarkerTree.Faithful α] (hstops : d.Located) (hd : d.defect? = none)
    {s : Nat} (hs : s < d.stops.size) :
    ((d.addedFootpaths ++ d.ownFootpaths ++ d.generatedFootpaths).filter (·.origin == s)).map
        (·.target)
      = (d.footpaths.toList.filter fun p => d.assemble.findStop? p.origin == some s).filterMap
          (fun p => d.assemble.findStop? p.target)
        ++ ((if d.intraStop then [s] else []) ++ d.nearTargets d.assemble s) := by
  rcases d.sound_of_defect? hd with ⟨-, hfoot, hrule⟩
  have hown : (if d.intraStop then [(⟨s, s, 0⟩ : Footpath α)] else []).map (·.target)
      = if d.intraStop then [s] else [] := by
    split <;> rfl
  have hgen : (d.generatedFootpaths.filter (·.origin == s)).map (·.target)
      = d.nearTargets d.assemble s := by
    cases hr : d.footpathRule with
    | none =>
        unfold generatedFootpaths nearTargets
        simp only [hr, List.filter_nil, List.map_nil]
    | some rule =>
        rw [hr, Option.bind_some] at hrule
        have hstop : d.stops[s]? = some d.stops[s] := Array.getElem?_eq_getElem hs
        rw [d.filter_generatedFootpaths hr hstop,
          map_target_generatedFrom hstops hr (FootpathRule.maxDistance_nonneg hrule) hstop]
  rw [List.append_assoc, List.filter_append, List.filter_append, List.map_append, List.map_append,
    map_target_addedFootpaths (fun p hp => d.hasStop_of_footpathDefect? (hfoot p hp)),
    d.filter_ownFootpaths hs, hown, hgen]

/-- A footpath of the timetable is the first of all sources with its ends. -/
theorem mem_footpaths_iff (d : Draft α) (f : Footpath α) :
    f ∈ d.assemble.footpaths ↔
      (d.addedFootpaths ++ d.ownFootpaths ++ d.generatedFootpaths).find? f.sameEnds = some f := by
  rw [← Footpath.mem_keepFirst_iff, ← Footpath.mem_sortByOrigin]
  exact List.mem_toArray

/-- Where the sources have a footpath the timetable has one. -/
theorem exists_footpath_iff (d : Draft α) (s u : Nat) :
    (∃ f ∈ d.assemble.footpaths, f.origin = s ∧ f.target = u) ↔
      u ∈ ((d.addedFootpaths ++ d.ownFootpaths ++ d.generatedFootpaths).filter
        (·.origin == s)).map (·.target) := by
  simp only [List.mem_map, List.mem_filter, beq_iff_eq]
  constructor
  · rintro ⟨f, hf, horigin, htarget⟩
    exact ⟨f, ⟨mem_footpaths_assemble hf, horigin⟩, htarget⟩
  · rintro ⟨f, ⟨hf, horigin⟩, htarget⟩
    cases hfind : (d.addedFootpaths ++ d.ownFootpaths ++ d.generatedFootpaths).find? f.sameEnds with
    | none => exact absurd f.sameEnds_self (List.find?_eq_none.mp hfind f hf)
    | some g =>
        rcases (Footpath.sameEnds_iff f g).mp (List.find?_some hfind) with ⟨horigin', htarget'⟩
        have hsame : f.sameEnds = g.sameEnds := by
          unfold Footpath.sameEnds
          rw [horigin', htarget']
        exact ⟨g, (d.mem_footpaths_iff g).mpr (hsame ▸ hfind), horigin'.symm.trans horigin,
          htarget'.symm.trans htarget⟩

-- Between two stops that no footpath was added between.
theorem mem_of_addedBetween_eq_nil (hd : d.defect? = none) {f : Footpath α}
    (hf : f ∈ d.assemble.footpaths)
    (hnone : d.addedBetween d.assemble f.origin f.target = []) :
    f ∈ d.ownFootpaths ∨ f ∈ d.generatedFootpaths := by
  rcases d.sound_of_defect? hd with ⟨-, hfoot, -⟩
  have hfind := (d.mem_footpaths_iff f).mp hf
  rw [List.append_assoc, List.find?_append,
    find?_addedFootpaths (fun p hp => d.hasStop_of_footpathDefect? (hfoot p hp)), hnone,
    List.head?_nil, Option.map_none, Option.none_or] at hfind
  exact List.mem_append.mp (List.mem_of_find?_eq_some hfind)

theorem origin_lt (hd : ∀ p ∈ d.footpaths.toList, d.footpathDefect? p = none) {f : Footpath α}
    (hf : f ∈ d.addedFootpaths ++ d.ownFootpaths ++ d.generatedFootpaths) :
    f.origin < d.stops.size := by
  rcases List.mem_append.mp hf with hf | hf
  · rcases List.mem_append.mp hf with hf | hf
    · rcases List.mem_map.mp hf with ⟨p, hp, rfl⟩
      exact d.stopIndex_lt p.origin (d.hasStop_of_footpathDefect? (hd p hp)).1
    · exact (of_mem_ownFootpaths hf).1
  · rcases duration_of_mem_generatedFootpaths hf with ⟨-, rule, stop, other, -, hstop, -⟩
    exact (Array.getElem?_eq_some_iff.mp hstop).1

/-- No two footpaths of a timetable have the same ends. -/
theorem nodup_ends (d : Draft α) :
    (d.assemble.footpaths.toList.map fun f => (f.origin, f.target)).Nodup := by
  have hperm : d.footpathTable.Perm (Footpath.keepFirst
      (d.addedFootpaths ++ d.ownFootpaths ++ d.generatedFootpaths)) := by
    unfold footpathTable
    rw [Footpath.sortByOrigin_eq]
    exact List.perm_insertionSort _ _
  have htable : d.assemble.footpaths.toList = d.footpathTable := rfl
  rw [htable, (hperm.map _).nodup_iff, List.Nodup, List.pairwise_map]
  refine (Footpath.pairwise_keepFirst _).imp fun {f g} hfg hends => ?_
  rw [(Footpath.sameEnds_iff f g).mpr (Prod.mk.injEq .. ▸ hends)] at hfg
  exact absurd hfg (by decide)

/-- The footpaths of a draft without defects are those of the three sources. -/
theorem prioritised_assemble [MarkerTree.Faithful α] (hstops : d.Located) (hd : d.defect? = none) :
    d.Prioritised d.assemble := by
  rcases d.sound_of_defect? hd with ⟨-, hfoot, -⟩
  refine
    { in_range := fun f hf => ⟨origin_lt hfoot (mem_footpaths_assemble hf),
        d.target_lt hfoot f (mem_footpaths_assemble hf)⟩
      distinct := d.nodup_ends
      exists_iff := fun s u hs hu => ?_
      added := fun f hf p hp => ?_
      own := fun f hf hnone hends => ?_
      generated := fun f hf hnone hends => ?_
      in_order := fun s hs => ?_ }
  · have hown : u ∈ (if d.intraStop then [s] else []) ↔ s = u ∧ d.intraStop = true := by
      split
      · rename_i hintra
        rw [List.mem_singleton, eq_comm, and_iff_left hintra]
      · rename_i hintra
        exact ⟨fun hu => absurd hu List.not_mem_nil, fun hu => absurd hu.2 hintra⟩
    rw [exists_footpath_iff, map_target_sources hstops hd hs, List.mem_append, List.mem_append,
      mem_targets_iff, d.mem_nearTargets_iff d.assemble hu, hown]
  · have hfind := (d.mem_footpaths_iff f).mp hf
    rw [List.append_assoc, List.find?_append,
      find?_addedFootpaths (fun p hp => d.hasStop_of_footpathDefect? (hfoot p hp)), hp,
      Option.map_some, Option.some_or, Option.some.injEq] at hfind
    exact (congrArg Footpath.duration hfind).symm
  · rcases mem_of_addedBetween_eq_nil hd hf hnone with hf | hf
    · exact (of_mem_ownFootpaths hf).2.2
    · exact absurd hends.symm (duration_of_mem_generatedFootpaths hf).1
  · rcases mem_of_addedBetween_eq_nil hd hf hnone with hf | hf
    · exact absurd (of_mem_ownFootpaths hf).2.1.symm hends
    · exact (duration_of_mem_generatedFootpaths hf).2
  · rcases d.footpathsFrom_assemble hs with ⟨l, hl, hmem⟩
    refine ⟨l, hl, hmem, ?_⟩
    rw [d.footpathsFrom?_assemble hs, Option.some.injEq] at hl
    rw [← hl, Footpath.map_target_keepFirst s _ fun f hf => beq_iff_eq.mp (List.mem_filter.mp hf).2,
      map_target_sources hstops hd hs, eraseDups_sources]

/-- The footpaths of a built timetable are those of the three sources. -/
theorem prioritised_of_build [MarkerTree.Faithful α] {edits : List (Edit α)} {t : Timetable α}
    (h : (ofEdits edits).build = .ok t) : (ofEdits edits).Prioritised t := by
  rcases build_eq_ok h with ⟨hd, rfl⟩
  exact prioritised_assemble (located_ofEdits edits) hd

end Table

end Draft

namespace Sample

/-- Four stops in a row, footpaths that were added from the second one, to itself and twice
    to the last one among them, and a rule by which its neighbours are near. -/
def mixedFootpaths : List (Edit ℚ) :=
  let stop (name : String) (position : ℚ) : Edit ℚ :=
    .addStop ⟨⟨name⟩, name, ⟨1000 * position, 0⟩, ⟨[]⟩⟩
  let footpath (origin target : String) (duration : ℚ) : Edit ℚ :=
    .addFootpath ⟨⟨origin⟩, ⟨target⟩, duration⟩
  [stop "A" 0, stop "B" 1, stop "C" 2, stop "D" 3, footpath "B" "D" 7, footpath "B" "B" 5,
    footpath "B" "D" 9, footpath "B" "C" 3, .setFootpathRule ⟨1000, 1, 2⟩]

end Sample

namespace Draft

open Sample

/-- Of all footpaths from the second stop only the one to the first stop is generated. -/
theorem prioritised_of_build_mixedFootpaths : ∃ t : Timetable ℚ,
    (ofEdits mixedFootpaths).build = .ok t ∧ (ofEdits mixedFootpaths).Prioritised t ∧
      (t.footpathsFrom? 0).map (·.map fun f => (f.target, f.duration)) =
        some [(0, 0), (1, 2000)] ∧
      (t.footpathsFrom? 1).map (·.map fun f => (f.target, f.duration)) =
        some [(3, 7), (1, 5), (2, 3), (0, 2000)] := by
  have hbuild : (ofEdits mixedFootpaths).build = .ok (ofEdits mixedFootpaths).assemble :=
    Sample.build_eq_ok (by decide +kernel)
  exact ⟨_, hbuild, prioritised_of_build hbuild, by decide +kernel, by decide +kernel⟩

end Draft

end Journey
