import Journey.Proofs.Timetable.Footpaths
import Journey.Proofs.Timetable.StopLookup
import Journey.Proofs.Timetable.Tables
import Journey.Proofs.Timetable.WellFormed

/-!
# Assembled Timetables are Well-Formed

Why positions refer to what they should.

The tables of a timetable are grouped by route, and its footpaths by origin. That the
span of a route holds its route-stops is therefore a fact about grouped tables. What is
left is that every stop that a draft without defects refers to has been added,
so that its position is one of the table of stops.

Nothing here depends on the arithmetic: which draft has a defect does, but the
tables of one without are laid out in the same way over any scalar.

## Main definitions

* `RoutePlan.Sound`: What the plan of a route without defects satisfies.

## Theorems

* `Draft.routeDefect?_eq_none`: No route of a draft without defects has one.
* `Draft.stopIndex_lt`: A stop that has been added has a position.
* `Draft.routes_assemble`: The rows of the routes and their spans.
* `Draft.spanned_assemble`: The spans say where the footpaths from each stop are.
* `Draft.wellFormed_of_build`: Built timetables are well-formed.
-/

namespace Journey

-- What a rule without defects satisfies.
theorem FootpathRule.sound_of_defect? {α : Type} [Scalar α] {r : FootpathRule α}
    (h : r.defect? = none) :
    Scalar.isPositive r.walkSpeed = true ∧ Scalar.isPositive r.distanceFactor = true := by
  unfold FootpathRule.defect? at h
  split at h
  · exact absurd h (by simp only [reduceCtorEq, not_false_eq_true])
  split at h
  · exact absurd h (by simp only [reduceCtorEq, not_false_eq_true])
  rename_i hspeed
  split at h
  · exact absurd h (by simp only [reduceCtorEq, not_false_eq_true])
  rename_i hfactor
  exact ⟨by simpa only [Bool.not_eq_true', Bool.not_eq_false] using hspeed,
    by simpa only [Bool.not_eq_true', Bool.not_eq_false] using hfactor⟩

/-- What the plan of a route without defects satisfies: it visits enough stops, its
    visits and trips are in order, and all stops have been added. -/
structure RoutePlan.Sound {α : Type} [Scalar α] (d : Draft α) (plan : RoutePlan α) : Prop where
  two_le : 2 ≤ plan.calls.length
  calls : Call.firstInconsistent? none plan.calls = none
  trips : Trip.firstUnsorted? none plan.trips = none
  hasStop : ∀ c ∈ plan.calls, d.hasStop c.stop = true

-- A visit begins after the one before and does not end before it begins.
theorem Call.le_of_isConsistent {α : Type} [Scalar α] {previous : Option α} {c : Call α}
    (h : c.isConsistent previous = true) :
    (∀ p ∈ previous, p ≤ c.arrivalOffset) ∧ c.arrivalOffset ≤ c.departureOffset := by
  unfold isConsistent at h
  simp only [Bool.and_eq_true, decide_eq_true_eq] at h
  rcases h with ⟨⟨-, hprevious⟩, hdwell⟩
  refine ⟨fun p hp => ?_, hdwell⟩
  rw [Option.mem_def.mp hp, Option.all_some, decide_eq_true_eq] at hprevious
  exact hprevious

-- A trip is later than the one before.
theorem Trip.lt_of_isLater {α : Type} [Scalar α] {previous : Option α} {t : Trip α}
    (h : t.isLater previous = true) : ∀ p ∈ previous, p < t.time := by
  unfold isLater at h
  rw [Bool.and_eq_true] at h
  intro p hp
  rw [Option.mem_def.mp hp, Option.all_some, decide_eq_true_eq] at h
  exact h.2

namespace Draft

variable {α : Type}

theorem stopIndex_lt (d : Draft α) (id : StopId) (h : d.hasStop id = true) :
    d.stopIndex id < d.stops.size := by
  rcases Option.isSome_iff_exists.mp h with ⟨index, hget⟩
  rw [stopIndex, hget, Option.getD_some]
  rw [d.stopLookup_eq] at hget
  rcases Stop.getElem?_of_get?_lookup hget with ⟨stop, hstop, -⟩
  exact (@Array.length_toList _ d.stops) ▸ (List.getElem?_eq_some_iff.mp hstop).1

variable [Scalar α]

/-- A route of a list without defects has none, given the routes before it. -/
theorem routeDefect?_eq_none (d : Draft α) {plans : List (RoutePlan α)} :
    ∀ {earlier : List RouteId}, d.routesDefect? earlier plans = none →
      ∀ plan ∈ plans, ∃ before, d.routeDefect? before plan = none := by
  induction plans with
  | nil => intro earlier _ plan hp; exact absurd hp List.not_mem_nil
  | cons r rest ih =>
      intro earlier h plan hp
      unfold routesDefect? at h
      cases hr : d.routeDefect? earlier r with
      | some defect =>
          rw [hr] at h
          exact absurd h (by simp only [reduceCtorEq, not_false_eq_true])
      | none =>
          rw [hr] at h
          rcases List.mem_cons.mp hp with rfl | hp
          · exact ⟨earlier, hr⟩
          · exact ih h plan hp

theorem sound_of_routeDefect? (d : Draft α) {before : List RouteId} {plan : RoutePlan α}
    (h : d.routeDefect? before plan = none) : plan.Sound d := by
  unfold routeDefect? at h
  split at h
  · exact absurd h (by simp only [reduceCtorEq, not_false_eq_true])
  split at h
  · exact absurd h (by simp only [reduceCtorEq, not_false_eq_true])
  rename_i htwo
  split at h
  · exact absurd h (by simp only [reduceCtorEq, not_false_eq_true])
  rename_i hcalls
  split at h
  · exact absurd h (by simp only [reduceCtorEq, not_false_eq_true])
  rename_i htrips
  refine ⟨Nat.le_of_not_lt htwo, hcalls, htrips, fun c hc => ?_⟩
  have hfind := List.find?_eq_none.mp (Option.map_eq_none_iff.mp h) c hc
  simpa only [Bool.not_eq_true', Bool.not_eq_false] using hfind

-- What a draft without defects satisfies.
theorem sound_of_defect? (d : Draft α) (h : d.defect? = none) :
    (∀ plan ∈ d.routes.toList, plan.Sound d) ∧
    (∀ f ∈ d.footpaths.toList, d.footpathDefect? f = none) ∧
    d.footpathRule.bind FootpathRule.defect? = none := by
  unfold defect? at h
  cases hrule : d.footpathRule.bind FootpathRule.defect? with
  | some defect =>
      rw [hrule] at h
      exact absurd h (by simp only [reduceCtorEq, not_false_eq_true])
  | none =>
      rw [hrule] at h
      cases hroutes : d.routesDefect? [] d.routes.toList with
      | some defect =>
          rw [hroutes] at h
          exact absurd h (by simp only [reduceCtorEq, not_false_eq_true])
      | none =>
          rw [hroutes] at h
          refine ⟨fun plan hp => ?_, List.findSome?_eq_none_iff.mp h, rfl⟩
          rcases d.routeDefect?_eq_none hroutes plan hp with ⟨before, hb⟩
          exact d.sound_of_routeDefect? hb

-- What a footpath without defects satisfies.
theorem sound_of_footpathDefect? (d : Draft α) {p : PlannedFootpath α}
    (h : d.footpathDefect? p = none) :
    d.hasStop p.target = true ∧ Scalar.isNonnegative p.duration = true := by
  unfold footpathDefect? at h
  split at h
  · exact absurd h (by simp only [reduceCtorEq, not_false_eq_true])
  split at h
  · exact absurd h (by simp only [reduceCtorEq, not_false_eq_true])
  rename_i htarget
  split at h
  · exact absurd h (by simp only [reduceCtorEq, not_false_eq_true])
  rename_i hduration
  exact ⟨by simpa only [Bool.not_eq_true', Bool.not_eq_false] using htarget,
    by simpa only [Bool.not_eq_true', Bool.not_eq_false] using hduration⟩

theorem build_eq_ok [Planar α] [MarkerTree α] {d : Draft α} {t : Timetable α}
    (h : d.build = .ok t) :
    d.defect? = none ∧ t = d.assemble := by
  unfold build at h
  cases hd : d.defect? with
  | some defect =>
      rw [hd] at h
      exact absurd h (by simp only [reduceCtorEq, not_false_eq_true])
  | none =>
      rw [hd] at h
      exact ⟨rfl, (Except.ok.inj h).symm⟩

variable [Planar α] [MarkerTree α]

-- A footpath of a draft was added, or leads from a stop to itself, or was
-- generated between two stops.
theorem footpath_cases {d : Draft α} {f : Footpath α}
    (hf : f ∈ d.addedFootpaths ++ d.ownFootpaths ++ d.generatedFootpaths) :
    (∃ p ∈ d.footpaths.toList, f = ⟨d.stopIndex p.origin, d.stopIndex p.target, p.duration⟩) ∨
      (∃ s, s < d.stops.size ∧ f = ⟨s, s, 0⟩) ∨
      ∃ (rule : FootpathRule α) (origin target : Nat) (stop other : Stop α),
        d.footpathRule = some rule ∧ d.stops[target]? = some other ∧ f = ⟨origin, target,
          stop.position.distance other.position * rule.distanceFactor / rule.walkSpeed⟩ := by
  rcases List.mem_append.mp hf with hf | hf
  · rcases List.mem_append.mp hf with hf | hf
    · rcases List.mem_map.mp hf with ⟨p, hp, rfl⟩
      exact Or.inl ⟨p, hp, rfl⟩
    · unfold ownFootpaths at hf
      split at hf
      · rcases List.mem_map.mp hf with ⟨s, hs, rfl⟩
        exact Or.inr (Or.inl ⟨s, List.mem_range.mp hs, rfl⟩)
      · exact absurd hf List.not_mem_nil
  · unfold generatedFootpaths at hf
    split at hf
    · exact absurd hf List.not_mem_nil
    · rename_i rule hrule
      rcases List.mem_flatMap.mp hf with ⟨⟨stop, origin⟩, -, hf⟩
      unfold generatedFrom at hf
      rcases List.mem_filterMap.mp hf with ⟨target, -, hf⟩
      split at hf
      · exact absurd hf (by simp only [reduceCtorEq, not_false_eq_true])
      · rcases Option.map_eq_some_iff.mp hf with ⟨other, hother, rfl⟩
        exact Or.inr (Or.inr ⟨rule, origin, target, stop, other, hrule, hother, rfl⟩)

-- The footpaths of a draft lead to stops that have been added.
theorem target_lt (d : Draft α) (h : ∀ f ∈ d.footpaths.toList, d.footpathDefect? f = none)
    (f : Footpath α) (hf : f ∈ d.addedFootpaths ++ d.ownFootpaths ++ d.generatedFootpaths) :
    f.target < d.stops.size := by
  rcases footpath_cases hf with
    ⟨p, hp, rfl⟩ | ⟨s, hs, rfl⟩ | ⟨rule, origin, target, stop, other, -, hother, rfl⟩
  · exact d.stopIndex_lt p.target (d.sound_of_footpathDefect? (h p hp)).1
  · exact hs
  · exact (Array.getElem?_eq_some_iff.mp hother).1

theorem mem_footpaths_assemble {d : Draft α} {f : Footpath α} (h : f ∈ d.assemble.footpaths) :
    f ∈ d.addedFootpaths ++ d.ownFootpaths ++ d.generatedFootpaths :=
  Footpath.mem_of_mem_keepFirst (Footpath.mem_sortByOrigin.mp (List.mem_toArray.mp h))

-- The spans say where the footpaths from each stop are.
theorem spanned_assemble (d : Draft α) :
    Footpath.Spanned d.stops.size d.assemble.footpaths.toList d.assemble.footpathSpans := by
  have hspanned := Footpath.Spanned.writeSpans d.footpathTable [] rfl
    (Footpath.spanned_nil d.stops.size) (Footpath.pairwise_sortByOrigin _)
    (fun a ha => absurd ha List.not_mem_nil)
  rwa [List.nil_append] at hspanned

-- Slicing the footpaths at the span of a stop gives those that start there.
theorem footpathsFrom_assemble (d : Draft α) {s : Nat} (hs : s < d.stops.size) :
    ∃ l, d.assemble.footpathsFrom? s = some l ∧
      ∀ f, f ∈ l ↔ f ∈ d.assemble.footpaths ∧ f.origin = s := by
  rcases d.spanned_assemble s hs with ⟨span, hspan, hle, hiff⟩
  rw [Array.length_toList] at hle
  rcases Span.slice?_exists hle with ⟨l, hl⟩
  refine ⟨l, ?_, fun f => ?_⟩
  · unfold Timetable.footpathsFrom?
    simp only [hspan, Option.bind_eq_bind, Option.bind_some, hl]
  · rw [Span.mem_slice?_iff hl, Array.mem_iff_getElem?]
    simp only [Array.getElem?_toList] at hiff
    constructor
    · rintro ⟨k, hin, hk⟩
      exact ⟨⟨k, hk⟩, (hiff k f hk).mpr hin⟩
    · rintro ⟨⟨k, hk⟩, horigin⟩
      exact ⟨k, (hiff k f hk).mp horigin, hk⟩

/-- The routes, row by row. -/
theorem routes_assemble (d : Draft α) (r : Nat) :
    d.assemble.routes[r]? = d.routes.toList[r]?.map (d.rowOf r) := by
  rw [← getElem?_routeTable, ← routes_routeTables, Array.getElem?_toList]
  rfl

theorem getElem?_routes_assemble {d : Draft α} {r : Nat} {row : Route}
    (h : d.assemble.routes[r]? = some row) :
    ∃ plan, d.routes.toList[r]? = some plan ∧ row = d.rowOf r plan := by
  rw [routes_assemble] at h
  rcases Option.map_eq_some_iff.mp h with ⟨plan, hplan, rfl⟩
  exact ⟨plan, hplan, rfl⟩

theorem getElem?_routeStops_assemble {d : Draft α} {i : Nat} {rs : RouteStop α}
    (h : d.assemble.routeStops[i]? = some rs) : d.routeStopGroups.flatten[i]? = some rs := by
  rw [← routeStops_routeTables, Array.getElem?_toList]
  exact h

-- The trips in the span of a route are those of its plan.
theorem getElem?_trips_assemble (d : Draft α) {r : Nat} {plan : RoutePlan α}
    (h : d.routes.toList[r]? = some plan) {k : Nat}
    (hlo : Span.offset d.tripGroups r ≤ k)
    (hhi : k < Span.offset d.tripGroups r + plan.trips.length) :
    d.assemble.trips[k]? = plan.trips[k - Span.offset d.tripGroups r]? := by
  have hflat := Span.getElem?_flatten d.tripGroups r plan.trips
    (by rw [tripGroups, List.getElem?_map, h, Option.map_some])
    (k - Span.offset d.tripGroups r) (by omega)
  rw [Nat.add_sub_cancel' hlo, ← trips_routeTables, Array.getElem?_toList] at hflat
  exact hflat

-- The times are those of the trips.
theorem getElem?_tripTimes_assemble (d : Draft α) (k : Nat) :
    d.assemble.tripTimes[k]? = d.assemble.trips[k]?.map (·.time) :=
  Array.getElem?_map

theorem size_routes_assemble (d : Draft α) :
    d.assemble.routes.size = d.routes.toList.length :=
  (d.written_routeTables.sizes (Nat.le_refl _)).1

theorem size_routeStops_assemble (d : Draft α) :
    d.assemble.routeStops.size = d.routeStopGroups.flatten.length := by
  rw [← routeStops_routeTables, Array.length_toList]
  rfl

theorem size_trips_assemble (d : Draft α) :
    d.assemble.trips.size = d.tripGroups.flatten.length := by
  rw [← trips_routeTables, Array.length_toList]
  rfl

-- The spans of a route do not go beyond the tables.
theorem span_le_assemble (d : Draft α) {r : Nat} {row : Route}
    (h : d.assemble.routes[r]? = some row) :
    (row.routeStops.start ≤ row.routeStops.stop ∧
      row.routeStops.stop ≤ d.assemble.routeStops.size) ∧
    (row.trips.start ≤ row.trips.stop ∧ row.trips.stop ≤ d.assemble.trips.size) := by
  rcases getElem?_routes_assemble h with ⟨plan, hplan, rfl⟩
  have hrsle := Span.offset_add_length_le d.routeStopGroups r (d.routeStopsOf r plan)
    (by rw [getElem?_routeStopGroups, hplan, Option.map_some])
  have htripsle := Span.offset_add_length_le d.tripGroups r plan.trips
    (by rw [tripGroups, List.getElem?_map, hplan, Option.map_some])
  rw [length_routeStopsOf] at hrsle
  rw [size_routeStops_assemble, size_trips_assemble]
  exact ⟨⟨Nat.le_add_right _ _, hrsle⟩, Nat.le_add_right _ _, htripsle⟩

-- A route-stop belongs to the route in whose span it is: its row is a call of
-- the plan of its route, and the groups of different routes do not overlap.
theorem route_iff_assemble (d : Draft α) {i r : Nat} {rs : RouteStop α} {row : Route}
    (hi : d.assemble.routeStops[i]? = some rs) (hr : d.assemble.routes[r]? = some row) :
    rs.route = r ↔ row.routeStops.start ≤ i ∧ i < row.routeStops.stop := by
  have hrs := getElem?_routeStops_assemble hi
  rcases getElem?_routes_assemble hr with ⟨plan, hplan, rfl⟩
  rcases d.getElem?_routeStopTable i rs hrs with ⟨plan', call, hplan', hcall, hik, -⟩
  have hk := (List.getElem?_eq_some_iff.mp hcall).1
  unfold rowOf
  constructor
  · rintro rfl
    rw [hplan, Option.some.injEq] at hplan'
    subst hplan'
    exact ⟨by simp only; omega, by simp only; omega⟩
  · rintro ⟨hlo, hhi⟩
    simp only at hlo hhi
    -- The row is also reached through the group of the route.
    have hgroup := Span.getElem?_flatten d.routeStopGroups r (d.routeStopsOf r plan)
      (by rw [getElem?_routeStopGroups, hplan, Option.map_some])
      (i - Span.offset d.routeStopGroups r) (by rw [length_routeStopsOf]; omega)
    rw [Nat.add_sub_cancel' hlo, hrs, getElem?_routeStopsOf] at hgroup
    rcases Option.map_eq_some_iff.mp hgroup.symm with ⟨call', -, rfl⟩
    rfl

-- The index by stop has an entry for every stop.
theorem routeStopsAt?_assemble_eq_some (d : Draft α) {s : Nat} {l : List Nat} :
    d.assemble.routeStopsAt? s = some l ↔
      s < d.stops.size ∧ l = routeStopsAt d.assemble.routeStops.toList s := by
  have hlisted : Listed d.stops.size d.routeTables := d.written_routeTables.listed
  constructor
  · intro hl
    have hs : s < d.stops.size := hlisted.size ▸ (Array.getElem?_eq_some_iff.mp hl).1
    exact ⟨hs, (Option.some.inj ((hlisted.entries s hs).symm.trans hl)).symm⟩
  · rintro ⟨hs, rfl⟩
    exact hlisted.entries s hs

-- The index by stop holds exactly the route-stops at the stop.
theorem routeStopsAt_assemble (d : Draft α) {s : Nat} (hs : s < d.stops.size) :
    ∃ l, d.assemble.routeStopsAt? s = some l ∧ ∀ i, i ∈ l ↔ d.assemble.stopOf? i = some s := by
  refine ⟨_, d.routeStopsAt?_assemble_eq_some.mpr ⟨hs, rfl⟩, fun i => ?_⟩
  rw [mem_routeStopsAt, Timetable.stopOf?_eq_some_iff]
  simp only [Array.getElem?_toList]

/-- Built timetables are well-formed. -/
theorem wellFormed_of_build {d : Draft α} {t : Timetable α} (h : d.build = .ok t) :
    t.WellFormed := by
  rcases build_eq_ok h with ⟨hdefect, rfl⟩
  rcases d.sound_of_defect? hdefect with ⟨hplans, hfoot, -⟩
  exact
    { routeStops_span := fun r row hr => (d.span_le_assemble hr).1
      trips_span := fun r row hr => (d.span_le_assemble hr).2
      tripTimes_size := Array.size_map
      route_iff := fun i r rs row hi hr => d.route_iff_assemble hi hr
      route_lt := fun i rs hi => by
        rcases d.getElem?_routeStopTable i rs (getElem?_routeStops_assemble hi) with
          ⟨plan, -, hplan, -⟩
        rw [d.size_routes_assemble]
        exact (List.getElem?_eq_some_iff.mp hplan).1
      stop_lt := fun i rs hi => by
        rcases d.getElem?_routeStopTable i rs (getElem?_routeStops_assemble hi) with
          ⟨plan, call, hplan, hcall, -, hstop, -⟩
        rw [hstop]
        exact d.stopIndex_lt _ ((hplans plan (List.mem_of_getElem? hplan)).hasStop call
          (List.mem_of_getElem? hcall))
      routeStopsAt := fun s hs => d.routeStopsAt_assemble hs
      routeStopsAt_lt := fun s l hl => (d.routeStopsAt?_assemble_eq_some.mp hl).1
      footpathsFrom := fun s hs => d.footpathsFrom_assemble hs
      target_lt := fun f hf => d.target_lt hfoot f (mem_footpaths_assemble hf) }

/-- The index by stop of a built timetable lists no route-stop twice. -/
theorem nodup_routeStopsAt?_of_build {d : Draft α} {t : Timetable α} (h : d.build = .ok t) {s : Nat}
    {l : List Nat} (hl : t.routeStopsAt? s = some l) : l.Nodup := by
  rcases build_eq_ok h with ⟨-, rfl⟩
  rw [(d.routeStopsAt?_assemble_eq_some.mp hl).2]
  exact (sorted_routeStopsAt _ s).imp Nat.ne_of_lt

end Draft

end Journey
