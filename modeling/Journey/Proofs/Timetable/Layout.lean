import Mathlib.Data.List.Chain
import Mathlib.Data.String.Basic
import Journey.Proofs.Timetable.Assembly
import Journey.Proofs.Timetable.Edits
import Journey.Proofs.Sample

/-!
# The Layout of a Timetable

What the tables of a timetable say about what it was made from.

A search compares positions where a traveller would compare places and times, and it
takes parallel tables and spans at their word. That is only right if all of them were
filled from the same plans in the same order. `Indexed` says so table by table: the
spans of the routes lie end to end and cover the tables, every route-stop repeats the
visit that the plan of its route has there, every vehicle the trip, and what is looked
up by stop is complete and in order. It holds of every timetable that can be built,
also with routes that have no trips, stops that have no footpaths, and routes that
visit a stop twice.

Which draft is accepted is decided by comparing neighbours, and what is known of their
order is said about neighbours, too. So nothing here needs a law of arithmetic.

## Main definitions

* `Timetable.Visits`: A route-stop repeats a visit of a plan.
* `Timetable.RoutesLaidOut`, `Timetable.TripsLaidOut`, `Timetable.StopsIndexed`: What
  the tables say.
* `Timetable.Indexed`: All of it, and the modes.

## Theorems

* `Call.chain_of_firstInconsistent?`, `Trip.chain_of_firstUnsorted?`: What comparing
  neighbours has found.
* `Identifier.mem_insertSorted`, `Identifier.sorted_insertSorted`: What is put into its
  place.
* `Draft.routesLaidOut_of_build`: The route-stops are those of the plans.
* `Draft.tripsLaidOut_of_build`: The trips are those of the plans.
* `Draft.stopsIndexed_of_build`: What is looked up by stop is complete.
* `Draft.indexed_of_build`: However a draft is made, its timetable is indexed.
-/

namespace Journey

variable {α : Type}

namespace Timetable

variable [Scalar α]

/-- A route-stop at a position repeats the visit of the plan of its route. -/
structure Visits (t : Timetable α) (plans : List (RoutePlan α)) (k : Nat) (rs : RouteStop α)
    (row : Route) (plan : RoutePlan α) (call : Call α) : Prop where
  row_eq : t.routes[rs.route]? = some row
  plan_eq : plans[rs.route]? = some plan
  /-- It is in the span of its route. -/
  inside : row.routeStops.start ≤ k ∧ k < row.routeStops.stop
  sequence_eq : rs.sequence = k - row.routeStops.start
  call_eq : plan.calls[rs.sequence]? = some call
  stop_eq : t.findStop? call.stop = some rs.stop
  arrivalOffset_eq : rs.arrivalOffset = call.arrivalOffset
  departureOffset_eq : rs.departureOffset = call.departureOffset

/-- The routes are those of the plans, and their route-stops stand one after the
    other. -/
structure RoutesLaidOut (t : Timetable α) (plans : List (RoutePlan α)) : Prop where
  rows : t.routes.toList.map (fun row => (row.id, row.line, row.mode))
    = plans.map fun plan => (plan.id, plan.line, plan.mode)
  /-- The spans lie end to end and cover the table. -/
  routeStop_spans : Span.Tile 0 (t.routes.toList.map (·.routeStops)) t.routeStops.size
  on_one_route : ∀ k, k < t.routeStops.size → ∃! r : Nat, ∃ row, t.routes[r]? = some row ∧
    row.routeStops.start ≤ k ∧ k < row.routeStops.stop
  sizes : t.routes.toList.map (·.routeStops.size) = plans.map (·.calls.length)
  two_le : ∀ row ∈ t.routes, 2 ≤ row.routeStops.size
  visits : ∀ (k : Nat) (rs : RouteStop α), t.routeStops[k]? = some rs →
    ∃ row plan call, t.Visits plans k rs row plan call
  /-- No vehicle leaves before it has arrived. -/
  dwell : ∀ (k : Nat) (rs : RouteStop α), t.routeStops[k]? = some rs →
    rs.arrivalOffset ≤ rs.departureOffset
  /-- No vehicle arrives before it has left the route-stop behind. -/
  onward : ∀ (k : Nat) (rs next : RouteStop α), t.routeStops[k]? = some rs →
    t.routeStops[k + 1]? = some next → next.route = rs.route →
    rs.departureOffset ≤ next.arrivalOffset

/-- The trips of the routes are those of the plans, and stand one after the other. -/
structure TripsLaidOut (t : Timetable α) (plans : List (RoutePlan α)) : Prop where
  /-- The spans lie end to end and cover the table. -/
  trip_spans : Span.Tile 0 (t.routes.toList.map (·.trips)) t.trips.size
  of_one_route : ∀ k, k < t.trips.size → ∃! r : Nat, ∃ row, t.routes[r]? = some row ∧
    row.trips.start ≤ k ∧ k < row.trips.stop
  trips : ∀ (r : Nat) (row : Route), t.routes[r]? = some row →
    ∃ plan, plans[r]? = some plan ∧ row.trips.slice? t.trips = some plan.trips ∧
      row.trips.slice? t.tripTimes = some (plan.trips.map (·.time))
  /-- The vehicles of a route leave one after the other. -/
  increasing : ∀ (r : Nat) (row : Route) (times : List α), t.routes[r]? = some row →
    row.trips.slice? t.tripTimes = some times → times.IsChain (· < ·)
  /-- Trips and times are at the same positions. -/
  parallel : ∀ k : Nat, t.tripTimes[k]? = t.trips[k]?.map (·.time)

/-- What is looked up by stop is complete and in order. -/
structure StopsIndexed (t : Timetable α) : Prop where
  findStop : ∀ (id : StopId) (i : Nat),
    t.findStop? id = some i ↔ ∃ stop, t.stops[i]? = some stop ∧ stop.id = id
  /-- Exactly the route-stops at a stop are listed, by increasing position. -/
  routeStopsAt : ∀ s, s < t.stops.size → ∃ l, t.routeStopsAt? s = some l ∧
    l.Pairwise (· < ·) ∧ ∀ k, k ∈ l ↔ ∃ rs, t.routeStops[k]? = some rs ∧ rs.stop = s
  /-- Exactly the footpaths from a stop are in its span. -/
  footpaths : ∀ s, s < t.stops.size → ∃ span, t.footpathSpans[s]? = some span ∧
    (span.start ≤ span.stop ∧ span.stop ≤ t.footpaths.size) ∧
    ∀ (k : Nat) (f : Footpath α), t.footpaths[k]? = some f →
      (f.origin = s ↔ span.start ≤ k ∧ k < span.stop)

/-- The tables of a timetable say what the plans of its routes say. -/
structure Indexed (t : Timetable α) (plans : List (RoutePlan α)) : Prop
    extends RoutesLaidOut t plans, TripsLaidOut t plans, StopsIndexed t where
  /-- The modes are those of the routes, in order and without repetitions. -/
  modes : ∀ mode, mode ∈ t.modes ↔ ∃ row ∈ t.routes, row.mode = mode
  modes_sorted : t.modes.Pairwise fun a b => a.text < b.text

end Timetable

section Neighbours

variable [Scalar α]

-- Consistent visits are in the order of time, from each to the next.
theorem Call.chain_of_firstInconsistent? (calls : List (Call α)) :
    ∀ previous, firstInconsistent? previous calls = none →
      (∀ p ∈ previous, ∀ c ∈ calls.head?, p ≤ c.arrivalOffset) ∧
      (∀ c ∈ calls, c.arrivalOffset ≤ c.departureOffset) ∧
      calls.IsChain fun a b => a.departureOffset ≤ b.arrivalOffset := by
  induction calls with
  | nil =>
      intro previous _
      exact ⟨fun _ _ c hc => absurd hc (Option.not_mem_none c),
        fun c hc => absurd hc List.not_mem_nil, List.isChain_nil⟩
  | cons c rest ih =>
      intro previous h
      unfold firstInconsistent? at h
      split at h
      · rename_i hc
        rcases le_of_isConsistent hc with ⟨hprevious, hdwell⟩
        rcases ih _ (Option.map_eq_none_iff.mp h) with ⟨hnext, hdwells, hchain⟩
        refine ⟨fun p hp c' hc' => ?_, fun c' hc' => ?_, List.isChain_cons.mpr ⟨?_, hchain⟩⟩
        · rw [List.head?_cons, Option.mem_def, Option.some.injEq] at hc'
          exact hc' ▸ hprevious p hp
        · rcases List.mem_cons.mp hc' with rfl | hc'
          · exact hdwell
          · exact hdwells c' hc'
        · exact fun c' hc' => hnext _ rfl c' hc'
      · exact absurd h (by simp only [reduceCtorEq, not_false_eq_true])

-- Trips that are sorted leave one after the other.
theorem Trip.chain_of_firstUnsorted? (trips : List (Trip α)) :
    ∀ previous, firstUnsorted? previous trips = none →
      (∀ p ∈ previous, ∀ t ∈ trips.head?, p < t.time) ∧
      trips.IsChain fun a b => a.time < b.time := by
  induction trips with
  | nil => exact fun _ _ => ⟨fun _ _ t ht => absurd ht (Option.not_mem_none t), List.isChain_nil⟩
  | cons t rest ih =>
      intro previous h
      unfold firstUnsorted? at h
      split at h
      · rename_i ht
        rcases ih _ (Option.map_eq_none_iff.mp h) with ⟨hnext, hchain⟩
        refine ⟨fun p hp t' ht' => ?_, List.isChain_cons.mpr ⟨fun t' ht' => ?_, hchain⟩⟩
        · rw [List.head?_cons, Option.mem_def, Option.some.injEq] at ht'
          exact ht' ▸ lt_of_isLater ht p hp
        · exact hnext _ rfl t' ht'
      · exact absurd h (by simp only [reduceCtorEq, not_false_eq_true])

end Neighbours

namespace Identifier

variable {kind : IdentifierKind}

theorem mem_insertSorted (id other : Identifier kind) (ids : List (Identifier kind)) :
    other ∈ id.insertSorted ids ↔ other = id ∨ other ∈ ids := by
  induction ids with
  | nil => simp only [insertSorted, List.mem_singleton, List.not_mem_nil, or_false]
  | cons head rest ih =>
      unfold insertSorted
      split
      · exact List.mem_cons
      · split
        · rename_i heq
          rw [heq, List.mem_cons, ← or_assoc, or_self]
        · rw [List.mem_cons, ih, List.mem_cons, or_left_comm]

/-- Putting an identifier into its place keeps the order, and adds no repetition. -/
theorem sorted_insertSorted (id : Identifier kind) {ids : List (Identifier kind)}
    (h : ids.Pairwise fun a b => a.text < b.text) :
    (id.insertSorted ids).Pairwise fun a b => a.text < b.text := by
  induction ids with
  | nil => exact List.pairwise_singleton _ _
  | cons head rest ih =>
      rcases List.pairwise_cons.mp h with ⟨hhead, hrest⟩
      unfold insertSorted
      split
      · rename_i hlt
        refine List.pairwise_cons.mpr ⟨fun other hother => ?_, h⟩
        rcases List.mem_cons.mp hother with rfl | hother
        · exact hlt
        · exact lt_trans hlt (hhead other hother)
      · rename_i hnot
        split
        · exact h
        · rename_i hne
          refine List.pairwise_cons.mpr ⟨fun other hother => ?_, ih hrest⟩
          rcases (mem_insertSorted id other rest).mp hother with rfl | hother
          · -- Texts that differ are in one order or the other.
            have htext : other.text ≠ head.text := fun heq => hne (by
              cases other
              cases head
              exact congrArg Identifier.mk heq)
            exact lt_of_le_of_ne (le_of_not_gt hnot) (Ne.symm htext)
          · exact hhead other hother

end Identifier

-- If the spans of the routes lie end to end, every position is in that of one route.
theorem Route.existsUnique_of_tile {routes : Array Route} (f : Route → Span) {n : Nat}
    (h : Span.Tile 0 (routes.toList.map f) n) (k : Nat) (hk : k < n) :
    ∃! r : Nat, ∃ row, routes[r]? = some row ∧ (f row).start ≤ k ∧ k < (f row).stop := by
  have hone := h.existsUnique k (Nat.zero_le k) hk
  simpa only [List.getElem?_map, Array.getElem?_toList, Option.map_eq_some_iff,
    exists_exists_and_eq_and] using hone

namespace Draft

section Tables

theorem mem_modesOf (plans : List (RoutePlan α)) (mode : Mode) :
    mode ∈ modesOf plans ↔ ∃ plan ∈ plans, plan.mode = mode := by
  have hfold : ∀ (plans : List (RoutePlan α)) (modes : List Mode),
      mode ∈ plans.foldl (fun modes plan => plan.mode.insertSorted modes) modes ↔
        mode ∈ modes ∨ ∃ plan ∈ plans, plan.mode = mode := by
    intro plans
    induction plans with
    | nil =>
        intro modes
        simp only [List.foldl_nil, List.not_mem_nil, false_and, exists_false, or_false]
    | cons plan plans ih =>
        intro modes
        rw [List.foldl_cons, ih, Identifier.mem_insertSorted, List.exists_mem_cons_iff,
          @eq_comm _ mode, or_comm (a := plan.mode = mode), or_assoc]
  unfold modesOf
  rw [hfold]
  simp only [List.not_mem_nil, false_or]

theorem sorted_modesOf (plans : List (RoutePlan α)) :
    (modesOf plans).Pairwise fun a b => a.text < b.text := by
  have hfold : ∀ (plans : List (RoutePlan α)) (modes : List Mode),
      (modes.Pairwise fun a b => a.text < b.text) →
      (plans.foldl (fun modes plan => plan.mode.insertSorted modes) modes).Pairwise
        fun a b => a.text < b.text := by
    intro plans
    induction plans with
    | nil => exact fun _ h => h
    | cons plan plans ih => exact fun modes h => ih _ (Identifier.sorted_insertSorted _ h)
  exact hfold _ [] List.Pairwise.nil

variable [Scalar α]

-- A property of the rows is one of the plans if it says the same of every row.
theorem map_routes_assemble [Planar α] [MarkerTree α] {β : Type} (d : Draft α) (f : Route → β)
    (g : RoutePlan α → β) (h : ∀ r plan, f (d.rowOf r plan) = g plan) :
    d.assemble.routes.toList.map f = d.routes.toList.map g := by
  refine List.ext_getElem? fun r => ?_
  rw [List.getElem?_map, Array.getElem?_toList, routes_assemble, Option.map_map,
    List.getElem?_map]
  exact congrArg (Option.map · _) (funext (h r))

-- Slicing the trips at a route gives those of its plan.
theorem slice?_trips_assemble [Planar α] [MarkerTree α] (d : Draft α) {r : Nat} {plan : RoutePlan α}
    (h : d.routes.toList[r]? = some plan) :
    (d.rowOf r plan).trips.slice? d.assemble.trips = some plan.trips := by
  have htable : d.assemble.trips = d.tripGroups.flatten.toArray :=
    Array.toList_inj.mp d.trips_routeTables
  rw [htable]
  exact Span.slice?_group _ r _ (by rw [tripGroups, List.getElem?_map, h, Option.map_some])

theorem slice?_tripTimes_assemble [Planar α] [MarkerTree α] (d : Draft α) {r : Nat}
    {plan : RoutePlan α} (h : d.routes.toList[r]? = some plan) :
    (d.rowOf r plan).trips.slice? d.assemble.tripTimes = some (plan.trips.map (·.time)) := by
  have htimes : d.assemble.tripTimes = d.assemble.trips.map (·.time) := rfl
  rw [htimes, Span.slice?_map, d.slice?_trips_assemble h, Option.map_some]

end Tables

section Build

variable [Scalar α] [Planar α] [MarkerTree α] {d : Draft α} {t : Timetable α}

/-- The route-stops of a built timetable are those of the plans. -/
theorem routesLaidOut_of_build (h : d.build = .ok t) : t.RoutesLaidOut d.routes.toList := by
  rcases build_eq_ok h with ⟨hdefect, rfl⟩
  rcases d.sound_of_defect? hdefect with ⟨hplans, -, -⟩
  refine
    { rows := d.map_routes_assemble _ _ fun r plan => rfl
      routeStop_spans := d.written_routeTables.routeStop_spans
      on_one_route := Route.existsUnique_of_tile (·.routeStops)
        d.written_routeTables.routeStop_spans
      sizes := d.map_routes_assemble _ _ fun r plan => Nat.add_sub_cancel_left _ _
      two_le := ?_
      visits := ?_
      dwell := ?_
      onward := ?_ }
  · intro row hrow
    rcases Array.mem_iff_getElem?.mp hrow with ⟨r, hr⟩
    rcases getElem?_routes_assemble hr with ⟨plan, hplan, rfl⟩
    have htwo := (hplans plan (List.mem_of_getElem? hplan)).two_le
    unfold rowOf Span.size
    simp only [Nat.add_sub_cancel_left]
    exact htwo
  · intro k rs hk
    rcases d.getElem?_routeStopTable k rs (getElem?_routeStops_assemble hk) with
      ⟨plan, call, hplan, hcall, hpos, hstop, harrival, hdeparture⟩
    have hlt := (List.getElem?_eq_some_iff.mp hcall).1
    refine ⟨d.rowOf rs.route plan, plan, call, ?_⟩
    exact
      { row_eq := by rw [routes_assemble, hplan, Option.map_some]
        plan_eq := hplan
        inside := ⟨by unfold rowOf; simp only; omega, by unfold rowOf; simp only; omega⟩
        sequence_eq := by unfold rowOf; simp only; omega
        call_eq := hcall
        stop_eq := by
          rw [hstop]
          exact d.findStop?_of_hasStop ((hplans plan (List.mem_of_getElem? hplan)).hasStop call
            (List.mem_of_getElem? hcall))
        arrivalOffset_eq := harrival
        departureOffset_eq := hdeparture }
  · intro k rs hk
    rcases d.getElem?_routeStopTable k rs (getElem?_routeStops_assemble hk) with
      ⟨plan, call, hplan, hcall, -, -, harrival, hdeparture⟩
    have hsound := hplans plan (List.mem_of_getElem? hplan)
    rw [harrival, hdeparture]
    exact (Call.chain_of_firstInconsistent? _ none hsound.calls).2.1 call
      (List.mem_of_getElem? hcall)
  · intro k rs next hk hnext hroute
    rcases d.getElem?_routeStopTable k rs (getElem?_routeStops_assemble hk) with
      ⟨plan, call, hplan, hcall, hpos, -, -, hdeparture⟩
    rcases d.getElem?_routeStopTable (k + 1) next (getElem?_routeStops_assemble hnext) with
      ⟨plan', call', hplan', hcall', hpos', -, harrival, -⟩
    -- Both are visits of one plan, one after the other.
    rw [hroute] at hplan' hpos'
    rw [hplan, Option.some.injEq] at hplan'
    subst hplan'
    have hnext : next.sequence = rs.sequence + 1 := by omega
    rw [hnext] at hcall'
    rcases List.getElem?_eq_some_iff.mp hcall with ⟨hlt, rfl⟩
    rcases List.getElem?_eq_some_iff.mp hcall' with ⟨hlt', rfl⟩
    rw [harrival, hdeparture]
    exact (Call.chain_of_firstInconsistent? _ none
      (hplans plan (List.mem_of_getElem? hplan)).calls).2.2.getElem _ hlt'

/-- The trips of a built timetable are those of the plans. -/
theorem tripsLaidOut_of_build (h : d.build = .ok t) : t.TripsLaidOut d.routes.toList := by
  rcases build_eq_ok h with ⟨hdefect, rfl⟩
  rcases d.sound_of_defect? hdefect with ⟨hplans, -, -⟩
  refine
    { trip_spans := d.written_routeTables.trip_spans
      of_one_route := Route.existsUnique_of_tile (·.trips) d.written_routeTables.trip_spans
      trips := ?_
      increasing := ?_
      parallel := d.getElem?_tripTimes_assemble }
  · intro r row hr
    rcases getElem?_routes_assemble hr with ⟨plan, hplan, rfl⟩
    exact ⟨plan, hplan, d.slice?_trips_assemble hplan, d.slice?_tripTimes_assemble hplan⟩
  · intro r row times hr htimes
    rcases getElem?_routes_assemble hr with ⟨plan, hplan, rfl⟩
    rw [d.slice?_tripTimes_assemble hplan, Option.some.injEq] at htimes
    subst htimes
    exact (List.isChain_map _).mpr (Trip.chain_of_firstUnsorted? _ none
      (hplans plan (List.mem_of_getElem? hplan)).trips).2

/-- What is looked up by stop in a built timetable is complete and in order. -/
theorem stopsIndexed_of_build (hd : d.Distinct) (h : d.build = .ok t) : t.StopsIndexed := by
  rcases build_eq_ok h with ⟨-, rfl⟩
  refine
    { findStop := d.findStop?_eq_some_iff hd
      routeStopsAt := fun s hs =>
        ⟨_, d.routeStopsAt?_assemble_eq_some.mpr ⟨hs, rfl⟩, sorted_routeStopsAt _ s, fun k => ?_⟩
      footpaths := fun s hs => ?_ }
  · rw [mem_routeStopsAt]
    simp only [Array.getElem?_toList]
  · have hspanned := d.spanned_assemble s hs
    simpa only [Array.getElem?_toList, Array.length_toList] using hspanned

/-- However a draft is made, the tables of its timetable say what the plans of the
    routes that were added say. -/
theorem indexed_of_build (edits : List (Edit α)) (h : (ofEdits edits).build = .ok t) :
    t.Indexed (edits.filterMap Edit.plan?) := by
  have hd := distinct_ofEdits edits
  rw [← routes_ofEdits]
  have hroutes := routesLaidOut_of_build h
  have htrips := tripsLaidOut_of_build h
  have hstops := stopsIndexed_of_build hd h
  rcases build_eq_ok h with ⟨-, rfl⟩
  have hmodes : (ofEdits edits).assemble.modes = modesOf (ofEdits edits).routes.toList :=
    (ofEdits edits).modes_routeTables
  refine
    { toRoutesLaidOut := hroutes
      toTripsLaidOut := htrips
      toStopsIndexed := hstops
      modes := fun mode => ?_
      modes_sorted := hmodes ▸ sorted_modesOf _ }
  have hmap := (ofEdits edits).map_routes_assemble (·.mode) (·.mode) fun r plan => rfl
  have hrows : (∃ row ∈ (ofEdits edits).assemble.routes, row.mode = mode) ↔
      mode ∈ (ofEdits edits).assemble.routes.toList.map (·.mode) := by
    simp only [List.mem_map, Array.mem_toList_iff]
  rw [hrows, hmap, hmodes, List.mem_map]
  exact mem_modesOf _ mode

end Build

end Draft

namespace Sample

/-- A stop on the line of stops. -/
def stopNamed (name : String) (kilometre : ℚ) : Stop ℚ :=
  ⟨⟨name⟩, name, ⟨1000 * kilometre, 0⟩, ⟨[]⟩⟩

/-- A stop that is added twice, a route that visits a stop twice and one without trips,
    and stops without footpaths. -/
def unevenEdits : List (Edit ℚ) :=
  [.setIntraStop false, .addRoute (line "loop" [("A", 0), ("B", 10), ("A", 20)] [0, 100]),
    .addStop (stopNamed "A" 0), .addStop (stopNamed "B" 1), .addStop (stopNamed "B" 2),
    .addFootpath ⟨⟨"B"⟩, ⟨"C"⟩, 30⟩, .addRoute (line "unused" [("B", 0), ("C", 10)] []),
    .addStop (stopNamed "C" 2), .addStop (stopNamed "D" 3)]

end Sample

namespace Draft

open Sample

/-- The stop that was added twice is in the timetable once, and what is irregular about
    the others leaves gaps in no table. -/
theorem indexed_of_build_uneven : ∃ t : Timetable ℚ, (ofEdits unevenEdits).build = .ok t ∧
    t.stops.size = 4 ∧ t.routes.toList.map (·.routeStops) = [⟨0, 3⟩, ⟨3, 5⟩] ∧
    t.routes.toList.map (·.trips) = [⟨0, 2⟩, ⟨2, 2⟩] ∧
    t.routeStopsByStop.toList = [[0, 2], [1, 3], [4], []] ∧
    t.footpathSpans.toList = [⟨0, 0⟩, ⟨0, 1⟩, ⟨0, 0⟩, ⟨0, 0⟩] ∧
    t.Indexed (unevenEdits.filterMap Edit.plan?) := by
  have hbuild : (ofEdits unevenEdits).build = .ok (ofEdits unevenEdits).assemble :=
    Sample.build_eq_ok (by decide +kernel)
  exact ⟨_, hbuild, by decide +kernel, by decide +kernel, by decide +kernel, by decide +kernel,
    by decide +kernel, indexed_of_build unevenEdits hbuild⟩

end Draft

end Journey
