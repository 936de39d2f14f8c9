import Mathlib.Data.List.Basic
import Journey.Timetable
import Journey.Proofs.Span

/-!
# Well-Formed Timetables

What has to be true of the tables for the search to find its way in them.

A timetable is a set of tables that refer to each other by position, and every
look-up of a position is guarded. `WellFormed` says that no guard ever bites on
a position that a table holds, that the span of a route contains exactly the
route-stops of that route, and that the index of route-stops by stop and the
groups of footpaths by origin leave nothing out. It speaks about positions only
and never about times, so it holds over any scalar.

Whatever a traveller does in a timetable is said with three relations between
positions: a trip serves a route-stop when it belongs to its route, a
route-stop is ahead of another one when it comes later along the same route,
and a footpath leads from one route-stop to another when it joins their stops.

## Main definitions

* `Timetable.WellFormed`: Positions refer to what they should.
* `Timetable.Ahead`: A route-stop comes later along a route than another one.
* `Timetable.On`: A route-stop belongs to a route.
* `Timetable.Serves`: A trip belongs to the route of a route-stop.
* `Timetable.Leads`: A footpath joins the stops of two route-stops.

## Theorems

* `Timetable.WellFormed.exists_route`: Every route-stop has a route.
* `Timetable.WellFormed.ahead_iff_span`: What is ahead within the span of a route.
* `Timetable.WellFormed.exists_time`: Every trip of a route has a time.
* `Timetable.WellFormed.nextTrip?_exists`: Looking for a vehicle at a route-stop
  does not fail.
* `Timetable.nextTrip?_some`: The vehicle found, and what earlier ones missed.
* `Timetable.nextTrip?_none`: What all vehicles missed if none is found.
* `Timetable.Serves.exists_arrival`, `Timetable.Serves.exists_departure`: The
  vehicle of a trip arrives at and leaves what it serves.
-/

namespace Journey

namespace Timetable

variable {α : Type}

/-- Positions refer to what they should. -/
structure WellFormed (t : Timetable α) : Prop where
  /-- The route-stops of a route are in the table. -/
  routeStops_span : ∀ (r : Nat) (row : Route), t.routes[r]? = some row →
    row.routeStops.start ≤ row.routeStops.stop ∧ row.routeStops.stop ≤ t.routeStops.size
  /-- The trips of a route are in the table. -/
  trips_span : ∀ (r : Nat) (row : Route), t.routes[r]? = some row →
    row.trips.start ≤ row.trips.stop ∧ row.trips.stop ≤ t.trips.size
  /-- Every trip has a time. -/
  tripTimes_size : t.tripTimes.size = t.trips.size
  /-- The span of a route holds its route-stops and no others. -/
  route_iff : ∀ (i r : Nat) (rs : RouteStop α) (row : Route), t.routeStops[i]? = some rs →
    t.routes[r]? = some row → (rs.route = r ↔ row.routeStops.start ≤ i ∧ i < row.routeStops.stop)
  /-- Every route-stop belongs to a route. -/
  route_lt : ∀ (i : Nat) (rs : RouteStop α), t.routeStops[i]? = some rs → rs.route < t.routes.size
  /-- Every route-stop is at a stop. -/
  stop_lt : ∀ (i : Nat) (rs : RouteStop α), t.routeStops[i]? = some rs → rs.stop < t.stops.size
  /-- The index by stop leaves no route-stop out. -/
  routeStopsAt : ∀ s, s < t.stops.size →
    ∃ l, t.routeStopsAt? s = some l ∧ ∀ i, i ∈ l ↔ t.stopOf? i = some s
  /-- The index by stop lists no more than the stops. -/
  routeStopsAt_lt : ∀ s l, t.routeStopsAt? s = some l → s < t.stops.size
  /-- The groups of footpaths leave no footpath out. -/
  footpathsFrom : ∀ s, s < t.stops.size →
    ∃ l, t.footpathsFrom? s = some l ∧ ∀ f, f ∈ l ↔ f ∈ t.footpaths ∧ f.origin = s
  /-- Footpaths lead to stops. -/
  target_lt : ∀ f ∈ t.footpaths, f.target < t.stops.size

/-- The second route-stop comes later along the route of the first. -/
def Ahead (t : Timetable α) (i j : Nat) : Prop :=
  i < j ∧ ∃ ri rj, t.routeStops[i]? = some ri ∧ t.routeStops[j]? = some rj ∧ ri.route = rj.route

/-- The route-stop belongs to the route. -/
def On (t : Timetable α) (i r : Nat) : Prop := ∃ rs, t.routeStops[i]? = some rs ∧ rs.route = r

/-- The trip is one of the route of the route-stop. -/
def Serves (t : Timetable α) (trip i : Nat) : Prop :=
  ∃ rs row, t.routeStops[i]? = some rs ∧ t.routes[rs.route]? = some row ∧
    row.trips.start ≤ trip ∧ trip < row.trips.stop

/-- The footpath leads from the stop of the first route-stop to that of the
    second. -/
def Leads (t : Timetable α) (f : Footpath α) (i j : Nat) : Prop :=
  f ∈ t.footpaths ∧ t.stopOf? i = some f.origin ∧ t.stopOf? j = some f.target

theorem ahead_iff (t : Timetable α) (i j : Nat) : t.Ahead i j ↔ i < j ∧
    (t.routeStops[i]?.any fun ri => t.routeStops[j]?.any fun rj => ri.route == rj.route) := by
  unfold Ahead
  simp only [Option.any_eq_true, beq_iff_eq, exists_and_left]

theorem serves_iff (t : Timetable α) (trip i : Nat) : t.Serves trip i ↔
    t.routeStops[i]?.any fun rs => t.routes[rs.route]?.any fun row =>
      decide (row.trips.start ≤ trip ∧ trip < row.trips.stop) := by
  unfold Serves
  simp only [Option.any_eq_true, decide_eq_true_eq, exists_and_left]

instance (t : Timetable α) (i j : Nat) : Decidable (t.Ahead i j) :=
  decidable_of_iff _ (t.ahead_iff i j).symm

instance (t : Timetable α) (trip i : Nat) : Decidable (t.Serves trip i) :=
  decidable_of_iff _ (t.serves_iff trip i).symm

theorem stopOf?_eq_some_iff (t : Timetable α) (i s : Nat) :
    t.stopOf? i = some s ↔ ∃ rs, t.routeStops[i]? = some rs ∧ rs.stop = s := by
  unfold stopOf?
  rw [Option.map_eq_some_iff]

theorem routeOf?_eq {t : Timetable α} {i : Nat} {rs : RouteStop α} {row : Route}
    (hrs : t.routeStops[i]? = some rs) (hrow : t.routes[rs.route]? = some row) :
    t.routeOf? i = some row := by
  unfold routeOf?
  rw [hrs, Option.bind_eq_bind, Option.bind_some, hrow]

theorem modeOf?_eq {t : Timetable α} {i : Nat} {rs : RouteStop α} {row : Route}
    (hrs : t.routeStops[i]? = some rs) (hrow : t.routes[rs.route]? = some row) :
    t.modeOf? i = some row.mode := by
  unfold modeOf?
  rw [routeOf?_eq hrs hrow, Option.map_some]

theorem Ahead.trans {t : Timetable α} {i j k : Nat} (h1 : t.Ahead i j) (h2 : t.Ahead j k) :
    t.Ahead i k := by
  rcases h1 with ⟨hij, ri, rj, hi, hj, hr⟩
  rcases h2 with ⟨hjk, rj', rk, hj', hk, hr'⟩
  rw [hj, Option.some.injEq] at hj'
  subst hj'
  exact ⟨Nat.lt_trans hij hjk, ri, rk, hi, hk, hr.trans hr'⟩

-- Route-stops of one route have the same route.
theorem Ahead.routeOf?_eq {t : Timetable α} {i j : Nat} (h : t.Ahead i j) :
    t.routeOf? i = t.routeOf? j := by
  rcases h with ⟨-, ri, rj, hi, hj, heq⟩
  unfold routeOf?
  simp only [hi, hj, heq, Option.bind_eq_bind, Option.bind_some]

theorem Ahead.modeOf?_eq {t : Timetable α} {i j : Nat} (h : t.Ahead i j) :
    t.modeOf? i = t.modeOf? j := by
  unfold modeOf?
  rw [h.routeOf?_eq]

theorem On.unique {t : Timetable α} {i r r' : Nat} (h : t.On i r) (h' : t.On i r') : r = r' := by
  rcases h with ⟨rs, hi, rfl⟩
  rcases h' with ⟨rs', hi', rfl⟩
  rw [hi, Option.some.injEq] at hi'
  rw [hi']

-- A route-stop is on the route of any that is ahead.
theorem Ahead.on_iff {t : Timetable α} {i j : Nat} (h : t.Ahead i j) (r : Nat) :
    t.On i r ↔ t.On j r := by
  rcases h with ⟨-, ri, rj, hi, hj, heq⟩
  constructor
  · intro h
    exact ⟨rj, hj, heq.symm.trans (On.unique ⟨ri, hi, rfl⟩ h)⟩
  · intro h
    exact ⟨ri, hi, heq.trans (On.unique ⟨rj, hj, rfl⟩ h)⟩

-- A trip that serves a route-stop serves all that are ahead.
theorem Serves.ahead {t : Timetable α} {d i j : Nat} (h : t.Serves d i) (ha : t.Ahead i j) :
    t.Serves d j := by
  rcases h with ⟨rs, row, hi, hrow, hd⟩
  rcases ha with ⟨-, ri, rj, hi', hj, hr⟩
  rw [hi, Option.some.injEq] at hi'
  subst hi'
  exact ⟨rj, row, hj, by rw [← hr]; exact hrow, hd⟩

-- In a table along the trips, what belongs to a trip of a route is found in the slice
-- of the route where the trip stands, counted from the first one.
theorem Serves.getElem?_slice {t : Timetable α} {d i : Nat} (h : t.Serves d i) {rs : RouteStop α}
    {row : Route} {l : List α} (hrs : t.routeStops[i]? = some rs)
    (hrow : t.routes[rs.route]? = some row) (hl : row.trips.slice? t.tripTimes = some l) :
    row.trips.start ≤ d ∧ l[d - row.trips.start]? = t.tripTimes[d]? := by
  rcases h with ⟨rs', row', hrs', hrow', hlo, hhi⟩
  rw [hrs, Option.some.injEq] at hrs'
  subst hrs'
  rw [hrow, Option.some.injEq] at hrow'
  subst hrow'
  have hlen := Span.length_slice? hl
  have hget := (Span.getElem?_slice? hl (d - row.trips.start) (by omega)).1
  rw [show row.trips.start + (d - row.trips.start) = d by omega] at hget
  exact ⟨hlo, hget.symm⟩

namespace WellFormed

variable {t : Timetable α}

theorem exists_route (h : t.WellFormed) {i : Nat} (hi : i < t.routeStops.size) :
    ∃ rs row, t.routeStops[i]? = some rs ∧ t.routes[rs.route]? = some row :=
  ⟨_, _, Array.getElem?_eq_getElem hi,
    Array.getElem?_eq_getElem (h.route_lt i _ (Array.getElem?_eq_getElem hi))⟩

theorem exists_stop (h : t.WellFormed) {i : Nat} (hi : i < t.routeStops.size) :
    ∃ s stop, t.stopOf? i = some s ∧ t.stops[s]? = some stop := by
  rcases h.exists_route hi with ⟨rs, -, hrs, -⟩
  exact ⟨rs.stop, _, (stopOf?_eq_some_iff t i _).mpr ⟨rs, hrs, rfl⟩,
    Array.getElem?_eq_getElem (h.stop_lt i rs hrs)⟩

theorem exists_mode (h : t.WellFormed) {i : Nat} (hi : i < t.routeStops.size) :
    ∃ mode, t.modeOf? i = some mode := by
  rcases h.exists_route hi with ⟨rs, row, hrs, hrow⟩
  exact ⟨row.mode, modeOf?_eq hrs hrow⟩

-- A look-up of the route-stops at a stop finds all of them.
theorem mem_routeStopsAt?_iff (h : t.WellFormed) {s : Nat} {l : List Nat}
    (hl : t.routeStopsAt? s = some l) (i : Nat) : i ∈ l ↔ t.stopOf? i = some s := by
  rcases h.routeStopsAt s (h.routeStopsAt_lt s l hl) with ⟨l', hl', hmem⟩
  rw [hl, Option.some.injEq] at hl'
  subst hl'
  exact hmem i

-- The same if nothing is listed for stops that do not exist.
theorem mem_getD_routeStopsAt?_iff (h : t.WellFormed) (s i : Nat) :
    i ∈ (t.routeStopsAt? s).getD [] ↔ t.stopOf? i = some s := by
  cases hl : t.routeStopsAt? s with
  | some l => exact h.mem_routeStopsAt?_iff hl i
  | none =>
      refine ⟨fun hi => absurd hi List.not_mem_nil, fun hi => ?_⟩
      rcases (stopOf?_eq_some_iff t i s).mp hi with ⟨rs, hrs, rfl⟩
      rcases h.routeStopsAt rs.stop (h.stop_lt i rs hrs) with ⟨l, hl', -⟩
      rw [hl] at hl'
      exact absurd hl' (by simp only [reduceCtorEq, not_false_eq_true])

-- A look-up of the footpaths from the stop of a route-stop finds all of these.
theorem mem_footpathsFrom?_iff (h : t.WellFormed) {i s : Nat} {l : List (Footpath α)}
    (hs : t.stopOf? i = some s) (hl : t.footpathsFrom? s = some l) (f : Footpath α) :
    f ∈ l ↔ f ∈ t.footpaths ∧ f.origin = s := by
  rcases (stopOf?_eq_some_iff t i s).mp hs with ⟨rs, hrs, rfl⟩
  rcases h.footpathsFrom rs.stop (h.stop_lt i rs hrs) with ⟨l', hl', hmem⟩
  rw [hl, Option.some.injEq] at hl'
  subst hl'
  exact hmem f

theorem exists_on (h : t.WellFormed) {i : Nat} (hi : i < t.routeStops.size) :
    ∃ r row, t.On i r ∧ t.routes[r]? = some row := by
  rcases h.exists_route hi with ⟨rs, row, hrs, hrow⟩
  exact ⟨rs.route, row, ⟨rs, hrs, rfl⟩, hrow⟩

-- The span of a route holds what is on it.
theorem on_iff (h : t.WellFormed) {r : Nat} {row : Route} (hr : t.routes[r]? = some row) (i : Nat) :
    t.On i r ↔ row.routeStops.start ≤ i ∧ i < row.routeStops.stop := by
  constructor
  · rintro ⟨rs, hi, heq⟩
    exact (h.route_iff i r rs row hi hr).mp heq
  · intro hi
    rcases h.exists_route (Nat.lt_of_lt_of_le hi.2 (h.routeStops_span r row hr).2) with
      ⟨rs, -, hrs, -⟩
    exact ⟨rs, hrs, (h.route_iff i r rs row hrs hr).mpr hi⟩

theorem lt_size_of_span (h : t.WellFormed) {r : Nat} {row : Route} (hr : t.routes[r]? = some row)
    {i : Nat} (hi : i < row.routeStops.stop) : i < t.routeStops.size :=
  Nat.lt_of_lt_of_le hi (h.routeStops_span r row hr).2

/-- Within the span of a route, being ahead is being later in the table. -/
theorem ahead_iff_span (h : t.WellFormed) {r : Nat} {row : Route} (hr : t.routes[r]? = some row)
    {i : Nat} (hlo : row.routeStops.start ≤ i) (hhi : i < row.routeStops.stop) (j : Nat) :
    t.Ahead i j ↔ i < j ∧ j < row.routeStops.stop := by
  rcases h.exists_route (h.lt_size_of_span hr hhi) with ⟨ri, rowi, hri, -⟩
  have hroute : ri.route = r := (h.route_iff i r ri row hri hr).mpr ⟨hlo, hhi⟩
  constructor
  · rintro ⟨hij, ri', rj, hri', hrj, heq⟩
    rw [hri, Option.some.injEq] at hri'
    subst hri'
    refine ⟨hij, ((h.route_iff j r rj row hrj hr).mp ?_).2⟩
    rw [← heq, hroute]
  · rintro ⟨hij, hj⟩
    rcases h.exists_route (h.lt_size_of_span hr hj) with ⟨rj, rowj, hrj, -⟩
    have hroutej : rj.route = r :=
      (h.route_iff j r rj row hrj hr).mpr ⟨Nat.le_trans hlo (Nat.le_of_lt hij), hj⟩
    exact ⟨hij, ri, rj, hri, hrj, by rw [hroute, hroutej]⟩

theorem serves_lt (h : t.WellFormed) {d i : Nat} (hd : t.Serves d i) : d < t.trips.size := by
  rcases hd with ⟨rs, row, -, hrow, -, hhi⟩
  exact Nat.lt_of_lt_of_le hhi (h.trips_span _ row hrow).2

theorem exists_time (h : t.WellFormed) {d i : Nat} (hd : t.Serves d i) :
    ∃ time, t.tripTimes[d]? = some time :=
  ⟨_, Array.getElem?_eq_getElem (h.tripTimes_size ▸ h.serves_lt hd)⟩

end WellFormed

theorem Serves.lt_size {t : Timetable α} {d i : Nat} (h : t.Serves d i) :
    i < t.routeStops.size := by
  rcases h with ⟨rs, -, hi, -⟩
  exact (Array.getElem?_eq_some_iff.mp hi).1

section Times

variable [Scalar α] {t : Timetable α}

theorem arrival?_eq_some_iff (t : Timetable α) (d i : Nat) (a : α) :
    t.arrival? d i = some a ↔
      ∃ time rs, t.tripTimes[d]? = some time ∧ t.routeStops[i]? = some rs ∧
        time + rs.arrivalOffset = a := by
  unfold arrival?
  simp only [Option.bind_eq_bind, Option.bind_eq_some_iff, Option.pure_def, Option.some.injEq,
    exists_and_left]

theorem departure?_eq_some_iff (t : Timetable α) (d i : Nat) (a : α) :
    t.departure? d i = some a ↔
      ∃ time rs, t.tripTimes[d]? = some time ∧ t.routeStops[i]? = some rs ∧
        time + rs.departureOffset = a := by
  unfold departure?
  simp only [Option.bind_eq_bind, Option.bind_eq_some_iff, Option.pure_def, Option.some.injEq,
    exists_and_left]

theorem Serves.exists_arrival (h : t.WellFormed) {d i : Nat} (hd : t.Serves d i) :
    ∃ a, t.arrival? d i = some a := by
  rcases h.exists_time hd with ⟨time, htime⟩
  exact ⟨_, (arrival?_eq_some_iff t d i _).mpr ⟨time, _, htime,
    Array.getElem?_eq_getElem hd.lt_size, rfl⟩⟩

theorem Serves.exists_departure (h : t.WellFormed) {d i : Nat} (hd : t.Serves d i) :
    ∃ a, t.departure? d i = some a := by
  rcases h.exists_time hd with ⟨time, htime⟩
  exact ⟨_, (departure?_eq_some_iff t d i _).mpr ⟨time, _, htime,
    Array.getElem?_eq_getElem hd.lt_size, rfl⟩⟩

theorem WellFormed.nextTrip?_exists (h : t.WellFormed) {i : Nat} (hi : i < t.routeStops.size)
    (T : α) : ∃ r, t.nextTrip? i T = some r := by
  rcases h.exists_route hi with ⟨rs, row, hrs, hrow⟩
  have hspan := h.trips_span _ row hrow
  rw [← h.tripTimes_size] at hspan
  rcases Span.slice?_exists hspan with ⟨l, hl⟩
  unfold nextTrip?
  simp only [Option.bind_eq_bind, hrs, Option.bind_some, hrow, hl, Option.pure_def,
    Option.some.injEq, exists_eq']

-- The times that are looked through are those of the trips that serve the route-stop,
-- and looking for a vehicle is looking for the first one that is not too early.
theorem nextTrip?_eq_some {i : Nat} {T : α} {r : Option Nat} (h : t.nextTrip? i T = some r) :
    ∃ rs row l, t.routeStops[i]? = some rs ∧ t.routes[rs.route]? = some row ∧
      row.trips.slice? t.tripTimes = some l ∧
      r = (l.findIdx? fun time => !decide (time < T - rs.departureOffset)).map
        (row.trips.start + ·) := by
  unfold nextTrip? at h
  simp only [Option.bind_eq_bind, Option.bind_eq_some_iff, Option.pure_def,
    Option.some.injEq] at h
  rcases h with ⟨rs, hrs, row, hrow, l, hl, hr⟩
  exact ⟨rs, row, l, hrs, hrow, hl, hr.symm⟩

/-- The vehicle found is one of the route that is not too early, and every
    earlier one is. -/
theorem nextTrip?_some {i d : Nat} {T : α} (h : t.nextTrip? i T = some (some d)) :
    t.Serves d i ∧ ∃ rs time, t.routeStops[i]? = some rs ∧ t.tripTimes[d]? = some time ∧
      ¬ time < T - rs.departureOffset ∧
      ∀ d' time', t.Serves d' i → d' < d → t.tripTimes[d']? = some time' →
        time' < T - rs.departureOffset := by
  rcases nextTrip?_eq_some h with ⟨rs, row, l, hrs, hrow, hl, hr⟩
  rcases Option.map_eq_some_iff.mp hr.symm with ⟨k, hk, hd⟩
  rcases List.findIdx?_eq_some_iff_getElem.mp hk with ⟨hlt, hp, hbefore⟩
  have hrowd := Span.getElem?_slice? hl k hlt
  refine ⟨⟨rs, row, hrs, hrow, by omega, by omega⟩, rs, l[k], hrs, ?_, ?_, ?_⟩
  · rw [← hd, hrowd.1, List.getElem?_eq_getElem hlt]
  · simpa only [Bool.not_eq_true', decide_eq_false_iff_not] using hp
  · intro d' time' hd' hlt' htime'
    rcases hd'.getElem?_slice hrs hrow hl with ⟨hlo, hslice⟩
    rw [htime'] at hslice
    rcases List.getElem?_eq_some_iff.mp hslice with ⟨hj, hget⟩
    -- The earlier vehicle was looked at and passed over.
    have hearly := hbefore (d' - row.trips.start) (by omega)
    rw [hget] at hearly
    simpa only [Bool.not_eq_true', decide_eq_false_iff_not, not_not] using hearly

/-- If no vehicle is found, all of the route are too early. -/
theorem nextTrip?_none {i : Nat} {T : α} (h : t.nextTrip? i T = some none) {d : Nat}
    (hd : t.Serves d i) {rs : RouteStop α} {time : α} (hi : t.routeStops[i]? = some rs)
    (htime : t.tripTimes[d]? = some time) : time < T - rs.departureOffset := by
  rcases nextTrip?_eq_some h with ⟨rs', row, l, hrs, hrow, hl, hr⟩
  rw [hi, Option.some.injEq] at hrs
  subst hrs
  have hall := List.findIdx?_eq_none_iff.mp (Option.map_eq_none_iff.mp hr.symm)
  have hslice := (hd.getElem?_slice hi hrow hl).2
  rw [htime] at hslice
  have hearly := hall time (List.mem_of_getElem? hslice)
  simpa only [Bool.not_eq_false', decide_eq_true_eq] using hearly

end Times

end Timetable

end Journey
