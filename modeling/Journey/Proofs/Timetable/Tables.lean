import Journey.Timetable.Assembly
import Journey.Proofs.Span

/-!
# Writing Tables Down

What is in the tables when all routes have been written down.

The tables grow together: a visit is added to the table of route-stops and entered at
its stop, and a route is added with the spans of what its visits and trips have added.
Positions are never computed but taken from how large a table is at the moment. So what
has to be known of the loops is known of each step: the tables are those of the first
routes of the draft, one more after each step. At the end they are grouped tables, with
one group for each route, and the spans of the routes lie end to end.

## Main definitions

* `Draft.routeStopGroups`, `Draft.tripGroups`: The route-stops and trips of a draft,
  route by route.
* `Draft.rowOf`, `Draft.routeTable`: The row of a route, and all rows.
* `Draft.routeStopsAt`: The positions of the route-stops at a stop.
* `Draft.Listed`: Every visit is entered at its stop.
* `Draft.Written`: The tables of the first routes of a draft.

## Theorems

* `Draft.Listed.writeCall`: A visit is entered when it is written down.
* `Draft.Written.writeRoute`: The next route has been written down as well.
* `Draft.written_routeTables`: All routes are written down in the end.
* `Draft.getElem?_routeStopTable`: A row of the table of route-stops is a visit of the
  plan of its route.
-/

namespace Journey

namespace Draft

variable {α : Type}

/-- The route-stop for a visit of a route, with its position among those of the route. -/
def routeStopOf (d : Draft α) (route : Nat) (visit : Call α × Nat) : RouteStop α :=
  { route, stop := d.stopIndex visit.1.stop, sequence := visit.2
    arrivalOffset := visit.1.arrivalOffset, departureOffset := visit.1.departureOffset }

/-- The route-stops of a route at a position. -/
def routeStopsOf (d : Draft α) (route : Nat) (plan : RoutePlan α) : List (RouteStop α) :=
  plan.calls.zipIdx.map (d.routeStopOf route)

/-- The route-stops of a draft, route by route. -/
def routeStopGroups (d : Draft α) : List (List (RouteStop α)) :=
  d.routes.toList.zipIdx.map fun (plan, route) => d.routeStopsOf route plan

/-- The trips of a draft, route by route. -/
def tripGroups (d : Draft α) : List (List (Trip α)) := d.routes.toList.map (·.trips)

/-- The row of a route at a position: its spans start after the groups of the routes
    before it. -/
def rowOf (d : Draft α) (r : Nat) (plan : RoutePlan α) : Route :=
  { id := plan.id
    line := plan.line
    mode := plan.mode
    routeStops := ⟨Span.offset d.routeStopGroups r,
      Span.offset d.routeStopGroups r + plan.calls.length⟩
    trips := ⟨Span.offset d.tripGroups r, Span.offset d.tripGroups r + plan.trips.length⟩ }

/-- The rows of the routes. -/
def routeTable (d : Draft α) : List Route :=
  d.routes.toList.zipIdx.map fun (plan, route) => d.rowOf route plan

/-- The positions of the route-stops at a stop. -/
def routeStopsAt (routeStops : List (RouteStop α)) (stop : Nat) : List Nat :=
  (routeStops.zipIdx.filter fun (rs, _) => rs.stop == stop).map Prod.snd

/-- The modes of some routes, in order and without repetitions. -/
def modesOf (plans : List (RoutePlan α)) : List Mode :=
  plans.foldl (fun modes plan => plan.mode.insertSorted modes) []

section Rows

variable (d : Draft α)

theorem getElem?_routeStopGroups (r : Nat) :
    d.routeStopGroups[r]? = d.routes.toList[r]?.map (d.routeStopsOf r) := by
  unfold routeStopGroups
  rw [List.getElem?_map, List.getElem?_zipIdx, Option.map_map, Nat.zero_add]
  rfl

theorem length_routeStopsOf (r : Nat) (plan : RoutePlan α) :
    (d.routeStopsOf r plan).length = plan.calls.length := by
  unfold routeStopsOf
  rw [List.length_map, List.length_zipIdx]

theorem getElem?_routeStopsOf (r : Nat) (plan : RoutePlan α) (k : Nat) :
    (d.routeStopsOf r plan)[k]? = plan.calls[k]?.map fun call => d.routeStopOf r (call, k) := by
  unfold routeStopsOf
  rw [List.getElem?_map, List.getElem?_zipIdx, Option.map_map, Nat.zero_add]
  rfl

/-- The table of routes, row by row. -/
theorem getElem?_routeTable (r : Nat) :
    d.routeTable[r]? = d.routes.toList[r]?.map (d.rowOf r) := by
  unfold routeTable
  rw [List.getElem?_map, List.getElem?_zipIdx, Option.map_map, Nat.zero_add]
  rfl

-- A row of the table of route-stops is a call of the plan of its route.
theorem getElem?_routeStopTable (i : Nat) (rs : RouteStop α)
    (h : d.routeStopGroups.flatten[i]? = some rs) :
    ∃ plan call, d.routes.toList[rs.route]? = some plan ∧
      plan.calls[rs.sequence]? = some call ∧
      i = Span.offset d.routeStopGroups rs.route + rs.sequence ∧
      rs.stop = d.stopIndex call.stop ∧ rs.arrivalOffset = call.arrivalOffset ∧
      rs.departureOffset = call.departureOffset := by
  rcases Span.exists_group _ i (List.getElem?_eq_some_iff.mp h).1 with ⟨r, g, hg, hlo, hhi⟩
  have hrow := Span.getElem?_flatten _ r g hg (i - Span.offset d.routeStopGroups r) (by omega)
  rw [Nat.add_sub_cancel' hlo, h] at hrow
  rw [getElem?_routeStopGroups] at hg
  rcases Option.map_eq_some_iff.mp hg with ⟨plan, hplan, rfl⟩
  rw [getElem?_routeStopsOf] at hrow
  rcases Option.map_eq_some_iff.mp hrow.symm with ⟨call, hcall, rfl⟩
  exact ⟨plan, call, hplan, hcall, (Nat.add_sub_cancel' hlo).symm, rfl, rfl, rfl⟩

theorem mem_routeStopsAt (table : List (RouteStop α)) (s i : Nat) :
    i ∈ routeStopsAt table s ↔ ∃ rs, table[i]? = some rs ∧ rs.stop = s := by
  unfold routeStopsAt
  simp only [List.mem_map, List.mem_filter, Prod.exists, List.mem_zipIdx_iff_getElem?, beq_iff_eq,
    exists_eq_right]

-- The positions of a table are listed in their order.
theorem sorted_routeStopsAt (table : List (RouteStop α)) (s : Nat) :
    (routeStopsAt table s).Pairwise (· < ·) := by
  unfold routeStopsAt
  refine List.Pairwise.sublist (List.filter_sublist.map Prod.snd) ?_
  rw [List.zipIdx_map_snd]
  exact List.pairwise_lt_range'

-- One more row is listed at its stop only, after those before it.
theorem routeStopsAt_concat (table : List (RouteStop α)) (rs : RouteStop α) (s : Nat) :
    routeStopsAt (table ++ [rs]) s
      = routeStopsAt table s ++ if rs.stop = s then [table.length] else [] := by
  unfold routeStopsAt
  rw [List.zipIdx_append, List.filter_append, List.map_append, List.zipIdx_singleton,
    Nat.zero_add]
  by_cases h : rs.stop = s
  · simp only [List.filter_cons, beq_iff_eq, h, if_true, List.filter_nil, List.map_cons,
      List.map_nil]
  · simp only [List.filter_cons, beq_iff_eq, h, if_false, List.filter_nil, List.map_nil]

end Rows

/-- Every visit that has been written down is entered at its stop. -/
structure Listed (stops : Nat) (tables : RouteTables α) : Prop where
  size : tables.routeStopsByStop.size = stops
  entries : ∀ s, s < stops →
    tables.routeStopsByStop[s]? = some (routeStopsAt tables.routeStops.toList s)

theorem Listed.writeCall {n : Nat} {tables : RouteTables α} (h : Listed n tables) (d : Draft α)
    (route : Nat) (visit : Call α × Nat) : Listed n (d.writeCall route tables visit) := by
  have hrow : (d.writeCall route tables visit).routeStops
      = tables.routeStops.push (d.routeStopOf route visit) := rfl
  have hentry : (d.writeCall route tables visit).routeStopsByStop
      = tables.routeStopsByStop.modify (d.routeStopOf route visit).stop
        (· ++ [tables.routeStops.size]) := rfl
  refine ⟨by rw [hentry, Array.size_modify, h.size], fun s hs => ?_⟩
  rw [hrow, hentry, Array.toList_push, routeStopsAt_concat, Array.getElem?_modify, h.entries s hs]
  by_cases hstop : (d.routeStopOf route visit).stop = s
  · rw [if_pos hstop, if_pos hstop, Option.map_some, Array.length_toList]
  · rw [if_neg hstop, if_neg hstop, List.append_nil]

/-- The tables after some visits of a route. -/
structure Visited (d : Draft α) (route : Nat) (visits : List (Call α × Nat))
    (tables tables' : RouteTables α) : Prop where
  routes : tables'.routes = tables.routes
  trips : tables'.trips = tables.trips
  modes : tables'.modes = tables.modes
  routeStops : tables'.routeStops.toList
    = tables.routeStops.toList ++ visits.map (d.routeStopOf route)
  listed : ∀ n, Listed n tables → Listed n tables'

theorem visited_foldl (d : Draft α) (route : Nat) (visits : List (Call α × Nat)) :
    ∀ tables, Visited d route visits tables (visits.foldl (d.writeCall route) tables) := by
  induction visits with
  | nil => exact fun tables => ⟨rfl, rfl, rfl, (List.append_nil _).symm, fun _ h => h⟩
  | cons visit visits ih =>
      intro tables
      have hrest := ih (d.writeCall route tables visit)
      refine ⟨hrest.routes, hrest.trips, hrest.modes, hrest.routeStops.trans ?_,
        fun n h => hrest.listed n (h.writeCall d route visit)⟩
      have hrow : (d.writeCall route tables visit).routeStops
          = tables.routeStops.push (d.routeStopOf route visit) := rfl
      rw [hrow, Array.toList_push, List.append_assoc, List.map_cons, List.singleton_append]

/-- What writing a route down adds to the tables. -/
structure Added (d : Draft α) (plan : RoutePlan α) (tables tables' : RouteTables α) : Prop where
  /-- The spans of the route are what it adds. -/
  routes : tables'.routes = tables.routes.push
    { id := plan.id, line := plan.line, mode := plan.mode
      routeStops := ⟨tables.routeStops.size, tables'.routeStops.size⟩
      trips := ⟨tables.trips.size, tables'.trips.size⟩ }
  routeStops : tables'.routeStops.toList
    = tables.routeStops.toList ++ d.routeStopsOf tables.routes.size plan
  trips : tables'.trips.toList = tables.trips.toList ++ plan.trips
  modes : tables'.modes = plan.mode.insertSorted tables.modes
  listed : ∀ n, Listed n tables → Listed n tables'

theorem added_writeRoute (d : Draft α) (plan : RoutePlan α) (tables : RouteTables α) :
    Added d plan tables (d.writeRoute tables plan) := by
  have hvisited := d.visited_foldl tables.routes.size plan.calls.zipIdx tables
  unfold Draft.writeRoute
  exact
    { routes := by simp only [hvisited.routes, hvisited.trips]
      routeStops := hvisited.routeStops
      trips := by simp only [hvisited.trips, Array.toList_appendList]
      modes := by simp only [hvisited.modes]
      listed := fun n h => ⟨(hvisited.listed n h).size, (hvisited.listed n h).entries⟩ }

theorem Added.sizes {d : Draft α} {plan : RoutePlan α} {tables tables' : RouteTables α}
    (h : Added d plan tables tables') :
    tables'.routeStops.size = tables.routeStops.size + plan.calls.length ∧
      tables'.trips.size = tables.trips.size + plan.trips.length := by
  constructor
  · rw [← Array.length_toList, h.routeStops, List.length_append, Array.length_toList,
      length_routeStopsOf]
  · rw [← Array.length_toList, h.trips, List.length_append, Array.length_toList]

/-- The tables of the first routes of a draft. -/
structure Written (d : Draft α) (n : Nat) (tables : RouteTables α) : Prop where
  routes : tables.routes.toList = d.routeTable.take n
  routeStops : tables.routeStops.toList = (d.routeStopGroups.take n).flatten
  trips : tables.trips.toList = (d.tripGroups.take n).flatten
  modes : tables.modes = modesOf (d.routes.toList.take n)
  /-- The spans lie end to end. -/
  routeStop_spans :
    Span.Tile 0 (tables.routes.toList.map (·.routeStops)) tables.routeStops.size
  trip_spans : Span.Tile 0 (tables.routes.toList.map (·.trips)) tables.trips.size
  listed : Listed d.stops.size tables

-- How large the tables are is where the spans of the next route start.
theorem Written.sizes {d : Draft α} {n : Nat} {tables : RouteTables α} (h : Written d n tables)
    (hn : n ≤ d.routes.toList.length) : tables.routes.size = n ∧
      tables.routeStops.size = Span.offset d.routeStopGroups n ∧
      tables.trips.size = Span.offset d.tripGroups n := by
  refine ⟨?_, ?_, ?_⟩
  · rw [← Array.length_toList, h.routes, List.length_take, routeTable, List.length_map,
      List.length_zipIdx, Nat.min_eq_left hn]
  · rw [← Array.length_toList, h.routeStops, Span.offset]
  · rw [← Array.length_toList, h.trips, Span.offset]

/-- The next route has been written down as well. -/
theorem Written.writeRoute {d : Draft α} {n : Nat} {tables : RouteTables α}
    (h : Written d n tables) {plan : RoutePlan α} (hplan : d.routes.toList[n]? = some plan) :
    Written d (n + 1) (d.writeRoute tables plan) := by
  rcases h.sizes (Nat.le_of_lt (List.getElem?_eq_some_iff.mp hplan).1) with
    ⟨hroute, hrouteStops, htrips⟩
  have hadded := d.added_writeRoute plan tables
  rcases hadded.sizes with ⟨hrouteStops', htrips'⟩
  refine
    { routes := ?_
      routeStops := ?_
      trips := ?_
      modes := ?_
      routeStop_spans := ?_
      trip_spans := ?_
      listed := hadded.listed _ h.listed }
  · rw [hadded.routes, Array.toList_push, h.routes, List.take_add_one, getElem?_routeTable, hplan,
      Option.map_some, Option.toList_some, hrouteStops', htrips', hrouteStops, htrips, rowOf]
  · rw [hadded.routeStops, h.routeStops, hroute, List.take_add_one, getElem?_routeStopGroups,
      hplan, Option.map_some, Option.toList_some, List.flatten_append, List.flatten_singleton]
  · rw [hadded.trips, h.trips, List.take_add_one, tripGroups, List.getElem?_map, hplan,
      Option.map_some, Option.toList_some, List.flatten_append, List.flatten_singleton]
  · rw [hadded.modes, h.modes, List.take_add_one, hplan, Option.toList_some, modesOf, modesOf,
      List.foldl_append, List.foldl_cons, List.foldl_nil]
  · rw [hadded.routes, Array.toList_push, List.map_append, List.map_singleton]
    exact h.routeStop_spans.concat (hrouteStops' ▸ Nat.le_add_right _ _)
  · rw [hadded.routes, Array.toList_push, List.map_append, List.map_singleton]
    exact h.trip_spans.concat (htrips' ▸ Nat.le_add_right _ _)

/-- All routes are written down in the end. -/
theorem written_routeTables (d : Draft α) : Written d d.routes.toList.length d.routeTables := by
  have hrun : ∀ (plans : List (RoutePlan α)) (n : Nat) (tables : RouteTables α),
      d.routes.toList.drop n = plans → Written d n tables →
      Written d (n + plans.length) (plans.foldl d.writeRoute tables) := by
    intro plans
    induction plans with
    | nil => exact fun n tables _ h => h
    | cons plan plans ih =>
        intro n tables hdrop h
        have hplan : d.routes.toList[n]? = some plan := by
          rw [← List.head?_drop, hdrop, List.head?_cons]
        have hrest : d.routes.toList.drop (n + 1) = plans := by
          rw [← List.tail_drop, hdrop, List.tail_cons]
        have hwritten := ih (n + 1) _ hrest (h.writeRoute hplan)
        rwa [List.length_cons, Nat.add_comm plans.length, ← Nat.add_assoc]
  have hempty : Written d 0
      { routes := #[], routeStops := #[], trips := #[], modes := []
        routeStopsByStop := Array.replicate d.stops.size [] } :=
    { routes := rfl
      routeStops := rfl
      trips := rfl
      modes := rfl
      routeStop_spans := Span.Tile.nil 0
      trip_spans := Span.Tile.nil 0
      listed := ⟨Array.size_replicate, fun s hs => by
        rw [Array.getElem?_replicate, if_pos hs]
        rfl⟩ }
  have hwritten := hrun d.routes.toList 0 _ List.drop_zero hempty
  rwa [Nat.zero_add] at hwritten

theorem routes_routeTables (d : Draft α) : d.routeTables.routes.toList = d.routeTable := by
  have hlen : d.routeTable.length = d.routes.toList.length := by
    rw [routeTable, List.length_map, List.length_zipIdx]
  rw [d.written_routeTables.routes, ← hlen, List.take_length]

theorem routeStops_routeTables (d : Draft α) :
    d.routeTables.routeStops.toList = d.routeStopGroups.flatten := by
  have hlen : d.routeStopGroups.length = d.routes.toList.length := by
    rw [routeStopGroups, List.length_map, List.length_zipIdx]
  rw [d.written_routeTables.routeStops, ← hlen, List.take_length]

theorem trips_routeTables (d : Draft α) :
    d.routeTables.trips.toList = d.tripGroups.flatten := by
  have hlen : d.tripGroups.length = d.routes.toList.length := by
    rw [tripGroups, List.length_map]
  rw [d.written_routeTables.trips, ← hlen, List.take_length]

theorem modes_routeTables (d : Draft α) : d.routeTables.modes = modesOf d.routes.toList := by
  rw [d.written_routeTables.modes, List.take_length]

end Draft

end Journey
