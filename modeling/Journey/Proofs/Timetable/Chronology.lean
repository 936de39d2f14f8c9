import Journey.Proofs.Exact
import Journey.Proofs.Timetable.Assembly

/-!
# The Order of Time in a Timetable

What the times of vehicles have to do with positions.

In exact arithmetic, comparing positions compares times: a trip that comes
later in the table is a later vehicle, and a vehicle gets to a route-stop ahead
no earlier than it leaves the one behind. `Chronological` states this on the
rows of the tables, and everything after it is said in the words a traveller
uses: when the vehicle of a trip arrives and when it leaves.

The vehicle that a search boards at a route-stop is the first one to leave at
the given time or later. `nextTrip?_le` is the half of this that optimality
needs: whatever vehicle can still be caught, the one found is no later.

## Main definitions

* `Timetable.Chronological`: Positions along routes and among trips are in the
  order of time.

## Theorems

* `Timetable.Chronological.arrival_le_departure`: A vehicle arrives before it
  leaves.
* `Timetable.Chronological.departure_le_arrival`: A vehicle leaves before it
  arrives further ahead.
* `Timetable.Chronological.arrival_mono`: A later trip arrives later.
* `Timetable.le_departure_of_nextTrip?`: The vehicle found has not left yet.
* `Timetable.nextTrip?_le`: No vehicle that can be caught is earlier than the
  one found.
* `Draft.chronological_of_build`: The times of built timetables are in order.
* `Draft.footpath_duration_nonneg`: No footpath of a built timetable takes
  negative time.
-/

namespace Journey

namespace Timetable

variable {K : Type} [Field K] [LinearOrder K]

/-- Positions along routes and among trips are in the order of time. -/
structure Chronological (t : Timetable K) : Prop where
  /-- The trips of a route leave one after the other. -/
  trips_lt : ∀ (r : Nat) (row : Route) (a b : Nat) (ta tb : K), t.routes[r]? = some row →
    row.trips.start ≤ a → a < b → b < row.trips.stop → t.tripTimes[a]? = some ta →
    t.tripTimes[b]? = some tb → ta < tb
  /-- No vehicle leaves before it has arrived. -/
  dwell : ∀ (i : Nat) (rs : RouteStop K), t.routeStops[i]? = some rs →
    rs.arrivalOffset ≤ rs.departureOffset
  /-- No vehicle arrives before it has left the route-stops behind. -/
  onward : ∀ (i j : Nat) (ri rj : RouteStop K), t.Ahead i j → t.routeStops[i]? = some ri →
    t.routeStops[j]? = some rj → ri.departureOffset ≤ rj.arrivalOffset

variable [IsStrictOrderedRing K] {t : Timetable K}

namespace Chronological

theorem arrival_le_departure (h : t.Chronological) {d i : Nat} {a b : K}
    (ha : t.arrival? d i = some a) (hb : t.departure? d i = some b) : a ≤ b := by
  rcases (arrival?_eq_some_iff t d i a).mp ha with ⟨time, rs, ht, hr, rfl⟩
  rcases (departure?_eq_some_iff t d i b).mp hb with ⟨time', rs', ht', hr', rfl⟩
  rw [ht, Option.some.injEq] at ht'
  rw [hr, Option.some.injEq] at hr'
  subst ht' hr'
  exact add_le_add_right (h.dwell i rs hr) _

theorem departure_le_arrival (h : t.Chronological) {d i j : Nat} {a b : K} (hij : t.Ahead i j)
    (ha : t.departure? d i = some a) (hb : t.arrival? d j = some b) : a ≤ b := by
  rcases (departure?_eq_some_iff t d i a).mp ha with ⟨time, rs, ht, hr, rfl⟩
  rcases (arrival?_eq_some_iff t d j b).mp hb with ⟨time', rs', ht', hr', rfl⟩
  rw [ht, Option.some.injEq] at ht'
  subst ht'
  exact add_le_add_right (h.onward i j rs rs' hij hr hr') _

theorem arrival_le_arrival (h : t.Chronological) (hw : t.WellFormed) {d i j : Nat} {a b : K}
    (hd : t.Serves d i) (hij : t.Ahead i j) (ha : t.arrival? d i = some a)
    (hb : t.arrival? d j = some b) : a ≤ b := by
  rcases hd.exists_departure hw with ⟨c, hc⟩
  exact le_trans (h.arrival_le_departure ha hc) (h.departure_le_arrival hij hc hb)

omit [IsStrictOrderedRing K] in
-- Of two trips of a route, the one with the lower position is earlier.
theorem time_lt (h : t.Chronological) {d d' i : Nat} (hd : t.Serves d i) (hd' : t.Serves d' i)
    (hlt : d < d') {time time' : K} (ht : t.tripTimes[d]? = some time)
    (ht' : t.tripTimes[d']? = some time') : time < time' := by
  rcases hd with ⟨rs, row, hi, hrow, hlo, -⟩
  rcases hd' with ⟨rs', row', hi', hrow', -, hhi'⟩
  rw [hi, Option.some.injEq] at hi'
  subst hi'
  rw [hrow, Option.some.injEq] at hrow'
  subst hrow'
  exact h.trips_lt _ row d d' time time' hrow hlo hlt hhi' ht ht'

theorem arrival_lt (h : t.Chronological) {d d' i : Nat} {a b : K} (hd : t.Serves d i)
    (hd' : t.Serves d' i) (hlt : d < d') (ha : t.arrival? d i = some a)
    (hb : t.arrival? d' i = some b) : a < b := by
  rcases (arrival?_eq_some_iff t d i a).mp ha with ⟨time, rs, ht, hr, rfl⟩
  rcases (arrival?_eq_some_iff t d' i b).mp hb with ⟨time', rs', ht', hr', rfl⟩
  rw [hr, Option.some.injEq] at hr'
  subst hr'
  exact add_lt_add_left (h.time_lt hd hd' hlt ht ht') _

theorem departure_lt (h : t.Chronological) {d d' i : Nat} {a b : K}
    (hd : t.Serves d i) (hd' : t.Serves d' i) (hlt : d < d') (ha : t.departure? d i = some a)
    (hb : t.departure? d' i = some b) : a < b := by
  rcases (departure?_eq_some_iff t d i a).mp ha with ⟨time, rs, ht, hr, rfl⟩
  rcases (departure?_eq_some_iff t d' i b).mp hb with ⟨time', rs', ht', hr', rfl⟩
  rw [hr, Option.some.injEq] at hr'
  subst hr'
  exact add_lt_add_left (h.time_lt hd hd' hlt ht ht') _

theorem arrival_mono (h : t.Chronological) {d d' i : Nat} {a b : K} (hd : t.Serves d i)
    (hd' : t.Serves d' i) (hle : d ≤ d') (ha : t.arrival? d i = some a)
    (hb : t.arrival? d' i = some b) : a ≤ b := by
  rcases Nat.lt_or_eq_of_le hle with hlt | rfl
  · exact le_of_lt (h.arrival_lt hd hd' hlt ha hb)
  · rw [ha, Option.some.injEq] at hb
    exact le_of_eq hb

end Chronological

/-- The vehicle found has not left yet. -/
theorem le_departure_of_nextTrip? {i d : Nat} {T b : K} (h : t.nextTrip? i T = some (some d))
    (hb : t.departure? d i = some b) : T ≤ b := by
  rcases nextTrip?_some h with ⟨-, rs, time, hr, ht, hnot, -⟩
  rcases (departure?_eq_some_iff t d i b).mp hb with ⟨time', rs', ht', hr', rfl⟩
  rw [ht, Option.some.injEq] at ht'
  rw [hr, Option.some.injEq] at hr'
  subst ht' hr'
  exact sub_le_iff_le_add.mp (le_of_not_gt hnot)

/-- No vehicle that can be caught is earlier than the one found, and one is
    found if any can be caught. -/
theorem nextTrip?_le (hw : t.WellFormed) {i d : Nat} {T b : K} (hd : t.Serves d i)
    (hb : t.departure? d i = some b) (hT : T ≤ b) :
    ∃ d', t.nextTrip? i T = some (some d') ∧ d' ≤ d := by
  rcases (departure?_eq_some_iff t d i b).mp hb with ⟨time, rs, ht, hr, rfl⟩
  have hcaught : ¬ time < T - rs.departureOffset := not_lt.mpr (sub_le_iff_le_add.mpr hT)
  rcases hw.nextTrip?_exists hd.lt_size T with ⟨r, hnext⟩
  cases r with
  | none => exact absurd (nextTrip?_none hnext hd hr ht) hcaught
  | some d' =>
      refine ⟨d', hnext, ?_⟩
      -- An earlier vehicle than the one found would have left.
      by_contra hlt
      rcases nextTrip?_some hnext with ⟨hd', rs', -, hr', -, -, hearlier⟩
      rw [hr, Option.some.injEq] at hr'
      subst hr'
      exact hcaught (hearlier d time hd (Nat.lt_of_not_le hlt) ht)

end Timetable

namespace Call

variable {K : Type} [Field K] [LinearOrder K]

-- Consistent visits are in the order of time, whichever two are compared.
theorem sorted_of_firstInconsistent? (calls : List (Call K)) :
    ∀ previous, firstInconsistent? previous calls = none →
      (∀ p ∈ previous, ∀ c ∈ calls, p ≤ c.arrivalOffset) ∧
      (∀ c ∈ calls, c.arrivalOffset ≤ c.departureOffset) ∧
      calls.Pairwise fun a b => a.departureOffset ≤ b.arrivalOffset := by
  induction calls with
  | nil =>
      intro previous _
      exact ⟨fun _ _ c hc => absurd hc List.not_mem_nil, fun c hc => absurd hc List.not_mem_nil,
        List.Pairwise.nil⟩
  | cons c rest ih =>
      intro previous h
      unfold firstInconsistent? at h
      by_cases hc : c.isConsistent previous
      · rw [if_pos hc] at h
        rcases le_of_isConsistent hc with ⟨hprev, hdwell⟩
        rcases ih _ (Option.map_eq_none_iff.mp h) with ⟨hlast, hdwells, hpair⟩
        -- All later visits come after this one, because it is the previous one for them.
        have hrest : ∀ c' ∈ rest, c.departureOffset ≤ c'.arrivalOffset := hlast _ rfl
        refine ⟨fun p hp c' hc' => ?_, fun c' hc' => ?_, List.Pairwise.cons hrest hpair⟩
        · rcases List.mem_cons.mp hc' with rfl | hc'
          · exact hprev p hp
          · exact le_trans (hprev p hp) (le_trans hdwell (hrest c' hc'))
        · rcases List.mem_cons.mp hc' with rfl | hc'
          · exact hdwell
          · exact hdwells c' hc'
      · rw [if_neg hc] at h
        exact absurd h (by simp only [reduceCtorEq, not_false_eq_true])

end Call

namespace Trip

variable {K : Type} [Field K] [LinearOrder K]

theorem sorted_of_firstUnsorted? (trips : List (Trip K)) :
    ∀ previous, firstUnsorted? previous trips = none →
      (∀ p ∈ previous, ∀ t ∈ trips, p < t.time) ∧ trips.Pairwise fun a b => a.time < b.time := by
  induction trips with
  | nil =>
      intro previous _
      exact ⟨fun _ _ t ht => absurd ht List.not_mem_nil, List.Pairwise.nil⟩
  | cons t rest ih =>
      intro previous h
      unfold firstUnsorted? at h
      by_cases ht : t.isLater previous
      · rw [if_pos ht] at h
        rcases ih _ (Option.map_eq_none_iff.mp h) with ⟨hlast, hpair⟩
        have hrest : ∀ t' ∈ rest, t.time < t'.time := hlast _ rfl
        refine ⟨fun p hp t' ht' => ?_, List.Pairwise.cons hrest hpair⟩
        have hpt := lt_of_isLater ht p hp
        rcases List.mem_cons.mp ht' with rfl | ht'
        · exact hpt
        · exact lt_trans hpt (hrest t' ht')
      · rw [if_neg ht] at h
        exact absurd h (by simp only [reduceCtorEq, not_false_eq_true])

end Trip

namespace Draft

variable {K : Type} [Field K] [LinearOrder K] [IsStrictOrderedRing K] [Planar K] [MarkerTree K]

omit [IsStrictOrderedRing K] in
/-- The times of built timetables are in order. -/
theorem chronological_of_build {d : Draft K} {t : Timetable K} (h : d.build = .ok t) :
    t.Chronological := by
  rcases build_eq_ok h with ⟨hdefect, rfl⟩
  rcases d.sound_of_defect? hdefect with ⟨hplans, -, -⟩
  have hcalls : ∀ (r : Nat) (plan : RoutePlan K), d.routes.toList[r]? = some plan →
      (∀ c ∈ plan.calls, c.arrivalOffset ≤ c.departureOffset) ∧
      plan.calls.Pairwise fun a b => a.departureOffset ≤ b.arrivalOffset := fun r plan hp =>
    (Call.sorted_of_firstInconsistent? _ none (hplans plan (List.mem_of_getElem? hp)).calls).2
  refine ⟨?_, ?_, ?_⟩
  · intro r row a b ta tb hr hlo hab hhi hta htb
    rcases getElem?_routes_assemble hr with ⟨plan, hplan, rfl⟩
    simp only [rowOf] at hlo hhi
    -- Both are times of trips of the plan of the route, where they are in order.
    rw [getElem?_tripTimes_assemble, d.getElem?_trips_assemble hplan hlo (by omega),
      Option.map_eq_some_iff] at hta
    rw [getElem?_tripTimes_assemble, d.getElem?_trips_assemble hplan (by omega) hhi,
      Option.map_eq_some_iff] at htb
    rcases hta with ⟨first, hfirst, rfl⟩
    rcases htb with ⟨second, hsecond, rfl⟩
    have hpair := (Trip.sorted_of_firstUnsorted? _ none
      (hplans plan (List.mem_of_getElem? hplan)).trips).2
    rcases List.getElem?_eq_some_iff.mp hfirst with ⟨ha, rfl⟩
    rcases List.getElem?_eq_some_iff.mp hsecond with ⟨hb, rfl⟩
    exact List.pairwise_iff_getElem.mp hpair _ _ ha hb (by omega)
  · intro i rs hi
    rcases d.getElem?_routeStopTable i rs (getElem?_routeStops_assemble hi) with
      ⟨plan, call, hplan, hcall, -, -, harr, hdep⟩
    rw [harr, hdep]
    exact (hcalls _ plan hplan).1 call (List.mem_of_getElem? hcall)
  · rintro i j ri rj ⟨hij, ri', rj', hi', hj', hroute⟩ hi hj
    rw [hi, Option.some.injEq] at hi'
    rw [hj, Option.some.injEq] at hj'
    subst hi' hj'
    rcases d.getElem?_routeStopTable i ri (getElem?_routeStops_assemble hi) with
      ⟨plan, call, hplan, hcall, hik, -, -, hdep⟩
    rcases d.getElem?_routeStopTable j rj (getElem?_routeStops_assemble hj) with
      ⟨plan', call', hplan', hcall', hjk, -, harr, -⟩
    -- Both are calls of one plan, so their order in the table is that of the calls.
    rw [hroute] at hplan hik
    rw [hplan, Option.some.injEq] at hplan'
    subst hplan'
    rw [hdep, harr]
    rcases List.getElem?_eq_some_iff.mp hcall with ⟨hk, rfl⟩
    rcases List.getElem?_eq_some_iff.mp hcall' with ⟨hk', rfl⟩
    exact List.pairwise_iff_getElem.mp (hcalls _ plan hplan).2 _ _ hk hk' (by omega)

/-- No footpath of a built timetable takes negative time, as long as no vector
    has a negative length. -/
theorem footpath_duration_nonneg (hlength : ∀ x y : K, 0 ≤ Planar.hypotenuse x y) {d : Draft K}
    {t : Timetable K} (h : d.build = .ok t) (f : Footpath K) (hf : f ∈ t.footpaths) :
    0 ≤ f.duration := by
  rcases build_eq_ok h with ⟨hdefect, rfl⟩
  rcases d.sound_of_defect? hdefect with ⟨-, hfoot, hrule⟩
  rcases footpath_cases (mem_footpaths_assemble hf) with
    ⟨p, hp, rfl⟩ | ⟨s, -, rfl⟩ | ⟨rule, origin, target, stop, other, hr, -, rfl⟩
  · exact (Scalar.isNonnegative_iff _).mp (d.sound_of_footpathDefect? (hfoot p hp)).2
  · exact le_refl _
  · rw [hr, Option.bind_some] at hrule
    rcases FootpathRule.sound_of_defect? hrule with ⟨hspeed, hfactor⟩
    rw [Scalar.isPositive_iff] at hspeed hfactor
    exact div_nonneg (mul_nonneg (hlength _ _) hfactor.le) hspeed.le

end Draft

end Journey
