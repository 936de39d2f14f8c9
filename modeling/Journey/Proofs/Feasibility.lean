import Journey.Proofs.Sample
import Journey.Proofs.Search.Answer

/-!
# Feasible Journeys

When a search that finds nothing means that there is nothing to find.

Each route-stop keeps one label, and the cheaper one stays. But a traveller has
to be in time, and a cheap arrival may be late. So a label that catches the last
vehicle can be lost to one that does not, and a ride can be lost to an arrival
on foot, from which nobody walks on. A feasible journey is therefore found only
if such a loss does no harm on it.

`Robust` says when a change of vehicles is safe from it: whoever could take the
place of the ride before the change leads on to the place after it as well, and
from there a vehicle is caught by everyone who comes on foot. Changes at one
stop lead on by themselves. An arrival by vehicle never does harm, because the
vehicle itself can be caught again.

## Main definitions

* `SearchQuery.Reaches`: The arrivals that a search can know of.
* `SearchQuery.Robust`: A change of vehicles that no other arrival spoils.
* `SearchQuery.Feasible`: There is a journey to the destination.
* `Workspace.Reached`: The rides of journeys are reached.

## Theorems

* `Workspace.Legal.reaches`: Every label is an arrival of the search.
* `Workspace.Settled.covered_change`: A robust change leads on.
* `Workspace.Reached.step`: A round reaches the journeys with one ride more.
* `Engine.InService.exists_itinerary`: A feasible journey is not missed.
-/

namespace Journey

namespace SearchQuery

variable {α : Type} [Scalar α]

/-- The arrivals that a search can know of, either by vehicle or not. In
    contrast to the traveller of `Timetable.Travels`, the search boards the next
    vehicle wherever it is, also where it has just left one. -/
inductive Reaches (q : SearchQuery α) (t : Timetable α) :
    (alighted : Bool) → (routeStop : Nat) → (time : α) → Prop where
  | access {c : Candidate α} {i : Nat} (candidate : c ∈ q.access)
      (stop : t.stopOf? i = some c.stop) : Reaches q t false i (q.departureTime + c.time)
  | ride {b : Bool} {d i j : Nat} {T arrives : α} (before : Reaches q t b i T)
      (next : t.nextTrip? i T = some (some d)) (ahead : t.Ahead i j)
      (arrival : t.arrival? d j = some arrives) : Reaches q t true j arrives
  | walk {i j : Nat} {T : α} {f : Footpath α} (before : Reaches q t true i T)
      (path : t.Leads f i j) : Reaches q t false j (T + f.time q.parameters)

/-- A change of vehicles between two route-stops that no other arrival spoils. -/
structure Robust (q : SearchQuery α) (t : Timetable α) (i j : Nat) : Prop where
  /-- Wherever a walk leads to the first one from, one leads to the second. -/
  walks : ∀ f ∈ t.footpaths, t.stopOf? i = some f.target →
    ∃ f' ∈ t.footpaths, f'.origin = f.origin ∧ t.stopOf? j = some f'.target
  /-- If the journey can begin at the first one, it can begin at the second. -/
  access : ∀ c ∈ q.access, t.stopOf? i = some c.stop →
    ∃ c' ∈ q.access, t.stopOf? j = some c'.stop
  /-- Whoever comes to the second one, but not by vehicle, catches one there. -/
  catches : ∀ T, q.Reaches t false j T → ∃ d, t.nextTrip? j T = some (some d)

/-- There is a journey to the destination with a ride at least, and with as many
    as the search is asked for at most. -/
def Feasible (q : SearchQuery α) (t : Timetable α) (change : Nat → Nat → Prop) : Prop :=
  ∃ n i T c, n ≤ q.maxTransfers + 1 ∧ t.Travels q change n true i T ∧ c ∈ q.egress ∧
    t.stopOf? i = some c.stop

end SearchQuery

namespace Workspace

section

variable {α : Type} [Scalar α] {t : Timetable α} {q : SearchQuery α} {policy : TransferPolicy α}
  {w : Workspace α}

/-- Every label is an arrival of the search. -/
theorem Legal.reaches (h : w.Legal t policy q) : ∀ (id : Nat) (l : Label α),
    w.labels[id]? = some l → q.Reaches t l.isRide l.routeStop l.time := by
  refine h.induction (fun _ l => q.Reaches t l.isRide l.routeStop l.time) fun id l _ hlegal ih => ?_
  cases hlegal with
  | access k c step previous candidate stop time =>
      rw [Label.isRide, step, time]
      exact SearchQuery.Reaches.access (List.mem_of_getElem? candidate) stop
  | ride id' p trip b v enter step previous predecessor ahead next boarding vehicle enters time =>
      rw [Label.isRide, step]
      exact (ih id' p predecessor).ride next ahead time
  | transfer id' p f duration increment fm tm step previous predecessor ride path takes left entered
      price time =>
      have hp := ih id' p predecessor
      rw [ride] at hp
      rw [Label.isRide, step, time, takes]
      exact hp.walk path

end

variable {K : Type} [Field K] [LinearOrder K] {t : Timetable K} {q : SearchQuery K} {price : K}
  {start w w' : Workspace K} {n m : Nat}

-- Nothing is asked of the cost of a ride.
theorem ceiling_top (t : Timetable K) (p : Parameters K) :
    Ceiling t p (fun _ => True) (fun _ _ => ⊤) :=
  ⟨fun _ _ _ _ _ _ _ => le_top, fun _ _ _ _ _ _ => le_top, fun _ _ _ _ _ _ _ _ _ => le_top⟩

/-- The rides of journeys with so many rides are reached. -/
def Reached (t : Timetable K) (q : SearchQuery K) (n : Nat) (w : Workspace K) : Prop :=
  ∀ k i T, k ≤ n → t.Travels q (q.Robust t) k true i T → w.Covered i ⊤

omit [Field K] in
theorem Covered.top {i : Nat} {c : WithTop K} (h : w.Covered i c) : w.Covered i ⊤ :=
  h.mono le_top

/-- A robust change leads on, whatever label the ride before it was lost to. -/
theorem Settled.covered_change {κ : Nat → Nat → WithTop K} (hs : Settled t q price κ start n w)
    (hstart : start.Fits t) (hclean : start.Clean) {f : Footpath K} {i j : Nat}
    (hc : w.Covered i ⊤) (hpath : t.Leads f i j) (hrobust : q.Robust t i j) : w.Covered j ⊤ := by
  rcases hc with ⟨b, hb, -⟩ | ⟨id, l, hl, -⟩
  · exact Or.inl ⟨b, hb, le_top⟩
  · have hi := (hs.run.fits hstart).holds_routeStop hl
    subst hi
    cases hs.run.legal hclean.legal id l hl.2 with
    | access k c step previous candidate stop =>
        rcases hrobust.access c (List.mem_of_getElem? candidate) stop with ⟨c', hc', hstop⟩
        exact (hs.access c' hc' j hstop).top
    | ride id' p trip b v enter step =>
        have hride : l.isRide = true := by rw [Label.isRide, step]; rfl
        exact (hs.walked id l hl.2 hride f j hpath).top
    | transfer id' p g duration increment fm tm step previous predecessor ride path =>
        rcases label_of_extract predecessor with ⟨-, hp⟩
        rcases hrobust.walks g path.1 path.2.2 with ⟨f', hf', horigin, htarget⟩
        have hdirect : t.Leads f' p.routeStop j := ⟨hf', by rw [horigin]; exact path.2.1, htarget⟩
        exact (hs.walked id' p hp ride f' j hdirect).top

variable [IsStrictOrderedRing K]

-- From a route-stop that was reached, a vehicle takes the traveller ahead, if
-- whoever comes there on foot catches one. A ride can go on by its own
-- vehicle.
theorem Settled.covered_ahead (hs : Settled t q price (fun _ _ => ⊤) start n w)
    (hw : t.WellFormed) (hc : t.Chronological) (hstart : start.Fits t) (hclean : start.Clean)
    (hrun : Run t (TransferPolicy.flat price) q w w') (hmade : RidesMade t (fun _ _ => ⊤) w w')
    {i j : Nat} (hcov : w.Covered i ⊤)
    (hcatches : ∀ T, q.Reaches t false i T → ∃ d, t.nextTrip? i T = some (some d))
    (hij : t.Ahead i j) : w'.Covered j ⊤ := by
  have hf := hs.run.fits hstart
  have hlegal := hs.run.legal hclean.legal
  rcases hcov with hbound | ⟨id, l, hl, -⟩
  · exact hrun.covered hf (Or.inl hbound)
  · have hi := hf.holds_routeStop hl
    subst hi
    have hnext : ∃ d, t.nextTrip? l.routeStop l.time = some (some d) := by
      have hreaches := hlegal.reaches id l hl.2
      cases hride : l.isRide with
      | false =>
          rw [hride] at hreaches
          exact hcatches l.time hreaches
      | true =>
          rw [hride] at hreaches
          cases hreaches with
          | ride before next ahead arrival =>
              have hserves := (Timetable.nextTrip?_some next).1.ahead ahead
              rcases hserves.exists_departure hw with ⟨departs, hdeparts⟩
              rcases Timetable.nextTrip?_le hw hserves hdeparts
                (hc.arrival_le_departure arrival hdeparts) with ⟨d, hd, -⟩
              exact ⟨d, hd⟩
    rcases hnext with ⟨d, hd⟩
    exact hmade l.routeStop id l d j hl hd hij

omit [IsStrictOrderedRing K] in
-- Before the first round, access candidates at different stops have not been
-- in each other's way.
theorem Settled.time_eq_of_access {κ : Nat → Nat → WithTop K}
    (hs : Settled t q price κ start 0 w) (hstart : start.Fits t) (hclean : start.Clean)
    (hdistinct : (q.access.map (·.stop)).Nodup) {c : Candidate K} (hc : c ∈ q.access) {i id : Nat}
    {l : Label K} (hi : t.stopOf? i = some c.stop) (hl : w.Holds i id l) :
    l.time = q.departureTime + c.time := by
  have hrs := (hs.run.fits hstart).holds_routeStop hl
  subst hrs
  rcases hs.transfers id l hl.2 with ⟨htransfers, hnoride⟩
  cases hs.run.legal hclean.legal id l hl.2 with
  | access k c' step previous candidate stop time =>
      rw [hi, Option.some.injEq] at stop
      rw [List.inj_on_of_nodup_map hdistinct hc (List.mem_of_getElem? candidate) stop]
      exact time
  | ride id' p trip b v enter step =>
      have hride : l.isRide = true := by rw [Label.isRide, step]; rfl
      exact absurd (hnoride hride) (Nat.not_lt_zero _)
  | transfer id' p f duration increment fm tm step previous predecessor ride path takes left entered
      price time cost transfers =>
      omega

/-- A round reaches the journeys with one ride more. -/
theorem Reached.step (hn : w.Reached t q n) (hw : t.WellFormed) (hc : t.Chronological)
    (hstart : start.Fits t) (hclean : start.Clean) (hdistinct : (q.access.map (·.stop)).Nodup)
    (hs : Settled t q price (fun _ _ => ⊤) start n w)
    (hrun : Run t (TransferPolicy.flat price) q w w')
    (hmade : RidesMade t (fun _ _ => ⊤) w w') : w'.Reached t q (n + 1) := by
  have hf := hs.run.fits hstart
  intro k j T hk htravels
  rcases htravels.exists_ride with
    ⟨m, d, i, T', departs, rfl, before, serves, departure, caught, ahead, arrival⟩
  cases before with
  | @access c _ candidate stop =>
      cases n with
      | zero =>
          -- The label is still that of the candidate, and so it is in time.
          rcases hs.access c candidate i stop with ⟨b, hb, -⟩ | ⟨id, l, hl, -⟩
          · exact hrun.covered hf (Or.inl ⟨b, hb, le_top⟩)
          · have htime := hs.time_eq_of_access hstart hclean hdistinct candidate stop hl
            rcases Timetable.nextTrip?_le hw serves departure (htime ▸ caught) with ⟨d', hd', -⟩
            exact hmade i id l d' j hl hd' ahead
      | succ n => exact hrun.covered hf (hn 1 j T (Nat.le_add_left 1 n) htravels)
  | walk before path robust =>
      have hchange := hs.covered_change hstart hclean (hn m _ _ (by omega) before) path robust
      exact hs.covered_ahead hw hc hstart hclean hrun hmade hchange robust.catches ahead

end Workspace

namespace Engine

variable {K : Type} [Field K] [LinearOrder K] [IsStrictOrderedRing K] [Planar K] [MarkerTree K]
  {t : Timetable K} {q : SearchQuery K} {price : K}

/-- If there is a feasible journey on which no change of vehicles can be
    spoiled, a search finds an itinerary. -/
theorem InService.exists_itinerary (hlength : ∀ x y : K, 0 ≤ Planar.hypotenuse x y) {d : Draft K}
    (hd : d.build = .ok t) {e : Engine K} (he : InService t (TransferPolicy.flat price) e)
    (hprice : 0 ≤ price) (hin : q.Within t) (hp : q.parameters.validate = .ok ())
    (hdistinct : (q.access.map (·.stop)).Nodup) (haccess : ∀ c ∈ q.access, 0 ≤ c.time)
    (hegress : ∀ c ∈ q.egress, 0 ≤ c.time ∧ 0 ≤ c.cost) (h : q.Feasible t (q.Robust t)) :
    ∃ e' it, e.search? q = some (e', some it) := by
  have hw := Draft.wellFormed_of_build hd
  have hq : q.Timely t :=
    SearchQuery.timely_of_build hlength hd haccess fun c hc => (hegress c hc).1
  rcases he.answered hw (TransferPolicy.flat_answers price) hin hq with ⟨e', found, hanswer⟩
  have hf := hanswer.fits
  have hclean := hf.clean_reset
  have hcost : ∀ f ∈ t.footpaths, 0 ≤ f.cost q.parameters price := fun f hfp =>
    Footpath.cost_nonneg (hq.footpaths f hfp) (Parameters.walkCost_nonneg hp) hprice
  have hbefore : ∀ u : Workspace K, u.Reached t q 0 := by
    intro u k i T hk htravels
    rcases htravels.exists_ride with ⟨m, -, -, -, -, rfl, -⟩
    exact absurd hk (Nat.not_succ_le_zero m)
  rcases Workspace.Settled.of_explore? hw hf hcost (Workspace.ceiling_top t q.parameters)
      (fun _ _ _ _ _ => trivial) (fun n u => u.Reached t q n) (fun u _ => hbefore u)
      (fun n m u u' hu _ hrun hmade hn =>
        hn.step hw hq.chronological hf.reset hclean hdistinct hu hrun hmade)
      (fun n u hn => hn) hanswer.explored with ⟨-, hreached⟩
  rcases h with ⟨n, i, T, c, hn, htravels, hc, hstop⟩
  rcases Workspace.ends_of_explore? hw hf hanswer.explored with ⟨hbound, hleaves⟩
  rcases hanswer.le_of_covered hbound (hreached n i T hn htravels) (hleaves c hc i hstop)
    (hegress c hc).2 with ⟨it, rfl, -⟩
  exact ⟨e', it, hanswer.search⟩

end Engine

namespace Sample

section

variable {t : Timetable ℚ} {q : SearchQuery ℚ} {change : Nat → Nat → Prop} {n i : Nat} {T : ℚ}

-- A ride of which everything can be looked up.
theorem travels_ride (h : t.Travels q change n false i T) (d j : Nat) (departs arrives : ℚ)
    (hride : t.Serves d i ∧ t.departure? d i = some departs ∧ T ≤ departs ∧ t.Ahead i j ∧
      t.arrival? d j = some arrives) : t.Travels q change (n + 1) true j arrives := by
  rcases hride with ⟨serves, departure, caught, ahead, arrival⟩
  exact h.ride serves departure caught ahead arrival

-- A walk on a footpath that can be found.
theorem travels_walk (h : t.Travels q change n true i T) (j : Nat) (x : ℚ)
    (hany : t.footpaths.any fun f => decide (t.stopOf? i = some f.origin ∧
      t.stopOf? j = some f.target ∧ f.time q.parameters = x)) (hchange : change i j) :
    t.Travels q change n false j (T + x) := by
  rcases Array.any_eq_true'.mp hany with ⟨f, hf, hleads⟩
  rcases of_decide_eq_true hleads with ⟨horigin, htarget, rfl⟩
  exact h.walk ⟨hf, horigin, htarget⟩ hchange

end

/-- There is a feasible journey, and a new engine finds nothing. -/
structure Misses (d : Draft ℚ) (q : SearchQuery ℚ) : Prop where
  built : d.build = .ok d.assemble
  within : q.Within d.assemble
  validated : q.parameters.validate = .ok ()
  distinct : (q.access.map (·.stop)).Nodup
  nonneg : ∀ c ∈ q.access ++ q.egress, 0 ≤ c.time ∧ 0 ≤ c.cost
  feasible : q.Feasible d.assemble Timetable.anywhere
  nothing : ∃ e', (Engine.new d.assemble (TransferPolicy.flat 0)).search? q = some (e', none)

theorem nothing_of_answer {d : Draft ℚ} {q : SearchQuery ℚ} (h : answer d q = some none) :
    ∃ e', (Engine.new d.assemble (TransferPolicy.flat 0)).search? q = some (e', none) := by
  rcases search?_of_answer h with ⟨e', found, hsearch, hcost⟩
  rw [Option.map_eq_none_iff.mp hcost] at hsearch
  exact ⟨e', hsearch⟩

/-- A quick line and a slow one to where the last vehicle leaves. -/
def quickAndSlow : Draft ℚ :=
  network ["A", "B", "X", "E"]
    [line "quick" [("A", 0), ("X", 10)] [0], line "slow" [("B", 0), ("X", 100)] [0],
      line "last" [("X", 0), ("E", 10)] [50]] []

/-- The access to the quick line is dear, and so its label is lost to one that
    is late. -/
def dearQuick : SearchQuery ℚ := query [candidate 0 1000, candidate 1 0] [candidate 3 0] 1

theorem misses_quick : Misses quickAndSlow dearQuick := by
  refine ⟨build_eq_ok (by decide +kernel), ⟨by decide +kernel, by decide +kernel⟩,
    by decide +kernel, by decide +kernel, by decide +kernel, ?_,
    nothing_of_answer (by decide +kernel)⟩
  have h₀ : quickAndSlow.assemble.Travels dearQuick Timetable.anywhere 0 false 0 (0 + 0) :=
    Timetable.Travels.access (c := candidate 0 1000) (by decide +kernel) (by decide +kernel)
  have h₁ := travels_ride h₀ 0 1 0 10 (by decide +kernel)
  have h₂ := travels_walk h₁ 4 0 (by decide +kernel) trivial
  have h₃ := travels_ride h₂ 2 5 50 60 (by decide +kernel)
  exact ⟨2, 5, 60, candidate 3 0, by decide, h₃, by decide +kernel, by decide +kernel⟩

/-- The journey may also begin where the first vehicle is left. From there
    nobody walks on who has not come by vehicle. -/
def beginHalfway : SearchQuery ℚ := query [candidate 0 0, candidate 1 0] [candidate 3 0] 1

theorem misses_halfway : Misses changeover beginHalfway := by
  refine ⟨build_changeover, ⟨by decide +kernel, by decide +kernel⟩, by decide +kernel,
    by decide +kernel, by decide +kernel, ?_, nothing_of_answer (by decide +kernel)⟩
  have h₀ : changeover.assemble.Travels beginHalfway Timetable.anywhere 0 false 0 (0 + 0) :=
    Timetable.Travels.access (c := candidate 0 0) (by decide +kernel) (by decide +kernel)
  have h₁ := travels_ride h₀ 0 1 0 10 (by decide +kernel)
  have h₂ := travels_walk h₁ 2 0 (by decide +kernel) trivial
  have h₃ := travels_ride h₂ 1 3 50 60 (by decide +kernel)
  exact ⟨2, 3, 60, candidate 3 0, by decide, h₃, by decide +kernel, by decide +kernel⟩

/-- Two ways to a stop, on foot after one ride and by vehicle after another. Only
    the second one leads on. -/
def twoWays : Draft ℚ :=
  network ["A", "Z", "W", "B", "C", "E"]
    [line "z" [("A", 0), ("Z", 10)] [0], line "w" [("A", 0), ("W", 10)] [0],
      line "b" [("W", 0), ("B", 10)] [20], line "e" [("C", 0), ("E", 10)] [50]]
    [("Z", "B", 0), ("B", "C", 0)]

def threeRides : SearchQuery ℚ := query [candidate 0 0] [candidate 5 0] 2

theorem misses_twoWays : Misses twoWays threeRides := by
  refine ⟨build_eq_ok (by decide +kernel), ⟨by decide +kernel, by decide +kernel⟩,
    by decide +kernel, by decide +kernel, by decide +kernel, ?_,
    nothing_of_answer (by decide +kernel)⟩
  have h₀ : twoWays.assemble.Travels threeRides Timetable.anywhere 0 false 2 (0 + 0) :=
    Timetable.Travels.access (c := candidate 0 0) (by decide +kernel) (by decide +kernel)
  have h₁ := travels_ride h₀ 1 3 0 10 (by decide +kernel)
  have h₂ := travels_walk h₁ 4 0 (by decide +kernel) trivial
  have h₃ := travels_ride h₂ 2 5 20 30 (by decide +kernel)
  have h₄ := travels_walk h₃ 6 0 (by decide +kernel) trivial
  have h₅ := travels_ride h₄ 3 7 50 60 (by decide +kernel)
  exact ⟨3, 7, 60, candidate 5 0, by decide, h₅, by decide +kernel, by decide +kernel⟩

-- Nobody spoils the change of vehicles on the trip from the first line to the
-- second: only the first vehicle leads there, and it is in time.
theorem robust_changeover : trip.Robust changeover.assemble 1 2 := by
  refine ⟨by decide +kernel, by decide +kernel, fun T hT => ?_⟩
  have hcaught : T ≤ 50 := by
    cases hT with
    | access candidate stop =>
        exact absurd stop ((by decide +kernel : ∀ c ∈ trip.access,
          changeover.assemble.stopOf? 2 ≠ some c.stop) _ candidate)
    | @walk i _ T f before path =>
        cases before with
        | @ride b d i₀ _ _ _ before next ahead arrival =>
            have hserves := (Timetable.nextTrip?_some next).1
            have hwalk := (by decide +kernel : ∀ i < 4, ∀ f ∈ changeover.assemble.footpaths,
              changeover.assemble.stopOf? i = some f.origin →
              changeover.assemble.stopOf? 2 = some f.target →
              (i = 1 ∨ i = 2) ∧ f.time trip.parameters = 0) i (hserves.ahead ahead).lt_size f
                path.1 path.2.1 path.2.2
            rcases hwalk with ⟨rfl | rfl, htime⟩
            · have hride := (by decide +kernel : ∀ d < 2, changeover.assemble.Serves d 1 →
                changeover.assemble.arrival? d 1 = some 10) d
                  ((Draft.wellFormed_of_build build_changeover).serves_lt hserves)
                  (hserves.ahead ahead)
              rw [arrival, Option.some.injEq] at hride
              rw [hride, htime]
              decide +kernel
            · -- The second line begins there, so no vehicle arrives.
              exact absurd ahead ((by decide +kernel : ∀ i₀ < 4,
                ¬ changeover.assemble.Ahead i₀ 2) i₀ hserves.lt_size)
  rcases Timetable.nextTrip?_le (Draft.wellFormed_of_build build_changeover)
    (by decide +kernel : changeover.assemble.Serves 1 2)
    (by decide +kernel : changeover.assemble.departure? 1 2 = some 50) hcaught with ⟨d, hd, -⟩
  exact ⟨d, hd⟩

theorem feasible_changeover :
    trip.Feasible changeover.assemble (trip.Robust changeover.assemble) := by
  have h₀ : changeover.assemble.Travels trip (trip.Robust changeover.assemble) 0 false 0 (0 + 0) :=
    Timetable.Travels.access (c := candidate 0 0) (by decide +kernel) (by decide +kernel)
  have h₁ := travels_ride h₀ 0 1 0 10 (by decide +kernel)
  have h₂ := travels_walk h₁ 2 0 (by decide +kernel) robust_changeover
  have h₃ := travels_ride h₂ 1 3 50 60 (by decide +kernel)
  exact ⟨2, 3, 60, candidate 3 0, by decide, h₃, by decide +kernel, by decide +kernel⟩

end Sample

namespace Engine

open Sample

/-- A search may find nothing although there is a feasible journey: because a
    label is lost to one that is late, or to an access, or to a walk. -/
theorem InService.feasible_journey_missed :
    Misses quickAndSlow dearQuick ∧ Misses changeover beginHalfway ∧ Misses twoWays threeRides :=
  ⟨misses_quick, misses_halfway, misses_twoWays⟩

/-- The trip with a robust change of vehicles is found. -/
theorem InService.exists_itinerary_changeover :
    ∃ e' it, (Engine.new changeover.assemble (TransferPolicy.flat 0)).search? trip
      = some (e', some it) :=
  InService.exists_itinerary hypotenuse_nonneg build_changeover InService.new (le_refl 0)
    ⟨by decide +kernel, by decide +kernel⟩ (by decide +kernel) (by decide +kernel)
    (by decide +kernel) (by decide +kernel) feasible_changeover

end Engine

end Journey
