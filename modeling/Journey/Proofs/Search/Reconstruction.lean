import Mathlib.Data.Prod.Lex
import Journey.Proofs.Loop
import Journey.Proofs.Timetable.Chronology
import Journey.Proofs.Search.Run
import Journey.Search.Reconstruction

/-!
# Itineraries from Labels

The best way to the destination can always be told.

Reconstruction checks what it builds: a chain with a gap or legs that do not fit
together give no itinerary, and the best destination would be lost. Legal labels
rule this out. A predecessor was stored earlier, so every chain ends; vehicles
run forward in time and walks take no negative time, so every leg that is added
starts where and after the last one ended. `Progress.Consistent` is what holds
of a trip told up to a label.

## Main definitions

* `Progress.Consistent`: A trip told up to a label fits together.
* `SearchQuery.Timely`: Nothing takes negative time.
* `SearchQuery.Forward`: No leg takes negative time.
* `Arrival.rank`: What the winner is least in.
* `Workspace.Tellable`: The chain of a label can be told.
* `Workspace.Arrives`: A way to the destination that is held.

## Theorems

* `Progress.Consistent.access`, `Progress.Consistent.ride`,
  `Progress.Consistent.walk`, `Progress.Consistent.egress`: Telling one more label.
* `Workspace.Legal.tellable`: Every legal label can be told.
* `Workspace.Fits.winner?_spec`: The winner ranks before all ways to the destination.
* `Workspace.Legal.itinerary?_spec`: There is an itinerary exactly if there is a
  way to the destination, and it is the cheapest.
-/

namespace Journey

variable {K : Type} [Field K] [LinearOrder K] [IsStrictOrderedRing K]

namespace Itinerary

theorem tolerance_nonneg : (0 : K) ≤ tolerance := by
  unfold tolerance
  exact div_nonneg (Nat.cast_nonneg 1) (Nat.cast_nonneg _)

omit [IsStrictOrderedRing K] in
theorem junctionsError?_append (x : Leg K) (legs : List (Leg K)) :
    ∀ last, legs.getLast? = some last → junctionsError? legs = none →
      junctionError? last x = none → junctionsError? (legs ++ [x]) = none := by
  induction legs with
  | nil =>
      intro last h
      exact absurd h (by simp only [List.getLast?_nil, reduceCtorEq, not_false_eq_true])
  | cons leg rest ih =>
      intro last hlast hjunctions hx
      cases rest with
      | nil =>
          rw [List.getLast?_singleton, Option.some.injEq] at hlast
          subst hlast
          simp only [List.singleton_append, junctionsError?, hx, Option.or_none]
      | cons next rest =>
          rw [List.getLast?_cons_cons] at hlast
          rw [junctionsError?, Option.or_eq_none_iff] at hjunctions
          rw [List.cons_append, List.cons_append, junctionsError?, Option.or_eq_none_iff,
            ← List.cons_append]
          exact ⟨hjunctions.1, ih last hlast hjunctions.2 hx⟩

-- Two legs meet if the second one starts where the first one ended, and not
-- before.
theorem junctionError?_eq_none {previous next : Leg K} (hplace : previous.target = next.origin)
    (htime : previous.arrivalTime ≤ next.departureTime) : junctionError? previous next = none := by
  unfold junctionError?
  have htol := tolerance_nonneg (K := K)
  rw [if_neg (not_not.mpr hplace), if_neg (not_lt.mpr (by linarith))]

theorem negativeDuration?_eq_none {leg : Leg K} (h : 0 ≤ leg.travelTime) :
    negativeDuration? leg = none := by
  unfold negativeDuration?
  have htol := tolerance_nonneg (K := K)
  rw [if_neg (not_lt.mpr (by linarith))]

end Itinerary

namespace Progress

/-- The legs told so far fit together and end at the stop of a label, no later
    than it says. -/
structure Consistent (t : Timetable K) (p : Progress K) (l : Label K) : Prop where
  time : p.time = l.time
  durations : ∀ leg ∈ p.legs, 0 ≤ leg.travelTime
  junctions : Itinerary.junctionsError? p.legs = none
  last : ∃ leg s stop, p.legs.getLast? = some leg ∧ t.stopOf? l.routeStop = some s ∧
    t.stops[s]? = some stop ∧ leg.target = .stop stop.id ∧ leg.arrivalTime ≤ p.time

variable {t : Timetable K} {q : SearchQuery K} {labels : Array (Label K)} {p : Progress K}
  {l m : Label K}

-- Adding a leg that starts where and after the last one ended.
theorem Consistent.add (h : p.Consistent t l) {leg : Leg K} {s s' : Nat} {stop stop' : Stop K}
    (hs : t.stopOf? l.routeStop = some s) (hstop : t.stops[s]? = some stop)
    (horigin : leg.origin = .stop stop.id) (hdeparture : l.time ≤ leg.departureTime)
    (hduration : 0 ≤ leg.travelTime) (hs' : t.stopOf? m.routeStop = some s')
    (hstop' : t.stops[s']? = some stop') (htarget : leg.target = .stop stop'.id)
    (harrival : leg.arrivalTime = m.time) (uncharged : K) :
    Consistent t { legs := p.legs ++ [leg], time := m.time, uncharged } m := by
  rcases h.last with ⟨last, s₁, stop₁, hlast, hs₁, hstop₁, hplace, htime⟩
  rw [hs, Option.some.injEq] at hs₁
  subst hs₁
  rw [hstop, Option.some.injEq] at hstop₁
  subst hstop₁
  refine ⟨rfl, ?_, ?_, leg, s', stop', List.getLast?_concat, hs', hstop', htarget,
    le_of_eq harrival⟩
  · intro leg' hleg'
    rcases List.mem_append.mp hleg' with hleg' | hleg'
    · exact h.durations leg' hleg'
    · rw [List.mem_singleton.mp hleg']
      exact hduration
  · refine Itinerary.junctionsError?_append leg p.legs last hlast h.junctions
      (Itinerary.junctionError?_eq_none (hplace.trans horigin.symm) ?_)
    exact le_trans htime (h.time ▸ hdeparture)

variable [Planar K]

/-- Telling an access label starts a trip. -/
theorem Consistent.access (hw : t.WellFormed) {c : Candidate K} {k : Nat}
    (hstep : l.step = .access k) (hc : q.access[k]? = some c)
    (hi : t.stopOf? l.routeStop = some c.stop) (htime : l.time = q.departureTime + c.time)
    (hnonneg : 0 ≤ c.time) :
    ∃ p', (start q.departureTime).extend? t q labels l = some (some p') ∧ p'.Consistent t l := by
  rcases (Timetable.stopOf?_eq_some_iff t _ _).mp hi with ⟨rs, hrs, hstop⟩
  have hlt : c.stop < t.stops.size := hstop ▸ hw.stop_lt _ rs hrs
  have hstops := Array.getElem?_eq_getElem hlt
  refine ⟨(start q.departureTime).addAccess l t.stops[c.stop] c, ?_, ?_⟩
  · unfold extend?
    simp only [Option.bind_eq_bind, hi, Option.bind_some, hstep, hstops, hc, Option.pure_def]
  · have harrival : q.departureTime + (l.time - q.departureTime) = l.time := by ring
    refine ⟨rfl, ?_, rfl, _, c.stop, _, rfl, hi, hstops, rfl, le_of_eq harrival⟩
    intro leg hleg
    rw [List.mem_singleton.mp hleg]
    change 0 ≤ q.departureTime + (l.time - q.departureTime) - q.departureTime
    rw [harrival, htime]
    linarith

/-- Telling a ride adds a leg from where it was boarded. -/
theorem Consistent.ride (h : p.Consistent t m) (hw : t.WellFormed) (hc : t.Chronological)
    {id trip : Nat} {boardingTime : K} (hstep : l.step = .ride trip boardingTime)
    (hprevious : l.previous = some id) (hm : labels[id]? = some m)
    (hahead : t.Ahead m.routeStop l.routeStop)
    (hnext : t.nextTrip? m.routeStop m.time = some (some trip))
    (hboarding : t.departure? trip m.routeStop = some boardingTime)
    (htime : t.arrival? trip l.routeStop = some l.time) :
    ∃ p', p.extend? t q labels l = some (some p') ∧ p'.Consistent t l := by
  have hserves := (Timetable.nextTrip?_some hnext).1
  rcases hw.exists_stop hserves.lt_size with ⟨s, stop, hs, hstop⟩
  rcases hw.exists_stop (hserves.ahead hahead).lt_size with ⟨s', stop', hs', hstop'⟩
  rcases hw.exists_route (hserves.ahead hahead).lt_size with ⟨rs, row, hrs, hrow⟩
  have hroute := Timetable.routeOf?_eq hrs hrow
  -- Everything that is told about a ride can be looked up.
  have hlt := hw.serves_lt hserves
  have htrip := Array.getElem?_eq_getElem hlt
  refine ⟨p.addRide m l stop stop' row t.trips[trip] boardingTime, ?_, ?_⟩
  · unfold extend?
    simp only [Option.bind_eq_bind, hs', Option.bind_some, hstep, hprevious, hm, hs, hroute, hstop,
      hstop', htrip, Option.pure_def]
  · refine h.add hs hstop rfl ?_ ?_ hs' hstop' rfl rfl 0
    · exact Timetable.le_departure_of_nextTrip? hnext hboarding
    · exact sub_nonneg.mpr (hc.departure_le_arrival hahead hboarding htime)

/-- Telling a walk adds a leg, unless it is a change of vehicles at one stop. -/
theorem Consistent.walk (h : p.Consistent t m) (hw : t.WellFormed) {id : Nat}
    {duration cost : K} (hstep : l.step = .transfer duration cost)
    (hprevious : l.previous = some id) (hm : labels[id]? = some m)
    (hmlt : m.routeStop < t.routeStops.size) (hlt : l.routeStop < t.routeStops.size)
    (htime : l.time = m.time + duration) (hnonneg : 0 ≤ duration) :
    ∃ p', p.extend? t q labels l = some (some p') ∧ p'.Consistent t l := by
  rcases hw.exists_stop hmlt with ⟨s, stop, hs, hstop⟩
  rcases hw.exists_stop hlt with ⟨s', stop', hs', hstop'⟩
  -- A change of vehicles adds no leg, so the last leg ends before the label's time.
  by_cases hsame : s = s'
  · refine ⟨p.addChange l cost, ?_, ?_⟩
    · unfold extend?
      simp only [Option.bind_eq_bind, hs', Option.bind_some, hstep, hprevious, hm, hs,
        if_pos hsame, Option.pure_def]
    · rcases h.last with ⟨last, s₁, stop₁, hlast, hs₁, hstop₁, hplace, hend⟩
      rw [hs, Option.some.injEq] at hs₁
      subst hs₁ hsame
      refine ⟨rfl, h.durations, h.junctions, last, s, stop₁, hlast, hs', hstop₁, hplace, ?_⟩
      have hp := h.time
      change last.arrivalTime ≤ l.time
      linarith
  · refine ⟨p.addWalk l stop stop' duration cost, ?_, ?_⟩
    · unfold extend?
      simp only [Option.bind_eq_bind, hs', Option.bind_some, hstep, hprevious, hm, hs,
        if_neg hsame, hstop, hstop', Option.pure_def]
    · refine h.add hs hstop rfl ?_ ?_ hs' hstop' rfl ?_ p.uncharged
      · exact le_of_eq h.time.symm
      · change 0 ≤ p.time + duration - p.time
        linarith
      · change p.time + duration = l.time
        rw [htime, h.time]

omit [Planar K] in
/-- The way on to the destination completes a trip without any inconsistency. -/
theorem Consistent.egress (h : p.Consistent t l) {c : Candidate K} {stop : Stop K}
    (hs : t.stopOf? l.routeStop = some c.stop) (hstop : t.stops[c.stop]? = some stop)
    (hnonneg : 0 ≤ c.time) : Itinerary.inconsistency? (p.addEgress stop c) = none := by
  rcases h.last with ⟨last, s, stop', hlast, hs', hstop', hplace, htime⟩
  rw [hs, Option.some.injEq] at hs'
  subst hs'
  rw [hstop, Option.some.injEq] at hstop'
  subst hstop'
  unfold addEgress Itinerary.inconsistency?
  rw [if_neg (by simp), Option.or_eq_none_iff, List.findSome?_eq_none_iff]
  refine ⟨fun leg hleg => Itinerary.negativeDuration?_eq_none ?_,
    Itinerary.junctionsError?_append _ p.legs last hlast h.junctions
      (Itinerary.junctionError?_eq_none hplace htime)⟩
  rcases List.mem_append.mp hleg with hleg | hleg
  · exact h.durations leg hleg
  · rw [List.mem_singleton.mp hleg]
    change 0 ≤ p.time + c.time - p.time
    linarith

omit [IsStrictOrderedRing K] in
theorem extendAll?_append {xs : List (Label K)} (ys : List (Label K)) :
    ∀ {p p' : Progress K}, p.extendAll? t q labels xs = some (some p') →
      p.extendAll? t q labels (xs ++ ys) = p'.extendAll? t q labels ys := by
  induction xs with
  | nil =>
      intro p p' h
      rw [extendAll?, Option.some.injEq, Option.some.injEq] at h
      rw [h, List.nil_append]
  | cons x xs ih =>
      intro p p' h
      rw [List.cons_append, extendAll?]
      rw [extendAll?] at h
      rcases Option.bind_eq_some_iff.mp h with ⟨told, htold, h⟩
      cases told with
      | none => exact absurd h (by simp)
      | some p₁ =>
          rw [htold]
          exact ih h

omit [IsStrictOrderedRing K] in
theorem extendAll?_singleton {p' : Progress K} (h : p.extend? t q labels l = some (some p')) :
    p.extendAll? t q labels [l] = some (some p') := by
  unfold extendAll?
  rw [h]
  rfl

end Progress

namespace Arrival

/-- What the winner is least in: the cost, then the number of transfers, then the
    position of the route-stop. -/
def rank (a : Arrival K) (i : Nat) : K ×ₗ ℕ ×ₗ ℕ :=
  toLex (a.totalCost, toLex (a.label.transfers, i))

omit [IsStrictOrderedRing K] in
theorem rank_le_iff {a b : Arrival K} {i j : Nat} :
    a.rank i ≤ b.rank j ↔ a.totalCost < b.totalCost ∨ a.totalCost = b.totalCost ∧
      (a.label.transfers < b.label.transfers ∨ a.label.transfers = b.label.transfers ∧ i ≤ j) := by
  unfold rank
  simp only [Prod.Lex.toLex_le_toLex]

omit [IsStrictOrderedRing K] in
theorem totalCost_le_of_rank_le {a b : Arrival K} {i j : Nat} (h : a.rank i ≤ b.rank j) :
    a.totalCost ≤ b.totalCost := by
  rcases rank_le_iff.mp h with hlt | ⟨heq, -⟩
  · exact le_of_lt hlt
  · exact le_of_eq heq

omit [IsStrictOrderedRing K] in
-- An arrival takes the place of one at an earlier route-stop if it ranks before it.
theorem isBetterThan_iff {a b : Arrival K} {i j : Nat} (hlt : j < i) :
    a.isBetterThan b = true ↔ ¬ b.rank j ≤ a.rank i := by
  unfold isBetterThan
  rw [Bool.or_eq_true, Bool.and_eq_true, decide_eq_true_eq, decide_eq_true_eq, Scalar.same_iff,
    rank_le_iff]
  have hle : j ≤ i := le_of_lt hlt
  simp only [hle, and_true, ← le_iff_lt_or_eq, not_or, not_lt, not_and, not_le]
  constructor
  · rintro (hcost | ⟨hcost, htransfers⟩)
    · exact ⟨le_of_lt hcost, fun heq => absurd heq (ne_of_gt hcost)⟩
    · exact ⟨le_of_eq hcost, fun _ => htransfers⟩
  · rintro ⟨hcost, htransfers⟩
    rcases lt_or_eq_of_le hcost with hcost | hcost
    · exact Or.inl hcost
    · exact Or.inr ⟨hcost, htransfers hcost.symm⟩

end Arrival

/-- Nothing that a query and a timetable say takes negative time. -/
structure SearchQuery.Timely (q : SearchQuery K) (t : Timetable K) : Prop where
  chronological : t.Chronological
  footpaths : ∀ f ∈ t.footpaths, 0 ≤ f.duration
  access : ∀ c ∈ q.access, 0 ≤ c.time
  egress : ∀ c ∈ q.egress, 0 ≤ c.time

/-- No leg of a journey takes negative time. A footpath may say that it does, if
    no walk takes less than the minimal transfer time. -/
structure SearchQuery.Forward (q : SearchQuery K) (t : Timetable K) : Prop where
  chronological : t.Chronological
  walks : ∀ f ∈ t.footpaths, 0 ≤ Scalar.larger f.duration q.parameters.minTransferTime
  access : ∀ c ∈ q.access, 0 ≤ c.time
  egress : ∀ c ∈ q.egress, 0 ≤ c.time

omit [IsStrictOrderedRing K] in
theorem SearchQuery.Timely.forward {q : SearchQuery K} {t : Timetable K} (h : q.Timely t) :
    q.Forward t where
  chronological := h.chronological
  walks := fun f hf => by
    rw [Scalar.larger_eq_max]
    exact le_max_of_le_left (h.footpaths f hf)
  access := h.access
  egress := h.egress

namespace Workspace

variable [Planar K] {t : Timetable K} {policy : TransferPolicy K} {q : SearchQuery K}
  {w : Workspace K}

/-- The chain of a label can be followed to its end and told without a gap. -/
def Tellable (t : Timetable K) (q : SearchQuery K) (w : Workspace K) (id : Nat)
    (l : Label K) : Prop :=
  ∃ chain, (∀ n, id < n → Label.chainWithin? w.labels n id = some chain) ∧
    ∃ p, (Progress.start q.departureTime).extendAll? t q w.labels (chain.reverse.map Prod.snd)
      = some (some p) ∧ p.Consistent t l

omit [IsStrictOrderedRing K] in
-- Following and telling one more label.
theorem Tellable.extend {id id' : Nat} {l m : Label K} (h : w.Tellable t q id' m)
    (hl : w.labels[id]? = some l) (hprevious : l.previous = some id') (hlt : id' < id)
    (hextend : ∀ p : Progress K, p.Consistent t m →
      ∃ p', p.extend? t q w.labels l = some (some p') ∧ p'.Consistent t l) :
    w.Tellable t q id l := by
  rcases h with ⟨chain, hchain, p, htold, hp⟩
  rcases hextend p hp with ⟨p', hp', hconsistent⟩
  refine ⟨(id, l) :: chain, ?_, p', ?_, hconsistent⟩
  · intro n hn
    cases n with
    | zero => exact absurd hn (Nat.not_lt_zero id)
    | succ n =>
        unfold Label.chainWithin?
        simp only [Option.bind_eq_bind, hl, Option.bind_some, hprevious,
          hchain n (by omega), Option.pure_def]
  · rw [List.reverse_cons, List.map_append, Progress.extendAll?_append _ htold]
    exact Progress.extendAll?_singleton hp'

/-- Every legal label can be told. -/
theorem Legal.tellable (h : w.Legal t policy q) (hw : t.WellFormed) (hq : q.Forward t) :
    ∀ id l, w.labels[id]? = some l → w.Tellable t q id l := by
  refine h.induction (w.Tellable t q) fun id l hl hlegal ih => ?_
  have hlt := hlegal.routeStop_lt
  cases hlegal with
  | access k c step previous candidate stop time =>
      have hstart : ∃ p, (Progress.start q.departureTime).extend? t q w.labels l = some (some p) ∧
          p.Consistent t l :=
        Progress.Consistent.access hw step candidate stop time
          (hq.access c (List.mem_of_getElem? candidate))
      rcases hstart with ⟨p, hp, hconsistent⟩
      refine ⟨[(id, l)], ?_, p, Progress.extendAll?_singleton hp, hconsistent⟩
      intro n hn
      cases n with
      | zero => exact absurd hn (Nat.not_lt_zero id)
      | succ n =>
          unfold Label.chainWithin?
          simp only [Option.bind_eq_bind, hl, Option.bind_some, previous, Option.pure_def]
  | ride id' m trip boardingTime vehicleArrival enter step previous predecessor ahead next boarding
      vehicle enters time =>
      rcases label_of_extract predecessor with ⟨hid, hm⟩
      exact Tellable.extend (ih id' m predecessor) hl previous hid fun p hp =>
        hp.ride hw hq.chronological step previous hm ahead next boarding time
  | transfer id' m f duration increment fromMode toMode step previous predecessor ride path takes
      left entered price time =>
      rcases label_of_extract predecessor with ⟨hid, hm⟩
      have hmlt : m.routeStop < t.routeStops.size := (h id' m hm).routeStop_lt
      have hduration : 0 ≤ duration := takes ▸ hq.walks f path.1
      exact Tellable.extend (ih id' m predecessor) hl previous hid fun p hp =>
        hp.walk hw step previous hm hmlt hlt time hduration

/-- A way to the destination that is held: the best label of a route-stop and
    the way on from there. -/
structure Arrives (w : Workspace K) (i : Nat) (a : Arrival K) : Prop where
  holds : w.Holds i a.id a.label
  egress : ∃ e, w.egress[i]? = some (some e) ∧ a.totalCost = a.label.cost + e.cost ∧
    a.candidate = e.candidate

omit [Planar K] [IsStrictOrderedRing K] in
theorem Arrives.unique {i : Nat} {a a' : Arrival K} (h : w.Arrives i a) (h' : w.Arrives i a') :
    a = a' := by
  rcases a with ⟨total, id, l, k⟩
  rcases a' with ⟨total', id', l', k'⟩
  rcases h.egress with ⟨e, he, htotal, hk⟩
  rcases h'.egress with ⟨e', he', htotal', hk'⟩
  rcases h.holds.unique h'.holds with ⟨hid, hl⟩
  rw [he, Option.some.injEq, Option.some.injEq] at he'
  subst he'
  simp only at hid hl htotal hk htotal' hk'
  subst hid hl htotal htotal' hk hk'
  rfl

omit [Planar K] [IsStrictOrderedRing K] in
theorem Fits.arrivalAt?_cases (hf : w.Fits t) {i : Nat} (hi : i < t.routeStops.size) :
    (w.arrivalAt? i = some none ∧ ∀ a, ¬ w.Arrives i a) ∨
      ∃ a, w.arrivalAt? i = some (some a) ∧ w.Arrives i a ∧ ∀ a', w.Arrives i a' → a' = a := by
  rcases hf.egress_exists hi with ⟨egress, he⟩
  unfold arrivalAt?
  rcases hf.best_cases hi with hb | ⟨id, l, hb, hl⟩
  · refine Or.inl ⟨by simp only [Option.bind_eq_bind, hb, he, Option.bind_some, Option.pure_def],
      fun a ha => ?_⟩
    have hbest := ha.holds.1
    rw [hb] at hbest
    exact absurd hbest (by simp)
  · cases egress with
    | none =>
        refine Or.inl ⟨by simp only [Option.bind_eq_bind, hb, he, Option.bind_some,
          Option.pure_def], fun a ha => ?_⟩
        rcases ha.egress with ⟨e, hegress, -⟩
        rw [he] at hegress
        exact absurd hegress (by simp)
    | some e =>
        refine Or.inr ⟨⟨l.cost + e.cost, id, l, e.candidate⟩, ?_, ⟨⟨hb, hl⟩, e, he, rfl, rfl⟩, ?_⟩
        · simp only [Option.bind_eq_bind, hb, he, hl, Option.bind_some, Option.pure_def]
        · intro a ha
          exact ha.unique ⟨⟨hb, hl⟩, e, he, rfl, rfl⟩

omit [Planar K] [IsStrictOrderedRing K] in
theorem Fits.mem_destinationList (hf : w.Fits t) {i : Nat} {a : Arrival K} (ha : w.Arrives i a) :
    i ∈ w.destinationList := by
  rcases ha.egress with ⟨e, he, -⟩
  unfold destinationList
  rw [List.mem_filter, List.mem_range]
  refine ⟨(Array.getElem?_eq_some_iff.mp he).1, ?_⟩
  exact (hf.destinations_over.1.contains_iff i).mpr (hf.mem_destinations i e he)

omit [Planar K] [IsStrictOrderedRing K] in
/-- The winner is the way to the destination that is held and ranks before all
    others. -/
theorem Fits.winner?_spec (hf : w.Fits t) :
    (w.winner? = some none ∧ ∀ i a, ¬ w.Arrives i a) ∨
      ∃ i a, w.winner? = some (some a) ∧ w.Arrives i a ∧
        ∀ i' a', w.Arrives i' a' → a.rank i ≤ a'.rank i' := by
  have hsorted : w.destinationList.Pairwise (· < ·) := List.pairwise_lt_range.filter _
  have hloop : ∃ best, w.winner? = some best ∧
      (best = none → ∀ i ∈ w.destinationList, ∀ a, ¬ w.Arrives i a) ∧
      ∀ b ∈ best, ∃ j ∈ w.destinationList, w.Arrives j b ∧
        ∀ i ∈ w.destinationList, ∀ a, w.Arrives i a → b.rank j ≤ a.rank i := by
    unfold winner?
    refine Loop.foldlM_exists (fun done best =>
      (best = none → ∀ i ∈ done, ∀ a, ¬ w.Arrives i a) ∧ ∀ b ∈ best, ∃ j ∈ done, w.Arrives j b ∧
        ∀ i ∈ done, ∀ a, w.Arrives i a → b.rank j ≤ a.rank i) _ ?_ none
      ⟨fun _ i hi => absurd hi List.not_mem_nil, fun b hb => absurd hb (Option.not_mem_none b)⟩
    rintro done i rest best hlist ⟨hnone, hleast⟩
    have hi : i < t.routeStops.size := by
      have hmem : i ∈ w.destinationList := hlist ▸ List.mem_append_right _ List.mem_cons_self
      unfold destinationList at hmem
      rw [← hf.egress_size]
      exact List.mem_range.mp (List.mem_filter.mp hmem).1
    have hself : i ∈ done ++ [i] := List.mem_append_right _ (List.mem_singleton.mpr rfl)
    rcases hf.arrivalAt?_cases hi with ⟨hat, hno⟩ | ⟨a, hat, ha, hunique⟩
    · refine ⟨best, by rw [hat]; rfl, fun hbest j hj b hb => ?_, fun b hb => ?_⟩
      · rcases List.mem_append.mp hj with hj | hj
        · exact hnone hbest j hj b hb
        · exact hno b (List.mem_singleton.mp hj ▸ hb)
      · rcases hleast b hb with ⟨j, hj, harrives, hle⟩
        refine ⟨j, List.mem_append_left _ hj, harrives, fun k hk c hc => ?_⟩
        rcases List.mem_append.mp hk with hk | hk
        · exact hle k hk c hc
        · exact absurd (List.mem_singleton.mp hk ▸ hc) (hno c)
    · refine ⟨some (Arrival.better best a), by rw [hat]; rfl,
        fun hc => absurd hc (Option.some_ne_none _), fun b hb => ?_⟩
      rw [Option.mem_def, Option.some.injEq] at hb
      subst hb
      -- Whatever ranks before the arrivals gone through and this one ranks before all.
      have hall : ∀ (b : Arrival K) (j : Nat), b.rank j ≤ a.rank i →
          (∀ k ∈ done, ∀ c, w.Arrives k c → b.rank j ≤ c.rank k) →
          ∀ k ∈ done ++ [i], ∀ c, w.Arrives k c → b.rank j ≤ c.rank k := by
        intro b j hba hbefore k hk c hc
        rcases List.mem_append.mp hk with hk | hk
        · exact hbefore k hk c hc
        · rw [List.mem_singleton.mp hk] at hc ⊢
          exact hunique c hc ▸ hba
      cases best with
      | none => exact ⟨i, hself, ha, hall a i (le_refl _) fun k hk c hc =>
          absurd hc (hnone rfl k hk c)⟩
      | some b =>
          rcases hleast b rfl with ⟨j, hj, harrives, hle⟩
          rw [hlist] at hsorted
          have hji : j < i := (List.pairwise_append.mp hsorted).2.2 j hj i List.mem_cons_self
          by_cases hbetter : a.isBetterThan b = true
          · have heq : Arrival.better (some b) a = a := if_pos hbetter
            have hbefore := le_of_not_ge ((Arrival.isBetterThan_iff hji).mp hbetter)
            rw [heq]
            exact ⟨i, hself, ha, hall a i (le_refl _) fun k hk c hc =>
              le_trans hbefore (hle k hk c hc)⟩
          · have heq : Arrival.better (some b) a = b := if_neg hbetter
            have hafter := not_not.mp ((Arrival.isBetterThan_iff hji).not.mp hbetter)
            rw [heq]
            exact ⟨j, List.mem_append_left _ hj, harrives, hall b j hafter hle⟩
  rcases hloop with ⟨best, hwinner, hnone, hleast⟩
  cases best with
  | none =>
      exact Or.inl ⟨hwinner, fun i a ha => hnone rfl i (hf.mem_destinationList ha) a ha⟩
  | some a =>
      rcases hleast a rfl with ⟨i, -, ha, hle⟩
      exact Or.inr ⟨i, a, hwinner, ha, fun i' a' ha' =>
        hle i' (hf.mem_destinationList ha') a' ha'⟩

/-- There is an itinerary exactly if a way to the destination is held, and it is
    the cheapest one. -/
theorem Legal.itinerary?_spec (h : w.Legal t policy q) (hw : t.WellFormed) (hq : q.Forward t)
    (hf : w.Fits t) (he : w.EgressTold t q) :
    (w.itinerary? t q = some none ∧ ∀ i a, ¬ w.Arrives i a) ∨
      ∃ i a itinerary, w.itinerary? t q = some (some itinerary) ∧ w.Arrives i a ∧
        itinerary.totalCost = a.totalCost ∧
        ∀ i' a', w.Arrives i' a' → itinerary.totalCost ≤ a'.totalCost := by
  unfold itinerary?
  rcases hf.winner?_spec with ⟨hwinner, hnone⟩ | ⟨i, a, hwinner, ha, hleast⟩
  · exact Or.inl ⟨by simp only [Option.bind_eq_bind, hwinner, Option.bind_some, Option.pure_def],
      hnone⟩
  · rcases ha.egress with ⟨e, hegress, htotal, hcandidate⟩
    rcases he i e hegress with ⟨c, hc, hstop, -⟩
    rcases h.tellable hw hq a.id a.label ha.holds.2 with ⟨chain, hchain, p, htold, hp⟩
    have hlt := (Array.getElem?_eq_some_iff.mp ha.holds.2).1
    rw [← hf.holds_routeStop ha.holds] at hstop
    rcases hw.exists_stop (h _ _ ha.holds.2).routeStop_lt with ⟨s, stop, hs, hstops⟩
    rw [hstop, Option.some.injEq] at hs
    subst hs
    -- The chain of the winner can be told, so its legs exist and fit together.
    have hlegs : w.legs? t q a = some (some (p.addEgress stop c)) := by
      unfold legs? Label.chain?
      simp only [Option.bind_eq_bind, hchain _ hlt, Option.bind_some, htold, hcandidate, hc, hstops,
        Option.pure_def]
    have hok := hp.egress hstop hstops (hq.egress c (List.mem_of_getElem? hc))
    refine Or.inr ⟨i, a, ⟨p.addEgress stop c, a.totalCost, a.label.transferCost,
      a.label.transfers⟩, ?_, ha, rfl, fun i' a' ha' =>
        Arrival.totalCost_le_of_rank_le (hleast i' a' ha')⟩
    simp only [Option.bind_eq_bind, hwinner, Option.bind_some, hlegs, Itinerary.assemble, hok,
      Except.toOption, Option.pure_def]

end Workspace

end Journey
