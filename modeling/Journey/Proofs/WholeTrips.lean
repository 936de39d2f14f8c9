import Mathlib.Data.List.Chain
import Journey.Proofs.Sample
import Journey.Proofs.Search.Answer
import Journey.Proofs.Search.Telling

/-!
# Whole Trips

What a search has found is told, and told as one trip.

An itinerary is assembled from legs that were made one by one, and a chain with a
gap or legs that do not fit together would lose the destination without a word.
So two things are to be said of every search: that a destination which holds a
label is never lost, and what kind of trip its itinerary is.

The check of an itinerary allows for rounding. In exact arithmetic nothing has to
be allowed for: a telling ends when its label says, the next leg starts there and
no earlier, and no leg takes negative time. That legs meet is what the check
itself has found.

## Main definitions

* `Itinerary.IsTrip`: Legs that lead from one facility to the other.
* `Progress.Underway`: Legs that lead from the facility to a label.

## Theorems

* `Itinerary.meets_of_itinerary?`: The legs of an itinerary meet.
* `Workspace.Told.underway`: Telling a label leads there.
* `Engine.InService.tells_whole_trip`: There is an itinerary exactly if a
  destination holds a label, and it is one trip.
-/

namespace Journey

namespace Itinerary

variable {α : Type} [Scalar α]

/-- Legs that make one trip, from the facility at the given time to the facility it
    leads to. -/
structure IsTrip (departureTime : α) (legs : List (Leg α)) : Prop where
  /-- The access is the first leg and the egress is the last one, and between them
      there are rides and walks. -/
  ends : ∃ access between egress, legs = .connection access :: between ++ [.connection egress] ∧
    access.kind = .access ∧ access.origin = .origin ∧ access.departureTime = departureTime ∧
    egress.kind = .egress ∧ egress.target = .destination ∧
    ∀ c, .connection c ∈ between → c.kind = .transfer
  /-- Every leg starts at the place where the one before it ends, -/
  meets : legs.IsChain fun a b => a.target = b.origin
  /-- and not before it ends. -/
  inOrder : legs.IsChain fun a b => a.arrivalTime ≤ b.departureTime
  /-- No leg takes negative time. -/
  forward : ∀ leg ∈ legs, 0 ≤ leg.travelTime

theorem meets_of_junctionsError? :
    ∀ {legs : List (Leg α)}, junctionsError? legs = none →
      legs.IsChain fun a b => a.target = b.origin
  | [], _ => List.isChain_nil
  | [leg], _ => List.isChain_singleton leg
  | previous :: next :: rest, h => by
      rw [junctionsError?, Option.or_eq_none_iff] at h
      refine List.isChain_cons_cons.mpr ⟨?_, meets_of_junctionsError? h.2⟩
      by_contra hplace
      have hjunction := h.1
      unfold junctionError? at hjunction
      rw [if_pos hplace] at hjunction
      exact absurd hjunction (by simp only [reduceCtorEq, not_false_eq_true])

/-- The legs of an itinerary meet, because it would not have been assembled
    otherwise. -/
theorem meets_of_itinerary? [Planar α] {t : Timetable α} {q : SearchQuery α} {w : Workspace α}
    {it : Itinerary α} (h : w.itinerary? t q = some (some it)) :
    it.legs.IsChain fun a b => a.target = b.origin := by
  unfold Workspace.itinerary? at h
  rcases Option.bind_eq_some_iff.mp h with ⟨winner, -, h⟩
  cases winner with
  | none => exact absurd h (by simp)
  | some a =>
      rcases Option.bind_eq_some_iff.mp h with ⟨legs, -, h⟩
      cases legs with
      | none => exact absurd h (by simp)
      | some legs =>
          rw [Option.pure_def, Option.some.injEq] at h
          unfold assemble at h
          split at h
          · exact absurd h (by simp [Except.toOption])
          · rename_i hcheck
            rw [← Option.some.inj h]
            unfold inconsistency? at hcheck
            split at hcheck
            · exact absurd hcheck (by simp)
            · exact meets_of_junctionsError? (Option.or_eq_none_iff.mp hcheck).2

end Itinerary

namespace Progress

variable {K : Type} [Field K] [LinearOrder K] [IsStrictOrderedRing K]

/-- Legs that lead from the facility to a label. -/
structure Underway (departureTime : K) (p : Progress K) (l : Label K) : Prop where
  time : p.time = l.time
  starts : ∃ access between, p.legs = .connection access :: between ∧ access.kind = .access ∧
    access.origin = .origin ∧ access.departureTime = departureTime ∧
    ∀ c, .connection c ∈ between → c.kind = .transfer
  inOrder : p.legs.IsChain fun a b => a.arrivalTime ≤ b.departureTime
  forward : ∀ leg ∈ p.legs, 0 ≤ leg.travelTime
  ended : ∀ leg ∈ p.legs.getLast?, leg.arrivalTime ≤ p.time

variable {departureTime : K} {p : Progress K} {m l : Label K}

omit [IsStrictOrderedRing K] in
-- A leg that does not start before the last one has ended can be added.
theorem Underway.inOrder_concat (h : p.Underway departureTime m) {leg : Leg K}
    (hdeparture : m.time ≤ leg.departureTime) :
    (p.legs ++ [leg]).IsChain fun a b => a.arrivalTime ≤ b.departureTime := by
  refine List.isChain_append.mpr ⟨h.inOrder, List.isChain_singleton leg, fun a ha b hb => ?_⟩
  rw [List.head?_cons, Option.mem_some_iff] at hb
  subst hb
  exact le_trans (h.ended a ha) (h.time ▸ hdeparture)

omit [IsStrictOrderedRing K] in
theorem Underway.forward_concat (h : p.Underway departureTime m) {leg : Leg K}
    (hduration : 0 ≤ leg.travelTime) : ∀ leg' ∈ p.legs ++ [leg], 0 ≤ leg'.travelTime := by
  intro leg' hleg'
  rcases List.mem_append.mp hleg' with hleg' | hleg'
  · exact h.forward leg' hleg'
  · rw [List.mem_singleton.mp hleg']
    exact hduration

omit [IsStrictOrderedRing K] in
/-- A ride or a walk leads on to the next label. -/
theorem Underway.add (h : p.Underway departureTime m) {leg : Leg K}
    (hkind : ∀ c, leg = .connection c → c.kind = .transfer)
    (hdeparture : m.time ≤ leg.departureTime) (hduration : 0 ≤ leg.travelTime)
    (harrival : leg.arrivalTime = l.time) (uncharged : K) :
    Underway departureTime { legs := p.legs ++ [leg], time := l.time, uncharged } l := by
  rcases h.starts with ⟨access, between, hlegs, hfirst, horigin, htime, hbetween⟩
  refine ⟨rfl, ⟨access, between ++ [leg], ?_, hfirst, horigin, htime, fun c hc => ?_⟩,
    h.inOrder_concat hdeparture, h.forward_concat hduration, fun last hlast => ?_⟩
  · rw [hlegs, List.cons_append]
  · rcases List.mem_append.mp hc with hc | hc
    · exact hbetween c hc
    · exact hkind c (List.mem_singleton.mp hc).symm
  · rw [List.getLast?_concat, Option.mem_some_iff] at hlast
    subst hlast
    exact le_of_eq harrival

variable [Planar K]

omit [Planar K] in
/-- The egress completes a trip whose legs meet. -/
theorem Underway.isTrip (h : p.Underway departureTime l) {stop : Stop K} {c : Candidate K}
    (hmeets : (p.addEgress stop c).IsChain fun a b => a.target = b.origin) (hc : 0 ≤ c.time) :
    Itinerary.IsTrip departureTime (p.addEgress stop c) := by
  rcases h.starts with ⟨access, between, hlegs, hfirst, horigin, htime, hbetween⟩
  refine ⟨⟨access, between, _, by rw [addEgress, hlegs], hfirst, horigin, htime, rfl, rfl,
    hbetween⟩, hmeets, h.inOrder_concat (le_of_eq h.time.symm), h.forward_concat ?_⟩
  change 0 ≤ p.time + c.time - p.time
  linarith

end Progress

namespace Workspace

variable {K : Type} [Field K] [LinearOrder K] [IsStrictOrderedRing K]

-- Looking a label up finds the one that the route-stop holds.
theorem labelAt?_eq_some_some_iff {α : Type} {w : Workspace α} {i : Nat} {l : Label α} :
    w.labelAt? i = some (some l) ↔ ∃ id, w.Holds i id l := by
  unfold labelAt? Holds
  cases hbest : w.best[i]? with
  | none => simp
  | some held =>
      cases held with
      | none => simp
      | some id =>
          cases hlabel : w.labels[id]? with
          | none => simp [hlabel]
          | some l' => simp [hlabel]

/-- Telling a label leads there. No walk takes negative time, whatever its footpath
    says, because it takes the minimal transfer time at least. -/
theorem Told.underway [Planar K] {t : Timetable K} {q : SearchQuery K} {l : Label K}
    {p : Progress K} (h : Told t q l p) (hc : t.Chronological)
    (hmin : 0 ≤ q.parameters.minTransferTime) (haccess : ∀ c ∈ q.access, 0 ≤ c.time) :
    p.Underway q.departureTime l := by
  have hwalk : ∀ {f : Footpath K} {duration : K},
      duration = Scalar.larger f.duration q.parameters.minTransferTime → 0 ≤ duration := by
    intro f duration htakes
    rw [htakes, Scalar.larger_eq_max]
    exact le_max_of_le_right hmin
  induction h with
  | @access l k c stop step candidate time =>
      have hnonneg := haccess c (List.mem_of_getElem? candidate)
      have harrival : q.departureTime + (l.time - q.departureTime) = l.time := by ring
      refine ⟨rfl, ⟨_, [], rfl, rfl, rfl, rfl, fun c hc => absurd hc List.not_mem_nil⟩,
        List.isChain_singleton _, fun leg hleg => ?_, fun leg hleg => ?_⟩
      · rw [List.mem_singleton.mp hleg]
        change 0 ≤ q.departureTime + (l.time - q.departureTime) - q.departureTime
        linarith
      · rw [← Option.mem_some_iff.mp hleg]
        exact le_of_eq harrival
  | @ride m l p trip boardingTime vehicleArrival enter origin target route row before step next
      boarding vehicle enters ahead time cost transfers lies lies' hroute hrow ih =>
      refine ih.add (fun c hc => ?_) ?_ ?_ rfl 0
      · exact absurd hc (by simp only [reduceCtorEq, not_false_eq_true])
      · exact Timetable.le_departure_of_nextTrip? next boarding
      · exact sub_nonneg.mpr (hc.departure_le_arrival ahead boarding time)
  | @walk m l p f duration cost s s' origin target before hride step takes time hcost transfers
      left entered elsewhere ih =>
      have hnonneg := hwalk takes
      have hp := ih.time
      refine ih.add (fun c hc => ?_) ?_ ?_ ?_ p.uncharged
      · rw [← Leg.connection.inj hc]
      · exact le_of_eq hp.symm
      · change 0 ≤ p.time + duration - p.time
        linarith
      · change p.time + duration = l.time
        rw [hp, time]
  | @change m l p f duration cost s before hride step takes time hcost transfers left entered ih =>
      -- No leg is added, and the last one has ended even earlier.
      have hnonneg := hwalk takes
      have hp := ih.time
      refine ⟨rfl, ih.starts, ih.inOrder, ih.forward, fun leg hleg => ?_⟩
      have hended := ih.ended leg hleg
      change leg.arrivalTime ≤ l.time
      linarith

end Workspace

namespace Engine

variable {K : Type} [Field K] [LinearOrder K] [IsStrictOrderedRing K] [Planar K]
  {t : Timetable K} {policy : TransferPolicy K} {e e' : Engine K} {q : SearchQuery K}
  {found : Option (Itinerary K)}

-- A way to the destination is held exactly if a route-stop at the stop of an egress
-- candidate holds a label.
theorem Answered.isSome_iff (h : Answered t policy e q e' found) (hw : t.WellFormed) :
    found.isSome = true ↔ ∃ c ∈ q.egress, ∃ i l, t.stopOf? i = some c.stop ∧
      e'.labelAt? i = some (some l) := by
  have hrun := (Workspace.moment_of_explore? h.explored).run hw h.fits
  have hfits := hrun.fits h.fits.reset
  have htold := hrun.egressTold h.fits.clean_reset.egressTold
  have hfound : found.isSome = true ↔ ∃ i a, e'.workspace.Arrives i a := by
    rw [Option.isSome_iff_ne_none, Ne, h.none_iff]
    simp only [not_forall, not_not]
  rw [hfound]
  constructor
  · rintro ⟨i, a, ha⟩
    rcases ha.egress with ⟨egress, hegress, -⟩
    rcases htold i egress hegress with ⟨c, hc, hi, -⟩
    exact ⟨c, List.mem_of_getElem? hc, i, a.label, hi,
      Workspace.labelAt?_eq_some_some_iff.mpr ⟨a.id, ha.holds⟩⟩
  · rintro ⟨c, hc, i, l, hi, hl⟩
    rcases Workspace.labelAt?_eq_some_some_iff.mp hl with ⟨id, hholds⟩
    rcases (Workspace.ends_of_explore? hw h.fits h.explored).2 c hc i hi with ⟨egress, hegress, -⟩
    exact ⟨i, ⟨l.cost + egress.cost, id, l, egress.candidate⟩, hholds, egress, hegress, rfl, rfl⟩

/-- A search finds an itinerary exactly if a route-stop at the stop of an egress
    candidate holds a label in the end, and then the itinerary is one trip, from
    the facility at the departure time to the destination, which it reaches when
    the label that won and its egress candidate say. -/
theorem InService.tells_whole_trip [MarkerTree K] {d : Draft K} (hd : d.build = .ok t)
    (he : InService t policy e) (hpolicy : policy.Answers t q) (hin : q.Within t)
    (hmin : 0 ≤ q.parameters.minTransferTime) (haccess : ∀ c ∈ q.access, 0 ≤ c.time)
    (hegress : ∀ c ∈ q.egress, 0 ≤ c.time) :
    ∃ e' found, e.search? q = some (e', found) ∧
      (found.isSome = true ↔ ∃ c ∈ q.egress, ∃ i l, t.stopOf? i = some c.stop ∧
        e'.labelAt? i = some (some l)) ∧
      ∀ it, found = some it → Itinerary.IsTrip q.departureTime it.legs ∧
        ∃ a c, e'.workspace.winner? = some (some a) ∧ e'.workspace.labels[a.id]? = some a.label ∧
          q.egress[a.candidate]? = some c ∧ it.departureTime = q.departureTime ∧
          it.arrivalTime = a.label.time + c.time := by
  have hw := Draft.wellFormed_of_build hd
  rcases he.answered_forward hw hpolicy hin (SearchQuery.forward_of_build hd hmin haccess hegress)
    with ⟨e', found, h⟩
  refine ⟨e', found, h.search, h.isSome_iff hw, ?_⟩
  rintro it rfl
  rcases he.told hw h.search with ⟨a, p, c, stop, hwinner, hlabel, htold, hc, -, -, hit⟩
  have hunderway := htold.underway (Draft.chronological_of_build hd) hmin haccess
  have hmeets := Itinerary.meets_of_itinerary? (search?_eq_some h.search).2.1
  subst hit
  refine ⟨hunderway.isTrip hmeets (hegress c (List.mem_of_getElem? hc)), a, c, hwinner, hlabel, hc,
    ?_, ?_⟩
  · rcases hunderway.starts with ⟨access, between, hlegs, -, -, htime, -⟩
    rw [Itinerary.departureTime, Progress.addEgress, hlegs]
    exact htime
  · rw [Itinerary.arrivalTime, Progress.addEgress, List.getLast?_concat]
    change p.time + c.time = a.label.time + c.time
    rw [hunderway.time]

open Sample in
theorem InService.tells_whole_trip_changeover : ∃ e' it,
    (Engine.new changeover.assemble (TransferPolicy.flat 0)).search? trip = some (e', some it) ∧
      Itinerary.IsTrip 0 it.legs ∧ it.arrivalTime = 60 := by
  have hanswer : ((Engine.new changeover.assemble (TransferPolicy.flat 0)).search? trip).map
      (fun r => r.2.map (·.arrivalTime)) = some (some 60) := by decide +kernel
  have hin : trip.Within changeover.assemble := ⟨by decide +kernel, by decide +kernel⟩
  rcases InService.tells_whole_trip build_changeover InService.new (TransferPolicy.flat_answers 0)
    hin (le_refl 0) (by decide +kernel) (by decide +kernel) with ⟨e', found, hsearch, -, htrip⟩
  rw [hsearch] at hanswer
  rcases Option.map_eq_some_iff.mp (Option.some.inj hanswer) with ⟨it, rfl, harrival⟩
  exact ⟨e', it, hsearch, (htrip it rfl).1, harrival⟩

end Engine

end Journey
