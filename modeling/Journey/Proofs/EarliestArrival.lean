import Mathlib.Order.Bounds.Basic
import Journey.Proofs.Sample
import Journey.Proofs.Search.Answer

/-!
# Earliest Arrival

When cost is time, the search finds the earliest arrival.

Suppose that every second costs the same, however it is spent, and that changing
vehicles costs nothing but time. Then the cheapest journey is the earliest one,
and a search by rounds is known to find it, provided that no vehicle waits at a
stop and that a walk after a walk, or after the access, can be made at once.
This module proves it for the search as it is, with one label for every
route-stop and a bound that prunes.

What makes the regime work is that a label's cost determines its time. A label
that replaces another one is earlier, so whatever vehicle the old one could
board, the new one can board too. And the ride that prevails in a scan is on an
earlier vehicle, so it arrives earlier and costs less.

## Main definitions

* `Timetable.Immediate`: No vehicle waits at a route-stop.
* `SearchQuery.Closed`: Two walks in a row can be made in one.
* `SearchQuery.CostsTime`: Every second costs the same.
* `SearchQuery.arrivalCost`: What arriving at a time costs.
* `SearchQuery.journeyCosts`: What journeys to the destination cost.

## Theorems

* `Workspace.Legal.cost_eq_arrivalCost`: The cost of a label is its time.
* `Workspace.Legal.travels`: Every label is a journey.
* `Workspace.Foreseen.step`: A round covers the journeys with one ride more.
* `Engine.InService.isLeast_journeyCosts`: The answer is the earliest arrival.
-/

namespace Journey

/-- No vehicle waits at a route-stop. -/
def Timetable.Immediate {α : Type} (t : Timetable α) : Prop :=
  ∀ (i : Nat) (rs : RouteStop α), t.routeStops[i]? = some rs → rs.arrivalOffset = rs.departureOffset

variable {K : Type} [Field K] [LinearOrder K]

namespace SearchQuery

/-- Two walks in a row, or the access and a walk, can be made in one that takes
    no longer. -/
structure Closed (q : SearchQuery K) (t : Timetable K) : Prop where
  footpaths : ∀ f ∈ t.footpaths, ∀ g ∈ t.footpaths, f.target = g.origin →
    ∃ h ∈ t.footpaths, h.origin = f.origin ∧ h.target = g.target ∧
      h.time q.parameters ≤ f.time q.parameters + g.time q.parameters
  access : ∀ c ∈ q.access, ∀ f ∈ t.footpaths, c.stop = f.origin →
    ∃ c' ∈ q.access, c'.stop = f.target ∧ c'.time ≤ c.time + f.time q.parameters

/-- Every second costs the same, however it is spent. -/
structure CostsTime (q : SearchQuery K) (rate : K) : Prop where
  rate_pos : 0 < rate
  inVehicle : q.parameters.inVehicleCost = rate
  waiting : q.parameters.waitingCost = rate
  walking : q.parameters.walkCost = rate
  access : ∀ c ∈ q.access, c.cost = rate * c.time

/-- What arriving at a time costs. -/
def arrivalCost (q : SearchQuery K) (rate T : K) : K := rate * (T - q.departureTime)

/-- What the journeys to the destination cost that a search with so many
    transfers is asked for. -/
def journeyCosts (q : SearchQuery K) (t : Timetable K) (rate : K) : Set K :=
  {x | ∃ n b i T c, n ≤ q.maxTransfers + 1 ∧ t.Travels q Timetable.anywhere n b i T ∧
    c ∈ q.egress ∧ t.stopOf? i = some c.stop ∧ x = q.arrivalCost rate T + c.cost}

variable [IsStrictOrderedRing K] {q : SearchQuery K} {rate T T' : K}

theorem CostsTime.arrivalCost_le_iff (h : q.CostsTime rate) :
    q.arrivalCost rate T ≤ q.arrivalCost rate T' ↔ T ≤ T' := by
  unfold arrivalCost
  rw [mul_le_mul_iff_right₀ h.rate_pos, sub_le_sub_iff_right]

omit [IsStrictOrderedRing K] in
theorem CostsTime.cost_footpath (h : q.CostsTime rate) (f : Footpath K) :
    q.arrivalCost rate T + f.cost q.parameters 0 =
      q.arrivalCost rate (T + f.time q.parameters) := by
  unfold arrivalCost Footpath.cost
  rw [h.walking]
  ring

omit [IsStrictOrderedRing K] in
theorem CostsTime.cost_access (h : q.CostsTime rate) {c : Candidate K} (hc : c ∈ q.access) :
    c.cost = q.arrivalCost rate (q.departureTime + c.time) := by
  unfold arrivalCost
  rw [h.access c hc, add_sub_cancel_left]

end SearchQuery

namespace Timetable

variable {t : Timetable K}

theorem Immediate.departure?_eq (ht : t.Immediate) (d i : Nat) :
    t.departure? d i = t.arrival? d i := by
  unfold departure? arrival?
  cases hrs : t.routeStops[i]? with
  | none => rfl
  | some rs => simp only [Option.bind_eq_bind, Option.bind_some, ht i rs hrs]

variable [IsStrictOrderedRing K]

-- The next vehicle where a vehicle is left is that vehicle.
theorem Immediate.nextTrip?_arrival (ht : t.Immediate) (hw : t.WellFormed) (hc : t.Chronological)
    {d d' i : Nat} {T : K} (hd : t.Serves d i) (hT : t.arrival? d i = some T)
    (hnext : t.nextTrip? i T = some (some d')) : d' = d := by
  have hdep : t.departure? d i = some T := (ht.departure?_eq d i).trans hT
  rcases Timetable.nextTrip?_le hw hd hdep (le_refl T) with ⟨d'', hd'', hle⟩
  rw [hnext, Option.some.injEq, Option.some.injEq] at hd''
  subst hd''
  have hd' := (Timetable.nextTrip?_some hnext).1
  rcases hd'.exists_arrival hw with ⟨T', hT'⟩
  -- An earlier vehicle would have left already.
  have hnotleft := le_departure_of_nextTrip? hnext ((ht.departure?_eq d' i).trans hT')
  refine Nat.le_antisymm hle (Nat.le_of_not_lt fun hlt => ?_)
  exact absurd (hc.arrival_lt hd' hd hlt hT' hT) (not_lt.mpr hnotleft)

end Timetable

/-- The number of rides of the journey that a label ends, if they are counted by
    the transfers between them. -/
def Label.rides {α : Type} (l : Label α) : Nat :=
  if l.isRide then l.transfers + 1 else l.transfers

namespace Workspace

variable {t : Timetable K} {q : SearchQuery K} {policy : TransferPolicy K} {rate : K}
  {w : Workspace K}

/-- The cost of a label is that of arriving at its time. -/
theorem Legal.cost_eq_arrivalCost (h : w.Legal t (TransferPolicy.flat 0) q)
    (hcost : q.CostsTime rate) :
    ∀ (id : Nat) (l : Label K), w.labels[id]? = some l → l.cost = q.arrivalCost rate l.time := by
  refine h.induction (fun _ l => l.cost = q.arrivalCost rate l.time) fun id l _ hlegal ih => ?_
  cases hlegal with
  | access k c step previous candidate stop time cost =>
      rw [cost, time]
      exact hcost.cost_access (List.mem_of_getElem? candidate)
  | ride id' p trip b v enter step previous predecessor ahead next boarding vehicle enters time
      cost =>
      rw [cost, ih id' p predecessor, hcost.waiting, hcost.inVehicle]
      unfold SearchQuery.arrivalCost
      ring
  | transfer id' p f duration increment fm tm step previous predecessor ride path takes left entered
      price time cost =>
      rw [cost, ih id' p predecessor, hcost.walking, ← Option.some.inj price, time]
      unfold SearchQuery.arrivalCost
      ring

variable [IsStrictOrderedRing K]

/-- Every label is a journey. Where a vehicle is boarded that was just left, it
    is the same vehicle, and so the two rides are one. -/
theorem Legal.travels (h : w.Legal t policy q) (hw : t.WellFormed) (hc : t.Chronological)
    (ht : t.Immediate) : ∀ (id : Nat) (l : Label K), w.labels[id]? = some l →
      t.Travels q Timetable.anywhere l.rides l.isRide l.routeStop l.time := by
  refine h.induction (fun _ l => t.Travels q Timetable.anywhere l.rides l.isRide l.routeStop l.time)
    fun id l _ hlegal ih => ?_
  cases hlegal with
  | access k c step previous candidate stop time cost transfers =>
      have hride : l.isRide = false := by rw [Label.isRide, step]; rfl
      rw [Label.rides, hride, if_neg Bool.false_ne_true, transfers, time]
      exact Timetable.Travels.access (List.mem_of_getElem? candidate) stop
  | ride id' p trip b v enter step previous predecessor ahead next boarding vehicle enters time
      cost transfers =>
      have hride : l.isRide = true := by rw [Label.isRide, step]; rfl
      have hp := ih id' p predecessor
      rw [Label.rides, hride, if_pos rfl, transfers]
      rw [Label.rides] at hp
      cases hpride : p.isRide with
      | false =>
          rw [hpride, if_neg Bool.false_ne_true] at hp
          exact hp.ride (Timetable.nextTrip?_some next).1 boarding
            (Timetable.le_departure_of_nextTrip? next boarding) ahead time
      | true =>
          rw [hpride, if_pos rfl] at hp
          rcases hp.exists_ride with
            ⟨m, d, i, T, departs, hm, before, serves, departure, caught, hahead, harrival⟩
          have hsame := ht.nextTrip?_arrival hw hc (serves.ahead hahead) harrival next
          subst hsame
          rw [hm]
          exact before.ride serves departure caught (hahead.trans ahead) time
  | transfer id' p f duration increment fm tm step previous predecessor ride path takes left entered
      price time cost transfers =>
      have hride : l.isRide = false := by rw [Label.isRide, step]; rfl
      have hp := ih id' p predecessor
      rw [Label.rides, ride, if_pos rfl] at hp
      rw [Label.rides, hride, if_neg Bool.false_ne_true, transfers, time, takes]
      exact hp.walk path trivial

end Workspace

/-- A query to which nothing but time matters, in a timetable where it is known
    that rounds find the earliest arrival. -/
structure SearchQuery.OnlyTime (q : SearchQuery K) (t : Timetable K) (rate : K) : Prop where
  wellFormed : t.WellFormed
  timely : q.Timely t
  immediate : t.Immediate
  closed : q.Closed t
  costsTime : q.CostsTime rate

/-- What arriving with the vehicle of a trip costs. -/
def SearchQuery.rideCost (q : SearchQuery K) (t : Timetable K) (rate : K) (d j : Nat) : WithTop K :=
  match t.arrival? d j with
  | some T => (q.arrivalCost rate T : K)
  | none => ⊤

section

variable {t : Timetable K} {q : SearchQuery K} {rate : K}

theorem SearchQuery.rideCost_eq {d j : Nat} {T : K} (h : t.arrival? d j = some T) :
    q.rideCost t rate d j = (q.arrivalCost rate T : K) := by
  unfold rideCost
  rw [h]

variable [IsStrictOrderedRing K]

-- Where cost is time, a ride that prevails arrives earlier and costs less.
theorem SearchQuery.OnlyTime.ceiling (h : q.OnlyTime t rate) :
    Ceiling t q.parameters (fun l => l.cost = q.arrivalCost rate l.time) (q.rideCost t rate) := by
  have hchron := h.timely.chronological
  refine ⟨?_, ?_, ?_⟩
  · intro l d j c hl hnext hbrings
    rcases hbrings with ⟨rfl, rfl⟩ | ⟨hahead, a, b, enter, -, hb, -, rfl⟩
    · rcases (Timetable.nextTrip?_some hnext).1.exists_arrival h.wellFormed with ⟨T, hT⟩
      rw [rideCost_eq hT, hl, WithTop.coe_le_coe, h.costsTime.arrivalCost_le_iff]
      exact Timetable.le_departure_of_nextTrip? hnext ((h.immediate.departure?_eq d _).trans hT)
    · rw [rideCost_eq hb, hl, h.costsTime.waiting, h.costsTime.inVehicle, WithTop.coe_le_coe]
      unfold arrivalCost
      exact le_of_eq (by ring)
  · intro d' d j hd' hd hle
    rcases hd'.exists_arrival h.wellFormed with ⟨T', hT'⟩
    rcases hd.exists_arrival h.wellFormed with ⟨T, hT⟩
    rw [rideCost_eq hT', rideCost_eq hT, WithTop.coe_le_coe, h.costsTime.arrivalCost_le_iff]
    exact hchron.arrival_mono hd' hd hle hT' hT
  · intro d d' i j a hd ha hnext _
    rw [h.immediate.nextTrip?_arrival h.wellFormed hchron hd ha hnext]

end

namespace Workspace

variable {t : Timetable K} {q : SearchQuery K} {rate : K} {start w w' : Workspace K} {n m : Nat}

/-- Every journey with so many rides is covered. -/
def Foreseen (t : Timetable K) (q : SearchQuery K) (rate : K) (n : Nat) (w : Workspace K) : Prop :=
  ∀ k b i T, k ≤ n → t.Travels q Timetable.anywhere k b i T → w.Covered i (q.arrivalCost rate T : K)

variable [IsStrictOrderedRing K]

-- If an arrival is covered, so is walking on from there. From a ride the walk
-- was made. Otherwise whatever came before the label's route-stop leads on in
-- one walk, or in none.
theorem Settled.covered_walk {κ : Nat → Nat → WithTop K} (hs : Settled t q 0 κ start n w)
    (hstart : start.Fits t) (hclean : start.Clean) (h : q.OnlyTime t rate) {f : Footpath K}
    {i j : Nat} {T : K} (hc : w.Covered i (q.arrivalCost rate T : K)) (hpath : t.Leads f i j) :
    w.Covered j (q.arrivalCost rate (T + f.time q.parameters) : K) := by
  have hlegal := hs.run.legal hclean.legal
  have hle : ∀ {T T' : K}, q.arrivalCost rate T ≤ q.arrivalCost rate T' ↔ T ≤ T' :=
    h.costsTime.arrivalCost_le_iff
  rcases hc with ⟨b, hb, hbT⟩ | ⟨id, l, hl, hlT⟩
  · refine Or.inl ⟨b, hb, le_trans hbT (WithTop.coe_le_coe.mpr (hle.mpr ?_))⟩
    linarith [Footpath.time_nonneg (p := q.parameters) (h.timely.footpaths f hpath.1)]
  · have hi := (hs.run.fits hstart).holds_routeStop hl
    subst hi
    have hcost := hlegal.cost_eq_arrivalCost h.costsTime id l hl.2
    rw [hcost, WithTop.coe_le_coe, hle] at hlT
    cases hlegal id l hl.2 with
    | access k c step previous candidate stop time =>
        have hstop := hpath.2.1
        rw [stop, Option.some.injEq] at hstop
        rcases h.closed.access c (List.mem_of_getElem? candidate) f hpath.1 hstop with
          ⟨c', hc', htarget, htime⟩
        have hcov := hs.access c' hc' j (hpath.2.2.trans (congrArg some htarget.symm))
        refine hcov.mono (WithTop.coe_le_coe.mpr ?_)
        rw [h.costsTime.cost_access hc', hle]
        linarith
    | ride id' p trip b v enter step =>
        have hride : l.isRide = true := by rw [Label.isRide, step]; rfl
        refine (hs.walked id l hl.2 hride f j hpath).mono (WithTop.coe_le_coe.mpr ?_)
        rw [hcost, h.costsTime.cost_footpath, hle]
        linarith
    | transfer id' p g duration increment fm tm step previous predecessor ride path takes left
        entered price time =>
        rcases label_of_extract predecessor with ⟨-, hp⟩
        have hmeet := hpath.2.1
        rw [path.2.2, Option.some.injEq] at hmeet
        rcases h.closed.footpaths g path.1 f hpath.1 hmeet with ⟨f', hf', horigin, htarget, htime⟩
        have hdirect : t.Leads f' p.routeStop j :=
          ⟨hf', by rw [horigin]; exact path.2.1, by rw [htarget]; exact hpath.2.2⟩
        refine (hs.walked id' p hp ride f' j hdirect).mono (WithTop.coe_le_coe.mpr ?_)
        rw [hlegal.cost_eq_arrivalCost h.costsTime id' p hp, h.costsTime.cost_footpath, hle]
        change duration = g.time q.parameters at takes
        linarith

/-- A round covers the journeys with one ride more. -/
theorem Foreseen.step (hn : w.Foreseen t q rate n) (hstart : start.Fits t) (hclean : start.Clean)
    (h : q.OnlyTime t rate) (hs : Settled t q 0 (q.rideCost t rate) start n w)
    (hs' : Settled t q 0 (q.rideCost t rate) start m w')
    (hrun : Run t (TransferPolicy.flat 0) q w w')
    (hmade : RidesMade t (q.rideCost t rate) w w') : w'.Foreseen t q rate (n + 1) := by
  have hf := hs.run.fits hstart
  have hlegal := hs.run.legal hclean.legal
  have hle : ∀ {T T' : K}, q.arrivalCost rate T ≤ q.arrivalCost rate T' ↔ T ≤ T' :=
    h.costsTime.arrivalCost_le_iff
  have hride : ∀ k j T, k ≤ n + 1 → t.Travels q Timetable.anywhere k true j T →
      w'.Covered j (q.arrivalCost rate T : K) := by
    intro k j T hk htravels
    rcases htravels.exists_ride with
      ⟨k', d, i, T', departs, rfl, before, serves, departure, caught, ahead, arrival⟩
    rcases hn k' false i T' (by omega) before with ⟨b, hb, hbT⟩ | ⟨id, l, hl, hlT⟩
    · have hlater := h.timely.chronological.departure_le_arrival ahead departure arrival
      refine hrun.covered hf (Or.inl ⟨b, hb, le_trans hbT (WithTop.coe_le_coe.mpr (hle.mpr ?_))⟩)
      exact le_trans caught hlater
    · -- The label is no later than the traveller and catches a vehicle that is no later.
      rw [hlegal.cost_eq_arrivalCost h.costsTime id l hl.2, WithTop.coe_le_coe, hle] at hlT
      rcases Timetable.nextTrip?_le h.wellFormed serves departure (le_trans hlT caught) with
        ⟨d', hd', hdd'⟩
      have hcov := hmade i id l d' j hl hd' ahead
      rw [← SearchQuery.rideCost_eq arrival]
      exact hcov.mono (h.ceiling.later d' d j ((Timetable.nextTrip?_some hd').1.ahead ahead)
        (serves.ahead ahead) hdd')
  intro k b i T hk htravels
  cases htravels with
  | access candidate stop =>
      rw [← h.costsTime.cost_access candidate]
      exact hs'.access _ candidate i stop
  | ride before serves departure caught ahead arrival =>
      exact hride _ i T hk (before.ride serves departure caught ahead arrival)
  | walk before path allowed =>
      exact hs'.covered_walk hstart hclean h (hride k _ _ hk before) path

-- A whole query covers the journeys it is asked for, and every way to the
-- destination that is held in the end is such a journey.
theorem foreseen_of_explore? (hf : w.Fits t) (h : q.OnlyTime t rate)
    (hexplore : w.explore? t (TransferPolicy.flat 0) q = some w') :
    w'.Foreseen t q rate (q.maxTransfers + 1) ∧
      ∀ i a, w'.Arrives i a → a.totalCost ∈ q.journeyCosts t rate := by
  have hclean := hf.clean_reset
  have hwalk : 0 ≤ q.parameters.walkCost := h.costsTime.walking ▸ le_of_lt h.costsTime.rate_pos
  have hstart : ∀ u, Settled t q 0 (q.rideCost t rate) w.reset 0 u → u.Foreseen t q rate 0 := by
    intro u hu k b i T hk htravels
    cases htravels with
    | access candidate stop =>
        rw [← h.costsTime.cost_access candidate]
        exact hu.access _ candidate i stop
    | ride => exact absurd hk (Nat.not_succ_le_zero _)
    | walk before =>
        rcases before.exists_ride with ⟨m, -, -, -, -, rfl, -⟩
        exact absurd hk (Nat.not_succ_le_zero _)
  rcases Settled.of_explore? h.wellFormed hf
      (fun f hfp => Footpath.cost_nonneg (h.timely.footpaths f hfp) hwalk (le_refl 0)) h.ceiling
      (fun u hu => (hu.legal hclean.legal).cost_eq_arrivalCost h.costsTime)
      (fun n u => u.Foreseen t q rate n) hstart
      (fun n m u u' hu hu' hrun hmade hn => hn.step hf.reset hclean h hu hu' hrun hmade)
      (fun n u hn => hn) hexplore with ⟨⟨m, hm, hend⟩, hforeseen⟩
  refine ⟨hforeseen, fun i a ha => ?_⟩
  have hlegal := hend.run.legal hclean.legal
  rcases ha.egress with ⟨e, he, htotal, -⟩
  rcases hend.run.egressTold hclean.egressTold i e he with ⟨c, hc, hstop, hecost⟩
  have hi := (hend.run.fits hf.reset).holds_routeStop ha.holds
  have htravels := hlegal.travels h.wellFormed h.timely.chronological h.immediate a.id a.label
    ha.holds.2
  rw [hi] at htravels
  refine ⟨a.label.rides, a.label.isRide, i, a.label.time, c, ?_, htravels,
    List.mem_of_getElem? hc, hstop, ?_⟩
  · -- A ride has one transfer less than there were rounds.
    rcases hend.transfers a.id a.label ha.holds.2 with ⟨htransfers, hride⟩
    unfold Label.rides
    split
    · rename_i hisRide
      have hlt := hride hisRide
      omega
    · omega
  · rw [htotal, hecost, hlegal.cost_eq_arrivalCost h.costsTime a.id a.label ha.holds.2]

end Workspace

namespace Engine

variable [IsStrictOrderedRing K] [Planar K] [MarkerTree K] {t : Timetable K} {q : SearchQuery K}
  {rate : K}

/-- Where nothing but time matters, a search finds nothing exactly if there is
    no journey to the destination, and else the cost of the earliest arrival. -/
theorem InService.isLeast_journeyCosts (hlength : ∀ x y : K, 0 ≤ Planar.hypotenuse x y)
    {d : Draft K} (hd : d.build = .ok t) {e : Engine K}
    (he : InService t (TransferPolicy.flat 0) e) (hin : q.Within t) (hi : t.Immediate)
    (hclosed : q.Closed t) (hcost : q.CostsTime rate) (haccess : ∀ c ∈ q.access, 0 ≤ c.time)
    (hegress : ∀ c ∈ q.egress, 0 ≤ c.time ∧ 0 ≤ c.cost) :
    ∃ e' found, e.search? q = some (e', found) ∧ (found = none ↔ q.journeyCosts t rate = ∅) ∧
      ∀ it, found = some it → IsLeast (q.journeyCosts t rate) it.totalCost := by
  have hw := Draft.wellFormed_of_build hd
  have h : q.OnlyTime t rate :=
    { wellFormed := hw
      timely := SearchQuery.timely_of_build hlength hd haccess fun c hc => (hegress c hc).1
      immediate := hi
      closed := hclosed
      costsTime := hcost }
  rcases he.answered hw (TransferPolicy.flat_answers 0) hin h.timely with ⟨e', found, hanswer⟩
  rcases Workspace.foreseen_of_explore? hanswer.fits h hanswer.explored with
    ⟨hforeseen, harrives⟩
  rcases Workspace.ends_of_explore? hw hanswer.fits hanswer.explored with ⟨hbound, hleaves⟩
  -- Whatever journey there is, the search finds one that costs no more.
  have hcheap : ∀ x ∈ q.journeyCosts t rate, ∃ it, found = some it ∧ it.totalCost ≤ x := by
    rintro x ⟨n, b, i, T, c, hn, htravels, hc, hstop, rfl⟩
    rcases hanswer.le_of_covered hbound (hforeseen n b i T hn htravels) (hleaves c hc i hstop)
      (hegress c hc).2 with ⟨it, hit, hle⟩
    exact ⟨it, hit, WithTop.coe_le_coe.mp hle⟩
  have hsound : ∀ it, found = some it → it.totalCost ∈ q.journeyCosts t rate := by
    intro it hit
    rcases hanswer.arrives it hit with ⟨i, a, ha, htotal⟩
    rw [htotal]
    exact harrives i a ha
  refine ⟨e', found, hanswer.search, ⟨fun hnone => ?_, fun hempty => ?_⟩, fun it hit =>
    ⟨hsound it hit, fun x hx => ?_⟩⟩
  · refine Set.eq_empty_of_forall_notMem fun x hx => ?_
    rcases hcheap x hx with ⟨it, hit, -⟩
    exact absurd (hnone.symm.trans hit) (by simp only [reduceCtorEq, not_false_eq_true])
  · cases hfound : found with
    | none => rfl
    | some it =>
        have hmem := hsound it hfound
        rw [hempty] at hmem
        exact absurd hmem (Set.notMem_empty _)
  · rcases hcheap x hx with ⟨it', hit', hle⟩
    rw [hit, Option.some.injEq] at hit'
    rwa [hit']

/-- The earliest arrival with a change of vehicles costs a minute. -/
theorem InService.isLeast_changeover :
    IsLeast (Sample.trip.journeyCosts Sample.changeover.assemble 1) 60 := by
  have himmediate : Sample.changeover.assemble.Immediate := fun i rs hrs =>
    (by decide +kernel : ∀ rs ∈ Sample.changeover.assemble.routeStops,
      rs.arrivalOffset = rs.departureOffset) rs (Array.mem_of_getElem? hrs)
  have hclosed : Sample.trip.Closed Sample.changeover.assemble :=
    ⟨by decide +kernel, by decide +kernel⟩
  have hcosts : Sample.trip.CostsTime 1 :=
    ⟨by decide +kernel, by decide +kernel, by decide +kernel, by decide +kernel, by decide +kernel⟩
  rcases InService.isLeast_journeyCosts Sample.hypotenuse_nonneg Sample.build_changeover
    InService.new (q := Sample.trip) ⟨by decide +kernel, by decide +kernel⟩ himmediate hclosed
    hcosts (by decide +kernel) (by decide +kernel) with ⟨e', found, hsearch, -, hleast⟩
  have hanswer : Sample.answer Sample.changeover Sample.trip = some (some 60) := by decide +kernel
  rcases Sample.search?_of_answer hanswer with ⟨e'', found', hsearch', hcost⟩
  rw [hsearch, Option.some.injEq, Prod.mk.injEq] at hsearch'
  rw [← hsearch'.2] at hcost
  rcases Option.map_eq_some_iff.mp hcost with ⟨it, hit, htotal⟩
  rw [← htotal]
  exact hleast it hit

end Engine

end Journey
