import Journey.Proofs.Sample
import Journey.Proofs.Search.Answer

/-!
# Direct Rides

What the search promises about a ride without any transfer.

A direct ride takes the next vehicle from the stop of an access candidate to
that of an egress candidate. One would like an itinerary never to cost more than
any of them, but a scan holds one vehicle at a time and chooses it by when it
leaves, not by what boarding it costs. So a dear access can keep a cheap one
further ahead from being used, and where an earlier vehicle is boarded the one
held is not even left.

What is true is that the ride which the scan prefers bounds the cost. It is on a
vehicle of the same route that is no later, boarded from an access candidate as
well, and `Prevails` says which ones come into question. If there is none but
the ride itself, then that is the bound.

## Main definitions

* `SearchQuery.Boards`: An access candidate catches a vehicle.
* `SearchQuery.RidesAt`: What coming to a route-stop with it costs.

## Theorems

* `Workspace.covered_of_explore?`: The first round covers what a scan prefers.
* `Engine.InService.le_prevailing_ride`: An itinerary costs no more than it.
-/

namespace Journey

variable {K : Type} [Field K] [LinearOrder K] {t : Timetable K} {q : SearchQuery K}

namespace SearchQuery

/-- From a route-stop at its stop, an access candidate catches the vehicle of a
    trip as the next one. -/
structure Boards (q : SearchQuery K) (t : Timetable K) (c : Candidate K) (k d : Nat) : Prop where
  candidate : c ∈ q.access
  stop : t.stopOf? k = some c.stop
  next : t.nextTrip? k (q.departureTime + c.time) = some (some d)

/-- What it costs to come to a route-stop with the vehicle that an access
    candidate boards: nothing but the access where it is boarded, and waiting
    and riding further ahead. -/
def RidesAt (q : SearchQuery K) (t : Timetable K) (c : Candidate K) (k d j : Nat) (x : K) : Prop :=
  (k = j ∧ x = c.cost) ∨ (t.Ahead k j ∧ ∃ a b enter, t.arrival? d k = some a ∧
    t.arrival? d j = some b ∧ enter = max (q.departureTime + c.time) a ∧
    x = c.cost + (enter - (q.departureTime + c.time)) * q.parameters.waitingCost
      + (b - enter) * q.parameters.inVehicleCost)

-- A direct ride costs no less than its access.
theorem Boards.exists_ridesAt [IsStrictOrderedRing K] {c : Candidate K} {i d j : Nat}
    (h : q.Boards t c i d) (hw : t.WellFormed) (hc : t.Chronological)
    (hp : q.parameters.validate = .ok ()) (hij : t.Ahead i j) :
    ∃ x, q.RidesAt t c i d j x ∧ c.cost ≤ x := by
  have hserves := (Timetable.nextTrip?_some h.next).1
  rcases hserves.exists_arrival hw with ⟨a, ha⟩
  rcases hserves.exists_departure hw with ⟨departs, hdeparts⟩
  rcases (hserves.ahead hij).exists_arrival hw with ⟨b, hb⟩
  refine ⟨_, Or.inr ⟨hij, a, b, _, ha, hb, rfl, rfl⟩, ?_⟩
  have hcaught := le_trans (Timetable.le_departure_of_nextTrip? h.next hdeparts)
    (hc.departure_le_arrival hij hdeparts hb)
  have henter : max (q.departureTime + c.time) a ≤ b :=
    max_le hcaught (hc.arrival_le_arrival hw hserves hij ha hb)
  have hwait := mul_nonneg (sub_nonneg.mpr (le_max_left (q.departureTime + c.time) a))
    (Parameters.waitingCost_nonneg hp)
  have hride := mul_nonneg (sub_nonneg.mpr henter) (Parameters.inVehicleCost_nonneg hp)
  linarith

end SearchQuery

namespace Workspace

variable {w w₁ w₂ w' : Workspace K} {policy : TransferPolicy K}

-- A label that was not stored on the way is what its access candidate says.
theorem exists_candidate {l : Label K} {earlier : Array (Label K)}
    (hl : l.IsLegal t policy q earlier) (hstep : ∃ n, l.step = .access n) :
    ∃ c ∈ q.access, t.stopOf? l.routeStop = some c.stop ∧ l.time = q.departureTime + c.time ∧
      l.cost = c.cost := by
  rcases hstep with ⟨n, hstep⟩
  cases hl with
  | access k c step previous candidate stop time cost =>
      exact ⟨c, List.mem_of_getElem? candidate, stop, time, cost⟩
  | ride id p trip b v enter step =>
      rw [hstep] at step
      exact absurd step (by simp only [reduceCtorEq, not_false_eq_true])
  | transfer id p f duration increment fm tm step =>
      rw [hstep] at step
      exact absurd step (by simp only [reduceCtorEq, not_false_eq_true])

-- Whatever the first round of a search sweeps is covered in the end.
theorem covered_of_rounds? (hw : t.WellFormed) (hf : w.Fits t) (hm : w.Marked t) {budget : Nat}
    (h : w.rounds? t policy q (budget + 1) = some w') {i j id d : Nat} {l : Label K}
    (hi : i ∈ w.improved.toList) (hij : t.Ahead i j) (hl : w.Holds i id l)
    (hd : t.nextTrip? i l.time = some (some d)) :
    ∃ k id' l' d' c, w.Holds k id' l' ∧ t.nextTrip? k l'.time = some (some d') ∧
      Prevails k d' i d ∧ l'.Brings t q.parameters d' j c ∧ w'.Covered j c := by
  unfold rounds? at h
  rcases Option.bind_eq_some_iff.mp h with ⟨w₄, hround, h⟩
  rcases round?_eq_some hround with ⟨w₁, w₂, w₃, hopen, hscan, hrelax, rfl⟩
  have hquiet := (quiet_openRound? hopen).1
  have hf₁ := hquiet.fits hf
  have hswept := swept_of_scanRoutes? hw hf₁ hscan
  have hscanned : Run t policy q w₁ w₂ ∧ w₂.ByVehicle :=
    run_of_scanning hw hf₁ (byVehicle_of_openRound? hopen) (Loop.passes_of_foldlM _ hscan)
  have hwalks : Run t policy q w₂ w₃ := run_of_relax? hw hswept.fits hscanned.2 hrelax
  have hclose : Run t policy q w₃ w₃.closeRound := Run.single (Event.quiet (quiet_closeRound w₃))
  have hfirst := hwalks.trans hclose
  -- The rounds that follow, if there are any, lose nothing.
  have hrest : Run t policy q w₂ w' := by
    split at h
    · rw [← Option.some.inj h]
      exact hfirst
    · exact hfirst.trans ((inRounds_of_rounds? h).run hw (hfirst.fits hswept.fits))
  rcases hm.sweeps hw hf hopen hswept hi hij id l d ((hquiet.holds_iff i id l).mpr hl) hd with
    ⟨k, id', l', d', c, hk, hd', hprevails, -, hc, hcov⟩
  exact ⟨k, id', l', d', c, (hquiet.holds_iff k id' l').mp hk, hd', hprevails, hc,
    hrest.covered hswept.fits hcov⟩

variable [IsStrictOrderedRing K]

/-- A search covers, for every direct ride, one that the scan prefers to it. -/
theorem covered_of_explore? {price : K} (hw : t.WellFormed) (hc : t.Chronological) (hf : w.Fits t)
    (hp : q.parameters.validate = .ok ()) (hdistinct : (q.access.map (·.stop)).Nodup)
    (h : w.explore? t (TransferPolicy.flat price) q = some w') {a : Candidate K} {i d j : Nat}
    (ha : q.Boards t a i d) (hij : t.Ahead i j) :
    ∃ b k d' x, q.Boards t b k d' ∧ Prevails k d' i d ∧ q.RidesAt t b k d' j x ∧
      w'.Covered j (x : K) := by
  rcases explore?_eq_some h with ⟨w₁, w₂, hbegin, hrounds, rfl⟩
  have hbegun : Settled t q price (fun _ _ => ⊤) w.reset 0 w₁ ∧ _ := Settled.of_begin? hw hf hbegin
  rcases hbegun with ⟨hsettled, haccess, hnew⟩
  have hf₁ := hsettled.run.fits hf.reset
  have hlegal := hsettled.run.legal hf.clean_reset.legal
  have hend : Run t (TransferPolicy.flat price) q w₁ w₂.conclude :=
    ((inRounds_of_rounds? hrounds).run hw hf₁).trans
      (Run.single (Event.quiet (quiet_conclude w₂)))
  -- What a route-stop holds before the first round is due to an access candidate.
  have hcandidate : ∀ k id l, w₁.Holds k id l → ∃ c ∈ q.access, t.stopOf? k = some c.stop ∧
      l.time = q.departureTime + c.time ∧ l.cost = c.cost := by
    intro k id l hl
    rw [← hf₁.holds_routeStop hl]
    exact exists_candidate (hlegal id l hl.2) (haccess id l hl.2)
  rcases hsettled.access a ha.candidate i ha.stop with ⟨bound, hb, hle⟩ | ⟨id, l, hl, -⟩
  · -- A complete journey is no dearer than the access alone.
    rcases ha.exists_ridesAt hw hc hp hij with ⟨x, hx, hax⟩
    exact ⟨a, i, d, x, ha, Or.inl ⟨rfl, rfl⟩, hx, hend.covered hf₁
      (Or.inl ⟨bound, hb, le_trans hle (WithTop.coe_le_coe.mpr hax)⟩)⟩
  · rcases hcandidate i id l hl with ⟨c, hca, hstop, htime, -⟩
    have hsame : a = c := by
      refine List.inj_on_of_nodup_map hdistinct ha.candidate hca ?_
      exact Option.some.inj (ha.stop.symm.trans hstop)
    have hd : t.nextTrip? i l.time = some (some d) := by
      rw [htime, ← hsame]
      exact ha.next
    rcases covered_of_rounds? hw hf₁ hsettled.marked hrounds (hnew i id l hl) hij hl hd with
      ⟨k, id', l', d', x, hk, hd', hprevails, hx, hcov⟩
    rcases hcandidate k id' l' hk with ⟨b, hbq, hbstop, hbtime, hbcost⟩
    rw [hbtime] at hd'
    refine ⟨b, k, d', x, ⟨hbq, hbstop, hd'⟩, hprevails, ?_, hcov⟩
    unfold Label.Brings at hx
    rw [hf₁.holds_routeStop hk, hbtime, hbcost] at hx
    simp only [Scalar.larger_eq_max] at hx
    exact hx

end Workspace

namespace Engine

variable [IsStrictOrderedRing K] [Planar K] [MarkerTree K] {price : K}

/-- For every direct ride, a search finds an itinerary that costs no more than
    a ride that the scan prefers to it, boarded from an access candidate as
    well. -/
theorem InService.le_prevailing_ride (hlength : ∀ x y : K, 0 ≤ Planar.hypotenuse x y)
    {draft : Draft K} (hbuild : draft.build = .ok t) {e : Engine K}
    (he : InService t (TransferPolicy.flat price) e) (hin : q.Within t)
    (hp : q.parameters.validate = .ok ()) (hdistinct : (q.access.map (·.stop)).Nodup)
    (haccess : ∀ c ∈ q.access, 0 ≤ c.time) (hegress : ∀ c ∈ q.egress, 0 ≤ c.time ∧ 0 ≤ c.cost)
    {a g : Candidate K} {i d j : Nat} (ha : q.Boards t a i d) (hij : t.Ahead i j)
    (hg : g ∈ q.egress) (hj : t.stopOf? j = some g.stop) :
    ∃ e' it, e.search? q = some (e', some it) ∧ ∃ b k d' x, q.Boards t b k d' ∧
      Prevails k d' i d ∧ q.RidesAt t b k d' j x ∧ it.totalCost ≤ x + g.cost := by
  have hw := Draft.wellFormed_of_build hbuild
  have hq : q.Timely t :=
    SearchQuery.timely_of_build hlength hbuild haccess fun c hc => (hegress c hc).1
  rcases he.answered hw (TransferPolicy.flat_answers price) hin hq with ⟨e', found, hanswer⟩
  rcases Workspace.covered_of_explore? hw hq.chronological hanswer.fits hp hdistinct
    hanswer.explored ha hij with ⟨b, k, d', x, hb, hprevails, hx, hcov⟩
  have hend := Workspace.ends_of_explore? hw hanswer.fits hanswer.explored
  rcases hanswer.le_of_covered hend.1 hcov (hend.2 g hg j hj) (hegress g hg).2 with ⟨it, rfl, hle⟩
  exact ⟨e', it, hanswer.search, b, k, d', x, hb, hprevails, hx, WithTop.coe_le_coe.mp hle⟩

end Engine

namespace Sample

/-- One vehicle, which stops at the second stop on its way. -/
def oneVehicle : Draft ℚ :=
  network ["A", "B", "E"] [line "one" [("A", 0), ("B", 60), ("E", 120)] [100]] []

/-- It can be boarded at the first stop after a dear access, and at the second
    one for nothing. -/
def dearOrFree : SearchQuery ℚ := query [candidate 0 100, candidate 1 0] [candidate 2 0] 0

theorem build_oneVehicle : oneVehicle.build = .ok oneVehicle.assemble :=
  build_eq_ok (by decide +kernel)

theorem boards_oneVehicle : dearOrFree.Boards oneVehicle.assemble (candidate 1 0) 1 0 :=
  ⟨by decide +kernel, by decide +kernel, by decide +kernel⟩

end Sample

namespace Engine

open Sample

/-- An itinerary may cost more than a direct ride. The vehicle was boarded at
    the first stop, and boarding it at the second would make it no earlier. -/
theorem InService.dearer_than_direct_ride :
    oneVehicle.build = .ok oneVehicle.assemble ∧ dearOrFree.Within oneVehicle.assemble ∧
      dearOrFree.parameters.validate = .ok () ∧ (dearOrFree.access.map (·.stop)).Nodup ∧
      (∀ c ∈ dearOrFree.access ++ dearOrFree.egress, 0 ≤ c.time ∧ 0 ≤ c.cost) ∧
      dearOrFree.Boards oneVehicle.assemble (candidate 1 0) 1 0 ∧
      oneVehicle.assemble.Ahead 1 2 ∧ candidate 2 0 ∈ dearOrFree.egress ∧
      oneVehicle.assemble.stopOf? 2 = some (candidate 2 0).stop ∧
      dearOrFree.RidesAt oneVehicle.assemble (candidate 1 0) 1 0 2 220 ∧
      ∃ e' it, (Engine.new oneVehicle.assemble (TransferPolicy.flat 0)).search? dearOrFree
        = some (e', some it) ∧ 220 + (candidate 2 0).cost < it.totalCost := by
  have hahead : oneVehicle.assemble.Ahead 1 2 := by decide +kernel
  refine ⟨build_oneVehicle, ⟨by decide +kernel, by decide +kernel⟩, by decide +kernel,
    by decide +kernel, by decide +kernel, boards_oneVehicle, hahead, by decide +kernel,
    by decide +kernel, ?_, ?_⟩
  · exact Or.inr ⟨hahead, 160, 220, 160, by decide +kernel, by decide +kernel, by decide +kernel,
      by decide +kernel⟩
  · have hanswer : answer oneVehicle dearOrFree = some (some 320) := by decide +kernel
    rcases search?_of_answer hanswer with ⟨e', found, hsearch, hcost⟩
    rcases Option.map_eq_some_iff.mp hcost with ⟨it, rfl, htotal⟩
    refine ⟨e', it, hsearch, ?_⟩
    rw [htotal]
    decide +kernel

/-- There the ride that prevails bounds the cost. -/
theorem InService.le_prevailing_ride_oneVehicle :
    ∃ e' it, (Engine.new oneVehicle.assemble (TransferPolicy.flat 0)).search? dearOrFree
      = some (e', some it) ∧ ∃ b k d' x, dearOrFree.Boards oneVehicle.assemble b k d' ∧
        Prevails k d' 1 0 ∧ dearOrFree.RidesAt oneVehicle.assemble b k d' 2 x ∧
        it.totalCost ≤ x + (candidate 2 0).cost :=
  InService.le_prevailing_ride hypotenuse_nonneg build_oneVehicle InService.new
    ⟨by decide +kernel, by decide +kernel⟩ (by decide +kernel) (by decide +kernel)
    (by decide +kernel) (by decide +kernel) boards_oneVehicle (by decide +kernel)
    (by decide +kernel) (by decide +kernel)

end Engine

end Journey
