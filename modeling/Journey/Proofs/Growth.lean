import Mathlib.Tactic.Linarith
import Journey.Proofs.Penalties
import Journey.Proofs.Search.RunStarts
import Journey.Proofs.Timetable.Chronology
import Journey.Proofs.TransferCosts

/-!
# What Only Grows

Going on never makes a journey cheaper, shorter or of fewer transfers.

Times grow because vehicles are in order and no walk takes negative time, and the
costs of riding, waiting and walking grow with them. What a transfer adds is the
difference of two prices of the same journey, and it is not clear at once that it is
not negative. It is not, because the second price is that of more transfers, over a
longer time, and a price does not fall as time passes. This needs the closed form of
what was paid before: the policy subtracts a sum of which it only knows the value.

## Main definitions

* `TransferPolicy.BuiltIn`: The policies that a search comes with.
* `SearchQuery.Growing`: The assumptions under which journeys grow.

## Theorems

* `Label.wholePrice_le`, `ModeRun.price_le`: Bounds of prices by a later price.
* `Workspace.Legal.increment_nonneg`: No increment is negative.
* `Workspace.Legal.grows`: Cost, time and transfers grow along the trace of a legal
  label.
* `TransferPolicy.BuiltIn.answers`: The policies answer whatever a search asks.
-/

namespace Journey

variable {K : Type} [Field K] [LinearOrder K]

/-- The policies that a search comes with, when the flat price is not negative and a
    table of mode changes was accepted. -/
inductive TransferPolicy.BuiltIn (modes : List Mode) : TransferPolicy K → Prop where
  | flat {price : K} (nonneg : 0 ≤ price) : BuiltIn modes (TransferPolicy.flat price)
  | timeProportional {table : Option (ModeChangeTable K)}
      (accepted : ∀ b ∈ table, ∃ entries, ModeChangeTable.ofEntries entries modes = .ok b) :
      BuiltIn modes (TransferPolicy.timeProportional table)

/-- The assumptions under which journeys grow: that the timetable was built, the
    parameters were accepted, the policy is one that a search comes with and no access
    candidate takes negative time. -/
structure SearchQuery.Growing (q : SearchQuery K) (t : Timetable K) (policy : TransferPolicy K) :
    Prop where
  wellFormed : t.WellFormed
  chronological : t.Chronological
  policy : policy.BuiltIn t.modes
  parameters : q.parameters.validate = .ok ()
  access : ∀ c ∈ q.access, 0 ≤ c.time

section Prices

variable [IsStrictOrderedRing K] {p : TransferPenalty K}

-- Earlier transfers cost no more than if they were priced at a later time.
theorem Label.wholePrice_le (hp : p.Nonneg) {departureTime elapsed : K}
    {transfers : List (Label K)} (h : ∀ l ∈ transfers, l.time - departureTime ≤ elapsed) :
    Label.wholePrice p departureTime transfers ≤ (transfers.length : K) * p.cost elapsed := by
  unfold Label.wholePrice
  cases hlast : transfers.getLast? with
  | none =>
      rw [List.getLast?_eq_none_iff.mp hlast, List.length_nil, Nat.cast_zero, zero_mul]
  | some last =>
      exact mul_le_mul_of_nonneg_left
        (hp.costWithBase_mono (le_refl 0) (h last (List.mem_of_getLast? hlast)))
        (Nat.cast_nonneg _)

-- The same for a run that has not been left for another mode.
theorem ModeRun.price_le {table : ModeChangeTable K} (hp : p.Nonneg) {r : ModeRun K} {elapsed : K}
    (h : ∀ x ∈ r.exits.getLast?, x.2 = r.mode ∧ x.1.time - r.boarding.time ≤ elapsed) :
    r.price table p ≤ (r.exits.length : K) * p.cost elapsed := by
  unfold ModeRun.price
  cases hlast : r.exits.getLast? with
  | none =>
      rw [List.getLast?_eq_none_iff.mp hlast, List.length_nil, Nat.cast_zero, zero_mul]
  | some x =>
      rcases h x hlast with ⟨hmode, htime⟩
      have hpos : 0 < r.exits.length :=
        List.length_pos_of_mem (List.mem_of_getLast? hlast)
      rcases Nat.exists_eq_add_one_of_ne_zero (Nat.ne_zero_of_lt hpos) with ⟨n, hn⟩
      have hcost : p.cost (x.1.time - r.boarding.time) ≤ p.cost elapsed :=
        hp.costWithBase_mono (le_refl 0) htime
      have hmul := mul_le_mul_of_nonneg_left hcost (Nat.cast_nonneg (α := K) n)
      have hbase : p.costWithBase 0 (x.1.time - r.boarding.time)
          = p.cost (x.1.time - r.boarding.time) := rfl
      simp only [hmode, if_true, hn, Nat.add_sub_cancel, Nat.cast_add, Nat.cast_one, hbase]
      linarith

end Prices

namespace Label

variable [IsStrictOrderedRing K] {t : Timetable K} {policy : TransferPolicy K} {q : SearchQuery K}
  {labels : Array (Label K)} {l m : Label K} {n : Nat}

-- The minimal transfer time keeps walks from taking negative time.
theorem IsLegal.time_le (h : l.IsLegal t policy q labels) (hc : t.Chronological)
    (hmin : 0 ≤ q.parameters.minTransferTime) (hprevious : l.previous = some n)
    (hm : labels[n]? = some m) : m.time ≤ l.time := by
  cases h with
  | access k c step previous => exact absurd (hprevious.symm.trans previous) (Option.some_ne_none n)
  | ride n' m' trip boardingTime vehicleArrival enter step previous predecessor ahead next boarding
      vehicle enters time =>
      rcases Label.predecessor_unique hm hprevious predecessor previous with ⟨rfl, rfl⟩
      exact le_trans (Timetable.le_departure_of_nextTrip? next boarding)
        (hc.departure_le_arrival ahead boarding time)
  | transfer n' m' f duration increment fromMode toMode step previous predecessor ride path takes
      left entered price time =>
      rcases Label.predecessor_unique hm hprevious predecessor previous with ⟨rfl, rfl⟩
      rw [Scalar.larger_eq_max] at takes
      have hduration : 0 ≤ duration := takes ▸ le_max_of_le_right hmin
      linarith

end Label

namespace Workspace

variable {t : Timetable K} {policy : TransferPolicy K} {q : SearchQuery K} {w : Workspace K}

-- The labels stored up to some position are legal as well.
theorem Legal.extract (h : w.Legal t policy q) (n : Nat) :
    ({ w with labels := w.labels.extract 0 n } : Workspace K).Legal t policy q := by
  intro id l hl
  rcases label_of_extract hl with ⟨hlt, hl⟩
  have hearlier : (w.labels.extract 0 n).extract 0 id = w.labels.extract 0 id := by
    rw [Array.extract_extract, Nat.zero_add, Nat.zero_add, Nat.min_eq_left (Nat.le_of_lt hlt)]
  exact hearlier ▸ h id l hl

variable [IsStrictOrderedRing K] {trace : List (Nat × Label K)} {id : Nat} {l m : Label K}

-- Time passes along a trace, from the departure on.
theorem Legal.time_le (h : w.Legal t policy q) (hc : t.Chronological)
    (hmin : 0 ≤ q.parameters.minTransferTime) (haccess : ∀ c ∈ q.access, 0 ≤ c.time)
    (htrace : Label.Traced w.labels trace id l) :
    ∀ x ∈ trace, q.departureTime ≤ x.2.time ∧ x.2.time ≤ l.time := by
  induction htrace with
  | @start id l label previous =>
      intro x hx
      rw [List.mem_singleton.mp hx]
      rcases (h id l label).of_previous_none previous with ⟨k, c, -, candidate, time, -⟩
      have hnonneg := haccess c (List.mem_of_getElem? candidate)
      refine ⟨?_, le_refl _⟩
      change q.departureTime ≤ l.time
      linarith
  | @extend trace n id m l before label previous later ih =>
      have hstep := (h id l label).time_le hc hmin previous (before.label_extract later)
      intro x hx
      rcases List.mem_append.mp hx with hx | hx
      · exact ⟨(ih x hx).1, le_trans (ih x hx).2 hstep⟩
      · rw [List.mem_singleton.mp hx]
        exact ⟨le_trans (ih _ before.self_mem).1 hstep, le_refl _⟩

-- Without a table, all transfers are priced by the time since the departure.
theorem Legal.increment_nonneg_of_none
    (h : w.Legal t (TransferPolicy.timeProportional none) q)
    (hp : q.parameters.transferPenalty.Nonneg) (htrace : Label.Traced w.labels trace id m)
    (htime : ∀ x ∈ trace, q.departureTime ≤ x.2.time ∧ x.2.time ≤ m.time) {c : TransferContext K}
    (hparameters : c.parameters = q.parameters) (htransfers : c.transfers = m.transfers + 1)
    (hexisting : c.existingCost = m.transferCost)
    (hlate : m.time - q.departureTime ≤ c.totalTravelTime) : 0 ≤ TransferPolicy.repriced c := by
  rcases h.wholePrice_eq htrace with ⟨hcount, hpaid⟩
  have hself := (htime _ htrace.self_mem).1
  have helapsed : 0 ≤ c.totalTravelTime := le_trans (sub_nonneg.mpr hself) hlate
  have hle : m.transferCost ≤ (m.transfers : K) *
      q.parameters.transferPenalty.cost c.totalTravelTime := by
    rw [hpaid, hcount]
    refine Label.wholePrice_le hp fun x hx => ?_
    rcases List.mem_map.mp (List.mem_of_mem_filter hx) with ⟨y, hy, rfl⟩
    have hy' := (htime y hy).2
    linarith
  have hone := hp.costWithBase_nonneg (le_refl 0) helapsed
  unfold TransferPolicy.repriced
  rw [hparameters, htransfers, hexisting, Nat.cast_add, Nat.cast_one]
  change 0 ≤ q.parameters.transferPenalty.cost c.totalTravelTime at hone
  linarith

-- With a table, only the current run is priced anew, and it has not been left for
-- another mode as long as it is ridden.
theorem increment_nonneg_of_onRun {table : ModeChangeTable K} {p : TransferPenalty K}
    (hp : p.Nonneg) {labels : Array (Label K)} {runs : List (ModeRun K)}
    {r : ModeRun K} (hrun : Label.OnRun t labels trace m id m runs r)
    (hboarded : r.boarding.transferCost = (runs.map (ModeRun.price table p)).sum)
    (hpaid : m.transferCost = (runs.map (ModeRun.price table p)).sum + r.price table p)
    (htime : ∀ x ∈ trace, x.2.time ≤ m.time) {c : TransferContext K}
    (hparameters : c.parameters.transferPenalty = p) (htransfers : c.transfers = m.transfers + 1)
    (hexisting : c.existingCost = m.transferCost) (hlate : m.time ≤ c.arrivalTime) {pair : K}
    (hpair : 0 ≤ pair) : 0 ≤ TransferPolicy.repricedSince r.boarding pair c := by
  rcases hrun.boarding_mem with ⟨n, hboarding⟩
  have hcount : m.transfers + 1 - r.boarding.transfers - 1 = r.exits.length := by
    rw [hrun.count]
    omega
  have hle : r.price table p ≤ (r.exits.length : K) * p.cost (c.arrivalTime - r.boarding.time) := by
    refine ModeRun.price_le hp fun x hx => ⟨?_, ?_⟩
    · exact Option.some.inj ((hrun.onward x hx).symm.trans hrun.mode)
    · rcases hrun.exit_mem x (List.mem_of_getLast? hx) with ⟨k, hk⟩
      have hx' := htime _ hk
      change x.1.time ≤ m.time at hx'
      linarith
  have hone : 0 ≤ p.costWithBase pair (c.arrivalTime - r.boarding.time) := by
    have hstart := htime _ hboarding
    change r.boarding.time ≤ m.time at hstart
    exact hp.costWithBase_nonneg hpair (by linarith)
  unfold TransferPolicy.repricedSince
  simp only [hparameters, htransfers, hexisting, hcount, hboarded, hpaid]
  linarith

/-- No increment is negative: whatever a ride has paid, more transfers at a later time
    cost no less. -/
theorem Legal.increment_nonneg (h : w.Legal t policy q) (hq : q.Growing t policy)
    (hm : w.labels[id]? = some m) (hride : m.isRide = true) {fromMode toMode : Mode} {duration : K}
    (hduration : 0 ≤ duration) {increment : K}
    (hprice : policy t
      { labels := w.labels, ride := id, fromMode, toMode, arrivalTime := m.time + duration
        totalTravelTime := m.time + duration - q.departureTime
        transfers := m.transfers + 1, existingCost := m.transferCost
        parameters := q.parameters } = some increment) : 0 ≤ increment := by
  have hp := Parameters.transferPenalty_nonneg hq.parameters
  have hmin := (Parameters.validate_ok hq.parameters).2.2.2
  have hlate : m.time ≤ m.time + duration := by linarith
  cases hq.policy with
  | flat nonneg =>
      rw [TransferPolicy.flat, Option.some.injEq] at hprice
      exact hprice ▸ nonneg
  | @timeProportional table accepted =>
      cases table with
      | none =>
          rcases h.exists_traced id m hm with ⟨trace, htrace⟩
          rw [TransferPolicy.timeProportional, Option.some.injEq] at hprice
          rw [← hprice]
          exact h.increment_nonneg_of_none hp htrace
            (h.time_le hq.chronological hmin hq.access htrace) rfl rfl rfl
            (sub_le_sub_right hlate _)
      | some table =>
          rcases accepted table rfl with ⟨entries, hentries⟩
          have htable := ModeChangeTable.sound_of_ofEntries hentries
          rcases h.paid hq.wellFormed htable id m hm with ⟨trace, htrace, hpaid⟩
          cases hpaid with
          | access single noRide => exact absurd (noRide.symm.trans hride) Bool.false_ne_true
          | run hrun before ride last boarded paid =>
              rcases last hride with ⟨rfl, rfl⟩
              simp only [TransferPolicy.timeProportional, hrun.runStart?_eq hm hride,
                Option.bind_eq_bind, Option.bind_some, Option.pure_def, Option.some.injEq] at hprice
              rw [← hprice]
              exact increment_nonneg_of_onRun hp hrun boarded paid
                (fun x hx => (h.time_le hq.chronological hmin hq.access htrace x hx).2) rfl rfl rfl
                hlate (htable.penalty_nonneg _ _)

/-- No step makes a journey cheaper or takes transfers back. -/
theorem Legal.cost_le (h : w.Legal t policy q) (hq : q.Growing t policy)
    (hl : l.IsLegal t policy q w.labels) (hprevious : l.previous = some id)
    (hm : w.labels[id]? = some m) : m.cost ≤ l.cost ∧ m.transfers ≤ l.transfers := by
  have hmin := (Parameters.validate_ok hq.parameters).2.2.2
  have htime := hl.time_le hq.chronological hmin hprevious hm
  cases hl with
  | access k c step previous =>
      exact absurd (hprevious.symm.trans previous) (Option.some_ne_none id)
  | ride n m' trip boardingTime vehicleArrival enter step previous predecessor ahead next boarding
      vehicle enters time cost transfers =>
      rcases Label.predecessor_unique hm hprevious predecessor previous with ⟨rfl, rfl⟩
      rw [Scalar.larger_eq_max] at enters
      -- The traveller enters no earlier than they come and no later than they leave.
      have hwaits : m.time ≤ enter := enters ▸ le_max_left _ _
      have hrides : enter ≤ l.time := by
        rw [enters]
        exact max_le htime (hq.chronological.arrival_le_arrival hq.wellFormed
          (Timetable.nextTrip?_some next).1 ahead vehicle time)
      have hwait := mul_nonneg (sub_nonneg.mpr hwaits)
        (Parameters.waitingCost_nonneg hq.parameters)
      have hride := mul_nonneg (sub_nonneg.mpr hrides)
        (Parameters.inVehicleCost_nonneg hq.parameters)
      exact ⟨by linarith, Nat.le_of_eq transfers.symm⟩
  | transfer n m' f duration increment fromMode toMode step previous predecessor ride path takes
      left entered price time cost transfers =>
      rcases Label.predecessor_unique hm hprevious predecessor previous with ⟨rfl, rfl⟩
      have hduration : 0 ≤ duration := by linarith
      have hwalk := mul_nonneg hduration (Parameters.walkCost_nonneg hq.parameters)
      have hincrement := h.increment_nonneg hq hm ride hduration price
      exact ⟨by linarith, transfers ▸ Nat.le_succ _⟩

/-- Cost, time and transfers grow along the trace of a legal label. -/
theorem Legal.grows (h : w.Legal t policy q) (hq : q.Growing t policy)
    (htrace : Label.Traced w.labels trace id l) :
    ∀ x ∈ trace, x.2.cost ≤ l.cost ∧ x.2.time ≤ l.time ∧ x.2.transfers ≤ l.transfers := by
  have hmin := (Parameters.validate_ok hq.parameters).2.2.2
  have htime := h.time_le hq.chronological hmin hq.access htrace
  suffices hgrows : ∀ x ∈ trace, x.2.cost ≤ l.cost ∧ x.2.transfers ≤ l.transfers from
    fun x hx => ⟨(hgrows x hx).1, (htime x hx).2, (hgrows x hx).2⟩
  clear htime
  induction htrace with
  | start label previous =>
      intro x hx
      rw [List.mem_singleton.mp hx]
      exact ⟨le_refl _, Nat.le_refl _⟩
  | @extend trace n id m l before label previous later ih =>
      have hstep := (h.extract id).cost_le hq (h id l label) previous (before.label_extract later)
      intro x hx
      rcases List.mem_append.mp hx with hx | hx
      · exact ⟨le_trans (ih x hx).1 hstep.1, Nat.le_trans (ih x hx).2 hstep.2⟩
      · rw [List.mem_singleton.mp hx]
        exact ⟨le_refl _, Nat.le_refl _⟩

end Workspace

theorem TransferPolicy.BuiltIn.standard {modes : List Mode} {policy : TransferPolicy K}
    (h : policy.BuiltIn modes) : policy.Standard := by
  cases h with
  | flat nonneg => exact Standard.flat _
  | timeProportional accepted => exact Standard.timeProportional _

/-- The policies answer whatever a search asks. -/
theorem TransferPolicy.BuiltIn.answers {t : Timetable K} {policy : TransferPolicy K}
    (h : policy.BuiltIn t.modes) (hw : t.WellFormed) (q : SearchQuery K) : policy.Answers t q :=
  h.standard.answers hw q

end Journey
