import Mathlib.Tactic.Linarith
import Mathlib.Tactic.Ring
import Journey.Itinerary
import Journey.Proofs.Exact
import Journey.Proofs.Findings

/-!
# Consistent Legs

Which legs make an itinerary, and how far its times can be out of order.

Legs are checked in two passes, first each of them and then each two that follow one
another, and the first thing that is wrong is reported. As for drafts of timetables,
`Flaw` lists everything that can be wrong together with its place: having no legs is
part 0, the durations are part 1 and the junctions part 2, where legs that do not meet
come before legs that overlap. So the last leg's duration comes before the first
junction. Only the lists of legs without a flaw make an itinerary, and it has these legs
and the totals it was given.

Times are compared with a tolerance. It is allowed for once within each leg and once
between two, so it adds up along the trip: of two legs, the first one can depart after
the second one has arrived by one tolerance for every leg and every junction from the one
to the other, but by no more.

## Main definitions

* `Itinerary.Consistent`: What has to be true of legs.
* `Leg.Misfit`: What can be wrong between two legs.
* `Itinerary.Flaw`: What can be wrong with legs, and where.

## Theorems

* `Itinerary.verdict_inconsistency?`: The check of legs finds their first flaw.
* `Itinerary.assemble_eq_ok_iff`: Which legs make which itinerary.
* `Itinerary.Consistent.departureTime_le`: How the tolerance adds up.
* `Itinerary.assembles_consistent`: What is accepted, what is reported, and the bound.
-/

namespace Journey

variable {K : Type} [Field K] [LinearOrder K]

/-- What can be wrong between two consecutive legs. -/
inductive Leg.Misfit (previous next : Leg K) : List Nat → ItineraryError K → Prop where
  | place : previous.target ≠ next.origin →
    Misfit previous next [0] (.disconnected previous.target next.origin)
  | time : next.departureTime < previous.arrivalTime - Itinerary.tolerance →
    Misfit previous next [1] (.overlap previous.arrivalTime next.departureTime)

namespace Itinerary

/-- What has to be true of the legs of an itinerary. -/
structure Consistent (legs : List (Leg K)) : Prop where
  ne_nil : legs ≠ []
  /-- No leg takes negative time, but for the tolerance. -/
  duration : ∀ leg ∈ legs, -tolerance ≤ leg.travelTime
  /-- Every leg ends where the next one begins. -/
  meets : legs.IsChain fun a b => a.target = b.origin
  /-- No leg departs before the previous one arrives, but for the tolerance. -/
  inOrder : legs.IsChain fun a b => a.arrivalTime - tolerance ≤ b.departureTime

/-- What can be wrong with legs, and where. -/
inductive Flaw (legs : List (Leg K)) : List Nat → ItineraryError K → Prop where
  | noLegs : legs = [] → Flaw legs [0] .noLegs
  | duration (n : Nat) (leg : Leg K) : legs[n]? = some leg → leg.travelTime < -tolerance →
    Flaw legs [1, n] (.negativeDuration leg.travelTime)
  | junction (n : Nat) (previous next : Leg K) (place : List Nat) (error : ItineraryError K) :
    legs[n]? = some previous → legs[n + 1]? = some next → previous.Misfit next place error →
      Flaw legs (2 :: n :: place) error

section Junctions

variable {β : Type} {l : List β}

theorem getElem?_zip_tail {n : Nat} {a b : β} :
    (l.zip l.tail)[n]? = some (a, b) ↔ l[n]? = some a ∧ l[n + 1]? = some b := by
  rw [List.getElem?_zip_eq_some, List.getElem?_tail]

-- A chain is a condition on every element and the one after it.
theorem isChain_iff_getElem? {R : β → β → Prop} :
    l.IsChain R ↔ ∀ n a b, l[n]? = some a → l[n + 1]? = some b → R a b := by
  rw [List.isChain_iff_getElem]
  refine ⟨fun h n a b ha hb => ?_, fun h n hn => ?_⟩
  · rcases List.getElem?_eq_some_iff.mp ha with ⟨-, rfl⟩
    rcases List.getElem?_eq_some_iff.mp hb with ⟨hn, rfl⟩
    exact h n hn
  · exact h n _ _ (List.getElem?_eq_getElem _) (List.getElem?_eq_getElem hn)

-- The junctions are the pairs of a leg and the next one.
theorem junctionsError?_eq : ∀ legs : List (Leg K),
    junctionsError? legs = (legs.zip legs.tail).findSome? fun j => junctionError? j.1 j.2
  | [] | [_] => rfl
  | previous :: next :: rest => by
      rw [junctionsError?, junctionsError?_eq (next :: rest), List.tail_cons, List.tail_cons,
        List.zip_cons_cons, List.findSome?_cons]
      cases junctionError? previous next <;> rfl

end Junctions

variable {legs : List (Leg K)}

theorem consistent_iff : Consistent legs ↔ ∀ place error, ¬ Flaw legs place error := by
  refine ⟨fun h place error hflaw => ?_, fun h => ⟨?_, fun leg hleg => ?_, ?_, ?_⟩⟩
  · cases hflaw with
    | noLegs hbad => exact h.ne_nil hbad
    | duration n leg hleg hbad => exact absurd hbad (not_lt.mpr (h.duration leg
        (List.mem_of_getElem? hleg)))
    | junction n previous next place error hprevious hnext hbad =>
        cases hbad with
        | place hbad => exact hbad (isChain_iff_getElem?.mp h.meets n _ _ hprevious hnext)
        | time hbad => exact absurd hbad (not_lt.mpr (isChain_iff_getElem?.mp h.inOrder n _ _
            hprevious hnext))
  · exact fun hbad => h _ _ (.noLegs hbad)
  · rcases List.getElem?_of_mem hleg with ⟨n, hn⟩
    exact not_lt.mp fun hbad => h _ _ (.duration n leg hn hbad)
  · exact isChain_iff_getElem?.mpr fun n a b ha hb =>
      not_not.mp fun hbad => h _ _ (.junction n a b _ _ ha hb (.place hbad))
  · exact isChain_iff_getElem?.mpr fun n a b ha hb =>
      not_lt.mp fun hbad => h _ _ (.junction n a b _ _ ha hb (.time hbad))

/-- The check of a junction finds the place before the time. -/
theorem verdict_junctionError? (previous next : Leg K) :
    Verdict (previous.Misfit next) (junctionError? previous next) := by
  have hparts : junctionError? previous next = firstOf
      [if previous.target ≠ next.origin then
          some (.disconnected previous.target next.origin) else none,
        if next.departureTime < previous.arrivalTime - tolerance then
          some (.overlap previous.arrivalTime next.departureTime) else none] := by
    unfold junctionError?
    split_ifs <;> rfl
  rw [hparts]
  refine Verdict.of_parts (fun e h => nomatch h) (fun n part hpart => ?_) fun n rest e hn h => ?_
  · match n, hpart with
    | 0, rfl => exact Verdict.of_condition .place fun | _, _, .place hbad => ⟨hbad, rfl, rfl⟩
    | 1, rfl => exact Verdict.of_condition .time fun | _, _, .time hbad => ⟨hbad, rfl, rfl⟩
  · cases h <;> exact absurd hn (by simp)

/-- The check of legs finds their first flaw. -/
theorem verdict_inconsistency? (legs : List (Leg K)) :
    Verdict (Flaw legs) (inconsistency? legs) := by
  have hparts : inconsistency? legs = firstOf
      [if legs = [] then some .noLegs else none, legs.findSome? negativeDuration?,
        (legs.zip legs.tail).findSome? fun j => junctionError? j.1 j.2] := by
    unfold inconsistency?
    rw [junctionsError?_eq]
    cases legs with
    | nil => rfl
    | cons leg rest =>
        rw [if_neg (by simp), if_neg (by simp)]
        generalize (leg :: rest).findSome? negativeDuration? = duration
        generalize ((leg :: rest).zip _).findSome? _ = junction
        cases duration <;> cases junction <;> rfl
  rw [hparts]
  refine Verdict.of_parts (fun e h => nomatch h) (fun n part hpart => ?_) fun n rest e hn h => ?_
  · match n, hpart with
    | 0, rfl => exact Verdict.of_condition .noLegs fun | _, _, .noLegs hbad => ⟨hbad, rfl, rfl⟩
    | 1, rfl =>
        refine Verdict.of_elements (G := fun leg place e => leg.travelTime < -tolerance ∧
            place = [] ∧ e = .negativeDuration leg.travelTime)
          (fun leg => Verdict.of_condition (fun hbad => ⟨hbad, rfl, rfl⟩) fun _ _ h => h) ?_
          fun | _, _, .duration n leg hleg hbad => ⟨n, leg, [], hleg, ⟨hbad, rfl, rfl⟩, rfl⟩
        rintro n leg _ _ hleg ⟨hbad, rfl, rfl⟩
        exact .duration n leg hleg hbad
    | 2, rfl =>
        refine Verdict.of_elements (fun j => verdict_junctionError? j.1 j.2) ?_ ?_
        · rintro n ⟨previous, next⟩ place e hj hbad
          rcases getElem?_zip_tail.mp hj with ⟨hprevious, hnext⟩
          exact .junction n previous next place e hprevious hnext hbad
        · intro _ e hflaw
          cases hflaw with
          | junction n previous next place _ hprevious hnext hbad =>
              exact ⟨n, (previous, next), place, getElem?_zip_tail.mpr ⟨hprevious, hnext⟩, hbad,
                rfl⟩
  · cases h <;> exact absurd hn (by simp)

section Assembling

variable (legs) (totalCost transferCost : K) (transfers : Nat)

theorem assemble_eq : assemble legs totalCost transferCost transfers =
    (inconsistency? legs).elim (.ok { legs, totalCost, transferCost, transfers }) .error := by
  unfold assemble
  cases inconsistency? legs <;> rfl

/-- Consistent legs make the itinerary that has them and the totals. -/
theorem assemble_eq_ok_iff (i : Itinerary K) :
    assemble legs totalCost transferCost transfers = .ok i ↔
      Consistent legs ∧ i = { legs, totalCost, transferCost, transfers } := by
  rw [assemble_eq, consistent_iff, ← (verdict_inconsistency? legs).eq_none_iff]
  cases inconsistency? legs with
  | none =>
      simp only [Option.elim_none, Except.ok.injEq, true_and]
      exact eq_comm
  | some error => simp only [Option.elim_some, reduceCtorEq, false_and]

end Assembling

variable [IsStrictOrderedRing K]

-- Within a leg and up to the next one the tolerance is allowed for once each.
theorem Consistent.departureTime_le_next (h : Consistent legs) {n : Nat} {a b : Leg K}
    (ha : legs[n]? = some a) (hb : legs[n + 1]? = some b) :
    a.departureTime ≤ b.departureTime + 2 * tolerance := by
  have hduration := h.duration a (List.mem_of_getElem? ha)
  have horder := isChain_iff_getElem?.mp h.inOrder n a b ha hb
  unfold Leg.travelTime at hduration
  linarith

/-- The tolerance adds up from one departure to a later one. -/
theorem Consistent.departureTime_le_departureTime (h : Consistent legs) {i : Nat} {a : Leg K}
    (ha : legs[i]? = some a) (d : Nat) : ∀ b, legs[i + d]? = some b →
      a.departureTime ≤ b.departureTime + 2 * d * tolerance := by
  induction d with
  | zero =>
      intro b hb
      rw [Nat.add_zero, ha, Option.some.injEq] at hb
      rw [hb, Nat.cast_zero, mul_zero, zero_mul, add_zero]
  | succ d ih =>
      intro b hb
      have hlt : i + d < legs.length := Nat.lt_of_succ_lt (List.getElem?_eq_some_iff.mp hb).1
      have hnext := h.departureTime_le_next (List.getElem?_eq_getElem hlt) hb
      have hsum : 2 * ((d + 1 : Nat) : K) * tolerance = 2 * d * tolerance + 2 * tolerance := by
        push_cast
        ring
      rw [hsum]
      linarith [ih _ (List.getElem?_eq_getElem hlt)]

/-- A leg departs no later than a later one arrives, but for one tolerance for every leg
    and every junction from the one to the other. -/
theorem Consistent.departureTime_le (h : Consistent legs) {i j : Nat} {a b : Leg K}
    (ha : legs[i]? = some a) (hb : legs[j]? = some b) (hij : i ≤ j) :
    a.departureTime ≤ b.arrivalTime + (2 * (j - i : Nat) + 1) * tolerance := by
  have hrun := h.departureTime_le_departureTime ha (j - i) b (by rwa [Nat.add_sub_cancel' hij])
  have hduration := h.duration b (List.mem_of_getElem? hb)
  unfold Leg.travelTime at hduration
  rw [add_mul, one_mul]
  linarith

/-- An itinerary is assembled from exactly the consistent legs, with these legs and the
    given totals, and what is reported of others is their first flaw. In an itinerary a leg
    departs no later than a later one arrives, but for the tolerances in between. -/
theorem assembles_consistent (legs : List (Leg K)) (totalCost transferCost : K)
    (transfers : Nat) :
    (∀ i, assemble legs totalCost transferCost transfers = .ok i ↔
      Consistent legs ∧ i = { legs, totalCost, transferCost, transfers }) ∧
      (∀ error, assemble legs totalCost transferCost transfers = .error error ↔
        First (Flaw legs) error) ∧
      ∀ it, assemble legs totalCost transferCost transfers = .ok it →
        ∀ (i j : Nat) (a b : Leg K), it.legs[i]? = some a → it.legs[j]? = some b → i ≤ j →
          a.departureTime ≤ b.arrivalTime + (2 * (j - i : Nat) + 1) * tolerance := by
  refine ⟨assemble_eq_ok_iff legs totalCost transferCost transfers, ?_, fun it hok => ?_⟩
  · rw [assemble_eq]
    exact ((verdict_inconsistency? legs).report _).2
  · rcases (assemble_eq_ok_iff legs totalCost transferCost transfers it).mp hok with ⟨h, rfl⟩
    exact fun i j a b ha hb hij => h.departureTime_le ha hb hij

end Itinerary

namespace Sample

/-- A walk of a minute to a stop, a ride that leaves a billionth of a second before the walk
    has ended, and a walk that starts as much too early and takes that much less than no
    time. -/
def hurriedLegs : List (Leg ℚ) :=
  [.connection
      { kind := .access, origin := .origin, target := .stop ⟨"A"⟩, mode := ⟨"walk"⟩
        departureTime := 0, travelTime := 60, distance := 60, cost := 1 },
    .ride
      { origin := ⟨"A"⟩, target := ⟨"B"⟩, line := ⟨"one"⟩, route := ⟨"one"⟩, mode := ⟨"bus"⟩
        trip := "one0", departureTime := 60 - 1 / 1000000000, arrivalTime := 120, cost := 2 },
    .connection
      { kind := .egress, origin := .stop ⟨"B"⟩, target := .destination, mode := ⟨"walk"⟩
        departureTime := 120 - 1 / 1000000000, travelTime := -1 / 1000000000, distance := 0
        cost := 0 }]

end Sample

namespace Itinerary

open Sample in
/-- Legs that use up the tolerance make an itinerary. Without the ride the two walks do not
    meet, and that is what is reported. -/
theorem assembles_consistent_hurriedLegs : ∃ (it : Itinerary ℚ) (a b : Leg ℚ),
    assemble hurriedLegs 3 0 0 = .ok it ∧ it.legs = hurriedLegs ∧ it.totalCost = 3 ∧
    it.legs[1]? = some a ∧ it.legs[2]? = some b ∧
    a.departureTime ≤ b.arrivalTime + (2 * (2 - 1 : Nat) + 1) * tolerance ∧
    First (Flaw (hurriedLegs.eraseIdx 1)) (.disconnected (.stop ⟨"A"⟩) (.stop ⟨"B"⟩)) := by
  have hok : assemble hurriedLegs 3 0 0 = .ok ⟨hurriedLegs, 3, 0, 0⟩ := by decide +kernel
  have herror : assemble (hurriedLegs.eraseIdx 1) 3 0 0
      = .error (.disconnected (.stop ⟨"A"⟩) (.stop ⟨"B"⟩)) := by decide +kernel
  exact ⟨_, _, _, hok, rfl, rfl, rfl, rfl,
    (assembles_consistent hurriedLegs 3 0 0).2.2 _ hok 1 2 _ _ rfl rfl (by decide),
    ((assembles_consistent (hurriedLegs.eraseIdx 1) 3 0 0).2.1 _).mp herror⟩

end Itinerary

end Journey
