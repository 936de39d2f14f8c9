import Mathlib.Order.Bounds.Defs
import Journey.Proofs.Timetable.Chronology
import Journey.Proofs.Sample

/-!
# The Earliest Trips

Which vehicle is found at a route-stop of a built timetable.

The trips of a route are looked through for the first one that is not too early.
That this is the earliest vehicle, and that none is found only when all have
left, rests on the order that the trips have been checked for. The same order
makes it possible to look for the trip by halving: as long as whatever precedes
a trip that is too early is too early as well, one comparison decides about half
of the trips that are left. `halvingTrip?` does this on the slice of the route,
and both ways of looking agree.

All trips of a route are shifted by the same offset at a route-stop, so comparing
them by index compares them by time at every route-stop of the route. Between
trips of different routes nothing is said.

## Main definitions

* `bisect`: The first index that fails a test, found by halving.
* `Timetable.halvingTrip?`: The earliest trip, found by halving.
* `Timetable.Catchable`: A trip leaves a route-stop at a time or later.
* `Timetable.FindsEarliest`: What the trip found is, for all times.

## Theorems

* `bisect_eq_findIdx?`: Halving and looking through find the same.
* `Timetable.nextTrip?_eq_some_some_iff`: Which trip is found.
* `Timetable.nextTrip?_eq_some_none_iff`: When none is found.
* `Timetable.halvingTrip?_eq`: Halving the slice of a route finds the same trip.
* `Draft.findsEarliest_of_build`: In built timetables the earliest trip is found.
-/

namespace Journey

section Halving

/-- The first index that fails a test, of `size` many from `start` on, found by
    testing the one in the middle. If all pass it is the end. -/
def bisect (test : Nat → Bool) (start size : Nat) : Nat :=
  if size = 0 then start
  else if test (start + size / 2) then
    bisect test (start + size / 2 + 1) (size - size / 2 - 1)
  else bisect test start (size / 2)
termination_by size
decreasing_by all_goals omega

/-- What passes is before the index found and what is there fails, if whatever
    precedes an index that passes does too. -/
theorem bisect_spec (test : Nat → Bool) (start size : Nat)
    (hpart : ∀ a b, start ≤ a → a ≤ b → b < start + size → test b = true → test a = true) :
    (start ≤ bisect test start size ∧ bisect test start size ≤ start + size) ∧
      (∀ a, start ≤ a → a < bisect test start size → test a = true) ∧
      (bisect test start size < start + size → test (bisect test start size) = false) := by
  fun_induction bisect test start size with
  | case1 start =>
      exact ⟨⟨Nat.le_refl _, Nat.le_refl _⟩, fun a ha ha' => absurd ha' (Nat.not_lt.mpr ha),
        fun h => absurd h (Nat.lt_irrefl _)⟩
  | case2 start size hsize hmid ih =>
      rcases ih fun a b ha hab hb => hpart a b (by omega) hab (by omega) with
        ⟨⟨hlo, hhi⟩, hbefore, hat⟩
      refine ⟨⟨by omega, by omega⟩, fun a ha ha' => ?_, fun h => hat (by omega)⟩
      -- The half up to the middle passes because the middle does.
      rcases Nat.lt_or_ge (start + size / 2) a with hafter | hbehind
      · exact hbefore a hafter ha'
      · exact hpart a _ ha hbehind (by omega) hmid
  | case3 start size hsize hmid ih =>
      rcases ih fun a b ha hab hb => hpart a b ha hab (by omega) with ⟨⟨hlo, hhi⟩, hbefore, hat⟩
      refine ⟨⟨hlo, by omega⟩, hbefore, fun _ => ?_⟩
      rcases Nat.lt_or_eq_of_le hhi with hlt | heq
      · exact hat hlt
      · rw [heq]
        exact Bool.eq_false_iff.mpr hmid

/-- Halving a list finds what looking through it finds, if whatever precedes an
    element that passes does too. -/
theorem bisect_eq_findIdx? {β : Type} (l : List β) (test : β → Bool)
    (hpart : l.Pairwise fun a b => test b = true → test a = true) :
    (if bisect (fun k => l[k]?.any test) 0 l.length < l.length
      then some (bisect (fun k => l[k]?.any test) 0 l.length) else none)
      = l.findIdx? fun x => !test x := by
  have hspec := bisect_spec (fun k => l[k]?.any test) 0 l.length fun a b _ hab hb hpass => by
    rw [Nat.zero_add] at hb
    rw [List.getElem?_eq_getElem hb, Option.any_some] at hpass
    rw [List.getElem?_eq_getElem (Nat.lt_of_le_of_lt hab hb), Option.any_some]
    rcases Nat.lt_or_eq_of_le hab with hlt | rfl
    · exact List.pairwise_iff_getElem.mp hpart a b _ hb hlt hpass
    · exact hpass
  rw [Nat.zero_add] at hspec
  rcases hspec with ⟨⟨-, hle⟩, hbefore, hat⟩
  rcases Nat.lt_or_eq_of_le hle with hlt | heq
  · have hfail := hat hlt
    rw [List.getElem?_eq_getElem hlt, Option.any_some] at hfail
    rw [if_pos hlt]
    refine (List.findIdx?_eq_some_iff_getElem.mpr ⟨hlt, by rw [hfail, Bool.not_false], ?_⟩).symm
    intro a ha
    have hpass := hbefore a (Nat.zero_le a) ha
    rw [List.getElem?_eq_getElem (Nat.lt_trans ha hlt), Option.any_some] at hpass
    rw [hpass, Bool.not_true]
    exact Bool.false_ne_true
  · rw [if_neg (by rw [heq]; exact Nat.lt_irrefl _)]
    refine (List.findIdx?_eq_none_iff.mpr fun x hx => ?_).symm
    rcases List.getElem_of_mem hx with ⟨a, ha, rfl⟩
    have hpass := hbefore a (Nat.zero_le a) (Nat.lt_of_lt_of_eq ha heq.symm)
    rw [List.getElem?_eq_getElem ha, Option.any_some] at hpass
    rw [hpass, Bool.not_true]

end Halving

namespace Timetable

/-- The earliest trip to be caught at a route-stop at a time, found by halving the
    slice of the route. -/
def halvingTrip? {α : Type} [Scalar α] (t : Timetable α) (routeStop : Nat) (time : α) :
    Option (Option Nat) := do
  let rs ← t.routeStops[routeStop]?
  let route ← t.routes[rs.route]?
  let times ← route.trips.slice? t.tripTimes
  let reference := time - rs.departureOffset
  let position := bisect (fun k => times[k]?.any fun time => decide (time < reference)) 0
    times.length
  return (if position < times.length then some position else none).map (route.trips.start + ·)

-- A trip in the span of a route serves whatever is on the route.
theorem serves_of_on {α : Type} {t : Timetable α} {r : Nat} {row : Route}
    (hrow : t.routes[r]? = some row) {trip i : Nat} (hlo : row.trips.start ≤ trip)
    (hhi : trip < row.trips.stop) (hi : t.On i r) : t.Serves trip i := by
  rcases hi with ⟨rs, hrs, rfl⟩
  exact ⟨rs, row, hrs, hrow, hlo, hhi⟩

variable {K : Type} [Field K] [LinearOrder K]

/-- The trip is one of the route of the route-stop, and its vehicle leaves the
    route-stop at the given time or later. -/
def Catchable (t : Timetable K) (i : Nat) (T : K) (trip : Nat) : Prop :=
  t.Serves trip i ∧ ∃ b, t.departure? trip i = some b ∧ T ≤ b

/-- What looking for a trip finds, and how the trips of a route are ordered. -/
structure FindsEarliest (t : Timetable K) : Prop where
  /-- At every route-stop and for every time there is an answer. -/
  answers : ∀ i T, i < t.routeStops.size → ∃ found, t.nextTrip? i T = some found
  /-- The trip found has the lowest index of those that can be caught. -/
  found : ∀ i T trip, t.nextTrip? i T = some (some trip) ↔ IsLeast {k | t.Catchable i T k} trip
  /-- There is none if and only if all vehicles of the route leave before. -/
  missed : ∀ i T, i < t.routeStops.size → (t.nextTrip? i T = some none ↔
    ∀ trip, t.Serves trip i → ∃ b, t.departure? trip i = some b ∧ b < T)
  /-- Halving the trips of the route finds the same. -/
  halving : ∀ i T, t.halvingTrip? i T = t.nextTrip? i T
  /-- What is found later is found earlier, or something with a lower index is. -/
  monotone : ∀ i T T' trip, T ≤ T' → t.nextTrip? i T' = some (some trip) →
    ∃ trip' ≤ trip, t.nextTrip? i T = some (some trip')
  /-- Of two trips of a route, the one with the lower index arrives and leaves
      earlier at every route-stop of the route. -/
  increasing : ∀ (r : Nat) (row : Route) (k k' i : Nat), t.routes[r]? = some row →
    row.trips.start ≤ k → k < k' → k' < row.trips.stop → t.On i r →
    (∃ a a', t.arrival? k i = some a ∧ t.arrival? k' i = some a' ∧ a < a') ∧
      ∃ b b', t.departure? k i = some b ∧ t.departure? k' i = some b' ∧ b < b'

variable [IsStrictOrderedRing K] {t : Timetable K}

/-- The trip found is the one with the lowest index that can be caught. -/
theorem nextTrip?_eq_some_some_iff (hw : t.WellFormed) {i : Nat} {T : K} {trip : Nat} :
    t.nextTrip? i T = some (some trip) ↔ IsLeast {k | t.Catchable i T k} trip := by
  -- What can be caught is never earlier than what is found.
  have hleast : ∀ {found}, t.nextTrip? i T = some (some found) →
      found ∈ lowerBounds {k | t.Catchable i T k} := by
    rintro found h k ⟨hk, b, hb, hT⟩
    rcases nextTrip?_le hw hk hb hT with ⟨found', h', hle⟩
    rw [h, Option.some.injEq, Option.some.injEq] at h'
    exact h'.symm ▸ hle
  constructor
  · intro h
    have hserves := (nextTrip?_some h).1
    rcases hserves.exists_departure hw with ⟨b, hb⟩
    exact ⟨⟨hserves, b, hb, le_departure_of_nextTrip? h hb⟩, hleast h⟩
  · rintro ⟨⟨hserves, b, hb, hT⟩, hlower⟩
    rcases nextTrip?_le hw hserves hb hT with ⟨found, h, hle⟩
    have hfound := (nextTrip?_some h).1
    rcases hfound.exists_departure hw with ⟨b', hb'⟩
    have hge : trip ≤ found := hlower ⟨hfound, b', hb', le_departure_of_nextTrip? h hb'⟩
    rw [h, Nat.le_antisymm hle hge]

/-- None is found if and only if all vehicles of the route leave before. -/
theorem nextTrip?_eq_some_none_iff (hw : t.WellFormed) {i : Nat} (hi : i < t.routeStops.size)
    {T : K} : t.nextTrip? i T = some none ↔
      ∀ trip, t.Serves trip i → ∃ b, t.departure? trip i = some b ∧ b < T := by
  constructor
  · intro h trip htrip
    rcases htrip.exists_departure hw with ⟨b, hb⟩
    refine ⟨b, hb, lt_of_not_ge fun hT => ?_⟩
    rcases nextTrip?_le hw htrip hb hT with ⟨found, h', -⟩
    rw [h] at h'
    exact absurd h' (by simp only [Option.some.injEq, reduceCtorEq, not_false_eq_true])
  · intro hall
    rcases hw.nextTrip?_exists hi T with ⟨found, h⟩
    cases found with
    | none => exact h
    | some trip =>
        rcases hall trip (nextTrip?_some h).1 with ⟨b, hb, hlt⟩
        exact absurd (le_departure_of_nextTrip? h hb) (not_le_of_gt hlt)

omit [IsStrictOrderedRing K] in
/-- Halving the slice of a route finds the same trip as looking through it. -/
theorem halvingTrip?_eq (hc : t.Chronological) (i : Nat) (T : K) :
    t.halvingTrip? i T = t.nextTrip? i T := by
  unfold halvingTrip? nextTrip?
  refine Option.bind_congr fun rs _ => Option.bind_congr fun row hrow =>
    Option.bind_congr fun times htimes => ?_
  have hpart : times.Pairwise fun a b => decide (b < T - rs.departureOffset) = true →
      decide (a < T - rs.departureOffset) = true := by
    refine List.pairwise_iff_getElem.mpr fun a b ha hb hab hearly => ?_
    rcases Span.getElem?_slice? htimes a ha with ⟨hgeta, -⟩
    rcases Span.getElem?_slice? htimes b hb with ⟨hgetb, hstop⟩
    rw [List.getElem?_eq_getElem ha] at hgeta
    rw [List.getElem?_eq_getElem hb] at hgetb
    have hlt := hc.trips_lt _ row _ _ _ _ hrow (Nat.le_add_right _ a) (Nat.add_lt_add_left hab _)
      hstop hgeta hgetb
    exact decide_eq_true (lt_trans hlt (of_decide_eq_true hearly))
  exact congrArg (fun found => some (Option.map (row.trips.start + ·) found))
    (bisect_eq_findIdx? times _ hpart)

end Timetable

namespace Draft

open Timetable

variable {K : Type} [Field K] [LinearOrder K] [IsStrictOrderedRing K] [Planar K] [MarkerTree K]

/-- In a built timetable the earliest trip is found at every route-stop and for every
    time. -/
theorem findsEarliest_of_build {d : Draft K} {t : Timetable K} (h : d.build = .ok t) :
    t.FindsEarliest := by
  have hw := wellFormed_of_build h
  have hc := chronological_of_build h
  refine
    { answers := fun i T hi => hw.nextTrip?_exists hi T
      found := fun i T trip => nextTrip?_eq_some_some_iff hw
      missed := fun i T hi => nextTrip?_eq_some_none_iff hw hi
      halving := halvingTrip?_eq hc
      monotone := ?_
      increasing := ?_ }
  · intro i T T' trip hT hfound
    rcases ((nextTrip?_eq_some_some_iff hw).mp hfound).1 with ⟨htrip, b, hb, hle⟩
    rcases nextTrip?_le hw htrip hb (le_trans hT hle) with ⟨trip', hfound', hle'⟩
    exact ⟨trip', hle', hfound'⟩
  · intro r row k k' i hrow hlo hlt hhi hi
    have hk := serves_of_on hrow hlo (Nat.lt_trans hlt hhi) hi
    have hk' := serves_of_on hrow (Nat.le_trans hlo (Nat.le_of_lt hlt)) hhi hi
    rcases hk.exists_arrival hw with ⟨a, ha⟩
    rcases hk'.exists_arrival hw with ⟨a', ha'⟩
    rcases hk.exists_departure hw with ⟨b, hb⟩
    rcases hk'.exists_departure hw with ⟨b', hb'⟩
    exact ⟨⟨a, a', ha, ha', hc.arrival_lt hk hk' hlt ha ha'⟩,
      b, b', hb, hb', hc.departure_lt hk hk' hlt hb hb'⟩

end Draft

namespace Sample

/-- A route without trips and after it one with two, whose route-stops and trips are
    not the first ones of the tables. -/
def unusedAndTwice : Draft ℚ :=
  network ["A", "B", "C"]
    [line "once" [("A", 0), ("C", 20)] [50], line "unused" [("B", 0), ("C", 10)] [],
      line "twice" [("A", 0), ("B", 10), ("C", 20)] [0, 100]] []

end Sample

namespace Draft

open Sample

/-- A vehicle is caught at the very time it leaves, is missed right after, and on a
    route without trips none is found. -/
theorem findsEarliest_of_build_unusedAndTwice : ∃ t : Timetable ℚ,
    unusedAndTwice.build = .ok t ∧ t.FindsEarliest ∧
      t.nextTrip? 5 10 = some (some 1) ∧ t.nextTrip? 5 11 = some (some 2) ∧
      t.nextTrip? 5 111 = some none ∧ t.nextTrip? 2 0 = some none := by
  have hbuild : unusedAndTwice.build = .ok unusedAndTwice.assemble :=
    Sample.build_eq_ok (by decide +kernel)
  exact ⟨_, hbuild, findsEarliest_of_build hbuild, by decide +kernel, by decide +kernel,
    by decide +kernel, by decide +kernel⟩

end Draft

end Journey
