import Journey.Proofs.Sample
import Journey.Proofs.Search.Answer
import Journey.Proofs.Search.Beginnings
import Journey.Proofs.Search.Telling
import Journey.Proofs.Search.WaysOn

/-!
# Best Arrivals

The bound, the ways on and the winner agree.

A search never looks for the cheapest way to the destination until it ends. The bound
is tightened as labels are stored, and what it was tightened by may have been replaced
by the end. Then another loop chooses the winner among the labels that are held, and it
has rules of its own for arrivals that cost the same.

Still the bound is at any moment the least cost of the ways to the destination that are
held at that moment. A label is only replaced by one that costs no more, so the least
cost cannot rise, and it can only fall by a label that was just stored, which is when
the bound is tightened. That the ways on do not change after the first label is stored
is part of this: a cheaper one that came later would lower the costs of labels that
the bound has seen already.

## Main definitions

* `Workspace.ArrivalCosts`: The costs of the ways to the destination that are held.

## Theorems

* `Workspace.Event.isLeast_arrivalCosts`: What every event keeps of the bound.
* `Workspace.Moment.isLeast_arrivalCosts`: The bound at any moment of a search.
* `Workspace.Fits.arrives_of_itinerary?`: Which way to the destination an itinerary tells.
* `Engine.InService.selects_least`: The bound, the ways on and the winner.
-/

namespace Journey

variable {K : Type} [Field K] [LinearOrder K]

namespace Workspace

variable {t : Timetable K} {policy : TransferPolicy K} {q : SearchQuery K} {w w' : Workspace K}

/-- The costs of the ways to the destination that are held. -/
def ArrivalCosts (w : Workspace K) (c : K) : Prop := ∃ i a, w.Arrives i a ∧ a.totalCost = c

theorem arrivalCosts_iff {c : K} : w.ArrivalCosts c ↔ ∃ i id l e, w.Holds i id l ∧
    w.egress[i]? = some (some e) ∧ c = l.cost + e.cost := by
  constructor
  · rintro ⟨i, a, ⟨hl, e, he, htotal, -⟩, rfl⟩
    exact ⟨i, a.id, a.label, e, hl, he, htotal⟩
  · rintro ⟨i, id, l, e, hl, he, rfl⟩
    exact ⟨i, ⟨l.cost + e.cost, id, l, e.candidate⟩, ⟨hl, e, he, rfl, rfl⟩, rfl⟩

theorem Quiet.arrivalCosts_iff (h : Quiet t w w') {c : K} :
    w'.ArrivalCosts c ↔ w.ArrivalCosts c := by
  simp only [Workspace.arrivalCosts_iff, h.holds_iff, h.egress]

section Stored

variable {l : Label K}

-- A way to the destination after a label was stored was there before, or is that of
-- the label.
theorem Stored.arrivalCosts_cases (h : Stored t w l w') (hf : w.Fits t) {c : K}
    (hc : w'.ArrivalCosts c) : w.ArrivalCosts c ∨
      ∃ e, w.egress[l.routeStop]? = some (some e) ∧ c = l.cost + e.cost := by
  rcases arrivalCosts_iff.mp hc with ⟨i, id, l', e, hl, he, rfl⟩
  rw [h.egress] at he
  rcases h.holds_cases hf hl with ⟨rfl, -, rfl⟩ | ⟨-, hl⟩
  · exact Or.inr ⟨e, he, rfl⟩
  · exact Or.inl (arrivalCosts_iff.mpr ⟨i, id, l', e, hl, he, rfl⟩)

theorem Stored.arrivalCosts_self (h : Stored t w l w') {e : Egress K}
    (he : w.egress[l.routeStop]? = some (some e)) : w'.ArrivalCosts (l.cost + e.cost) :=
  arrivalCosts_iff.mpr ⟨_, _, l, e, h.holds_self, by rw [h.egress]; exact he, rfl⟩

variable [IsStrictOrderedRing K]

-- A way to the destination is kept, or a cheaper one takes its place.
theorem Stored.exists_arrivalCosts_le (h : Stored t w l w')
    (hbeaten : ∀ id held, w.Holds l.routeStop id held →
      held.isBeatenBy l.cost l.transfers = true) {c : K} (hc : w.ArrivalCosts c) :
    ∃ c', w'.ArrivalCosts c' ∧ c' ≤ c := by
  rcases arrivalCosts_iff.mp hc with ⟨i, id, l', e, hl, he, rfl⟩
  by_cases hi : i = l.routeStop
  · subst hi
    refine ⟨l.cost + e.cost, h.arrivalCosts_self he, ?_⟩
    exact add_le_add_left (Label.le_of_isBeatenBy (hbeaten id l' hl)) e.cost
  · refine ⟨l'.cost + e.cost, arrivalCosts_iff.mpr ⟨i, id, l', e, h.holds_of_ne hi hl, ?_, rfl⟩,
      le_refl _⟩
    rw [h.egress]
    exact he

-- The bound is tightened by the label, and no cost that it has replaced is less.
theorem Stored.isLeast_arrivalCosts (h : Stored t w l w') (hf : w.Fits t)
    (hbeaten : ∀ id held, w.Holds l.routeStop id held →
      held.isBeatenBy l.cost l.transfers = true)
    (hleast : Scalar.IsLeast w.ArrivalCosts w.bound) :
    Scalar.IsLeast w'.ArrivalCosts w'.bound := by
  rcases hf.egress_exists h.lt_size with ⟨way, hway⟩
  cases way with
  | none =>
      rw [h.bound_other hway]
      refine hleast.of_forall_exists_le (fun c hc => ?_)
        (fun c hc => h.exists_arrivalCosts_le hbeaten hc)
      refine (h.arrivalCosts_cases hf hc).resolve_right ?_
      rintro ⟨e, he, -⟩
      rw [hway] at he
      exact absurd he (by simp only [Option.some.injEq, reduceCtorEq, not_false_eq_true])
  | some e =>
      rw [h.bound_destination e hway]
      refine (hleast.tightened (l.cost + e.cost)).of_forall_exists_le (fun c hc => ?_) ?_
      · refine (h.arrivalCosts_cases hf hc).imp_right ?_
        rintro ⟨e', he', rfl⟩
        rw [hway, Option.some.injEq, Option.some.injEq] at he'
        rw [he']
      · rintro c (hc | rfl)
        · exact h.exists_arrivalCosts_le hbeaten hc
        · exact ⟨_, h.arrivalCosts_self hway, le_refl _⟩

end Stored

/-- Once all egress candidates have been offered, every event leaves the bound the least
    cost of the ways to the destination. -/
theorem Event.isLeast_arrivalCosts [IsStrictOrderedRing K] (h : Event t policy q w w')
    (hf : w.Fits t) (hon : w.OnwardFrom t q.egress.zipIdx)
    (hleast : Scalar.IsLeast w.ArrivalCosts w.bound) :
    Scalar.IsLeast w'.ArrivalCosts w'.bound := by
  cases h.effect with
  | quiet h =>
      rw [h.bound]
      exact hleast.congr fun c => h.arrivalCosts_iff
  | stored legal h hbeaten => exact h.isLeast_arrivalCosts hf hbeaten hleast
  | egress candidate stop written marked cheaper =>
      rcases hon.exists_le stop candidate with ⟨e, he, hle⟩
      exact absurd (cheaper e he) (not_lt_of_ge hle)

theorem Run.isLeast_arrivalCosts [IsStrictOrderedRing K] (h : Run t policy q w w')
    (hf : w.Fits t) (hon : w.OnwardFrom t q.egress.zipIdx)
    (hleast : Scalar.IsLeast w.ArrivalCosts w.bound) :
    Scalar.IsLeast w'.ArrivalCosts w'.bound := by
  refine (h.invariant (fun u => u.Fits t ∧ u.OnwardFrom t q.egress.zipIdx ∧
    Scalar.IsLeast u.ArrivalCosts u.bound) ?_ ⟨hf, hon, hleast⟩).2.2
  rintro u u' hevent ⟨hfu, honu, hleastu⟩
  exact ⟨hevent.fits hfu, hevent.onwardFrom honu, hevent.isLeast_arrivalCosts hfu honu hleastu⟩

-- While egress candidates are offered, nothing else has changed.
theorem readied_of_passes (hf : w.Fits t) {candidates : List (Candidate K × Nat)}
    (h : Loop.Passes (offerEgressAt? t) (InOfferEgress t) w candidates w') : Readied t w w' := by
  have hinside : ∀ {u u' x}, u.Fits t → InOfferEgress t u x u' → Readied t u u' := by
    rintro u u' x hu ⟨routeStops, -, h⟩
    refine h.invariant (fun _ v => Readied t u v) (Readied t u) ?_ (fun _ _ _ _ _ _ _ h => h.elim)
      (fun _ _ hv => hv) (Readied.refl hu)
    exact fun _ _ _ v v' _ hv hoffer => hv.trans (readied_of_offerEgress? hv.fits hoffer).1
  refine h.invariant (fun _ v => Readied t w v) (Readied t w) ?_ ?_ (fun _ _ hv => hv)
    (Readied.refl hf)
  · exact fun _ _ _ v v' _ hv hpass =>
      hv.trans (hinside hv.fits (inOfferEgress_of_offerEgressAt? hpass))
  · exact fun _ _ _ v v' _ hv hpass => hv.trans (hinside hv.fits hpass)

-- Before the first label is stored there is no way to the destination.
theorem Readied.isLeast_arrivalCosts (h : Readied t w w') (hw : w.Clean) :
    Scalar.IsLeast w'.ArrivalCosts w'.bound := by
  rcases h.only with ⟨egress, destinations, rfl⟩
  rw [hw.bound]
  refine Scalar.isLeast_none fun c hc => ?_
  rcases arrivalCosts_iff.mp hc with ⟨i, id, l, e, hl, -⟩
  exact hw.best i id hl.1

/-- At any moment of a search the bound is the least cost of the ways to the destination
    that are held. -/
theorem Moment.isLeast_arrivalCosts [IsStrictOrderedRing K] (hw : t.WellFormed) (hf : w.Fits t)
    (h : Moment t policy q w w') : Scalar.IsLeast w'.ArrivalCosts w'.bound := by
  rcases h.underway_cases with h | h
  · exact (readied_of_passes hf.reset h).isLeast_arrivalCosts hf.clean_reset
  · rcases h.run hw hf with ⟨w₁, hegress, hf₁, hrun⟩
    have hready := (readied_of_setEgress? hw hf.reset hegress).1
    exact hrun.isLeast_arrivalCosts hf₁ (onwardFrom_of_setEgress? hw hf hegress)
      (hready.isLeast_arrivalCosts hf.clean_reset)

/-- An itinerary tells the way to the destination that ranks before all others. -/
theorem Fits.arrives_of_itinerary? [Planar K] (hf : w.Fits t) {it : Itinerary K}
    (h : w.itinerary? t q = some (some it)) :
    ∃ i a, w.Arrives i a ∧ (∀ i' a', w.Arrives i' a' → a.rank i ≤ a'.rank i') ∧
      w.legs? t q a = some (some it.legs) ∧ it.totalCost = a.totalCost ∧
      it.transferCost = a.label.transferCost ∧ it.transfers = a.label.transfers := by
  rcases itinerary?_eq_some h with ⟨a, hwinner, hlegs, htotal, hprice, htransfers⟩
  rcases hf.winner?_spec with ⟨hnone, -⟩ | ⟨i, a', hsome, ha, hleast⟩
  · rw [hwinner] at hnone
    exact absurd hnone (by simp only [Option.some.injEq, reduceCtorEq, not_false_eq_true])
  · rw [hwinner, Option.some.injEq, Option.some.injEq] at hsome
    subst hsome
    exact ⟨i, a, ha, hleast, hlegs, htotal, hprice, htransfers⟩

end Workspace

namespace Engine

variable [IsStrictOrderedRing K] [Planar K] [MarkerTree K] {t : Timetable K}
  {policy : TransferPolicy K} {e : Engine K}

/-- In a search by an engine in service, every route-stop has the cheapest egress candidate
    at its stop as its way on, the first one of equally cheap candidates, and at any
    moment the bound is the least cost of the ways to the destination that are held. An
    itinerary tells the way that is least in the cost, then in the number of transfers
    and then in the position of its route-stop, and costs what the last bound says. -/
theorem InService.selects_least {d : Draft K} (hd : d.build = .ok t)
    (he : InService t policy e) (q : SearchQuery K) :
    (∀ w, Workspace.Underway t policy q e.workspace w → w.OnwardFrom t q.egress.zipIdx) ∧
      (∀ w, Workspace.Moment t policy q e.workspace w →
        Scalar.IsLeast w.ArrivalCosts w.bound) ∧
      (∀ e' it, e.search? q = some (e', some it) →
        ∃ i a, e'.workspace.Arrives i a ∧
          (∀ i' a', e'.workspace.Arrives i' a' → a.rank i ≤ a'.rank i') ∧
          e'.workspace.legs? t q a = some (some it.legs) ∧ it.totalCost = a.totalCost ∧
          it.transferCost = a.label.transferCost ∧ it.transfers = a.label.transfers ∧
          e'.workspace.bound = some it.totalCost) ∧
      (policy.Answers t q → q.Within t → ∃ e' found, e.search? q = some (e', found)) := by
  have hw := Draft.wellFormed_of_build hd
  rcases he.fits hw with ⟨ht, hp, hf⟩
  refine ⟨fun w h => h.onwardFrom hw hf, fun w h => h.isLeast_arrivalCosts hw hf, ?_,
    he.search?_exists hw⟩
  intro e' it hsearch
  rcases search?_eq_some hsearch with ⟨hexplore, hit, -, -⟩
  rw [ht, hp] at hexplore
  rw [ht] at hit
  have hm := Workspace.moment_of_explore? hexplore
  rcases ((hm.run hw hf).fits hf.reset).arrives_of_itinerary? hit with
    ⟨i, a, ha, hleast, hlegs, htotal, hprice, htransfers⟩
  refine ⟨i, a, ha, hleast, hlegs, htotal, hprice, htransfers, ?_⟩
  -- The cost of the winner is the least one, and so is the bound.
  have hwinner : Scalar.IsLeast e'.workspace.ArrivalCosts (some it.totalCost) := by
    refine ⟨⟨i, a, ha, htotal.symm⟩, le_refl _, ?_⟩
    rintro c ⟨i', a', ha', rfl⟩
    rw [htotal]
    exact not_lt_of_ge (Arrival.totalCost_le_of_rank_le (hleast i' a' ha'))
  exact (hm.isLeast_arrivalCosts hw hf).eq hwinner

end Engine

namespace Sample

/-- Two lines from one stop to two others. -/
def fork : Draft ℚ :=
  network ["A", "B", "C"]
    [line "one" [("A", 0), ("B", 10)] [0], line "two" [("A", 0), ("C", 10)] [0]] []

/-- Both ways cost the same, and at both ends there are equally cheap candidates. -/
def either : SearchQuery ℚ :=
  query [candidate 0 0] [candidate 2 7, candidate 1 5, candidate 2 5, candidate 1 5, candidate 2 5]
    0

end Sample

open Sample in
/-- Of two ways that cost the same the one to the earlier route-stop wins, and at both ends
    the first of the equally cheap candidates is the way on. -/
theorem Engine.InService.selects_least_fork : ∃ e' it i a,
    (Engine.new fork.assemble (TransferPolicy.flat 0)).search? either = some (e', some it) ∧
      it.legs.map Leg.target = [.stop ⟨"A"⟩, .stop ⟨"B"⟩, .destination] ∧
      e'.workspace.egress.toList.map (Option.map fun way => (way.cost, way.candidate))
        = [none, some (5, 1), none, some (5, 2)] ∧
      e'.workspace.OnwardFrom fork.assemble either.egress.zipIdx ∧ e'.workspace.Arrives i a ∧
      (∀ i' a', e'.workspace.Arrives i' a' → a.rank i ≤ a'.rank i') ∧ it.totalCost = 15 ∧
      e'.workspace.bound = some it.totalCost := by
  have hanswer : ((Engine.new fork.assemble (TransferPolicy.flat 0)).search? either).map
      (fun r => (r.2.map (fun it => (it.totalCost, it.legs.map Leg.target)),
        r.1.workspace.egress.toList.map (Option.map fun way => (way.cost, way.candidate))))
      = some (some (15, [.stop ⟨"A"⟩, .stop ⟨"B"⟩, .destination]),
        [none, some (5, 1), none, some (5, 2)]) := by decide +kernel
  have hbuild : fork.build = .ok fork.assemble := build_eq_ok (by decide +kernel)
  have hin : either.Within fork.assemble := ⟨by decide +kernel, by decide +kernel⟩
  have hnew : InService fork.assemble (TransferPolicy.flat 0)
      (Engine.new fork.assemble (TransferPolicy.flat 0)) := InService.new
  rcases InService.selects_least hbuild hnew either with ⟨hways, -, hselects, hexists⟩
  rcases hexists (TransferPolicy.flat_answers 0) hin with ⟨e', found, hsearch⟩
  rw [hsearch, Option.map_some, Option.some.injEq, Prod.mk.injEq] at hanswer
  rcases Option.map_eq_some_iff.mp hanswer.1 with ⟨it, rfl, hview⟩
  rw [Prod.mk.injEq] at hview
  rcases hselects e' it hsearch with ⟨i, a, ha, hleast, -, -, -, -, hbound⟩
  have hunderway := Workspace.Underway.concluded (search?_eq_some hsearch).1
  exact ⟨e', it, i, a, hsearch, hview.2, hanswer.2, hways _ hunderway, ha, hleast, hview.1, hbound⟩

end Journey
