import Journey.Proofs.Search.Retelling
import Journey.Proofs.Search.RoundCounts

/-!
# Starting Over

What was searched for before does not show.

A workspace that has been used is not a new one: its sets are in a later generation,
the routes touched last are still noted, and the stamps of old members are still there.
None of this can be seen by a search, because what a query finds of the one before is
what `reset` and the opening of a round leave of it. So two searches for the same query
that start over go through the same steps in any two workspaces of the timetable. They
are a special case of searches in lockstep: their labels are not just twins but the
same, and nothing has to be assumed about the transfer policy or the candidates.

## Main definitions

* `Workspace.Abreast`: Two workspaces that no search can tell apart.

## Theorems

* `Workspace.Abreast.reset`: Whatever two workspaces were used for, starting over in
  them is the same.
* `Workspace.Abreast.begin?`, `Workspace.Abreast.rounds?`: Two searches for the same
  query stay abreast.
* `Workspace.explore?_abreast`: So they are abreast at their ends.
-/

namespace Journey

variable {α : Type} [Scalar α]

namespace Workspace

/-- Two workspaces that no search for the query can tell apart. The labels are the
    same, and so is what has been noted about them. -/
structure Abreast (t : Timetable α) (q : SearchQuery α) (w w' : Workspace α) : Prop
    extends Agree True t q q w w' where
  improved : w'.improved.toList = w.improved.toList
  statistics : w'.statistics = w.statistics

variable {t : Timetable α} {policy : TransferPolicy α} {q : SearchQuery α} {w w' u : Workspace α}

/-- Whatever two workspaces were used for, starting over in them is the same. -/
theorem Abreast.reset (hf : w.Fits t) (hf' : w'.Fits t) : Abreast t q w.reset w'.reset where
  fits := hf.reset
  fits' := hf'.reset
  ordered := fun id l hl => absurd hl (by simp [Workspace.reset])
  ordered' := fun id l hl => absurd hl (by simp [Workspace.reset])
  held := fun i id l hl => absurd hl.1 (hf.clean_reset.best i id)
  unheld := fun i hi => by
    have hlt := (Array.getElem?_eq_some_iff.mp hi).1
    rw [hf.reset.best_size] at hlt
    rcases hf'.reset.best_cases hlt with hi' | ⟨id, l, hl⟩
    · exact hi'
    · exact absurd hl.1 (hf'.clean_reset.best i id)
  egress := fun i e he => absurd he (hf.clean_reset.egress i e)
  noEgress := fun i hi => by
    have hlt := (Array.getElem?_eq_some_iff.mp hi).1
    rw [hf.reset.egress_size] at hlt
    rcases hf'.reset.egress_exists hlt with ⟨egress, he⟩
    cases egress with
    | none => exact he
    | some e => exact absurd he (hf'.clean_reset.egress i e)
  destinations := fun i => by
    have hnone : ∀ v : Workspace α, v.reset.destinations.toList = [] :=
      fun v => IndexSet.toList_clear _
    rw [hnone, hnone]
  bound := Option.Rel.none
  scanStart := by
    have hscan : ∀ v : Workspace α, v.Fits t →
        v.reset.scanStart = Array.replicate t.routes.size none :=
      fun v hv => congrArg (Array.replicate · none) hv.scanStart_size
    rw [hscan w hf, hscan w' hf']
  labels := fun _ => rfl
  improved := hf'.clean_reset.improved.trans hf.clean_reset.improved.symm
  statistics := rfl

section Beginnings

-- An offer is an improvement for both or for neither.
theorem Abreast.cheaper_iff (h : Abreast t q w w') (cost : α) {i : Nat}
    (hi : i < t.routeStops.size) :
    (∀ e : Egress α, w'.egress[i]? = some (some e) → cost < e.cost) ↔
      ∀ e : Egress α, w.egress[i]? = some (some e) → cost < e.cost := by
  rcases h.fits.egress_exists hi with ⟨egress, he⟩
  cases egress with
  | none =>
      have he' := h.noEgress i he
      simp only [he, he', Option.some.injEq, reduceCtorEq, false_implies, implies_true]
  | some e =>
      rcases h.egress i e he with ⟨e', -, he', hcost, -⟩
      simp only [he, he', Option.some.injEq, forall_eq', hcost]

/-- A way to the destination is noted in both or in neither. -/
theorem Abreast.offerEgress? (h : Abreast t q w w') {k i : Nat} {c : Candidate α}
    (hk : q.egress[k]? = some c) (hi : i < t.routeStops.size)
    (hu : w.offerEgress? ⟨c.cost, k⟩ i = some u) :
    ∃ u', w'.offerEgress? ⟨c.cost, k⟩ i = some u' ∧ Abreast t q u u' := by
  rcases h.fits'.offerEgress?_exists ⟨c.cost, k⟩ hi with ⟨u', hu'⟩
  refine ⟨u', hu', ?_⟩
  have hf := h.fits.offerEgress hu
  have hf' := h.fits'.offerEgress hu'
  have hcheaper := h.cheaper_iff c.cost hi
  rcases offerEgress?_eq_some hu with ⟨rfl, e, he, hnot⟩ | ⟨table, dests, ht, hd, hless, rfl⟩
  · rcases offerEgress?_eq_some hu' with ⟨rfl, -⟩ | ⟨table', dests', -, -, hless', -⟩
    · exact h
    · exact absurd (hcheaper.mp hless' e he) hnot
  · rcases offerEgress?_eq_some hu' with ⟨-, e', he', hnot'⟩ | ⟨table', dests', ht', hd', -, rfl⟩
    · exact absurd (hcheaper.mpr hless e' he') hnot'
    · have hget := (write?_eq_some ht).2.2
      have hget' := (write?_eq_some ht').2.2
      exact
        { h with
          fits := hf
          fits' := hf'
          egress := fun j e he => by
            rw [hget] at he
            rw [hget']
            split at he
            · rw [if_pos ‹_›]
              rw [Option.some.injEq, Option.some.injEq] at he
              exact ⟨_, c, rfl, he ▸ rfl, he ▸ hk, hk⟩
            · rw [if_neg ‹_›]
              exact h.egress j e he
          noEgress := fun j hj => by
            rw [hget] at hj
            rw [hget']
            split at hj
            · exact absurd hj (by simp only [Option.some.injEq, reduceCtorEq, not_false_eq_true])
            · rw [if_neg ‹_›]
              exact h.noEgress j hj
          destinations := fun j => by
            rw [(h.fits.destinations_over.mark hd).2.2, (h.fits'.destinations_over.mark hd').2.2,
              h.destinations] }

/-- The label of an access candidate is stored in both or in neither. -/
theorem Abreast.offerAccess? (h : Abreast t q w w') (hw : t.WellFormed) {k i : Nat}
    {c : Candidate α} (hk : q.access[k]? = some c)
    (hu : w.offerAccess? t (Label.ofAccess q.departureTime k c i) = some u) :
    ∃ u', w'.offerAccess? t (Label.ofAccess q.departureTime k c i) = some u' ∧
      Abreast t q u u' := by
  have hkept := works_of_offerAccess? hu
  unfold Workspace.offerAccess? at hu
  rcases Option.bind_eq_some_iff.mp hu with ⟨improves, himproves, hu⟩
  have himproves' := h.improves?_eq_some himproves
  cases improves with
  | false =>
      refine ⟨w', ?_, Option.some.inj hu ▸ h⟩
      unfold Workspace.offerAccess?
      rw [himproves']
      rfl
  | true =>
      rcases Option.bind_eq_some_iff.mp hu with ⟨w₁, hs, hm⟩
      -- The label is its own twin.
      have htwins : (Label.ofAccess q.departureTime k c i).Twins True q.access q.access w.labels
          w'.labels (Label.ofAccess q.departureTime k c i) :=
        Label.Twins.access rfl rfl hk hk fun _ => rfl
      rcases h.store_improved hw htwins rfl hs hm with
        ⟨w₁', u', hs', hm', hagree, -, himproved, -⟩
      have hu' : w'.offerAccess? t (Label.ofAccess q.departureTime k c i) = some u' := by
        unfold Workspace.offerAccess?
        simp only [himproves', hs', hm', Option.bind_eq_bind, Option.bind_some, if_true]
      refine ⟨u', hu', hagree, himproved h.improved, ?_⟩
      rw [(works_of_offerAccess? hu').statistics, hkept.statistics, h.statistics]

/-- Both searches begin alike. -/
theorem Abreast.begin? (hw : t.WellFormed) (hf : w.Fits t) (hf' : w'.Fits t)
    (hu : w.begin? t q = some u) : ∃ u', w'.begin? t q = some u' ∧ Abreast t q u u' := by
  rcases begin?_eq_some hu with ⟨w₁, hegress, haccess⟩
  -- Offers are made candidate by candidate, at each of the route-stops of its stop.
  have htold : ∃ w₁', w'.reset.setEgress? t q.egress = some w₁' ∧ Abreast t q w₁ w₁' := by
    rw [setEgress?_eq] at hegress ⊢
    refine Loop.foldlM_follows (Abreast t q) (R := fun x y => x = y ∧ q.egress[x.2]? = some x.1)
      ?_ (List.forall₂_same.mpr fun x hx => ⟨rfl, List.mem_zipIdx_iff_getElem?.mp hx⟩)
      (Abreast.reset hf hf') hegress
    rintro ⟨c, k⟩ _ v v' v₁ ⟨rfl, hk⟩ hv hpass
    unfold offerEgressAt? at hpass ⊢
    rcases Option.bind_eq_some_iff.mp hpass with ⟨routeStops, hrs, hpass⟩
    simp only [hrs, Option.bind_eq_bind, Option.bind_some]
    refine Loop.foldlM_follows (Abreast t q) (R := fun i j => i = j ∧ i < t.routeStops.size) ?_
      (List.forall₂_same.mpr fun i hi =>
        ⟨rfl, routeStop_lt_of_stopOf? ((hw.mem_routeStopsAt?_iff hrs i).mp hi)⟩) hv hpass
    rintro i _ s s' s₁ ⟨rfl, hi⟩ hs hoffer
    exact hs.offerEgress? hk hi hoffer
  rcases htold with ⟨w₁', hegress', htold⟩
  have hentered : ∃ u', w₁'.setAccess? t q.departureTime q.access = some u' ∧
      Abreast t q u u' := by
    rw [setAccess?_eq] at haccess ⊢
    refine Loop.foldlM_follows (Abreast t q) (R := fun x y => x = y ∧ q.access[x.2]? = some x.1)
      ?_ (List.forall₂_same.mpr fun x hx => ⟨rfl, List.mem_zipIdx_iff_getElem?.mp hx⟩)
      htold haccess
    rintro ⟨c, k⟩ _ v v' v₁ ⟨rfl, hk⟩ hv hpass
    unfold offerAccessAt? at hpass ⊢
    rcases Option.bind_eq_some_iff.mp hpass with ⟨routeStops, hrs, hpass⟩
    simp only [hrs, Option.bind_eq_bind, Option.bind_some]
    refine Loop.foldlM_follows_self (Abreast t q) (fun i s s' s₁ hs hoffer => ?_) v v' hv hpass
    exact hs.offerAccess? hw hk hoffer
  rcases hentered with ⟨u', haccess', hentered⟩
  refine ⟨u', ?_, hentered⟩
  unfold Workspace.begin?
  simp only [hegress', Option.bind_eq_bind, Option.bind_some]
  exact haccess'

end Beginnings

section Rounds

/-- Both searches make a round alike. -/
theorem Abreast.round? (h : Abreast t q w w') (hw : t.WellFormed)
    (hu : w.round? t policy q = some u) :
    ∃ u', w'.round? t policy q = some u' ∧ Abreast t q u u' := by
  rcases h.toAgree.round? hw ⟨rfl, rfl, rfl⟩ (Or.inl trivial) (by rw [h.improved]) hu with
    ⟨u', hu', hstep⟩
  have hsize : u'.improved.size = u.improved.size := congrArg List.length hstep.improved
  refine ⟨u', hu', hstep.toAgree, hstep.improved, ?_⟩
  rw [(statistics_of_round? hu').1, (statistics_of_round? hu).1, h.statistics, hsize]

/-- Both searches make as many rounds. -/
theorem Abreast.rounds? (h : Abreast t q w w') (hw : t.WellFormed) {budget : Nat}
    (hu : w.rounds? t policy q budget = some u) :
    ∃ u', w'.rounds? t policy q budget = some u' ∧ Abreast t q u u' := by
  refine rounds?_follows q q (Abreast t q) (fun v v' v₁ hv hv₁ => ?_) budget h hu
  rcases hv.round? hw hv₁ with ⟨v₁', hv₁', habreast⟩
  exact ⟨v₁', hv₁', habreast, habreast.improved⟩

theorem Abreast.conclude (h : Abreast t q w w') : Abreast t q w.conclude w'.conclude := by
  have hempty : w'.improved.isEmpty = w.improved.isEmpty := by
    rw [Bool.eq_iff_iff, IndexSet.isEmpty_iff, IndexSet.isEmpty_iff, h.improved]
  exact
    { h with
      fits := (quiet_conclude w).fits h.fits
      fits' := (quiet_conclude w').fits h.fits'
      statistics := by
        unfold Workspace.conclude
        simp only [h.statistics, hempty, h.labels trivial] }

/-- Whatever two workspaces were used for, a search in one of them ends like one in the
    other. -/
theorem explore?_abreast (hw : t.WellFormed) (hf : w.Fits t) (hf' : w'.Fits t)
    (hu : w.explore? t policy q = some u) :
    ∃ u', w'.explore? t policy q = some u' ∧ Abreast t q u u' := by
  rcases explore?_eq_some hu with ⟨w₁, w₂, hbegin, hrounds, rfl⟩
  rcases Abreast.begin? hw hf hf' hbegin with ⟨w₁', hbegin', hbegun⟩
  rcases hbegun.rounds? hw hrounds with ⟨w₂', hrounds', hend⟩
  refine ⟨w₂'.conclude, ?_, hend.conclude⟩
  unfold Workspace.explore?
  simp only [hbegin', hrounds', Option.bind_eq_bind, Option.bind_some, Option.pure_def]

end Rounds

/-- What a route-stop holds is at the same place in both. -/
theorem Abreast.best_eq (h : Abreast t q w w') (i : Nat) : w'.best[i]? = w.best[i]? := by
  by_cases hi : i < t.routeStops.size
  · rcases h.fits.best_cases hi with hnone | ⟨id, l, hl⟩
    · rw [hnone, h.unheld i hnone]
    · rcases h.held i id l hl with ⟨id', l', hl', -, hpos⟩
      rw [hl.1, hl'.1, hpos trivial]
  · rw [Array.getElem?_eq_none (by rw [h.fits'.best_size]; exact Nat.le_of_not_lt hi),
      Array.getElem?_eq_none (by rw [h.fits.best_size]; exact Nat.le_of_not_lt hi)]

end Workspace

end Journey
