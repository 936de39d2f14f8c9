import Journey.Proofs.Search.RunStarts
import Journey.Proofs.TransferCosts

/-!
# Positions in Range

No search looks up or writes what is not there.

Stops, routes, route-stops, trips, labels and candidates are referred to by position.
Some of the positions that a search uses it has just computed, but most of them were
stored by an earlier step, an earlier round or an earlier query, in tables that were
made for the timetable once. `InRange` goes through everything that is stored and says
which table each position is one of. It holds at every moment of every search, because
workspaces fit, labels are legal and ways out are told, which is what events keep.

A look-up out of range has no result, and then neither has the search. So the second
half of the matter is that searches have results: every query within the timetable is
answered, after any queries within the timetable. The only writes that do not show in
this way are those that forget a query, and the members of the sets that they go
through are positions of the tables that they write.

## Main definitions

* `Label.InRange`: What the positions in a label refer to exists.
* `Workspace.InRange`: So it is for all that a workspace stores.
* `Workspace.Erasable`: Forgetting the query writes nothing that is not there.
* `Engine.afterAll?`: An engine after a list of queries.

## Theorems

* `Workspace.Moment.inRange`: All positions are in range at every moment of a search.
* `Engine.InService.afterAll?_exists`: Any list of queries gets through.
* `Engine.never_out_of_range`: No search looks up or writes what is not there.
-/

namespace Journey

variable {α : Type} [Scalar α]

/-- What the positions in a label refer to exists, where the label itself is stored at
    the given position. -/
structure Label.InRange {α : Type} (t : Timetable α) (q : SearchQuery α) (id : Nat)
    (l : Label α) : Prop where
  routeStop : l.routeStop < t.routeStops.size
  candidate : ∀ k, l.step = .access k → k < q.access.length
  trip : ∀ trip boardingTime, l.step = .ride trip boardingTime →
    trip < t.trips.size ∧ trip < t.tripTimes.size
  /-- Predecessors were stored earlier. -/
  previous : ∀ n, l.previous = some n → n < id
  /-- Only access has no predecessor. -/
  exists_previous : l.previous = none → ∃ k, l.step = .access k

namespace Workspace

/-- What the positions in a workspace refer to exists. -/
structure InRange {α : Type} (t : Timetable α) (q : SearchQuery α) (w : Workspace α) : Prop where
  label : ∀ (id : Nat) (l : Label α), w.labels[id]? = some l → l.InRange t q id
  best : ∀ i id : Nat, w.best[i]? = some (some id) → id < w.labels.size
  egress : ∀ (i : Nat) (e : Egress α), w.egress[i]? = some (some e) → e.candidate < q.egress.length
  scanStart : ∀ r s : Nat, w.scanStart[r]? = some (some s) → s < t.routeStops.size
  improved : ∀ i ∈ w.improved.toList, i < t.routeStops.size
  reached : ∀ i ∈ w.reached.toList, i < w.best.size
  touched : ∀ r ∈ w.touched.toList, r < t.routes.size ∧ r < w.scanStart.size
  labelled : ∀ i ∈ w.labelled.toList, i < w.best.size
  destinations : ∀ i ∈ w.destinations.toList, i < w.best.size ∧ i < w.egress.size

/-- Forgetting the query writes nothing that is not there. -/
structure Erasable {α : Type} (w : Workspace α) : Prop where
  best : ∀ i ∈ w.labelled.toList, i < w.best.size
  egress : ∀ i ∈ w.destinations.toList, i < w.egress.size

end Workspace

variable {t : Timetable α} {policy : TransferPolicy α} {q : SearchQuery α}

theorem Label.IsLegal.inRange (ht : t.WellFormed) {labels : Array (Label α)} {id : Nat}
    {l : Label α} (h : l.IsLegal t policy q (labels.extract 0 id)) : l.InRange t q id := by
  have hrouteStop := h.routeStop_lt
  have hprevious : ∀ n, l.previous = some n → n < id := fun n hn =>
    (Workspace.label_of_extract (Array.getElem?_eq_getElem (h.previous_lt hn))).1
  have hbegins : l.previous = none → ∃ k, l.step = .access k := fun hnone => by
    rcases h.of_previous_none hnone with ⟨k, -, step, -⟩
    exact ⟨k, step⟩
  -- What else there is depends on how the route-stop was reached.
  cases h with
  | access k c step previous candidate =>
      refine ⟨hrouteStop, fun k' hstep => ?_, fun _ _ hstep => (nomatch step.symm.trans hstep),
        hprevious, hbegins⟩
      rw [step, Step.access.injEq] at hstep
      exact hstep ▸ (List.getElem?_eq_some_iff.mp candidate).1
  | ride n m trip boardingTime vehicleArrival enter step previous predecessor ahead next =>
      refine ⟨hrouteStop, fun _ hstep => (nomatch step.symm.trans hstep), fun trip' _ hstep => ?_,
        hprevious, hbegins⟩
      have hlt := ht.serves_lt (Timetable.nextTrip?_some next).1
      rw [step, Step.ride.injEq] at hstep
      rw [← hstep.1, ht.tripTimes_size]
      exact ⟨hlt, hlt⟩
  | transfer n m f duration increment fromMode toMode step =>
      exact ⟨hrouteStop, fun _ hstep => (nomatch step.symm.trans hstep),
        fun _ _ hstep => (nomatch step.symm.trans hstep), hprevious, hbegins⟩

namespace Workspace

variable {w w' : Workspace α}

omit [Scalar α] in
theorem Fits.erasable (h : w.Fits t) : w.Erasable where
  best _ hi := h.best_size ▸ h.labelled_over.mem_lt hi
  egress _ hi := h.egress_size ▸ h.destinations_over.mem_lt hi

theorem Legal.inRange (h : w.Legal t policy q) (ht : t.WellFormed) (hf : w.Fits t)
    (he : w.EgressTold t q) : w.InRange t q where
  label id l hl := (h id l hl).inRange ht
  best i id hb := by
    rcases hf.exists_label i id hb with ⟨l, hl, -⟩
    exact (Array.getElem?_eq_some_iff.mp hl).1
  egress i e hegress := by
    rcases he i e hegress with ⟨c, hc, -⟩
    exact (List.getElem?_eq_some_iff.mp hc).1
  scanStart r s hs := by
    rcases hf.scanStart_route r s hs with ⟨rs, hrs, -⟩
    exact (Array.getElem?_eq_some_iff.mp hrs).1
  improved i hi := hf.improved_over.mem_lt hi
  reached i hi := hf.best_size ▸ hf.reached_over.mem_lt hi
  touched r hr := ⟨hf.touched_over.mem_lt hr, hf.scanStart_size ▸ hf.touched_over.mem_lt hr⟩
  labelled := hf.erasable.best
  destinations i hi :=
    ⟨hf.best_size ▸ hf.destinations_over.mem_lt hi, hf.erasable.egress i hi⟩

/-- All positions are in range at every moment of a search, in whatever workspace of
    the timetable it starts. -/
theorem Moment.inRange (h : Moment t policy q w w') (ht : t.WellFormed) (hf : w.Fits t) :
    w'.InRange t q := by
  have hrun := h.run ht hf
  exact (hrun.legal hf.clean_reset.legal).inRange ht (hrun.fits hf.reset)
    (hrun.egressTold hf.clean_reset.egressTold)

end Workspace

namespace Engine

variable [Planar α] {e : Engine α}

/-- An engine after it has been asked one query after the other. -/
def afterAll? (e : Engine α) (queries : List (SearchQuery α)) : Option (Engine α) :=
  queries.foldlM (fun e q => (e.search? q).map Prod.fst) e

/-- Any list of queries within the timetable gets through. -/
theorem InService.afterAll?_exists (ht : t.WellFormed) (hpolicy : policy.Standard)
    (he : InService t policy e) {queries : List (SearchQuery α)}
    (hqueries : ∀ q ∈ queries, q.Within t) :
    ∃ e', e.afterAll? queries = some e' ∧ InService t policy e' := by
  refine Loop.foldlM_exists (fun _ => InService t policy) queries ?_ e he
  intro done q rest e hsplit he
  have hq : q ∈ queries := hsplit ▸ List.mem_append_right _ List.mem_cons_self
  rcases he.search?_exists ht (hpolicy.answers ht q) (hqueries q hq) with ⟨e', found, hsearch⟩
  exact ⟨e', by rw [hsearch, Option.map_some], he.search hsearch⟩

/-- No search looks up or writes what is not there. After any queries within the
    timetable, the last one can be forgotten and the next one is answered. All
    positions are in range at all its moments, and the journey of the winner has all of
    its predecessors. -/
theorem never_out_of_range [MarkerTree α] {d : Draft α} (hd : d.build = .ok t)
    (hpolicy : policy.Standard) {queries : List (SearchQuery α)}
    (hqueries : ∀ q' ∈ queries ++ [q], q'.Within t) :
    ∃ e e' found winner, (Engine.new t policy).afterAll? queries = some e ∧
      e.workspace.Erasable ∧ e.search? q = some (e', found) ∧
      (∀ w, Workspace.Moment t policy q e.workspace w → w.InRange t q) ∧
      e'.workspace.winner? = some winner ∧
      ∀ a ∈ winner, ∃ legs, e'.workspace.legs? t q a = some (some legs) := by
  have ht := Draft.wellFormed_of_build hd
  rcases InService.new.afterAll?_exists ht hpolicy
    (fun q' hq' => hqueries q' (List.mem_append_left _ hq')) with ⟨e, hafter, he⟩
  rcases he.fits ht with ⟨htimetable, hsame, hf⟩
  have hq := hqueries q (List.mem_append_right _ (List.mem_singleton.mpr rfl))
  rcases he.search?_exists ht (hpolicy.answers ht q) hq with ⟨e', found, hsearch⟩
  rcases search?_eq_some hsearch with ⟨hexplore, -, -, -⟩
  rw [htimetable, hsame] at hexplore
  have hrun := (Workspace.moment_of_explore? hexplore).run ht hf
  have hf' := hrun.fits hf.reset
  rcases hf'.winner?_exists with ⟨winner, hwinner, -⟩
  refine ⟨e, e', found, winner, hafter, hf.erasable, hsearch, fun w hm => hm.inRange ht hf,
    hwinner, fun a ha => ?_⟩
  rw [Option.mem_def.mp ha] at hwinner
  exact (hrun.legal hf.clean_reset.legal).legs?_exists ht hf'
    (hrun.egressTold hf.clean_reset.egressTold) hwinner

open Sample in
/-- The journey along three lines, after it was asked for with fewer transfers than it
    needs, and once before. -/
theorem never_out_of_range_busBusTrain : ∃ e e' found a legs,
    (Engine.new busBusTrain.assemble (TransferPolicy.timeProportional (some busToTrain))).afterAll?
      [acrossModes, { acrossModes with maxTransfers := 1 }] = some e ∧
    e.search? acrossModes = some (e', found) ∧ e'.workspace.winner? = some (some a) ∧
    e'.workspace.legs? busBusTrain.assemble acrossModes a = some (some legs) ∧
    legs.length = 7 := by
  have hwithin : ∀ q ∈ [acrossModes, { acrossModes with maxTransfers := 1 }] ++ [acrossModes],
      (∀ c ∈ q.access, c.stop < busBusTrain.assemble.stops.size) ∧
        ∀ c ∈ q.egress, c.stop < busBusTrain.assemble.stops.size := by decide +kernel
  rcases never_out_of_range build_busBusTrain
    (TransferPolicy.Standard.timeProportional (some busToTrain)) hwithin with
    ⟨e, e', found, winner, hafter, -, hsearch, -, hwinner, hlegs⟩
  have hview : ((Engine.new busBusTrain.assemble
      (TransferPolicy.timeProportional (some busToTrain))).afterAll?
        [acrossModes, { acrossModes with maxTransfers := 1 }]).bind (fun e =>
      (e.search? acrossModes).bind fun r => r.1.workspace.winner?.bind fun winner =>
        winner.bind fun a => (r.1.workspace.legs? busBusTrain.assemble acrossModes a).bind
          fun legs => legs.map List.length) = some 7 := by decide +kernel
  simp only [hafter, hsearch, hwinner, Option.bind_some] at hview
  rcases Option.bind_eq_some_iff.mp hview with ⟨a, ha, hview⟩
  rcases hlegs a ha with ⟨legs, hlegs⟩
  rw [hlegs, Option.bind_some, Option.map_some, Option.some.injEq] at hview
  exact ⟨e, e', found, a, legs, hafter, hsearch, ha ▸ hwinner, hlegs, hview⟩

end Engine

end Journey
