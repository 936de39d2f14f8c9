import Journey.Proofs.Search.Following
import Journey.Proofs.Search.Walking

/-!
# Before the First Round

What is known once the candidates of a query have been offered.

If no two access candidates are at one stop, every route-stop is offered at most
one access label, and all of them are stored in the order in which they are
offered. The same holds of the ways to the destination. So the workspace before
the first round is known label by label, and two queries whose candidates are the
same up to their order begin with workspaces that agree: the route-stops hold
twins, the ways on are those of the same candidates, the scans start at the same
route-stops, and the bound is the least of the same costs.

What the order does decide is the order in which routes are met, and with it the
order of the scans of the first round.

## Main definitions

* `SearchQuery.Reordered`: Two queries with the same candidates in another order.
* `SearchQuery.entries`: The access labels in the order of offering.
* `SearchQuery.entryRoutes`: The routes at access stops as they are met.
* `Workspace.Readied`: What offering egress candidates changes.
* `Workspace.Entered`: What offering access labels leaves.
* `Workspace.Begun`: The workspace before the first round.

## Theorems

* `Workspace.Begun.of_begin?`: Every search begins like this.
* `Workspace.Begun.agree`: Searches for the same candidates begin in agreement.
-/

namespace Journey

variable {α : Type}

namespace SearchQuery

/-- Two queries that differ in nothing but the order of the candidates. -/
structure Reordered (q q' : SearchQuery α) : Prop extends SameTrip q q' where
  access : q.access.Perm q'.access
  egress : q.egress.Perm q'.egress

theorem Reordered.symm {q q' : SearchQuery α} (h : q.Reordered q') : q'.Reordered q where
  departureTime := h.departureTime.symm
  maxTransfers := h.maxTransfers.symm
  parameters := h.parameters.symm
  access := h.access.symm
  egress := h.egress.symm

/-- The routes at the access stops, in the order in which the access candidates
    lead to them. -/
def entryRoutes (q : SearchQuery α) (t : Timetable α) : List Nat :=
  t.routesMet (q.access.flatMap fun c => (t.routeStopsAt? c.stop).getD [])

variable [Scalar α]

/-- The labels of the access candidates in the order in which they are offered. -/
def entries (q : SearchQuery α) (t : Timetable α) : List (Label α) :=
  q.access.zipIdx.flatMap fun x =>
    ((t.routeStopsAt? x.1.stop).getD []).map (Label.ofAccess q.departureTime x.2 x.1)

theorem mem_entries_iff {q : SearchQuery α} {t : Timetable α} (hw : t.WellFormed) (l : Label α) :
    l ∈ q.entries t ↔ ∃ k c i, q.access[k]? = some c ∧ t.stopOf? i = some c.stop ∧
      l = Label.ofAccess q.departureTime k c i := by
  unfold entries
  simp only [List.mem_flatMap, List.mem_map, Prod.exists, List.mem_zipIdx_iff_getElem?,
    hw.mem_getD_routeStopsAt?_iff]
  constructor
  · rintro ⟨c, k, hk, i, hi, rfl⟩
    exact ⟨k, c, i, hk, hi, rfl⟩
  · rintro ⟨k, c, i, hk, hi, rfl⟩
    exact ⟨c, k, hk, i, hi, rfl⟩

theorem routeStops_entries (q : SearchQuery α) (t : Timetable α) :
    (q.entries t).map (·.routeStop)
      = q.access.flatMap fun c => (t.routeStopsAt? c.stop).getD [] := by
  unfold entries
  rw [List.map_flatMap]
  simp only [List.map_map]
  have hid : ∀ x : Candidate α × Nat,
      ((fun l : Label α => l.routeStop) ∘ Label.ofAccess q.departureTime x.2 x.1) = id :=
    fun x => rfl
  simp only [hid, List.map_id]
  conv_rhs => rw [← List.zipIdx_map_fst 0 q.access, List.flatMap_map]

theorem nodup_entries {q : SearchQuery α} {t : Timetable α} (hw : t.WellFormed)
    (honce : ∀ s l, t.routeStopsAt? s = some l → l.Nodup)
    (hdistinct : (q.access.map (·.stop)).Nodup) : ((q.entries t).map (·.routeStop)).Nodup := by
  rw [routeStops_entries, List.nodup_flatMap]
  constructor
  · intro c _
    cases hat : t.routeStopsAt? c.stop with
    | none => exact List.nodup_nil
    | some l => exact honce _ l hat
  · refine (List.pairwise_map.mp hdistinct).imp ?_
    -- A route-stop is at one stop only.
    intro c c' hne i hi hi'
    rw [hw.mem_getD_routeStopsAt?_iff] at hi hi'
    exact hne (Option.some.inj (hi.symm.trans hi'))

end SearchQuery

namespace Workspace

variable [Scalar α] {t : Timetable α} {policy : TransferPolicy α} {q q' : SearchQuery α}
  {w w' u u' : Workspace α}

section Egress

/-- Between two workspaces, some ways to the destination were noted and none was
    lost. -/
structure Readied (t : Timetable α) (w w' : Workspace α) : Prop where
  fits : w'.Fits t
  only : ∃ egress destinations, w' = { w with egress, destinations }
  kept : ∀ (i : Nat) (e : Egress α), w.egress[i]? = some (some e) →
    ∃ e', w'.egress[i]? = some (some e')
  noted : ∀ i ∈ w'.destinations.toList, i ∈ w.destinations.toList ∨
    ∃ e, w'.egress[i]? = some (some e)

omit [Scalar α] in
theorem Readied.trans (h : Readied t w u) (h' : Readied t u w') : Readied t w w' where
  fits := h'.fits
  only := by
    rcases h.only with ⟨egress, destinations, rfl⟩
    rcases h'.only with ⟨egress', destinations', rfl⟩
    exact ⟨egress', destinations', rfl⟩
  kept := fun i e he => by
    rcases h.kept i e he with ⟨e', he'⟩
    exact h'.kept i e' he'
  noted := fun i hi => by
    rcases h'.noted i hi with hi | hi
    · rcases h.noted i hi with hi | ⟨e, he⟩
      · exact Or.inl hi
      · exact Or.inr (h'.kept i e he)
    · exact Or.inr hi

omit [Scalar α] in
theorem Readied.refl (hf : w.Fits t) : Readied t w w :=
  ⟨hf, ⟨w.egress, w.destinations, rfl⟩, fun _ e he => ⟨e, he⟩, fun _ hi => Or.inl hi⟩

-- A way that is offered is noted, or there is one already.
theorem readied_of_offerEgress? (hf : w.Fits t) {e : Egress α} {i : Nat}
    (h : w.offerEgress? e i = some w') :
    Readied t w w' ∧ ∃ e', w'.egress[i]? = some (some e') := by
  have hf' := hf.offerEgress h
  rcases offerEgress?_eq_some h with ⟨rfl, e', he', -⟩ | ⟨table, dests, ht, hd, -, rfl⟩
  · exact ⟨Readied.refl hf, e', he'⟩
  · have hget := (write?_eq_some ht).2.2
    have hself : table[i]? = some (some e) := by rw [hget, if_pos rfl]
    refine ⟨⟨hf', ⟨_, _, rfl⟩, fun j e' he' => ?_, fun j hj => ?_⟩, e, hself⟩
    · by_cases hij : i = j
      · exact ⟨e, hij ▸ hself⟩
      · exact ⟨e', by rw [hget, if_neg hij]; exact he'⟩
    · rcases ((hf.destinations_over.mark hd).2.2 j).mp hj with rfl | hj
      · exact Or.inr ⟨e, hself⟩
      · exact Or.inl hj

/-- Offering the egress candidates changes nothing but the ways to the
    destination, and notes one at every route-stop at their stops. -/
theorem readied_of_setEgress? (hw : t.WellFormed) (hf : w.Fits t)
    (h : w.setEgress? t q.egress = some u) :
    Readied t w u ∧ ∀ c ∈ q.egress, ∀ i, t.stopOf? i = some c.stop →
      ∃ e, u.egress[i]? = some (some e) := by
  have hloop := Loop.foldlM_collect (Readied t)
    (fun (x : Candidate α × Nat) v => ∀ i, t.stopOf? i = some x.1.stop →
      ∃ e, v.egress[i]? = some (some e))
    (Readied.refl hf) (fun _ _ => Readied.trans) ?_ ?_ h
  · refine ⟨hloop.1, fun c hc i hi => ?_⟩
    rcases List.getElem?_of_mem hc with ⟨k, hk⟩
    exact hloop.2 (c, k) (List.mem_zipIdx_iff_getElem?.mpr hk) i hi
  · intro x v v' _ hv' hG i hi
    rcases hG i hi with ⟨e, he⟩
    exact hv'.kept i e he
  · rintro ⟨c, k⟩ - v v' hv hpass
    rcases Option.bind_eq_some_iff.mp hpass with ⟨routeStops, hrs, hinner⟩
    have hcover := Loop.foldlM_collect (Readied t)
      (fun i v => ∃ e, v.egress[i]? = some (some e)) (Readied.refl hv.fits)
      (fun _ _ => Readied.trans) (fun i v₁ v₂ _ hv₂ ⟨e, he⟩ => hv₂.kept i e he)
      (fun i _ v₁ v₂ hv₁ hv₂ => readied_of_offerEgress? hv₁.fits hv₂) hinner
    exact ⟨hcover.1, fun i hi => hcover.2 i ((hw.mem_routeStopsAt?_iff hrs i).mpr hi)⟩

end Egress

section Access

omit [Scalar α] in
-- A scan starts where it did, or at the route-stop that was improved.
theorem scanStart_cases {i r r' s : Nat} {start : Option Nat} {scanStart : Array (Option Nat)}
    (h : (if start.all (i < ·) then write? w.scanStart r (some i) else some w.scanStart)
      = some scanStart) (hs : scanStart[r']? = some (some s)) :
    s = i ∨ w.scanStart[r']? = some (some s) := by
  split at h
  · rw [(write?_eq_some h).2.2] at hs
    split at hs
    · rw [Option.some.injEq, Option.some.injEq] at hs
      exact Or.inl hs.symm
    · exact Or.inr hs
  · rw [Option.some.injEq] at h
    exact Or.inr (h ▸ hs)

/-- The total costs of complete journeys that end where they begin: with an access
    label and the way on from its route-stop. -/
def EntryCosts (w : Workspace α) (done : List (Label α)) (c : α) : Prop :=
  ∃ l ∈ done, ∃ e, w.egress[l.routeStop]? = some (some e) ∧ c = l.cost + e.cost

/-- The workspace knows some access labels, ways to the destination and nothing
    else. -/
structure Entered (t : Timetable α) (done : List (Label α)) (u : Workspace α) : Prop where
  fits : u.Fits t
  labels : u.labels.toList = done
  held : ∀ (id : Nat) (l : Label α), u.labels[id]? = some l →
    u.best[l.routeStop]? = some (some id)
  improved : u.improved.toList = done.map (·.routeStop)
  /-- Scans start at the first improved route-stops of their routes. -/
  marked : u.Marked t
  started : ∀ r s : Nat, u.scanStart[r]? = some (some s) → s ∈ u.improved.toList
  bound : Scalar.IsLeast (u.EntryCosts done) u.bound

namespace Entered

variable {done : List (Label α)}

theorem mem_iff (h : Entered t done u) (l : Label α) :
    l ∈ done ↔ ∃ id : Nat, u.labels[id]? = some l := by
  rw [← h.labels, Array.mem_toList_iff, Array.mem_iff_getElem?]

theorem holds_iff (h : Entered t done u) (i id : Nat) (l : Label α) :
    u.Holds i id l ↔ u.labels[id]? = some l ∧ l.routeStop = i := by
  constructor
  · exact fun hl => ⟨hl.2, h.fits.holds_routeStop hl⟩
  · rintro ⟨hl, rfl⟩
    exact ⟨h.held id l hl, hl⟩

-- One more entry may lead to one more complete journey.
theorem isLeast_concat [Scalar.Ranked α] (h : Entered t done u) {l : Label α}
    (hs : Stored t u l u') : Scalar.IsLeast (u'.EntryCosts (done ++ [l])) u'.bound := by
  have hcosts : ∀ c, u'.EntryCosts (done ++ [l]) c ↔ u.EntryCosts done c ∨
      ∃ e, u.egress[l.routeStop]? = some (some e) ∧ c = l.cost + e.cost := by
    intro c
    unfold EntryCosts
    simp only [hs.egress, List.mem_append, List.mem_singleton, or_and_right, exists_or,
      exists_eq_left]
  rcases h.fits.egress_exists hs.lt_size with ⟨e, he⟩
  cases e with
  | none =>
      rw [hs.bound_other he]
      refine h.bound.congr fun c => (hcosts c).trans (or_iff_left ?_)
      rintro ⟨e, he', -⟩
      rw [he] at he'
      exact absurd he' (by simp only [Option.some.injEq, reduceCtorEq, not_false_eq_true])
  | some e =>
      rw [hs.bound_destination e he]
      refine (h.bound.tightened (l.cost + e.cost)).congr fun c => (hcosts c).trans ?_
      simp only [he, Option.some.injEq, exists_eq_left']

/-- A label that is offered at a route-stop without one is stored. -/
theorem offerAccess [Scalar.Ranked α] (h : Entered t done u) {l : Label α}
    (hride : l.isRide = false) (htransfers : l.transfers = 0)
    (hnew : l.routeStop ∉ done.map (·.routeStop)) (hu : u.offerAccess? t l = some u') :
    Entered t (done ++ [l]) u' ∧ u'.egress = u.egress ∧ u'.destinations = u.destinations := by
  have himproves := (h.fits.offerAccess?_eq_some hride htransfers hu).improves h.fits hride
  unfold offerAccess? at hu
  rcases Option.bind_eq_some_iff.mp hu with ⟨b, hb, hu⟩
  rcases h.fits.improves?_eq_some hb with ⟨rfl, -⟩ | ⟨-, id, l', hl', -⟩
  · rcases Option.bind_eq_some_iff.mp hu with ⟨u₁, hs, hm⟩
    have hstored := h.fits.stored_improved hs hm hride
    have hbound := h.isLeast_concat hstored
    rcases store?_eq_some hs with ⟨best, labelled, egress, -, -, -, rfl⟩
    rcases markImproved?_eq_some hm with ⟨improved, rs, start, scanStart, hi, -, -, hscan, rfl⟩
    -- The route-stop is the last one that was improved.
    have himproved : improved.toList = done.map (·.routeStop) ++ [l.routeStop] := by
      rw [h.fits.improved_over.toList_mark hi, h.improved, if_neg hnew]
    refine ⟨?_, rfl, rfl⟩
    exact
      { fits := hstored.fits
        labels := by rw [hstored.labels, Array.toList_push, h.labels]
        held := fun id l' hl' => by
          rcases hstored.label_cases hl' with ⟨rfl, rfl⟩ | hl'
          · exact hstored.best_self
          · have hmem : l' ∈ done := (h.mem_iff l').mpr ⟨id, hl'⟩
            have hne : l'.routeStop ≠ l.routeStop := fun heq =>
              hnew (List.mem_map.mpr ⟨l', hmem, heq⟩)
            rw [hstored.best_other _ hne]
            exact h.held id l' hl'
        improved := by rw [List.map_append]; exact himproved
        marked := himproves.marked h.marked
        started := fun r s hr => by
          change s ∈ improved.toList
          rw [himproved]
          rcases scanStart_cases hscan hr with rfl | hr
          · exact List.mem_append_right _ List.mem_cons_self
          · rw [← h.improved]
            exact List.mem_append_left _ (h.started r s hr)
        bound := hbound }
  · rcases (h.holds_iff _ id l').mp hl' with ⟨hget, heq⟩
    have hmem : l' ∈ done := (h.mem_iff l').mpr ⟨id, hget⟩
    exact absurd (List.mem_map.mpr ⟨l', hmem, heq⟩) hnew

end Entered

/-- The workspace before the first round of a query. -/
structure Begun (t : Timetable α) (q : SearchQuery α) (u : Workspace α) : Prop
    extends Entered t (q.entries t) u where
  told : u.EgressTold t q
  found : ∀ c ∈ q.egress, ∀ i, t.stopOf? i = some c.stop → ∃ e, u.egress[i]? = some (some e)
  noted : ∀ i ∈ u.destinations.toList, ∃ e, u.egress[i]? = some (some e)

/-- Every search begins like this if the access candidates are at different
    stops. -/
theorem Begun.of_begin? [Scalar.Ranked α] (hw : t.WellFormed)
    (honce : ∀ s l, t.routeStopsAt? s = some l → l.Nodup)
    (hdistinct : (q.access.map (·.stop)).Nodup) (hf : w.Fits t) (h : w.begin? t q = some u) :
    Begun t q u := by
  rcases begin?_eq_some h with ⟨w₁, hegress, haccess⟩
  have hrun : Run t (fun _ _ => none) q w.reset w₁ :=
    run_of_egress hw hf.reset (Loop.passes_of_foldlM _ hegress)
  rcases readied_of_setEgress? hw hf.reset hegress with ⟨hready, hfound⟩
  have hnoted : ∀ i ∈ w₁.destinations.toList, ∃ e, w₁.egress[i]? = some (some e) := by
    intro i hi
    refine (hready.noted i hi).resolve_left fun hi => ?_
    rw [show w.reset.destinations.toList = [] from IndexSet.toList_clear _] at hi
    exact absurd hi List.not_mem_nil
  have hstart : Entered t [] w₁ := by
    have hf₁ := hready.fits
    rcases hready.only with ⟨egress, destinations, rfl⟩
    exact
      { fits := hf₁
        labels := rfl
        held := fun id l hl => absurd hl (by simp [reset])
        improved := hf.clean_reset.improved
        marked := fun i hi => by
          change i ∈ w.reset.improved.toList at hi
          rw [hf.clean_reset.improved] at hi
          exact absurd hi List.not_mem_nil
        started := fun r s hs => by
          change (Array.replicate w.scanStart.size (none : Option Nat))[r]? = some (some s) at hs
          rw [Array.getElem?_replicate] at hs
          split at hs <;> exact absurd hs (by simp)
        bound := Scalar.isLeast_none fun c hc => by
          rcases hc with ⟨l, hl, -⟩
          exact List.not_mem_nil hl }
  have hentered : Entered t (q.entries t) u ∧ u.egress = w₁.egress ∧
      u.destinations = w₁.destinations := by
    refine Loop.foldlM_invariant (fun done v => Entered t done v ∧ v.egress = w₁.egress ∧
      v.destinations = w₁.destinations) (q.entries t) ?_ w₁ u ⟨hstart, rfl, rfl⟩
      (Loop.foldlM_flatten _ haccess).2
    rintro done l rest v v' hdone ⟨hv, hve, hvd⟩ hv'
    have hmem : l ∈ q.entries t := by
      rw [hdone]
      exact List.mem_append_right _ List.mem_cons_self
    rcases (SearchQuery.mem_entries_iff hw l).mp hmem with ⟨k, c, i, -, -, rfl⟩
    -- No route-stop is offered two labels.
    have hnew : i ∉ done.map (·.routeStop) := by
      have hnodup := SearchQuery.nodup_entries hw honce hdistinct
      rw [hdone, List.map_append, List.map_cons] at hnodup
      exact fun hi => (List.nodup_append.mp hnodup).2.2 i hi i List.mem_cons_self rfl
    rcases hv.offerAccess rfl rfl hnew hv' with ⟨hentered, he, hd⟩
    exact ⟨hentered, he.trans hve, hd.trans hvd⟩
  rcases hentered with ⟨hentered, hue, hud⟩
  exact
    { hentered with
      told := by
        unfold EgressTold
        rw [hue]
        exact hrun.egressTold hf.clean_reset.egressTold
      found := by
        rw [hue]
        exact hfound
      noted := by
        rw [hue, hud]
        exact hnoted }

end Access

namespace Begun

variable (h : Begun t q u) (h' : Begun t q' u') (hw : t.WellFormed)

include h hw

theorem mem_improved_iff (i : Nat) :
    i ∈ u.improved.toList ↔ ∃ c ∈ q.access, t.stopOf? i = some c.stop := by
  rw [h.improved, SearchQuery.routeStops_entries]
  simp only [List.mem_flatMap, hw.mem_getD_routeStopsAt?_iff]

-- What a route-stop holds is the label of an access candidate.
theorem holds_cases {i id : Nat} {l : Label α} (hl : u.Holds i id l) :
    ∃ k c, q.access[k]? = some c ∧ t.stopOf? i = some c.stop ∧
      l = Label.ofAccess q.departureTime k c i := by
  rcases (h.holds_iff i id l).mp hl with ⟨hget, rfl⟩
  rcases (SearchQuery.mem_entries_iff hw l).mp ((h.mem_iff l).mpr ⟨id, hget⟩) with
    ⟨k, c, i, hk, hi, rfl⟩
  exact ⟨k, c, hk, hi, rfl⟩

-- And every access candidate has one at the route-stops of its stop.
theorem exists_holds {k i : Nat} {c : Candidate α} (hk : q.access[k]? = some c)
    (hi : t.stopOf? i = some c.stop) :
    ∃ id, u.Holds i id (Label.ofAccess q.departureTime k c i) := by
  have hmem := (SearchQuery.mem_entries_iff hw _).mpr ⟨k, c, i, hk, hi, rfl⟩
  rcases (h.mem_iff _).mp hmem with ⟨id, hid⟩
  exact ⟨id, (h.holds_iff i id _).mpr ⟨hid, rfl⟩⟩

include h'

omit hw in
-- The same candidates in the same order leave the same labels.
theorem labels_eq (hre : q.Reordered q') (hsame : q'.access = q.access) : u'.labels = u.labels := by
  have hentries : q'.entries t = q.entries t := by
    unfold SearchQuery.entries
    rw [hsame, hre.departureTime]
  rw [← Array.toList_inj, h.labels, h'.labels, hentries]

/-- The route-stops hold twins. -/
theorem exists_twin (hre : q.Reordered q') {i id : Nat} {l : Label α} (hl : u.Holds i id l) :
    ∃ id' l', u'.Holds i id' l' ∧
      l.Twins (q'.access = q.access) q.access q'.access u.labels u'.labels l' ∧
      (q'.access = q.access → id' = id) := by
  rcases h.holds_cases hw hl with ⟨k, c, hk, hi, rfl⟩
  by_cases hsame : q'.access = q.access
  · have hlabels := h.labels_eq h' hre hsame
    rcases (h.holds_iff i id _).mp hl with ⟨hget, -⟩
    refine ⟨id, _, (h'.holds_iff i id _).mpr ⟨by rw [hlabels]; exact hget, rfl⟩, ?_, fun _ => rfl⟩
    exact Label.Twins.access rfl rfl hk (by rw [hsame]; exact hk) fun _ => rfl
  · rcases List.getElem?_of_mem (hre.access.mem_iff.mp (List.mem_of_getElem? hk)) with ⟨k', hk'⟩
    rcases h'.exists_holds hw hk' hi with ⟨id', hid'⟩
    refine ⟨id', _, hid', ?_, fun hc => absurd hc hsame⟩
    have hlabel : Label.ofAccess q'.departureTime k' c i
        = { Label.ofAccess q.departureTime k c i with step := .access k' } := by
      unfold Label.ofAccess
      rw [hre.departureTime]
    rw [hlabel]
    exact Label.Twins.access rfl rfl hk hk' fun hc => absurd hc hsame

-- A route-stop without a label has none in the other search.
theorem unheld (hre : q.Reordered q') {i : Nat} (hi : u.best[i]? = some none) :
    u'.best[i]? = some none := by
  have hlt : i < t.routeStops.size := h.fits.best_size ▸ (Array.getElem?_eq_some_iff.mp hi).1
  rcases h'.fits.best_cases hlt with hi' | ⟨id', l', hl'⟩
  · exact hi'
  · rcases h'.exists_twin h hw hre.symm hl' with ⟨id, l, ⟨hbest, -⟩, -⟩
    rw [hi] at hbest
    exact absurd hbest (by simp only [Option.some.injEq, reduceCtorEq, not_false_eq_true])

omit hw in
/-- The ways to the destination are those of the same candidates. -/
theorem egress_twin (hre : q.Reordered q') (hdistinct : (q.egress.map (·.stop)).Nodup) {i : Nat}
    {e : Egress α} (he : u.egress[i]? = some (some e)) :
    ∃ e' c, u'.egress[i]? = some (some e') ∧ e'.cost = e.cost ∧
      q.egress[e.candidate]? = some c ∧ q'.egress[e'.candidate]? = some c := by
  rcases h.told i e he with ⟨c, hc, hi, hcost⟩
  have hmem := List.mem_of_getElem? hc
  rcases h'.found c (hre.egress.mem_iff.mp hmem) i hi with ⟨e', he'⟩
  rcases h'.told i e' he' with ⟨c', hc', hi', hcost'⟩
  -- The two candidates are at one stop.
  have hsame : c = c' := List.inj_on_of_nodup_map hdistinct hmem
    (hre.egress.mem_iff.mpr (List.mem_of_getElem? hc')) (Option.some.inj (hi.symm.trans hi'))
  subst hsame
  exact ⟨e', c, he', hcost'.trans hcost.symm, hc, hc'⟩

omit hw in
theorem noEgress (hre : q.Reordered q') (hdistinct : (q.egress.map (·.stop)).Nodup) {i : Nat}
    (hi : u.egress[i]? = some none) : u'.egress[i]? = some none := by
  have hlt : i < t.routeStops.size := h.fits.egress_size ▸ (Array.getElem?_eq_some_iff.mp hi).1
  rcases h'.fits.egress_exists hlt with ⟨egress', he'⟩
  cases egress' with
  | none => exact he'
  | some e' =>
      have hdistinct' := (hre.egress.map _).nodup_iff.mp hdistinct
      rcases h'.egress_twin h hre.symm hdistinct' he' with ⟨e, -, he, -⟩
      rw [hi] at he
      exact absurd he (by simp only [Option.some.injEq, reduceCtorEq, not_false_eq_true])

omit hw in
theorem mem_destinations (hre : q.Reordered q') (hdistinct : (q.egress.map (·.stop)).Nodup)
    {i : Nat} (hi : i ∈ u.destinations.toList) : i ∈ u'.destinations.toList := by
  rcases h.noted i hi with ⟨e, he⟩
  rcases h.egress_twin h' hre hdistinct he with ⟨e', -, he', -⟩
  exact h'.fits.mem_destinations i e' he'

-- A scan starts no later in the other search.
theorem scanStart_le (hre : q.Reordered q') {r s : Nat} (hs : u.scanStart[r]? = some (some s)) :
    ∃ s', s' ≤ s ∧ u'.scanStart[r]? = some (some s') := by
  rcases h.fits.scanStart_route r s hs with ⟨rs, hrs, hr⟩
  rcases (h.mem_improved_iff hw s).mp (h.started r s hs) with ⟨c, hc, hi⟩
  exact h'.marked s ((h'.mem_improved_iff hw s).mpr ⟨c, hre.access.mem_iff.mp hc, hi⟩) r
    ⟨rs, hrs, hr⟩

theorem scanStart_eq (hre : q.Reordered q') : u'.scanStart = u.scanStart := by
  refine Array.ext_getElem? fun r => ?_
  cases hr : u.scanStart[r]? with
  | none =>
      rw [Array.getElem?_eq_none_iff, h.fits.scanStart_size] at hr
      rw [Array.getElem?_eq_none_iff, h'.fits.scanStart_size]
      exact hr
  | some start =>
      have hlt : r < u'.scanStart.size := by
        rw [h'.fits.scanStart_size, ← h.fits.scanStart_size]
        exact (Array.getElem?_eq_some_iff.mp hr).1
      cases start with
      | none =>
          cases hr' : u'.scanStart[r] with
          | none => rw [Array.getElem?_eq_getElem hlt, hr']
          | some s' =>
              rcases h'.scanStart_le h hw hre.symm
                ((Array.getElem?_eq_getElem hlt).trans (congrArg some hr')) with ⟨s, -, hs⟩
              rw [hr] at hs
              exact absurd hs (by simp only [Option.some.injEq, reduceCtorEq, not_false_eq_true])
      | some s =>
          -- Neither scan starts later than the other one.
          rcases h.scanStart_le h' hw hre hr with ⟨s', hle, hs'⟩
          rcases h'.scanStart_le h hw hre.symm hs' with ⟨s'', hle', hs''⟩
          rw [hr, Option.some.injEq, Option.some.injEq] at hs''
          rw [hs', Nat.le_antisymm hle (hs'' ▸ hle')]

omit h' in
-- No label has a predecessor.
theorem ordered : Label.Ordered u.labels := by
  intro id l hl id' hid'
  rcases (SearchQuery.mem_entries_iff hw l).mp ((h.mem_iff l).mpr ⟨id, hl⟩) with
    ⟨k, c, i, -, -, rfl⟩
  exact absurd hid' (Option.some_ne_none id').symm

-- The complete journeys known are the same.
theorem entryCosts (hre : q.Reordered q') (hdistinct : (q.egress.map (·.stop)).Nodup) {c : α}
    (hc : u.EntryCosts (q.entries t) c) : u'.EntryCosts (q'.entries t) c := by
  rcases hc with ⟨l, hl, e, he, rfl⟩
  rcases (h.mem_iff l).mp hl with ⟨id, hget⟩
  rcases h.exists_twin h' hw hre ((h.holds_iff _ id l).mpr ⟨hget, rfl⟩) with
    ⟨id', l', hl', htwins, -⟩
  rcases h.egress_twin h' hre hdistinct he with ⟨e', -, he', hcost, -⟩
  refine ⟨l', (h'.mem_iff l').mpr ⟨id', hl'.2⟩, e', by rw [htwins.routeStop_eq]; exact he', ?_⟩
  rw [htwins.cost_eq, hcost]

/-- Searches for the same candidates begin in agreement. -/
theorem agree [Scalar.Ranked α] (hre : q.Reordered q') (hdistinct : (q.egress.map (·.stop)).Nodup) :
    Agree (q'.access = q.access) t q q' u u' where
  fits := h.fits
  fits' := h'.fits
  ordered := h.ordered hw
  ordered' := h'.ordered hw
  held := fun _ _ _ hl => h.exists_twin h' hw hre hl
  unheld := fun _ hi => h.unheld h' hw hre hi
  egress := fun _ _ he => h.egress_twin h' hre hdistinct he
  noEgress := fun _ hi => h.noEgress h' hre hdistinct hi
  destinations := fun _ =>
    ⟨h'.mem_destinations h hre.symm ((hre.egress.map _).nodup_iff.mp hdistinct),
      h.mem_destinations h' hre hdistinct⟩
  bound := h.bound.rel_alike (h'.bound.congr fun _ =>
    ⟨h.entryCosts h' hw hre hdistinct,
      h'.entryCosts h hw hre.symm ((hre.egress.map _).nodup_iff.mp hdistinct)⟩)
  scanStart := h.scanStart_eq h' hw hre
  labels := h.labels_eq h' hre

omit h' hw in
-- The first round meets the routes at the access stops.
theorem routesMet_improved : t.routesMet u.improved.toList = q.entryRoutes t := by
  unfold SearchQuery.entryRoutes
  rw [h.improved, SearchQuery.routeStops_entries]

end Begun

/-- A search that begins knows that the candidates are at stops of the
    timetable. -/
theorem within_of_begin? (hw : t.WellFormed) (h : w.begin? t q = some u) : q.Within t := by
  rcases begin?_eq_some h with ⟨w₁, hegress, haccess⟩
  rw [setEgress?_eq] at hegress
  rw [setAccess?_eq] at haccess
  have hat : ∀ {candidates : List (Candidate α)} {v v' : Workspace α}
      {f : Workspace α → Candidate α × Nat → Option (Workspace α)},
      (∀ x v v', f v x = some v' → ∃ l, t.routeStopsAt? x.1.stop = some l) →
      candidates.zipIdx.foldlM f v = some v' → ∀ c ∈ candidates, c.stop < t.stops.size := by
    intro candidates v v' f hfound hloop c hc
    rcases List.getElem?_of_mem hc with ⟨k, hk⟩
    have hall := Loop.foldlM_collect (fun _ _ => True)
      (fun (x : Candidate α × Nat) _ => ∃ l, t.routeStopsAt? x.1.stop = some l) trivial
      (fun _ _ _ _ => trivial)
      (fun _ _ _ _ _ h => h) (fun x _ v v' _ hv => ⟨trivial, hfound x v v' hv⟩) hloop
    rcases hall.2 (c, k) (List.mem_zipIdx_iff_getElem?.mpr hk) with ⟨l, hl⟩
    exact hw.routeStopsAt_lt _ l hl
  refine ⟨hat (fun x v v' hv => ?_) haccess, hat (fun x v v' hv => ?_) hegress⟩
  · rcases inOfferAccess_of_offerAccessAt? hv with ⟨l, hl, -⟩
    exact ⟨l, hl⟩
  · rcases inOfferEgress_of_offerEgressAt? hv with ⟨l, hl, -⟩
    exact ⟨l, hl⟩

end Workspace

end Journey
