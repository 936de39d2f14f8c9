import Journey.Proofs.Search.Fits
import Journey.Search.Rounds

/-!
# Storing Labels

What changes when a search accepts an arrival.

A label is only ever stored together with a note of its route-stop, as reached
if a vehicle got there and as improved otherwise. `Stored` is the whole effect
of the two, and `Offered` adds that an arrival may be turned down, because it is
too expensive or because what is there is not beaten by it. The three places
where the search offers an arrival do nothing else, so whatever is proved of
`Offered` holds of all of them.

## Main definitions

* `Workspace.Stored`: What storing a label changes.
* `Workspace.Offered`: What offering a label changes.

## Theorems

* `Workspace.Fits.offerAccess?_eq_some`, `Workspace.Fits.offerWalk?_eq_some`,
  `Workspace.Fits.alight?_eq_some`: The places where a label is offered.
* `Workspace.Fits.offerAccess?_exists` and its companions: Offering does not
  fail at a route-stop that exists.
-/

namespace Journey

namespace Workspace

variable {α : Type} [Scalar α] {t : Timetable α} {w w' : Workspace α} {l : Label α}

/-- What storing a label changes. -/
structure Stored (t : Timetable α) (w : Workspace α) (l : Label α) (w' : Workspace α) : Prop where
  fits : w'.Fits t
  lt_size : l.routeStop < t.routeStops.size
  labels : w'.labels = w.labels.push l
  best_self : w'.best[l.routeStop]? = some (some w.labels.size)
  best_other : ∀ i : Nat, i ≠ l.routeStop → w'.best[i]? = w.best[i]?
  egress : w'.egress = w.egress
  /-- At a destination the bound may become tighter. -/
  bound_destination : ∀ e, w.egress[l.routeStop]? = some (some e) →
    w'.bound = tightened w.bound (l.cost + e.cost)
  bound_other : w.egress[l.routeStop]? = some none → w'.bound = w.bound
  /-- A route-stop is improved by any label that is no ride. -/
  improved : ∀ i, i ∈ w'.improved.toList ↔
    i ∈ w.improved.toList ∨ (l.isRide = false ∧ i = l.routeStop)
  /-- A route-stop is reached by a ride. -/
  reached : ∀ i, i ∈ w'.reached.toList ↔
    i ∈ w.reached.toList ∨ (l.isRide = true ∧ i = l.routeStop)
  /-- Scans start no later than before. -/
  scanStart : ∀ r s : Nat, w.scanStart[r]? = some (some s) →
    ∃ s', s' ≤ s ∧ w'.scanStart[r]? = some (some s')
  /-- The route of an improved route-stop is scanned from there or before. -/
  scanStart_self : l.isRide = false → ∀ rs, t.routeStops[l.routeStop]? = some rs →
    ∃ s, s ≤ l.routeStop ∧ w'.scanStart[rs.route]? = some (some s)

/-- What offering a label changes. -/
inductive Offered (t : Timetable α) (w : Workspace α) (l : Label α) : Workspace α → Prop where
  /-- A complete journey is known that costs less. -/
  | exceeded (h : w.exceedsBound l.cost = true) : Offered t w l w
  /-- The route-stop keeps its label. -/
  | kept {id : Nat} {held : Label α} (h : w.Holds l.routeStop id held)
      (hkept : held.isBeatenBy l.cost l.transfers = false) : Offered t w l w
  /-- The route-stop had no label or one that is beaten. -/
  | stored {w' : Workspace α} (h : Stored t w l w')
      (hbeaten : ∀ id held, w.Holds l.routeStop id held →
        held.isBeatenBy l.cost l.transfers = true) : Offered t w l w'

namespace Stored

-- The route-stop of the label holds it from now on.
theorem holds_self (h : Stored t w l w') : w'.Holds l.routeStop w.labels.size l :=
  ⟨h.best_self, by rw [h.labels]; exact Array.getElem?_push_size⟩

theorem labels_mono (h : Stored t w l w') {id : Nat} {l' : Label α}
    (hl : w.labels[id]? = some l') : w'.labels[id]? = some l' := by
  rw [h.labels, Array.getElem?_push, if_neg (Nat.ne_of_lt (Array.getElem?_eq_some_iff.mp hl).1), hl]

-- Other route-stops hold what they held.
theorem holds_of_ne (h : Stored t w l w') {i id : Nat} {l' : Label α} (hi : i ≠ l.routeStop)
    (hl : w.Holds i id l') : w'.Holds i id l' :=
  ⟨by rw [h.best_other i hi]; exact hl.1, h.labels_mono hl.2⟩

theorem holds_cases (h : Stored t w l w') (hf : w.Fits t) {i id : Nat} {l' : Label α}
    (hl : w'.Holds i id l') :
    (i = l.routeStop ∧ id = w.labels.size ∧ l' = l) ∨ (i ≠ l.routeStop ∧ w.Holds i id l') := by
  by_cases hi : i = l.routeStop
  · subst hi
    rcases h.holds_self.unique hl with ⟨rfl, rfl⟩
    exact Or.inl ⟨rfl, rfl, rfl⟩
  · refine Or.inr ⟨hi, ?_⟩
    have hb := hl.1
    rw [h.best_other i hi] at hb
    rcases hf.exists_label i id hb with ⟨l'', hl'', -⟩
    have heq := h.labels_mono hl''
    rw [hl.2, Option.some.injEq] at heq
    subst heq
    exact ⟨hb, hl''⟩

-- A label of the workspace is the one stored or was there before.
theorem label_cases (h : Stored t w l w') {id : Nat} {l' : Label α}
    (hl : w'.labels[id]? = some l') : (id = w.labels.size ∧ l' = l) ∨ w.labels[id]? = some l' := by
  rw [h.labels, Array.getElem?_push] at hl
  by_cases hid : id = w.labels.size
  · rw [if_pos hid, Option.some.injEq] at hl
    exact Or.inl ⟨hid, hl.symm⟩
  · rw [if_neg hid] at hl
    exact Or.inr hl

end Stored

theorem store?_eq_some (h : w.store? l = some w') :
    ∃ best labelled egress, write? w.best l.routeStop (some w.labels.size) = some best ∧
      w.labelled.mark l.routeStop = some labelled ∧ w.egress[l.routeStop]? = some egress ∧
      w' = { w with
        labels := w.labels.push l
        best
        labelled
        bound := match egress with
          | some e => tightened w.bound (l.cost + e.cost)
          | none => w.bound } := by
  unfold store? at h
  simp only [Option.bind_eq_bind, Option.bind_eq_some_iff, Option.pure_def,
    Option.some.injEq] at h
  rcases h with ⟨best, hb, labelled, hl, egress, he, rfl⟩
  exact ⟨best, labelled, egress, hb, hl, he, rfl⟩

omit [Scalar α] in
theorem markImproved?_eq_some {i : Nat} (h : w.markImproved? t i = some w') :
    ∃ improved rs start scanStart, w.improved.mark i = some improved ∧
      t.routeStops[i]? = some rs ∧ w.scanStart[rs.route]? = some start ∧
      (if start.all (i < ·) then write? w.scanStart rs.route (some i)
        else some w.scanStart) = some scanStart ∧
      w' = { w with improved, scanStart } := by
  unfold markImproved? at h
  simp only [Option.bind_eq_bind, Option.bind_eq_some_iff, Option.pure_def] at h
  rcases h with ⟨improved, hi, rs, hrs, start, hs, h⟩
  split at h
  · rename_i hfirst
    simp only [Option.bind_eq_some_iff, Option.some.injEq] at h
    rcases h with ⟨scanStart, hw, rfl⟩
    exact ⟨improved, rs, start, scanStart, hi, hrs, hs, by rw [if_pos hfirst, hw], rfl⟩
  · rename_i hfirst
    simp only [Option.bind_some, Option.some.injEq] at h
    subst h
    exact ⟨improved, rs, start, w.scanStart, hi, hrs, hs, by rw [if_neg hfirst], rfl⟩

omit [Scalar α] in
theorem markReached?_eq_some {i : Nat} (h : w.markReached? i = some w') :
    ∃ reached, w.reached.mark i = some reached ∧ w' = { w with reached } := by
  unfold markReached? at h
  simp only [Option.bind_eq_bind, Option.bind_eq_some_iff, Option.pure_def,
    Option.some.injEq] at h
  rcases h with ⟨reached, hr, rfl⟩
  exact ⟨reached, hr, rfl⟩

omit [Scalar α] in
-- The start of a scan after a route-stop was improved: the earlier one of the
-- two.
theorem scanStart_of_improved {i r : Nat} {start : Option Nat} {scanStart : Array (Option Nat)}
    (hstart : w.scanStart[r]? = some start)
    (h : (if start.all (i < ·) then write? w.scanStart r (some i)
      else some w.scanStart) = some scanStart) :
    scanStart.size = w.scanStart.size ∧ (∃ s, s ≤ i ∧ scanStart[r]? = some (some s)) ∧
      ∀ r' s, w.scanStart[r']? = some (some s) →
        ∃ s', s' ≤ s ∧ scanStart[r']? = some (some s') ∧ (s' = s ∨ (r' = r ∧ s' = i)) := by
  -- Either the route-stop comes before the start there was, or the start stays.
  by_cases hfirst : start.all (i < ·)
  · rw [if_pos hfirst] at h
    rcases write?_eq_some h with ⟨-, hsize, hget⟩
    refine ⟨hsize, ⟨i, Nat.le_refl i, by rw [hget, if_pos rfl]⟩, ?_⟩
    intro r' s hs
    rw [hget]
    by_cases hr : r = r'
    · subst hr
      rw [hstart, Option.some.injEq] at hs
      subst hs
      have hlt : i < s := by simpa only [Option.all_some, decide_eq_true_eq] using hfirst
      exact ⟨i, Nat.le_of_lt hlt, if_pos rfl, Or.inr ⟨rfl, rfl⟩⟩
    · exact ⟨s, Nat.le_refl s, by rw [if_neg hr, hs], Or.inl rfl⟩
  · rw [if_neg hfirst, Option.some.injEq] at h
    subst h
    refine ⟨rfl, ?_, fun r' s hs => ⟨s, Nat.le_refl s, hs, Or.inl rfl⟩⟩
    cases start with
    | none => exact absurd rfl hfirst
    | some s =>
        have hle : s ≤ i := by
          simpa only [Option.all_some, decide_eq_true_eq, Nat.not_lt] using hfirst
        exact ⟨s, hle, hstart⟩

namespace Fits

theorem store (hf : w.Fits t) (h : w.store? l = some w') : w'.Fits t := by
  rcases store?_eq_some h with ⟨best, labelled, egress, hb, hl, -, rfl⟩
  rcases write?_eq_some hb with ⟨-, hsize, hget⟩
  rcases hf.labelled_over.mark hl with ⟨-, hover, hmem⟩
  refine { hf with
    best_size := hsize.trans hf.best_size
    labelled_over := hover
    mem_labelled := ?_
    exists_label := ?_ }
  · intro i id hi
    rw [hget] at hi
    by_cases hli : l.routeStop = i
    · exact (hmem i).mpr (Or.inl hli.symm)
    · rw [if_neg hli] at hi
      exact (hmem i).mpr (Or.inr (hf.mem_labelled i id hi))
  · intro i id hi
    simp only [hget] at hi
    by_cases hli : l.routeStop = i
    · rw [if_pos hli, Option.some.injEq, Option.some.injEq] at hi
      subst hi
      exact ⟨l, Array.getElem?_push_size, hli⟩
    · rw [if_neg hli] at hi
      rcases hf.exists_label i id hi with ⟨l', hl', hrs⟩
      -- The old label is not the one at the end.
      have hlt : id < w.labels.size := (Array.getElem?_eq_some_iff.mp hl').1
      refine ⟨l', ?_, hrs⟩
      rw [Array.getElem?_push, if_neg (Nat.ne_of_lt hlt), hl']

omit [Scalar α] in
theorem markImproved (hf : w.Fits t) {i : Nat} (h : w.markImproved? t i = some w') :
    w'.Fits t := by
  rcases markImproved?_eq_some h with ⟨improved, rs, start, scanStart, hi, hrs, hs, hw, rfl⟩
  rcases hf.improved_over.mark hi with ⟨-, hover, -⟩
  rcases scanStart_of_improved hs hw with ⟨hsize, ⟨s, -, hself⟩, -⟩
  refine { hf with
    scanStart_size := hsize.trans hf.scanStart_size
    improved_over := hover
    scanStart_route := ?_ }
  intro r s' hs'
  simp only at hs'
  split at hw
  · rw [(write?_eq_some hw).2.2] at hs'
    by_cases hr : rs.route = r
    · rw [if_pos hr, Option.some.injEq, Option.some.injEq] at hs'
      subst hs'
      exact ⟨rs, hrs, hr⟩
    · rw [if_neg hr] at hs'
      exact hf.scanStart_route r s' hs'
  · rw [Option.some.injEq] at hw
    subst hw
    exact hf.scanStart_route r s' hs'

omit [Scalar α] in
theorem markReached (hf : w.Fits t) {i : Nat} (h : w.markReached? i = some w') : w'.Fits t := by
  rcases markReached?_eq_some h with ⟨reached, hr, rfl⟩
  rcases hf.reached_over.mark hr with ⟨-, hover, -⟩
  exact { hf with reached_over := hover }

theorem store_exists (hf : w.Fits t) (hl : l.routeStop < t.routeStops.size) :
    ∃ w', w.store? l = some w' := by
  rcases write?_exists (hf.best_size ▸ hl) (some w.labels.size) with ⟨best, hb⟩
  rcases hf.labelled_over.mark_exists hl with ⟨labelled, hm⟩
  rcases hf.egress_exists hl with ⟨egress, he⟩
  unfold store?
  simp only [Option.bind_eq_bind, hb, hm, he, Option.bind_some, Option.pure_def, Option.some.injEq,
    exists_eq']

omit [Scalar α] in
theorem markImproved_exists (hf : w.Fits t) (hw : t.WellFormed) {i : Nat}
    (hi : i < t.routeStops.size) : ∃ w', w.markImproved? t i = some w' := by
  rcases hf.improved_over.mark_exists hi with ⟨improved, hm⟩
  rcases hw.exists_route hi with ⟨rs, row, hrs, hrow⟩
  have hr : rs.route < w.scanStart.size :=
    hf.scanStart_size ▸ (Array.getElem?_eq_some_iff.mp hrow).1
  have hs := Array.getElem?_eq_getElem hr
  rcases write?_exists hr (some i) with ⟨scanStart, hscan⟩
  unfold markImproved?
  simp only [Option.bind_eq_bind, hm, hrs, hs, hscan, Option.bind_some, Option.pure_def]
  split <;> exact ⟨_, rfl⟩

omit [Scalar α] in
theorem markReached_exists (hf : w.Fits t) {i : Nat} (hi : i < t.routeStops.size) :
    ∃ w', w.markReached? i = some w' := by
  rcases hf.reached_over.mark_exists hi with ⟨reached, hm⟩
  unfold markReached?
  simp only [Option.bind_eq_bind, hm, Option.bind_some, Option.pure_def, Option.some.injEq,
    exists_eq']

-- An arrival that is no ride is stored as an improvement.
theorem stored_improved (hf : w.Fits t) {w₁ : Workspace α} (h : w.store? l = some w₁)
    (hm : w₁.markImproved? t l.routeStop = some w') (hride : l.isRide = false) :
    Stored t w l w' := by
  have hfits := (hf.store h).markImproved hm
  rcases store?_eq_some h with ⟨best, labelled, egress, hb, hl, he, rfl⟩
  rcases write?_eq_some hb with ⟨hlt, -, hget⟩
  rcases markImproved?_eq_some hm with ⟨improved, rs, start, scanStart, hi, hrs, hs, hw, rfl⟩
  rcases hf.improved_over.mark hi with ⟨-, -, hmem⟩
  rcases scanStart_of_improved hs hw with ⟨-, hself, hmono⟩
  exact
    { fits := hfits
      lt_size := hf.best_size ▸ hlt
      labels := rfl
      best_self := by simp only [hget, if_pos]
      best_other := fun i hne => by simp only [hget, if_neg hne.symm]
      egress := rfl
      bound_destination := fun e he' => by
        rw [he, Option.some.injEq] at he'
        subst he'
        rfl
      bound_other := fun he' => by
        rw [he, Option.some.injEq] at he'
        subst he'
        rfl
      improved := fun i => by
        simp only [hmem, hride, true_and]
        exact or_comm
      reached := fun i => by simp only [hride, Bool.false_eq_true, false_and, or_false]
      scanStart := fun r s hs => by
        rcases hmono r s hs with ⟨s', hle, hget, -⟩
        exact ⟨s', hle, hget⟩
      scanStart_self := fun _ rs' hrs' => by
        rw [hrs, Option.some.injEq] at hrs'
        subst hrs'
        exact hself }

-- An arrival by vehicle is stored as reached.
theorem stored_reached (hf : w.Fits t) {w₁ : Workspace α} (h : w.store? l = some w₁)
    (hm : w₁.markReached? l.routeStop = some w') (hride : l.isRide = true) : Stored t w l w' := by
  have hfits := (hf.store h).markReached hm
  rcases store?_eq_some h with ⟨best, labelled, egress, hb, hl, he, rfl⟩
  rcases write?_eq_some hb with ⟨hlt, -, hget⟩
  rcases markReached?_eq_some hm with ⟨reached, hr, rfl⟩
  rcases hf.reached_over.mark hr with ⟨-, -, hmem⟩
  exact
    { fits := hfits
      lt_size := hf.best_size ▸ hlt
      labels := rfl
      best_self := by simp only [hget, if_pos]
      best_other := fun i hne => by simp only [hget, if_neg hne.symm]
      egress := rfl
      bound_destination := fun e he' => by
        rw [he, Option.some.injEq] at he'
        subst he'
        rfl
      bound_other := fun he' => by
        rw [he, Option.some.injEq] at he'
        subst he'
        rfl
      improved := fun i => by simp only [hride, Bool.true_eq_false, false_and, or_false]
      reached := fun i => by
        simp only [hmem, hride, true_and]
        exact or_comm
      scanStart := fun r s hs => ⟨s, Nat.le_refl s, hs⟩
      scanStart_self := fun hc => absurd hc (by rw [hride]; exact Bool.noConfusion) }

theorem improves?_exists (hf : w.Fits t) {i : Nat} (hi : i < t.routeStops.size) (cost : α)
    (transfers : Nat) : ∃ b, w.improves? i cost transfers = some b := by
  unfold improves?
  rcases hf.labelAt?_eq hi with ⟨-, h⟩ | ⟨id, held, -, h⟩
  · exact ⟨true, by rw [h, Option.map_some, Option.all_none]⟩
  · exact ⟨held.isBeatenBy cost transfers, by rw [h, Option.map_some, Option.all_some]⟩

-- What the comparison with the best label of a route-stop has to say.
theorem improves?_eq_some (hf : w.Fits t) {i : Nat} {cost : α} {transfers : Nat} {b : Bool}
    (h : w.improves? i cost transfers = some b) :
    (b = true ∧ ∀ id held, w.Holds i id held → held.isBeatenBy cost transfers = true) ∨
      (b = false ∧ ∃ id held, w.Holds i id held ∧ held.isBeatenBy cost transfers = false) := by
  unfold improves? at h
  rcases Option.map_eq_some_iff.mp h with ⟨label, hlabel, rfl⟩
  -- There would be no answer for a route-stop that does not exist.
  have hi : i < t.routeStops.size := by
    by_contra hc
    have hnone : w.best[i]? = none :=
      Array.getElem?_eq_none_iff.mpr (hf.best_size ▸ Nat.le_of_not_lt hc)
    unfold labelAt? at hlabel
    rw [hnone] at hlabel
    exact absurd hlabel (by simp only [Option.bind_eq_bind, Option.bind_none, reduceCtorEq,
      not_false_eq_true])
  rcases hf.labelAt?_eq hi with ⟨hnone, heq⟩ | ⟨id, held, hheld, heq⟩
  · rw [heq, Option.some.injEq] at hlabel
    subst hlabel
    refine Or.inl ⟨rfl, fun id held hheld => ?_⟩
    have hb := hheld.1
    rw [hnone] at hb
    exact absurd hb (by simp only [Option.some.injEq, reduceCtorEq, not_false_eq_true])
  · rw [heq, Option.some.injEq] at hlabel
    subst hlabel
    rw [Option.all_some]
    cases hbeaten : held.isBeatenBy cost transfers with
    | true =>
        refine Or.inl ⟨rfl, fun id' held' hheld' => ?_⟩
        rw [← (hheld.unique hheld').2]
        exact hbeaten
    | false => exact Or.inr ⟨rfl, id, held, hheld, hbeaten⟩

/-- An access candidate is offered without regard to the bound. -/
theorem offerAccess?_eq_some (hf : w.Fits t) (hride : l.isRide = false)
    (htransfers : l.transfers = 0) (h : w.offerAccess? t l = some w') : Offered t w l w' := by
  unfold offerAccess? at h
  rcases Option.bind_eq_some_iff.mp h with ⟨b, hb, h⟩
  rw [← htransfers] at hb
  rcases hf.improves?_eq_some hb with ⟨rfl, hbeaten⟩ | ⟨rfl, id, held, hheld, hkept⟩
  · rcases Option.bind_eq_some_iff.mp h with ⟨w₁, hs, hm⟩
    exact Offered.stored (hf.stored_improved hs hm hride) hbeaten
  · rw [← Option.some.inj h]
    exact Offered.kept hheld hkept

theorem offerAccess?_exists (hf : w.Fits t) (hw : t.WellFormed)
    (hl : l.routeStop < t.routeStops.size) : ∃ w', w.offerAccess? t l = some w' := by
  rcases hf.improves?_exists hl l.cost 0 with ⟨b, hb⟩
  unfold offerAccess?
  simp only [Option.bind_eq_bind, hb, Option.bind_some, Option.pure_def]
  split
  · rcases hf.store_exists hl with ⟨w₁, hs⟩
    rcases (hf.store hs).markImproved_exists hw hl with ⟨w', hm⟩
    exact ⟨w', by rw [hs, Option.bind_some, hm]⟩
  · exact ⟨w, rfl⟩

theorem offerWalk?_eq_some (hf : w.Fits t) (hride : l.isRide = false)
    (h : w.offerWalk? t l = some w') : Offered t w l w' := by
  unfold offerWalk? at h
  split at h
  · rename_i hexceeds
    rw [← Option.some.inj h]
    exact Offered.exceeded hexceeds
  · rcases Option.bind_eq_some_iff.mp h with ⟨b, hb, h⟩
    rcases hf.improves?_eq_some hb with ⟨rfl, hbeaten⟩ | ⟨rfl, id, held, hheld, hkept⟩
    · rcases Option.bind_eq_some_iff.mp h with ⟨w₁, hs, hm⟩
      exact Offered.stored (hf.stored_improved hs hm hride) hbeaten
    · rw [← Option.some.inj h]
      exact Offered.kept hheld hkept

theorem offerWalk?_exists (hf : w.Fits t) (hw : t.WellFormed)
    (hl : l.routeStop < t.routeStops.size) : ∃ w', w.offerWalk? t l = some w' := by
  rcases hf.improves?_exists hl l.cost l.transfers with ⟨b, hb⟩
  unfold offerWalk?
  simp only [Option.bind_eq_bind, hb, Option.bind_some, Option.pure_def]
  split
  · exact ⟨w, rfl⟩
  split
  · rcases hf.store_exists hl with ⟨w₁, hs⟩
    rcases (hf.store hs).markImproved_exists hw hl with ⟨w', hm⟩
    exact ⟨w', by rw [hs, Option.bind_some, hm]⟩
  · exact ⟨w, rfl⟩

/-- Leaving a vehicle offers the ride on it. -/
theorem alight?_eq_some (hf : w.Fits t) {p : Parameters α} {b : Boarding α} {i : Nat}
    {boardingTime : α} (hdep : t.departure? b.trip b.routeStop = some boardingTime)
    (h : w.alight? t p b i = some w') :
    ∃ arrivalTime, t.arrival? b.trip i = some arrivalTime ∧
      Offered t w (b.toLabel p i boardingTime arrivalTime) w' := by
  unfold alight? at h
  rcases Option.bind_eq_some_iff.mp h with ⟨arrivalTime, harr, h⟩
  refine ⟨arrivalTime, harr, ?_⟩
  simp only at h
  split at h
  · rename_i hexceeds
    rw [← Option.some.inj h]
    exact Offered.exceeded hexceeds
  · rcases Option.bind_eq_some_iff.mp h with ⟨improves, hi, h⟩
    -- The departure was looked up only for a label that is stored.
    rcases hf.improves?_eq_some hi with ⟨rfl, hbeaten⟩ | ⟨rfl, id, held, hheld, hkept⟩
    · simp only [if_true, Option.bind_eq_bind, hdep, Option.bind_some] at h
      rcases Option.bind_eq_some_iff.mp h with ⟨w₁, hs, hm⟩
      exact Offered.stored (hf.stored_reached hs hm rfl) hbeaten
    · rw [← Option.some.inj h]
      exact Offered.kept hheld hkept

theorem alight?_exists (hf : w.Fits t) (hw : t.WellFormed) (p : Parameters α) {b : Boarding α}
    {i : Nat} (hb : t.Serves b.trip b.routeStop) (hi : t.Serves b.trip i) :
    ∃ w', w.alight? t p b i = some w' := by
  rcases hi.exists_arrival hw with ⟨arrivalTime, harr⟩
  rcases hb.exists_departure hw with ⟨boardingTime, hdep⟩
  rcases hf.improves?_exists hi.lt_size (b.costUntil p arrivalTime) b.transfers with
    ⟨improves, himproves⟩
  unfold alight?
  simp only [Option.bind_eq_bind, harr, himproves, hdep, Option.bind_some, Option.pure_def]
  split
  · exact ⟨w, rfl⟩
  split
  · rcases hf.store_exists (l := b.toLabel p i boardingTime arrivalTime) hi.lt_size with ⟨w₁, hs⟩
    rcases (hf.store hs).markReached_exists hi.lt_size with ⟨w', hm⟩
    exact ⟨w', by rw [hs, Option.bind_some, hm]⟩
  · exact ⟨w, rfl⟩

end Fits

end Workspace

end Journey
