import Journey.Access.Intermodal
import Journey.Proofs.Timetable.NearStops

/-!
# Offers of Access Modes

What a mode has to offer, apart from what was found and what is kept.

The candidates of a request are found mode by mode and stop by stop, and every one of them
is offered to what was found so far while a store of legs goes along. As long as the store
answers with the legs that would be found anew, it leaves no trace in what is found: then
a mode makes the same offers whatever came before it, and finding is offering them one
after the other. `addMode_eq` separates the two. It leaves open why the store can be
trusted, since some modes do not even ask it.

## Main definitions

* `Found.offerAll`: Offering one candidate after the other.
* `Intermodal.newLeg?`: The leg of a mode for a stop if nothing is kept.
* `Intermodal.offers`: The candidates that a mode offers.
* `Intermodal.Trusts`: The store answers like new legs.

## Theorems

* `Found.offer_cases`: What is found after an offer.
* `Intermodal.Trusts.addMode_eq`: Adding a mode is offering its candidates.
* `Intermodal.candidates_eq_offerAll`: The same for one mode after the other.
* `Intermodal.mem_offers_iff`: Which candidates a mode offers.
-/

namespace Journey

variable {α : Type} [Scalar α]

namespace Found

variable {c c' : Candidate α} {found : Found α}

/-- Offer candidates one after the other. -/
def offerAll (candidates : List (Candidate α)) (found : Found α) : Found α :=
  candidates.foldl (fun found c => offer c found) found

-- Of two candidates of a stop one is kept.
theorem mem_offer (h : c' ∈ offer c found) : c' = c ∨ c' ∈ found := by
  induction found with
  | nil => exact Or.inl (List.mem_singleton.mp h)
  | cons head rest ih =>
      unfold offer at h
      split at h
      · exact List.mem_cons.mp h
      split at h
      · rcases List.mem_cons.mp h with rfl | hrest
        · split
          · exact Or.inl rfl
          · exact Or.inr List.mem_cons_self
        · exact Or.inr (List.mem_cons_of_mem _ hrest)
      · rcases List.mem_cons.mp h with rfl | hrest
        · exact Or.inr List.mem_cons_self
        · exact (ih hrest).imp_right (List.mem_cons_of_mem _)

-- The stop of the candidate is found from now on, and no other one is lost.
theorem exists_mem_offer {s : Nat} (h : s = c.stop ∨ ∃ d ∈ found, d.stop = s) :
    ∃ d ∈ offer c found, d.stop = s := by
  induction found with
  | nil =>
      rcases h with rfl | ⟨d, hd, -⟩
      · exact ⟨c, List.mem_cons_self, rfl⟩
      · exact absurd hd List.not_mem_nil
  | cons head rest ih =>
      unfold offer
      split
      · rcases h with rfl | ⟨d, hd, hs⟩
        · exact ⟨c, List.mem_cons_self, rfl⟩
        · exact ⟨d, List.mem_cons_of_mem _ hd, hs⟩
      split
      · rename_i heq
        -- Whichever of the two is kept, it is at their stop.
        have hkept : (if c.cost < head.cost then c else head).stop = head.stop := by
          split
          · exact heq
          · rfl
        rcases h with rfl | ⟨d, hd, hs⟩
        · exact ⟨_, List.mem_cons_self, hkept.trans heq.symm⟩
        · rcases List.mem_cons.mp hd with rfl | hd
          · exact ⟨_, List.mem_cons_self, hkept.trans hs⟩
          · exact ⟨d, List.mem_cons_of_mem _ hd, hs⟩
      · have hrest : (s = c.stop ∨ ∃ d ∈ rest, d.stop = s) →
            ∃ d ∈ head :: offer c rest, d.stop = s := by
          intro h
          rcases ih h with ⟨d, hd, hs⟩
          exact ⟨d, List.mem_cons_of_mem _ hd, hs⟩
        rcases h with heq | ⟨d, hd, hs⟩
        · exact hrest (Or.inl heq)
        · rcases List.mem_cons.mp hd with rfl | hd
          · exact ⟨d, List.mem_cons_self, hs⟩
          · exact hrest (Or.inr ⟨d, hd, hs⟩)

/-- What is found stays in order. -/
theorem pairwise_offer (h : found.Pairwise (·.stop < ·.stop)) :
    (offer c found).Pairwise (·.stop < ·.stop) := by
  induction found with
  | nil => exact List.pairwise_singleton _ c
  | cons head rest ih =>
      rcases List.pairwise_cons.mp h with ⟨hhead, hrest⟩
      unfold offer
      split
      · rename_i hlt
        refine List.pairwise_cons.mpr ⟨fun d hd => ?_, h⟩
        rcases List.mem_cons.mp hd with rfl | hd
        · exact hlt
        · exact Nat.lt_trans hlt (hhead d hd)
      split
      · rename_i heq
        refine List.pairwise_cons.mpr ⟨fun d hd => ?_, hrest⟩
        split
        · exact heq ▸ hhead d hd
        · exact hhead d hd
      · rename_i hnot hne
        refine List.pairwise_cons.mpr ⟨fun d hd => ?_, ih hrest⟩
        rcases mem_offer hd with rfl | hd
        · exact Nat.lt_of_le_of_ne (Nat.le_of_not_lt hnot) (Ne.symm hne)
        · exact hhead d hd

/-- What is found after an offer: what was found at other stops, and at the stop of the
    offer what was found there unless the offer is cheaper. -/
theorem offer_cases (h : found.Pairwise (·.stop < ·.stop)) (hd : c' ∈ offer c found) :
    (c' ∈ found ∧ c'.stop ≠ c.stop) ∨
      (c' ∈ found ∧ c'.stop = c.stop ∧ ¬ c.cost < c'.cost) ∨
      (c' = c ∧ ∀ d ∈ found, d.stop = c.stop → c.cost < d.cost) := by
  induction found with
  | nil =>
      exact Or.inr (Or.inr ⟨List.mem_singleton.mp hd, fun d hd => absurd hd List.not_mem_nil⟩)
  | cons head rest ih =>
      rcases List.pairwise_cons.mp h with ⟨hhead, hrest⟩
      unfold offer at hd
      split at hd
      · -- All that is found is at later stops.
        rename_i hlt
        have hlater : ∀ d ∈ head :: rest, c.stop < d.stop := by
          intro d hd
          rcases List.mem_cons.mp hd with rfl | hd
          · exact hlt
          · exact Nat.lt_trans hlt (hhead d hd)
        rcases List.mem_cons.mp hd with rfl | hd
        · exact Or.inr (Or.inr ⟨rfl, fun d hd hs => absurd hs (Nat.ne_of_gt (hlater d hd))⟩)
        · exact Or.inl ⟨hd, Nat.ne_of_gt (hlater c' hd)⟩
      split at hd
      · rename_i heq
        rcases List.mem_cons.mp hd with hd | hd
        · split at hd
          · rename_i hcheaper
            refine Or.inr (Or.inr ⟨hd, fun d hmem hs => ?_⟩)
            rcases List.mem_cons.mp hmem with rfl | hmem
            · exact hcheaper
            · exact absurd (hs.trans heq) (Nat.ne_of_gt (hhead d hmem))
          · rename_i hdear
            exact Or.inr (Or.inl ⟨hd ▸ List.mem_cons_self, hd ▸ heq.symm, hd ▸ hdear⟩)
        · exact Or.inl ⟨List.mem_cons_of_mem _ hd, heq ▸ Nat.ne_of_gt (hhead c' hd)⟩
      · rename_i hne
        rcases List.mem_cons.mp hd with rfl | hd
        · exact Or.inl ⟨List.mem_cons_self, Ne.symm hne⟩
        · rcases ih hrest hd with ⟨hd, hs⟩ | ⟨hd, hs, hdear⟩ | ⟨hd, hless⟩
          · exact Or.inl ⟨List.mem_cons_of_mem _ hd, hs⟩
          · exact Or.inr (Or.inl ⟨List.mem_cons_of_mem _ hd, hs, hdear⟩)
          · refine Or.inr (Or.inr ⟨hd, fun d hmem hs => ?_⟩)
            rcases List.mem_cons.mp hmem with rfl | hmem
            · exact absurd hs.symm hne
            · exact hless d hmem hs

end Found

namespace Intermodal

variable [Planar α] {κ : Type} [LegStore κ α]

/-- The leg of a mode for a stop if nothing is kept. One that would be kept is found from
    the stop to the facility. -/
def newLeg? (m : AccessMode α) (router : LegRouter α) (r : AccessRequest α) (stop : Stop α) :
    Option (AccessLeg α) :=
  if m.routedOnNetwork then
    match r.direction with
    | .access => (router.route? stop.position r.facility.position).map AccessLeg.reversed
    | .egress => router.route? stop.position r.facility.position
  else directLeg? router r stop

/-- The candidate that a mode offers for a stop. -/
def offerAt? (m : AccessMode α) (router : LegRouter α) (r : AccessRequest α)
    (stop : Nat × Stop α) : Option (Candidate α) :=
  if AttributeFilter.allows m.stopFilter stop.2.attributes then
    (newLeg? m router r stop.2).map (·.candidate r.parameters m.mode stop.1)
  else none

/-- The candidates that a mode offers, by increasing stop. -/
def offers [MarkerTree α] (i : Intermodal α) (t : Timetable α) (r : AccessRequest α)
    (m : AccessMode α) : List (Candidate α) :=
  if AttributeFilter.allows m.travellerFilter r.traveller then
    match i.routers.get? m.mode.text with
    | some router =>
      (t.stopsNear r.facility.position m.maxRadius).filterMap (offerAt? m router r)
    | none => []
  else []

variable {i : Intermodal α} {t : Timetable α} {r : AccessRequest α} {m : AccessMode α}
  {router : LegRouter α}

-- A stop adds the candidate that its leg makes.
theorem addStop_eq (m : AccessMode α) (router : LegRouter α) (r : AccessRequest α)
    (found : Found α) (store : κ) (index : Nat) (stop : Stop α) :
    addStop m router r (found, store) (index, stop) =
      if AttributeFilter.allows m.stopFilter stop.attributes then
        (((leg m router r stop store).1.map (·.candidate r.parameters m.mode index)).elim found
            (Found.offer · found),
          (leg m router r stop store).2)
      else (found, store) := by
  simp only [addStop]
  rcases leg m router r stop store with ⟨_ | leg, store'⟩ <;> rfl

/-- Whatever is true of a store that answers like new legs, if asking it for the legs of a
    mode keeps it true. -/
def Trusts (i : Intermodal α) (t : Timetable α) (r : AccessRequest α) (P : κ → Prop)
    (m : AccessMode α) : Prop :=
  ∀ router, i.routers.get? m.mode.text = some router → ∀ stop ∈ t.stops, ∀ store, P store →
    (leg m router r stop store).1 = newLeg? m router r stop ∧ P (leg m router r stop store).2

-- A stop offers its candidate, if there is one.
theorem Trusts.addStop_eq {P : κ → Prop} (h : i.Trusts t r P m)
    (hrouter : i.routers.get? m.mode.text = some router) {stop : Nat × Stop α}
    (hstop : stop.2 ∈ t.stops) (found : Found α) {store : κ} (hstore : P store) :
    (addStop m router r (found, store) stop).1
        = (offerAt? m router r stop).elim found (Found.offer · found) ∧
      P (addStop m router r (found, store) stop).2 := by
  rcases stop with ⟨index, stop⟩
  rcases h router hrouter stop hstop store hstore with ⟨hleg, hafter⟩
  rw [Intermodal.addStop_eq]
  unfold offerAt?
  by_cases hallows : AttributeFilter.allows m.stopFilter stop.attributes = true
  · rw [if_pos hallows, if_pos hallows, hleg]
    exact ⟨rfl, hafter⟩
  · rw [if_neg hallows, if_neg hallows]
    exact ⟨rfl, hstore⟩

theorem offerAt?_eq_some_iff {stop : Nat × Stop α} {c : Candidate α} :
    offerAt? m router r stop = some c ↔
      AttributeFilter.allows m.stopFilter stop.2.attributes = true ∧
        ∃ leg, newLeg? m router r stop.2 = some leg ∧
          c = leg.candidate r.parameters m.mode stop.1 := by
  unfold offerAt?
  by_cases hallows : AttributeFilter.allows m.stopFilter stop.2.attributes = true
  · rw [if_pos hallows, Option.map_eq_some_iff, and_iff_right hallows]
    simp only [eq_comm]
  · rw [if_neg hallows]
    exact ⟨fun hc => absurd hc (Option.some_ne_none c).symm, fun hc => absurd hc.1 hallows⟩

section Looking

variable [MarkerTree α]

/-- Adding a mode is offering its candidates. -/
theorem Trusts.addMode_eq {P : κ → Prop} (h : i.Trusts t r P m) (found : Found α) {store : κ}
    (hstore : P store) :
    (i.addMode t r (found, store) m).1 = Found.offerAll (i.offers t r m) found ∧
      P (i.addMode t r (found, store) m).2 := by
  unfold addMode offers
  by_cases hallows : AttributeFilter.allows m.travellerFilter r.traveller = true
  · rw [if_pos hallows, if_pos hallows]
    cases hrouter : i.routers.get? m.mode.text with
    | none => exact ⟨rfl, hstore⟩
    | some router =>
        unfold Found.offerAll
        rw [List.foldl_filterMap]
        -- The stops are gone through on both sides, on one of them without the store.
        refine List.foldl_rel (r := fun (state : Found α × κ) found => state.1 = found ∧ P state.2)
          ⟨rfl, hstore⟩ ?_
        rintro stop hstop ⟨found, store⟩ _ ⟨rfl, hstore⟩
        have hmem := Array.mem_of_getElem? (Timetable.getElem?_of_mem_stopsNear hstop)
        rcases h.addStop_eq hrouter hmem found hstore with ⟨hfound, hafter⟩
        refine ⟨hfound.trans ?_, hafter⟩
        cases offerAt? m router r stop with
        | none => rfl
        | some c => rfl
  · rw [if_neg hallows, if_neg hallows]
    exact ⟨rfl, hstore⟩

/-- If every stop has its cheapest mode, the candidates are what the offers of the modes come
    to, one mode after the other. -/
theorem candidates_eq_offerAll {γ : Type} [Generator γ] {P : κ → Prop}
    (hselection : i.modes.selection = .leastCostPerStop)
    (h : ∀ m ∈ i.modes.modes, i.Trusts t r P m) {store : κ} (hstore : P store) (generator : γ) :
    ∃ store', i.candidates t r store generator =
      (Found.offerAll (i.modes.modes.flatMap (i.offers t r)) [], store', generator) := by
  have hfound : (i.modes.modes.foldl (i.addMode t r) ([], store)).1
      = Found.offerAll (i.modes.modes.flatMap (i.offers t r)) [] := by
    unfold Found.offerAll
    rw [List.foldl_flatMap]
    refine (List.foldl_rel (r := fun (state : Found α × κ) found => state.1 = found ∧ P state.2)
      ⟨rfl, hstore⟩ ?_).1
    rintro m hm ⟨found, store⟩ _ ⟨rfl, hstore⟩
    exact (h m hm).addMode_eq found hstore
  refine ⟨(i.modes.modes.foldl (i.addMode t r) ([], store)).2, ?_⟩
  unfold candidates
  rw [hselection, ← hfound]

/-- The candidates that a mode offers, as long as it is known where everything is. -/
theorem mem_offers_iff [MarkerTree.Faithful α] (ht : t.Located)
    (hfacility : r.facility.position.isFinite) {c : Candidate α} : c ∈ i.offers t r m ↔
    AttributeFilter.allows m.travellerFilter r.traveller = true ∧
      ∃ router stop leg, i.routers.get? m.mode.text = some router ∧
        t.stops[c.stop]? = some stop ∧
        (0 ≤ m.maxRadius ∧
          stop.position.squaredDistance r.facility.position ≤ m.maxRadius * m.maxRadius) ∧
        AttributeFilter.allows m.stopFilter stop.attributes = true ∧
        newLeg? m router r stop = some leg ∧ c = leg.candidate r.parameters m.mode c.stop := by
  unfold offers
  by_cases hallows : AttributeFilter.allows m.travellerFilter r.traveller = true
  · rw [if_pos hallows, and_iff_right hallows]
    cases i.routers.get? m.mode.text with
    | none =>
        refine ⟨fun hc => absurd hc List.not_mem_nil, ?_⟩
        rintro ⟨router, -, -, hrouter, -⟩
        exact absurd hrouter.symm (Option.some_ne_none router)
    | some router =>
        simp only [List.mem_filterMap, Prod.exists, Timetable.mem_stopsNear_iff ht hfacility,
          offerAt?_eq_some_iff]
        constructor
        · rintro ⟨index, stop, ⟨hstop, hnear⟩, hstopAllows, leg, hleg, rfl⟩
          exact ⟨router, stop, leg, rfl, hstop, hnear, hstopAllows, hleg, rfl⟩
        · rintro ⟨router', stop, leg, hrouter, hstop, hnear, hstopAllows, hleg, hc⟩
          rw [Option.some.injEq] at hrouter
          subst hrouter
          exact ⟨c.stop, stop, ⟨hstop, hnear⟩, hstopAllows, leg, hleg, hc⟩
  · rw [if_neg hallows]
    exact ⟨fun hc => absurd hc List.not_mem_nil, fun hc => absurd hc.1 hallows⟩

end Looking

end Intermodal

end Journey
