import Journey.Proofs.Search.Bounds
import Journey.Proofs.Search.Moments
import Journey.Proofs.Search.Twins

/-!
# Searches in Lockstep

Two searches that do the same, one step after the other.

A search never looks at where a label or a candidate is, only at what it says.
So if two workspaces hold twins everywhere (`Agree`) and have noted the same
route-stops and routes in the same order (`InStep`), then whatever one search
does the other one does as well, and afterwards they are in step again. Each
step of a search has one lemma that says so, and loops follow by
`Loop.foldlM_follows`.

What could tell the two searches apart is the transfer policy. It cannot if it
prices by the chain, or if the twins are strict, which makes the labels equal.

## Main definitions

* `SearchQuery.SameTrip`: Two queries that differ in nothing but the candidates.
* `Workspace.Agree`: Two workspaces that hold twins.
* `Workspace.InStep`: They also have the same to do.
* `Workspace.Together`: What one search did, the other one has done.

## Theorems

* `Workspace.Agree.stored`, `Workspace.Agree.store_improved`: Storing twins leaves
  workspaces that hold twins.
* `Workspace.InStep.board?`, `Workspace.InStep.alight?`: Both searches board and
  leave vehicles alike.
* `Workspace.InStep.scanRoutes?`: Both make the scans of a round alike.
-/

namespace Journey

variable {α : Type}

/-- Two queries that differ in nothing but the candidates. -/
structure SearchQuery.SameTrip (q q' : SearchQuery α) : Prop where
  departureTime : q'.departureTime = q.departureTime
  maxTransfers : q'.maxTransfers = q.maxTransfers
  parameters : q'.parameters = q.parameters

namespace Label

theorem Ordered.push {labels : Array (Label α)} (h : Ordered labels) {l : Label α}
    (hl : ∀ id, l.previous = some id → id < labels.size) : Ordered (labels.push l) := by
  intro id m hm id' hid'
  rw [Array.getElem?_push] at hm
  split at hm
  · rename_i heq
    rw [← Option.some.inj hm] at hid'
    rw [heq]
    exact hl id' hid'
  · exact h id m hm id' hid'

theorem Twins.previous_lt {strict : Prop} {access access' : List (Candidate α)}
    {labels labels' : Array (Label α)} {l l' : Label α}
    (h : Twins strict access access' labels labels' l l') :
    (∀ id, l.previous = some id → id < labels.size) ∧
      ∀ id, l'.previous = some id → id < labels'.size := by
  cases h with
  | access step previous =>
      exact ⟨fun id hid => absurd (hid.symm.trans previous) (Option.some_ne_none id),
        fun id hid => absurd (hid.symm.trans previous) (Option.some_ne_none id)⟩
  | extend moves previous label label' =>
      refine ⟨fun id hid => ?_, fun id hid => ?_⟩
      · rw [previous, Option.some.injEq] at hid
        exact hid ▸ (Array.getElem?_eq_some_iff.mp label).1
      · rw [Option.some.injEq] at hid
        exact hid ▸ (Array.getElem?_eq_some_iff.mp label').1

end Label

/-- The same vehicle is held, and it was boarded from twins. -/
inductive Boarding.Twins (strict : Prop) (access access' : List (Candidate α))
    (labels labels' : Array (Label α)) : Boarding α → Boarding α → Prop where
  | boarded {b : Boarding α} {l l' : Label α} {id' : Nat} (label : labels[b.label]? = some l)
      (label' : labels'[id']? = some l')
      (before : l.Twins strict access access' labels labels' l')
      (position : strict → id' = b.label) :
      Twins strict access access' labels labels' b { b with label := id' }

namespace Workspace

/-- Labels are added and none is changed. -/
def Grows (w w' : Workspace α) : Prop :=
  ∀ (id : Nat) (l : Label α), w.labels[id]? = some l → w'.labels[id]? = some l

variable [Scalar α]

/-- The workspaces of two searches hold twins everywhere and know the same ways on
    to the destination. -/
structure Agree (strict : Prop) (t : Timetable α) (q q' : SearchQuery α) (w w' : Workspace α) :
    Prop where
  fits : w.Fits t
  fits' : w'.Fits t
  ordered : Label.Ordered w.labels
  ordered' : Label.Ordered w'.labels
  held : ∀ i id l, w.Holds i id l → ∃ id' l', w'.Holds i id' l' ∧
    l.Twins strict q.access q'.access w.labels w'.labels l' ∧ (strict → id' = id)
  unheld : ∀ i : Nat, w.best[i]? = some none → w'.best[i]? = some none
  egress : ∀ (i : Nat) (e : Egress α), w.egress[i]? = some (some e) →
    ∃ e' c, w'.egress[i]? = some (some e') ∧ e'.cost = e.cost ∧
      q.egress[e.candidate]? = some c ∧ q'.egress[e'.candidate]? = some c
  noEgress : ∀ i : Nat, w.egress[i]? = some none → w'.egress[i]? = some none
  destinations : ∀ i, i ∈ w'.destinations.toList ↔ i ∈ w.destinations.toList
  bound : Option.Rel Scalar.Alike w.bound w'.bound
  scanStart : w'.scanStart = w.scanStart
  labels : strict → w'.labels = w.labels

/-- They also have noted the same, in the same order. -/
structure InStep (strict : Prop) (t : Timetable α) (q q' : SearchQuery α) (w w' : Workspace α) :
    Prop extends Agree strict t q q' w w' where
  improved : w'.improved.toList = w.improved.toList
  reached : w'.reached.toList = w.reached.toList
  touched : w'.touched.toList = w.touched.toList

/-- Two searches have come from one pair of workspaces to another that is in
    step. -/
structure Together (strict : Prop) (t : Timetable α) (q q' : SearchQuery α)
    (w w' u u' : Workspace α) : Prop where
  inStep : InStep strict t q q' u u'
  grows : w.Grows u
  grows' : w'.Grows u'

variable {strict : Prop} {t : Timetable α} {q q' : SearchQuery α} {w w' u u' v v' : Workspace α}

theorem InStep.together (h : InStep strict t q q' w w') : Together strict t q q' w w' w w' :=
  ⟨h, fun _ _ hl => hl, fun _ _ hl => hl⟩

theorem Together.trans (h : Together strict t q q' w w' u u')
    (h' : Together strict t q q' u u' v v') :
    Together strict t q q' w w' v v' :=
  ⟨h'.inStep, fun id l hl => h'.grows id l (h.grows id l hl),
    fun id l hl => h'.grows' id l (h.grows' id l hl)⟩

variable {policy : TransferPolicy α} {l l' : Label α}

theorem Agree.exceedsBound_eq (h : Agree strict t q q' w w') (c : α) :
    w'.exceedsBound c = w.exceedsBound c := by
  unfold exceedsBound
  have hbound := h.bound
  generalize w.bound = b at hbound ⊢
  generalize w'.bound = b' at hbound ⊢
  cases hbound with
  | none => rfl
  | some h =>
      rw [Option.any_some, Option.any_some]
      exact decide_eq_decide.mpr (h c).1.symm

-- What is worth storing for one search is so for the other.
theorem Agree.improves?_eq_some (h : Agree strict t q q' w w') {i : Nat} {c : α} {n : Nat}
    {b : Bool} (hb : w.improves? i c n = some b) : w'.improves? i c n = some b := by
  unfold improves? labelAt? at hb ⊢
  simp only [Option.bind_eq_bind, Option.pure_def, Option.map_eq_some_iff,
    Option.bind_eq_some_iff] at hb ⊢
  rcases hb with ⟨found, ⟨best, hbest, hfound⟩, hb⟩
  cases best with
  | none =>
      rw [Option.some.injEq] at hfound
      exact ⟨found, ⟨none, h.unheld i hbest, by rw [← hfound]⟩, hb⟩
  | some id =>
      simp only [Option.bind_eq_some_iff, Option.some.injEq] at hfound
      rcases hfound with ⟨l, hl, rfl⟩
      rcases h.held i id l ⟨hbest, hl⟩ with ⟨id', l', hheld', htwins, -⟩
      refine ⟨some l', ⟨some id', hheld'.1, by simp only [hheld'.2, Option.bind_some]⟩, ?_⟩
      rw [← hb, Option.all_some, Option.all_some, Label.isBeatenBy, Label.isBeatenBy,
        htwins.cost_eq, htwins.transfers_eq]

/-- Storing twins leaves workspaces that hold twins. -/
theorem Agree.stored (h : Agree strict t q q' w w')
    (hl : l.Twins strict q.access q'.access w.labels w'.labels l')
    (hs : Stored t w l u) (hs' : Stored t w' l' u') (hdest : u.destinations = w.destinations)
    (hdest' : u'.destinations = w'.destinations) (hscan : u'.scanStart = u.scanStart) :
    Agree strict t q q' u u' := by
  have hgrow : w.Grows u := fun _ _ => hs.labels_mono
  have hgrow' : w'.Grows u' := fun _ _ => hs'.labels_mono
  have hstop := hl.routeStop_eq
  refine
    { fits := hs.fits
      fits' := hs'.fits
      ordered := by
        rw [hs.labels]
        exact h.ordered.push hl.previous_lt.1
      ordered' := by
        rw [hs'.labels]
        exact h.ordered'.push hl.previous_lt.2
      held := ?_
      unheld := ?_
      egress := by
        rw [hs.egress, hs'.egress]
        exact h.egress
      noEgress := by
        rw [hs.egress, hs'.egress]
        exact h.noEgress
      destinations := by
        rw [hdest, hdest']
        exact h.destinations
      bound := ?_
      scanStart := hscan
      labels := fun hstrict => by
        rw [hs.labels, hs'.labels, h.labels hstrict, hl.eq_of_strict hstrict] }
  · intro i id m hm
    rcases hs.holds_cases h.fits hm with ⟨rfl, rfl, rfl⟩ | ⟨hi, hm⟩
    · refine ⟨w'.labels.size, l', ?_, hl.mono hgrow hgrow', fun hstrict => by rw [h.labels hstrict]⟩
      rw [← hstop]
      exact hs'.holds_self
    · rcases h.held i id m hm with ⟨id', m', hm', htwins, hpos⟩
      rw [← hstop] at hi
      exact ⟨id', m', hs'.holds_of_ne hi hm', htwins.mono hgrow hgrow', hpos⟩
  · intro i hi
    by_cases hil : i = l.routeStop
    · rw [hil, hs.best_self] at hi
      exact absurd hi (by simp)
    · rw [hs.best_other i hil] at hi
      rw [hs'.best_other i (hstop ▸ hil)]
      exact h.unheld i hi
  · rcases h.fits.egress_exists hs.lt_size with ⟨e, he⟩
    cases e with
    | none =>
        have he' := h.noEgress _ he
        rw [← hstop] at he'
        rw [hs.bound_other he, hs'.bound_other he']
        exact h.bound
    | some e =>
        rcases h.egress _ e he with ⟨e', c, he', hcost, -⟩
        rw [← hstop] at he'
        rw [hs.bound_destination e he, hs'.bound_destination e' he', hl.cost_eq, hcost]
        exact Scalar.rel_tightened h.bound _

/-- A twin of what was stored as an improvement can be stored as one. Nothing else is
    noted. -/
theorem Agree.store_improved (h : Agree strict t q q' w w') (hw : t.WellFormed)
    (hl : l.Twins strict q.access q'.access w.labels w'.labels l') (hride : l.isRide = false)
    {w₁ : Workspace α} (hs : w.store? l = some w₁)
    (hm : w₁.markImproved? t l.routeStop = some u) :
    ∃ w₁' u', w'.store? l' = some w₁' ∧ w₁'.markImproved? t l'.routeStop = some u' ∧
      Agree strict t q q' u u' ∧ (w.Grows u ∧ w'.Grows u') ∧
      (w'.improved.toList = w.improved.toList → u'.improved.toList = u.improved.toList) ∧
      (u.reached = w.reached ∧ u'.reached = w'.reached) ∧
      u.touched = w.touched ∧ u'.touched = w'.touched := by
  have hstored := h.fits.stored_improved hs hm hride
  have hlt : l'.routeStop < t.routeStops.size := hl.routeStop_eq ▸ hstored.lt_size
  rcases h.fits'.store_exists hlt with ⟨w₁', hs'⟩
  rcases (h.fits'.store hs').markImproved_exists hw hlt with ⟨u', hm'⟩
  have hstored' := h.fits'.stored_improved hs' hm' (hl.isRide_eq.trans hride)
  refine ⟨w₁', u', hs', hm', ?_⟩
  rcases store?_eq_some hs with ⟨best, labelled, egress, -, -, -, rfl⟩
  rcases store?_eq_some hs' with ⟨best', labelled', egress', -, -, -, rfl⟩
  rcases markImproved?_eq_some hm with ⟨improved, rs, start, scanStart, hi, hrs, hstart, hscan, rfl⟩
  rcases markImproved?_eq_some hm' with
    ⟨improved', rs', start', scanStart', hi', hrs', hstart', hscan', rfl⟩
  simp only [hl.routeStop_eq, h.scanStart] at hi' hrs' hstart' hscan'
  -- Both look up the same start of the same route, so both write the same.
  rw [hrs, Option.some.injEq] at hrs'
  subst hrs'
  rw [hstart, Option.some.injEq] at hstart'
  subst hstart'
  rw [hscan, Option.some.injEq] at hscan'
  refine ⟨h.stored hl hstored hstored' rfl rfl hscan'.symm,
    ⟨fun _ _ => hstored.labels_mono, fun _ _ => hstored'.labels_mono⟩, fun himproved => ?_,
    ⟨rfl, rfl⟩, rfl, rfl⟩
  change improved'.toList = improved.toList
  rw [h.fits'.improved_over.toList_mark hi', h.fits.improved_over.toList_mark hi, himproved]

theorem InStep.store_improved (h : InStep strict t q q' w w') (hw : t.WellFormed)
    (hl : l.Twins strict q.access q'.access w.labels w'.labels l') (hride : l.isRide = false)
    {w₁ : Workspace α} (hs : w.store? l = some w₁)
    (hm : w₁.markImproved? t l.routeStop = some u) :
    ∃ w₁' u', w'.store? l' = some w₁' ∧ w₁'.markImproved? t l'.routeStop = some u' ∧
      Together strict t q q' w w' u u' := by
  rcases h.toAgree.store_improved hw hl hride hs hm with
    ⟨w₁', u', hs', hm', hagree, hgrows, himproved, ⟨hreached, hreached'⟩, htouched, htouched'⟩
  refine ⟨w₁', u', hs', hm', ⟨hagree, himproved h.improved, ?_, ?_⟩, hgrows.1, hgrows.2⟩
  · rw [hreached', hreached, h.reached]
  · rw [htouched', htouched, h.touched]

/-- A twin of what was stored as reached can be stored as that. -/
theorem InStep.store_reached (h : InStep strict t q q' w w')
    (hl : l.Twins strict q.access q'.access w.labels w'.labels l') (hride : l.isRide = true)
    {w₁ : Workspace α} (hs : w.store? l = some w₁) (hm : w₁.markReached? l.routeStop = some u) :
    ∃ w₁' u', w'.store? l' = some w₁' ∧ w₁'.markReached? l'.routeStop = some u' ∧
      Together strict t q q' w w' u u' := by
  have hstored := h.fits.stored_reached hs hm hride
  have hlt : l'.routeStop < t.routeStops.size := hl.routeStop_eq ▸ hstored.lt_size
  rcases h.fits'.store_exists hlt with ⟨w₁', hs'⟩
  rcases (h.fits'.store hs').markReached_exists hlt with ⟨u', hm'⟩
  have hstored' := h.fits'.stored_reached hs' hm' (hl.isRide_eq.trans hride)
  refine ⟨w₁', u', hs', hm', ?_, fun _ _ => hstored.labels_mono, fun _ _ => hstored'.labels_mono⟩
  rcases store?_eq_some hs with ⟨best, labelled, egress, -, -, -, rfl⟩
  rcases store?_eq_some hs' with ⟨best', labelled', egress', -, -, -, rfl⟩
  rcases markReached?_eq_some hm with ⟨reached, hr, rfl⟩
  rcases markReached?_eq_some hm' with ⟨reached', hr', rfl⟩
  refine
    { toAgree := h.toAgree.stored hl hstored hstored' rfl rfl h.scanStart
      improved := h.improved
      reached := ?_
      touched := h.touched }
  rw [hl.routeStop_eq] at hr'
  change reached'.toList = reached.toList
  rw [h.fits'.reached_over.toList_mark hr', h.fits.reached_over.toList_mark hr, h.reached]

/-- Walks that are twins are offered alike. -/
theorem InStep.offerWalk? (h : InStep strict t q q' w w') (hw : t.WellFormed)
    (hl : l.Twins strict q.access q'.access w.labels w'.labels l') (hride : l.isRide = false)
    (hu : w.offerWalk? t l = some u) :
    ∃ u', w'.offerWalk? t l' = some u' ∧ Together strict t q q' w w' u u' := by
  unfold Workspace.offerWalk? at hu ⊢
  rw [h.exceedsBound_eq, hl.cost_eq, hl.transfers_eq, hl.routeStop_eq]
  split at hu
  · rw [if_pos ‹_›]
    exact ⟨w', rfl, Option.some.inj hu ▸ h.together⟩
  · rw [if_neg ‹_›]
    rcases Option.bind_eq_some_iff.mp hu with ⟨b, hb, hu⟩
    simp only [h.improves?_eq_some hb, Option.bind_eq_bind, Option.bind_some]
    cases b with
    | false => exact ⟨w', rfl, Option.some.inj hu ▸ h.together⟩
    | true =>
        rcases Option.bind_eq_some_iff.mp hu with ⟨w₁, hs, hm⟩
        rcases h.store_improved hw hl hride hs hm with ⟨w₁', u', hs', hm', htogether⟩
        refine ⟨u', ?_, htogether⟩
        rw [hl.routeStop_eq] at hm'
        simp only [if_true, hs', Option.bind_some, hm']

section Scans

variable {held held' : Option (Boarding α)}

/-- The vehicles held by two searches. -/
abbrev HeldAlike (strict : Prop) (q q' : SearchQuery α) (w w' : Workspace α) :
    Option (Boarding α) → Option (Boarding α) → Prop :=
  Option.Rel (Boarding.Twins strict q.access q'.access w.labels w'.labels)

theorem HeldAlike.mono (h : HeldAlike strict q q' w w' held held')
    (hgrow : Together strict t q q' w w' u u') : HeldAlike strict q q' u u' held held' := by
  cases h with
  | none => exact Option.Rel.none
  | some h =>
      cases h with
      | boarded label label' before position =>
          exact Option.Rel.some (Boarding.Twins.boarded (hgrow.grows _ _ label)
            (hgrow.grows' _ _ label') (before.mono hgrow.grows hgrow.grows') position)

/-- Both searches board alike. -/
theorem InStep.board? (h : InStep strict t q q' w w')
    (hheld : HeldAlike strict q q' w w' held held') {i : Nat} {r : Option (Boarding α)}
    (hr : w.board? t held i = some r) :
    ∃ r', w'.board? t held' i = some r' ∧ HeldAlike strict q q' w w' r r' := by
  unfold Workspace.board? at hr ⊢
  rcases Option.bind_eq_some_iff.mp hr with ⟨best, hbest, hr⟩
  cases best with
  | none =>
      rw [Option.pure_def, Option.some.injEq] at hr
      simp only [h.unheld i hbest, Option.bind_eq_bind, Option.bind_some]
      exact ⟨none, rfl, hr ▸ Option.Rel.none⟩
  | some id =>
      rcases Option.bind_eq_some_iff.mp hr with ⟨l, hl, hr⟩
      rcases Option.bind_eq_some_iff.mp hr with ⟨next, hnext, hr⟩
      rcases h.held i id l ⟨hbest, hl⟩ with ⟨id', l', hheld', htwins, hpos⟩
      simp only [hheld'.1, hheld'.2, htwins.time_eq, hnext, Option.bind_eq_bind, Option.bind_some]
      cases next with
      | none =>
          rw [Option.pure_def, Option.some.injEq] at hr
          exact ⟨none, rfl, hr ▸ Option.Rel.none⟩
      | some trip =>
          -- The vehicles held are the same, so both or neither is earlier.
          have hany : held'.any (fun b => decide (b.trip ≤ trip))
              = held.any (fun b => decide (b.trip ≤ trip)) := by
            cases hheld with
            | none => rfl
            | some hb => cases hb; rfl
          simp only [hany]
          simp only at hr
          split at hr
          · rw [if_pos ‹_›]
            rw [Option.pure_def, Option.some.injEq] at hr
            exact ⟨none, rfl, hr ▸ Option.Rel.none⟩
          · rw [if_neg ‹_›]
            rcases Option.bind_eq_some_iff.mp hr with ⟨a, ha, hr⟩
            rw [Option.pure_def, Option.some.injEq] at hr
            subst hr
            refine ⟨some (Boarding.ofLabel id' l' trip a), by rw [ha]; rfl, Option.Rel.some ?_⟩
            have heq : Boarding.ofLabel id' l' trip a
                = { Boarding.ofLabel id l trip a with label := id' } := by
              unfold Boarding.ofLabel
              simp only [htwins.routeStop_eq, htwins.time_eq, htwins.cost_eq,
                htwins.transferCost_eq, htwins.transfers_eq]
            rw [heq]
            exact Boarding.Twins.boarded hl hheld'.2 htwins hpos

/-- Both searches leave the vehicle alike. -/
theorem InStep.alight? (h : InStep strict t q q' w w') {p : Parameters α} {b b' : Boarding α}
    (hb : b.Twins strict q.access q'.access w.labels w'.labels b') {i : Nat}
    (hu : w.alight? t p b i = some u) :
    ∃ u', w'.alight? t p b' i = some u' ∧ Together strict t q q' w w' u u' := by
  cases hb with
  | @boarded l l' id' label label' before position =>
      unfold Workspace.alight? at hu ⊢
      rcases Option.bind_eq_some_iff.mp hu with ⟨arrivalTime, harrival, hu⟩
      simp only [harrival, Option.bind_eq_bind, Option.bind_some, h.exceedsBound_eq]
      simp only at hu
      have hcost : ({ b with label := id' } : Boarding α).costUntil p arrivalTime
          = b.costUntil p arrivalTime := rfl
      rw [hcost]
      split at hu
      · rw [if_pos ‹_›]
        exact ⟨w', rfl, Option.some.inj hu ▸ h.together⟩
      · rw [if_neg ‹_›]
        rcases Option.bind_eq_some_iff.mp hu with ⟨improves, himproves, hu⟩
        simp only [h.improves?_eq_some himproves, Option.bind_some]
        cases improves with
        | false => exact ⟨w', rfl, Option.some.inj hu ▸ h.together⟩
        | true =>
            simp only [if_true, Option.bind_eq_bind, Option.bind_eq_some_iff] at hu
            rcases hu with ⟨boardingTime, hdep, w₁, hs, hm⟩
            have htwins : (b.toLabel p i boardingTime arrivalTime).Twins strict q.access q'.access
                w.labels w'.labels
                (({ b with label := id' } : Boarding α).toLabel p i boardingTime arrivalTime) :=
              Label.Twins.extend (fun _ => nofun) rfl label label' before position
            rcases h.store_reached htwins rfl hs hm with ⟨w₁', u', hs', hm', htogether⟩
            refine ⟨u', ?_, htogether⟩
            simp only [if_true, hdep, Option.bind_some, hs']
            exact hm'

/-- Both searches visit a route-stop alike. -/
theorem InStep.scanStop? (h : InStep strict t q q' w w')
    (hheld : HeldAlike strict q q' w w' held held') {p : Parameters α} {i : Nat}
    {r : Option (Boarding α)} (hs : scanStop? t p (w, held) i = some (u, r)) :
    ∃ u' r', scanStop? t p (w', held') i = some (u', r') ∧ Together strict t q q' w w' u u' ∧
      HeldAlike strict q q' u u' r r' := by
  unfold Workspace.scanStop? at hs ⊢
  rcases Option.bind_eq_some_iff.mp hs with ⟨boarded, hboard, hs⟩
  rcases h.board? hheld hboard with ⟨boarded', hboard', hboarded⟩
  simp only [hboard', Option.bind_eq_bind, Option.bind_some]
  cases hboarded with
  | @some b b' hb =>
      rw [Option.pure_def, Option.some.injEq, Prod.mk.injEq] at hs
      rcases hs with ⟨rfl, rfl⟩
      exact ⟨w', some b', rfl, h.together, Option.Rel.some hb⟩
  | none =>
      cases hheld with
      | none =>
          rw [Option.pure_def, Option.some.injEq, Prod.mk.injEq] at hs
          rcases hs with ⟨rfl, rfl⟩
          exact ⟨w', none, rfl, h.together, Option.Rel.none⟩
      | @some b b' hb =>
          rcases Option.bind_eq_some_iff.mp hs with ⟨w₁, halight, hs⟩
          rw [Option.pure_def, Option.some.injEq, Prod.mk.injEq] at hs
          rcases hs with ⟨rfl, rfl⟩
          rcases h.alight? hb halight with ⟨u', halight', htogether⟩
          refine ⟨u', some b', ?_, htogether, HeldAlike.mono (Option.Rel.some hb) htogether⟩
          simp only [halight', Option.bind_some, Option.pure_def]

/-- Both scans of a route start at the same route-stop. -/
theorem InStep.takeScanStart? (h : InStep strict t q q' w w') (hw : t.WellFormed) {r : Nat}
    {row : Route} {first : Nat} (hrow : t.routes[r]? = some row)
    (hu : w.takeScanStart? r row = some (u, first)) :
    ∃ u', w'.takeScanStart? r row = some (u', first) ∧ Together strict t q q' w w' u u' := by
  have hf := (h.fits.quiet_takeScanStart? hw hrow hu).1.fits h.fits
  unfold Workspace.takeScanStart? at hu
  rcases Option.bind_eq_some_iff.mp hu with ⟨start, hstart, hu⟩
  rcases Option.bind_eq_some_iff.mp hu with ⟨scanStart, hwrite, hu⟩
  rw [Option.pure_def, Option.some.injEq, Prod.mk.injEq] at hu
  rcases hu with ⟨rfl, rfl⟩
  have hu' : w'.takeScanStart? r row
      = some ({ w' with scanStart }, start.getD row.firstRouteStop) := by
    unfold Workspace.takeScanStart?
    simp only [h.scanStart, hstart, hwrite, Option.bind_eq_bind, Option.bind_some, Option.pure_def]
  have hf' := (h.fits'.quiet_takeScanStart? hw hrow hu').1.fits h.fits'
  refine ⟨_, hu', ?_, fun _ _ hl => hl, fun _ _ hl => hl⟩
  exact { h with
    fits := hf
    fits' := hf'
    scanStart := rfl }

/-- Both searches scan a route alike. -/
theorem InStep.scanRoute? (h : InStep strict t q q' w w') (hw : t.WellFormed) {p : Parameters α}
    {r : Nat} (hu : scanRoute? t p w r = some u) :
    ∃ u', scanRoute? t p w' r = some u' ∧ Together strict t q q' w w' u u' := by
  unfold Workspace.scanRoute? at hu
  rcases Option.bind_eq_some_iff.mp hu with ⟨row, hrow, hu⟩
  rcases Option.bind_eq_some_iff.mp hu with ⟨⟨w₁, first⟩, htake, hu⟩
  rcases Option.bind_eq_some_iff.mp hu with ⟨⟨w₂, held⟩, hloop, hu⟩
  rw [Option.pure_def, Option.some.injEq] at hu
  subst hu
  rcases h.takeScanStart? hw hrow htake with ⟨w₁', htake', htaken⟩
  have hfollow : ∃ s', (Span.mk first row.routeStops.stop).toList.foldlM (Workspace.scanStop? t p)
      (w₁', none) = some s' ∧ Together strict t q q' w w' w₂ s'.1 ∧
        HeldAlike strict q q' w₂ s'.1 held s'.2 := by
    refine Loop.foldlM_follows_self
      (fun s (s' : Workspace α × Option (Boarding α)) =>
        Together strict t q q' w w' s.1 s'.1 ∧ HeldAlike strict q q' s.1 s'.1 s.2 s'.2)
      (fun x s s' v hs hv => ?_) (w₁, none) (w₁', none) ⟨htaken, Option.Rel.none⟩ hloop
    rcases hs.1.inStep.scanStop? hs.2 hv with ⟨v', held', hv', htogether, hheld⟩
    exact ⟨(v', held'), hv', hs.1.trans htogether, hheld⟩
  rcases hfollow with ⟨⟨u', held'⟩, hloop', htogether, -⟩
  refine ⟨u', ?_, htogether⟩
  unfold Workspace.scanRoute?
  simp only [hrow, htake', hloop', Option.bind_eq_bind, Option.bind_some, Option.pure_def]

/-- Both searches scan the routes of a round alike. -/
theorem InStep.scanRoutes? (h : InStep strict t q q' w w') (hw : t.WellFormed) {p : Parameters α}
    (hu : w.scanRoutes? t p = some u) :
    ∃ u', w'.scanRoutes? t p = some u' ∧ Together strict t q q' w w' u u' := by
  unfold Workspace.scanRoutes? at hu ⊢
  rw [h.touched]
  refine Loop.foldlM_follows_self (Together strict t q q' w w') (fun x s s' v hs hv => ?_) w w'
    h.together hu
  rcases hs.inStep.scanRoute? hw hv with ⟨v', hv', htogether⟩
  exact ⟨v', hv', hs.trans htogether⟩

end Scans

end Workspace

end Journey
