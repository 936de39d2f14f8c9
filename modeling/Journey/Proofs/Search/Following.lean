import Journey.Proofs.Search.Lockstep
import Journey.Proofs.Search.Totality

/-!
# Following the Rounds of a Search

Walks and rounds of two searches in lockstep.

Scans look at nothing but labels, so they stay in step by themselves. A walk is
priced by the transfer policy, which is shown all labels, and here it matters that
the policy prices by the chain or that the labels are the same.

A round scans the routes of the route-stops that were improved before it, in the
order in which they are first met. This is all that has to be the same before the
first round: whatever else the order of the improved route-stops says is forgotten
when a round opens.

## Main definitions

* `Departing.Twins`: Walks start from twins.
* `Workspace.SourceTwins`: The same route-stop was reached by twins.

## Theorems

* `Workspace.InStep.relax?`: Both searches make the same walks.
* `Workspace.Agree.round?`: And the same round if they meet the same routes.
* `Workspace.rounds?_follows`: What a round keeps of two searches, all rounds keep.
* `Workspace.Agree.rounds?`: And then they make all rounds alike.
-/

namespace Journey

variable {α : Type} [Scalar α]

/-- Walks of two searches start from twins that are rides of the same mode. -/
structure Departing.Twins (strict : Prop) (access access' : List (Candidate α))
    (labels labels' : Array (Label α)) (d d' : Departing α) : Prop where
  label : labels[d.id]? = some d.label
  label' : labels'[d'.id]? = some d'.label
  before : d.label.Twins strict access access' labels labels' d'.label
  position : strict → d'.id = d.id
  mode : d'.mode = d.mode

namespace Workspace

variable {strict : Prop} {t : Timetable α} {policy : TransferPolicy α} {q q' : SearchQuery α}
  {w w' u u' : Workspace α}

section Walks

variable {d d' : Departing α}

theorem Together.departing (h : Together strict t q q' w w' u u')
    (hd : d.Twins strict q.access q'.access w.labels w'.labels d') :
    d.Twins strict q.access q'.access u.labels u'.labels d' where
  label := h.grows _ _ hd.label
  label' := h.grows' _ _ hd.label'
  before := hd.before.mono h.grows h.grows'
  position := hd.position
  mode := hd.mode

-- The policy sees the same, or at least a chain of twins.
theorem Agree.price_eq (h : Agree strict t q q' w w') (hsame : q.SameTrip q')
    (hpolicy : strict ∨ policy.ByChain)
    (hd : d.Twins strict q.access q'.access w.labels w'.labels d') (mode : Mode) (duration : α) :
    policy t (d'.context q' w'.labels mode duration)
      = policy t (d.context q w.labels mode duration) := by
  have hcontext : d'.context q' w'.labels mode duration
      = { d.context q w.labels mode duration with labels := w'.labels, ride := d'.id } := by
    unfold Departing.context
    simp only [hd.mode, hd.before.time_eq, hd.before.transfers_eq, hd.before.transferCost_eq,
      hsame.departureTime, hsame.parameters]
  rcases hpolicy with hstrict | hchain
  · rw [hcontext, h.labels hstrict, hd.position hstrict]
    rfl
  · exact hchain t _ _ q.access q'.access d.label d'.label h.ordered h.ordered' hd.label hd.label'
      hd.before.weaken hcontext

theorem Agree.walk? (h : Agree strict t q q' w w') (hsame : q.SameTrip q')
    (hpolicy : strict ∨ policy.ByChain)
    (hd : d.Twins strict q.access q'.access w.labels w'.labels d') {duration : α} {i : Nat}
    {l : Label α} (hl : d.walk? t policy q w.labels duration i = some l) :
    ∃ l', d'.walk? t policy q' w'.labels duration i = some l' ∧ l.isRide = false ∧
      l.Twins strict q.access q'.access w.labels w'.labels l' := by
  unfold Departing.walk? at hl ⊢
  rcases Option.bind_eq_some_iff.mp hl with ⟨mode, hmode, hl⟩
  rcases Option.bind_eq_some_iff.mp hl with ⟨increment, hprice, hl⟩
  rw [Option.pure_def, Option.some.injEq] at hl
  subst hl
  have hwalk : d'.walk q'.parameters i duration increment
      = { d.walk q.parameters i duration increment with previous := some d'.id } := by
    unfold Departing.walk
    simp only [hd.before.time_eq, hd.before.cost_eq, hd.before.transferCost_eq,
      hd.before.transfers_eq, hsame.parameters]
  refine ⟨d'.walk q'.parameters i duration increment, ?_, rfl, ?_⟩
  · simp only [hmode, h.price_eq hsame hpolicy hd, hprice, Option.bind_eq_bind, Option.bind_some,
      Option.pure_def]
  · rw [hwalk]
    exact Label.Twins.extend (fun _ => nofun) rfl hd.label hd.label'
      hd.before hd.position

/-- Both searches walk to a route-stop alike. -/
theorem InStep.walkTo? (h : InStep strict t q q' w w') (hw : t.WellFormed) (hsame : q.SameTrip q')
    (hpolicy : strict ∨ policy.ByChain)
    (hd : d.Twins strict q.access q'.access w.labels w'.labels d') {duration : α} {i : Nat}
    (hu : walkTo? t policy q d duration w i = some u) :
    ∃ u', walkTo? t policy q' d' duration w' i = some u' ∧ Together strict t q q' w w' u u' := by
  unfold Workspace.walkTo? at hu ⊢
  rcases Option.bind_eq_some_iff.mp hu with ⟨l, hl, hu⟩
  rcases h.walk? hsame hpolicy hd hl with ⟨l', hl', hride, htwins⟩
  simp only [hl', Option.bind_eq_bind, Option.bind_some]
  exact h.offerWalk? hw htwins hride hu

/-- Both searches walk along a footpath alike. -/
theorem InStep.relaxFootpath? (h : InStep strict t q q' w w') (hw : t.WellFormed)
    (hsame : q.SameTrip q') (hpolicy : strict ∨ policy.ByChain)
    (hd : d.Twins strict q.access q'.access w.labels w'.labels d') {f : Footpath α}
    (hu : relaxFootpath? t policy q d w f = some u) :
    ∃ u', relaxFootpath? t policy q' d' w' f = some u' ∧ Together strict t q q' w w' u u' := by
  unfold Workspace.relaxFootpath? at hu ⊢
  rcases Option.bind_eq_some_iff.mp hu with ⟨targets, htargets, hu⟩
  simp only [htargets, hsame.parameters, Option.bind_eq_bind, Option.bind_some]
  refine Loop.foldlM_follows_self (Together strict t q q' w w') (fun i s s' v hs hv => ?_) w w'
    h.together hu
  rcases hs.inStep.walkTo? hw hsame hpolicy (hs.departing hd) hv with ⟨v', hv', htogether⟩
  exact ⟨v', hv', hs.trans htogether⟩

/-- The same route-stop was reached by labels that are twins. -/
inductive SourceTwins (strict : Prop) (q q' : SearchQuery α) (w w' : Workspace α) :
    Nat × Nat → Nat × Nat → Prop where
  | reached {i id id' : Nat} {l l' : Label α} (label : w.labels[id]? = some l)
      (label' : w'.labels[id']? = some l')
      (twins : l.Twins strict q.access q'.access w.labels w'.labels l')
      (position : strict → id' = id) : SourceTwins strict q q' w w' (i, id) (i, id')

/-- Both searches walk from a route-stop alike. -/
theorem InStep.relaxFrom? (h : InStep strict t q q' w w') (hw : t.WellFormed)
    (hsame : q.SameTrip q') (hpolicy : strict ∨ policy.ByChain) {x x' : Nat × Nat}
    (hx : SourceTwins strict q q' w w' x x') (hu : relaxFrom? t policy q w x = some u) :
    ∃ u', relaxFrom? t policy q' w' x' = some u' ∧ Together strict t q q' w w' u u' := by
  cases hx with
  | @reached i id id' l l' label label' twins position =>
      unfold Workspace.relaxFrom? at hu ⊢
      simp only [label, label', Option.bind_eq_bind, Option.bind_some, h.exceedsBound_eq,
        twins.cost_eq] at hu ⊢
      split at hu
      · rw [if_pos ‹_›]
        exact ⟨w', rfl, Option.some.inj hu ▸ h.together⟩
      · rw [if_neg ‹_›]
        rcases Option.bind_eq_some_iff.mp hu with ⟨mode, hmode, hu⟩
        rcases Option.bind_eq_some_iff.mp hu with ⟨stop, hstop, hu⟩
        rcases Option.bind_eq_some_iff.mp hu with ⟨footpaths, hfootpaths, hu⟩
        simp only [hmode, hstop, hfootpaths, Option.bind_some]
        have hd : Departing.Twins strict q.access q'.access w.labels w'.labels ⟨id, l, mode⟩
            ⟨id', l', mode⟩ := ⟨label, label', twins, position, rfl⟩
        refine Loop.foldlM_follows_self (Together strict t q q' w w') (fun f s s' v hs hv => ?_)
          w w' h.together hu
        rcases hs.inStep.relaxFootpath? hw hsame hpolicy (hs.departing hd) hv with
          ⟨v', hv', htogether⟩
        exact ⟨v', hv', hs.trans htogether⟩

-- Both searches walk from twins at the same route-stops, in the same order.
theorem InStep.sources? (h : InStep strict t q q' w w') {sources : List (Nat × Nat)}
    (hs : w.sources? = some sources) :
    ∃ sources', w'.sources? = some sources' ∧
      List.Forall₂ (SourceTwins strict q q' w w') sources sources' := by
  unfold Workspace.sources? at hs ⊢
  rcases Option.bind_eq_some_iff.mp hs with ⟨found, hfound, hs⟩
  rw [Option.pure_def, Option.some.injEq] at hs
  -- What is found at a route-stop is nothing for both or twins.
  have hlook : ∀ (i : Nat) (y : Option (Nat × Nat)),
      (do return (← w.best[i]?).map fun id => (i, id) : Option (Option (Nat × Nat))) = some y →
      ∃ y',
        (do return (← w'.best[i]?).map fun id => (i, id) : Option (Option (Nat × Nat))) = some y' ∧
          Option.Rel (SourceTwins strict q q' w w') y y' := by
    intro i y hy
    rcases Option.bind_eq_some_iff.mp hy with ⟨best, hbest, hy⟩
    rw [Option.pure_def, Option.some.injEq] at hy
    subst hy
    cases best with
    | none =>
        exact ⟨none, by rw [h.unheld i hbest]; rfl, Option.Rel.none⟩
    | some id =>
        rcases h.fits.exists_label i id hbest with ⟨l, hl, -⟩
        rcases h.held i id l ⟨hbest, hl⟩ with ⟨id', l', hheld', htwins, hpos⟩
        refine ⟨some (i, id'), by rw [hheld'.1]; rfl, Option.Rel.some ?_⟩
        exact SourceTwins.reached hl hheld'.2 htwins hpos
  rcases Loop.mapM_follows hlook _ hfound with ⟨found', hfound', hrel⟩
  rw [h.reached, hfound']
  refine ⟨found'.filterMap id, rfl, hs ▸ ?_⟩
  exact List.rel_filterMap (fun _ _ hxy => hxy) hrel

/-- Both searches make the walks of a round alike. -/
theorem InStep.relax? (h : InStep strict t q q' w w') (hw : t.WellFormed)
    (hsame : q.SameTrip q') (hpolicy : strict ∨ policy.ByChain)
    (hu : w.relax? t policy q = some u) :
    ∃ u', w'.relax? t policy q' = some u' ∧ Together strict t q q' w w' u u' := by
  rcases relax?_eq_some hu with ⟨sources, v₁, hsources, hloop, rfl⟩
  rcases h.sources? hsources with ⟨sources', hsources', hrel⟩
  have hfollows : ∃ v₁', sources'.foldlM (Workspace.relaxFrom? t policy q') w' = some v₁' ∧
      Together strict t q q' w w' v₁ v₁' := by
    refine Loop.foldlM_follows (Together strict t q q' w w') (fun x x' s s' v hx hs hv => ?_) hrel
      h.together hloop
    have hx' : SourceTwins strict q q' s s' x x' := by
      cases hx with
      | reached label label' twins position =>
          exact SourceTwins.reached (hs.grows _ _ label) (hs.grows' _ _ label')
            (twins.mono hs.grows hs.grows') position
    rcases hs.inStep.relaxFrom? hw hsame hpolicy hx' hv with ⟨v', hv', htogether⟩
    exact ⟨v', hv', hs.trans htogether⟩
  rcases hfollows with ⟨v₁', hloop', htogether⟩
  refine ⟨v₁'.putAway sources', ?_, ?_⟩
  · unfold Workspace.relax?
    simp only [hsources', hloop', Option.bind_eq_bind, Option.bind_some, Option.pure_def]
  · exact
      { htogether with
        inStep := { htogether.inStep with
          fits := (quiet_putAway v₁ sources).fits htogether.inStep.fits
          fits' := (quiet_putAway v₁' sources').fits htogether.inStep.fits' } }

end Walks

section Rounds

/-- Rounds open in step if they meet the same routes. -/
theorem Agree.openRound? (h : Agree strict t q q' w w') (hw : t.WellFormed)
    (hroutes : t.routesMet w'.improved.toList = t.routesMet w.improved.toList)
    (hu : w.openRound? t = some u) :
    ∃ u', w'.openRound? t = some u' ∧ InStep strict t q q' u u' := by
  rcases h.fits'.openRound?_exists hw with ⟨u', hu'⟩
  refine ⟨u', hu', ?_⟩
  have hf := (quiet_openRound? hu).1.fits h.fits
  have hf' := (quiet_openRound? hu').1.fits h.fits'
  unfold Workspace.openRound? at hu hu'
  rcases Option.bind_eq_some_iff.mp hu with ⟨touched, htouched, hu⟩
  rcases Option.bind_eq_some_iff.mp hu' with ⟨touched', htouched', hu'⟩
  rw [Option.pure_def, Option.some.injEq] at hu hu'
  subst hu hu'
  exact
    { h with
      fits := hf
      fits' := hf'
      improved := (IndexSet.toList_clear _).trans (IndexSet.toList_clear _).symm
      reached := (IndexSet.toList_clear _).trans (IndexSet.toList_clear _).symm
      touched := by
        rw [toList_touchRoutes? h.fits htouched, toList_touchRoutes? h.fits' htouched', hroutes] }

/-- Both searches make a round alike if they meet the same routes. -/
theorem Agree.round? (h : Agree strict t q q' w w') (hw : t.WellFormed) (hsame : q.SameTrip q')
    (hpolicy : strict ∨ policy.ByChain)
    (hroutes : t.routesMet w'.improved.toList = t.routesMet w.improved.toList)
    (hu : w.round? t policy q = some u) :
    ∃ u', w'.round? t policy q' = some u' ∧ InStep strict t q q' u u' := by
  rcases round?_eq_some hu with ⟨w₁, w₂, w₃, h₁, h₂, h₃, rfl⟩
  rcases h.openRound? hw hroutes h₁ with ⟨w₁', h₁', hopened⟩
  rcases hopened.scanRoutes? hw h₂ with ⟨w₂', h₂', hscanned⟩
  rcases hscanned.inStep.relax? hw hsame hpolicy h₃ with ⟨w₃', h₃', hwalked⟩
  refine ⟨w₃'.closeRound, ?_, ?_⟩
  · unfold Workspace.round?
    simp only [h₁', hsame.parameters, h₂', h₃', Option.bind_eq_bind, Option.bind_some,
      Option.pure_def]
  · exact
      { hwalked.inStep with
        fits := (quiet_closeRound w₃).fits hwalked.inStep.fits
        fits' := (quiet_closeRound w₃').fits hwalked.inStep.fits' }

-- What every round keeps of two searches, all rounds keep, if it ends both at once.
theorem rounds?_follows (q q' : SearchQuery α) (S : Workspace α → Workspace α → Prop)
    (hround : ∀ w w' u, S w w' → w.round? t policy q = some u →
      ∃ u', w'.round? t policy q' = some u' ∧ S u u' ∧ u'.improved.toList = u.improved.toList)
    (budget : Nat) : ∀ {w w' : Workspace α}, S w w' → w.rounds? t policy q budget = some u →
      ∃ u', w'.rounds? t policy q' budget = some u' ∧ S u u' := by
  induction budget with
  | zero => exact fun {w w'} h hu => ⟨w', rfl, Option.some.inj hu ▸ h⟩
  | succ budget ih =>
      intro w w' h hu
      unfold Workspace.rounds? at hu ⊢
      rcases Option.bind_eq_some_iff.mp hu with ⟨w₁, hw₁, hu⟩
      rcases hround w w' w₁ h hw₁ with ⟨w₁', hw₁', hkept, himproved⟩
      have hempty : w₁'.improved.isEmpty = w₁.improved.isEmpty := by
        rw [Bool.eq_iff_iff, IndexSet.isEmpty_iff, IndexSet.isEmpty_iff, himproved]
      simp only [hw₁', Option.bind_eq_bind, Option.bind_some, hempty]
      split at hu
      · rw [if_pos ‹_›]
        exact ⟨w₁', rfl, Option.some.inj hu ▸ hkept⟩
      · rw [if_neg ‹_›]
        exact ih hkept hu

/-- Both searches make the same rounds if they meet the same routes in the first
    one. From then on they are in step. -/
theorem Agree.rounds? (hw : t.WellFormed) (hsame : q.SameTrip q')
    (hpolicy : strict ∨ policy.ByChain) (budget : Nat) (h : Agree strict t q q' w w')
    (hroutes : t.routesMet w'.improved.toList = t.routesMet w.improved.toList)
    (hu : w.rounds? t policy q budget = some u) :
    ∃ u', w'.rounds? t policy q' budget = some u' ∧ Agree strict t q q' u u' := by
  have hfollows := rounds?_follows q q' (fun v v' => Agree strict t q q' v v' ∧
    t.routesMet v'.improved.toList = t.routesMet v.improved.toList) ?_ budget ⟨h, hroutes⟩ hu
  · rcases hfollows with ⟨u', hu', hagree, -⟩
    exact ⟨u', hu', hagree⟩
  · rintro v v' v₁ ⟨hv, hmet⟩ hv₁
    rcases hv.round? hw hsame hpolicy hmet hv₁ with ⟨v₁', hv₁', hstep⟩
    exact ⟨v₁', hv₁', ⟨hstep.toAgree, by rw [hstep.improved]⟩, hstep.improved⟩

end Rounds

end Workspace

end Journey
