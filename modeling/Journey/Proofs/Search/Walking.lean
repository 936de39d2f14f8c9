import Journey.Proofs.Journeys
import Journey.Proofs.Search.Scanning

/-!
# What Access and Walks Achieve

Everything that is offered on foot is covered, and what it improves is noted.

The access candidates and the walks of a round are loops of the same kind. Each
pass offers a label that is no ride, and a route-stop that gets a new best label
that way is noted as improved. `Improves` is what such a pass may change; it can
be repeated, so a loop of such passes changes no more, and nothing that one pass
covers is lost in a later one. What remains to be said of each loop is what it
covers: the stop of every candidate, and everything that a footpath leads to
from a ride.

A transfer policy that charges a flat price makes the cost of a walk a number
that depends on the footpath alone, which is what `Footpath.cost` is.

## Main definitions

* `Workspace.Improves`: New best labels are noted as improvements.
* `Workspace.Walked`: Everything a footpath leads to from a ride is covered.

## Theorems

* `Workspace.Offered.improves`: What offering a label changes, unless it is a
  ride.
* `Workspace.covered_of_setAccess?`: The access candidates are covered.
* `Workspace.walked_of_relax?`: The walks of a round are covered.
-/

namespace Journey

namespace Workspace

/-- Between two workspaces, new best labels are noted as improvements and none
    of them is a ride. -/
structure Improves {α : Type} (t : Timetable α) (w w' : Workspace α) : Prop where
  marked : w.Marked t → w'.Marked t
  improved : ∀ i ∈ w.improved.toList, i ∈ w'.improved.toList
  holds : ∀ i id l, w'.Holds i id l → w.Holds i id l ∨ i ∈ w'.improved.toList
  labels : ∀ (id : Nat) (l : Label α), w'.labels[id]? = some l →
    w.labels[id]? = some l ∨ l.isRide = false

namespace Improves

variable {α : Type} {t : Timetable α} {w w₁ w₂ : Workspace α}

theorem refl (w : Workspace α) : Improves t w w :=
  ⟨fun h => h, fun _ h => h, fun _ _ _ h => Or.inl h, fun _ _ h => Or.inl h⟩

theorem putAway (h : Improves t w w₁) (sources : List (Nat × Nat)) :
    Improves t w (w₁.putAway sources) := ⟨h.marked, h.improved, h.holds, h.labels⟩

theorem trans (h : Improves t w w₁) (h' : Improves t w₁ w₂) : Improves t w w₂ where
  marked := fun hm => h'.marked (h.marked hm)
  improved := fun i hi => h'.improved i (h.improved i hi)
  holds := fun i id l hl => by
    rcases h'.holds i id l hl with hl | hi
    · rcases h.holds i id l hl with hl | hi
      · exact Or.inl hl
      · exact Or.inr (h'.improved i hi)
    · exact Or.inr hi
  labels := fun id l hl => by
    rcases h'.labels id l hl with hl | hl
    · exact h.labels id l hl
    · exact Or.inr hl

end Improves

/-- What offering a label changes, unless it is a ride. -/
theorem Offered.improves {α : Type} [Scalar α] {t : Timetable α} {w w' : Workspace α} {l : Label α}
    (h : Offered t w l w') (hf : w.Fits t) (hride : l.isRide = false) : Improves t w w' := by
  cases h with
  | exceeded => exact Improves.refl w
  | kept => exact Improves.refl w
  | stored hs hbeaten =>
      refine
        { marked := fun hm i hi r hr => ?_
          improved := fun i hi => (hs.improved i).mpr (Or.inl hi)
          holds := fun i id l' hl => ?_
          labels := fun id l' hl => ?_ }
      · rcases (hs.improved i).mp hi with hi | ⟨-, rfl⟩
        · rcases hm i hi r hr with ⟨s, hle, hstart⟩
          rcases hs.scanStart r s hstart with ⟨s', hle', hstart'⟩
          exact ⟨s', Nat.le_trans hle' hle, hstart'⟩
        · -- The route of the new label starts there, or before.
          rcases hr with ⟨rs, hrs, rfl⟩
          exact hs.scanStart_self hride rs hrs
      · rcases hs.holds_cases hf hl with ⟨hi, -⟩ | ⟨-, hl⟩
        · exact Or.inr ((hs.improved i).mpr (Or.inr ⟨hride, hi⟩))
        · exact Or.inl hl
      · rcases hs.label_cases hl with ⟨-, rfl⟩ | hl
        · exact Or.inr hride
        · exact Or.inl hl

variable {K : Type} [Field K] [LinearOrder K] {t : Timetable K} {policy : TransferPolicy K}
  {q : SearchQuery K} {w w' : Workspace K}

/-- A run that only improves. -/
def Advances (t : Timetable K) (policy : TransferPolicy K) (q : SearchQuery K)
    (w w' : Workspace K) : Prop :=
  Run t policy q w w' ∧ Improves t w w'

-- A loop each pass of which improves and covers something improves, and covers
-- all of it.
theorem advances_of_foldlM {β : Type} {f : Workspace K → β → Option (Workspace K)} {xs : List β}
    (G : β → Nat → WithTop K → Prop) (hf : w.Fits t)
    (hstep : ∀ x ∈ xs, ∀ u u', u.Fits t → Run t policy q w u → f u x = some u' →
      Advances t policy q u u' ∧ ∀ i c, G x i c → u'.Covered i c)
    (h : xs.foldlM f w = some w') :
    Advances t policy q w w' ∧ ∀ x ∈ xs, ∀ i c, G x i c → w'.Covered i c := by
  refine Loop.foldlM_collect (Advances t policy q) (fun x u => ∀ i c, G x i c → u.Covered i c)
    ⟨Run.refl w, Improves.refl w⟩ (fun u u' hu hu' => ⟨hu.1.trans hu'.1, hu.2.trans hu'.2⟩) ?_ ?_ h
  · intro x u u' hu hu' hG i c hc
    exact hu'.1.covered (hu.1.fits hf) (hG i c hc)
  · intro x hx u u' hu hu'
    exact hstep x hx u u' (hu.1.fits hf) hu.1 hu'

/-- The access candidates are covered at all route-stops of their stops. -/
theorem covered_of_setAccess? (hw : t.WellFormed) (hf : w.Fits t)
    (h : w.setAccess? t q.departureTime q.access = some w') :
    Advances t policy q w w' ∧
      ∀ c ∈ q.access, ∀ i, t.stopOf? i = some c.stop → w'.Covered i c.cost := by
  have hloop : Advances t policy q w w' ∧ _ := advances_of_foldlM
    (fun x i (cost : WithTop K) => t.stopOf? i = some x.1.stop ∧ cost = x.1.cost) hf ?_ h
  · refine ⟨hloop.1, fun c hc i hi => ?_⟩
    rcases List.getElem?_of_mem hc with ⟨k, hk⟩
    exact hloop.2 (c, k) (List.mem_zipIdx_iff_getElem?.mpr hk) i _ ⟨hi, rfl⟩
  · rintro ⟨c, k⟩ hc u u' hu - hoffer
    have hc := List.mem_zipIdx_iff_getElem?.mp hc
    rcases Option.bind_eq_some_iff.mp hoffer with ⟨routeStops, hrs, hinner⟩
    have hmem := hw.mem_routeStopsAt?_iff hrs
    have hcover : Advances t policy q u u' ∧ _ := advances_of_foldlM
      (fun i j (cost : WithTop K) => j = i ∧ cost = c.cost) hu ?_ hinner
    · refine ⟨hcover.1, ?_⟩
      rintro i cost ⟨hi, rfl⟩
      exact hcover.2 i ((hmem i).mpr hi) i _ ⟨rfl, rfl⟩
    · intro i hi v v' hv _ hv'
      have hoffered := hv.offerAccess?_eq_some rfl rfl hv'
      refine ⟨⟨Run.single (Event.offer (Label.isLegal_ofAccess hc ((hmem i).mp hi)) hoffered),
        hoffered.improves hv rfl⟩, ?_⟩
      rintro j cost ⟨rfl, rfl⟩
      exact hoffered.covered

/-- Everything a footpath leads to from a ride is covered. -/
def Walked (t : Timetable K) (p : Parameters K) (price : K) (w : Workspace K) (l : Label K) :
    Prop :=
  ∀ f i, t.Leads f l.routeStop i → w.Covered i (l.cost + f.cost p price : K)

-- With a flat price, walking is offered at the cost of the footpath.
theorem walkTo?_advances {price : K} {d : Departing K} {f : Footpath K} {i : Nat} (hf : w.Fits t)
    (hd : w.labels[d.id]? = some d.label) (hride : d.label.isRide = true)
    (hmode : t.modeOf? d.label.routeStop = some d.mode) (hpath : t.Leads f d.label.routeStop i)
    (h : walkTo? t (TransferPolicy.flat price) q d (f.time q.parameters) w i = some w') :
    Advances t (TransferPolicy.flat price) q w w' ∧
      w'.Covered i (d.label.cost + f.cost q.parameters price : K) := by
  rcases Option.bind_eq_some_iff.mp h with ⟨l, hwalk, hoffer⟩
  rcases Departing.isLegal_walk? hd hride hmode hpath hwalk with ⟨hlegal, hnoride, hi⟩
  have hoffered := hf.offerWalk?_eq_some hnoride hoffer
  refine ⟨⟨Run.single (Event.offer hlegal hoffered), hoffered.improves hf hnoride⟩, ?_⟩
  have hcost : l.cost = d.label.cost + f.cost q.parameters price := by
    unfold Departing.walk? at hwalk
    rcases Option.bind_eq_some_iff.mp hwalk with ⟨toMode, -, hwalk⟩
    rcases Option.bind_eq_some_iff.mp hwalk with ⟨increment, hprice, hwalk⟩
    rw [Option.pure_def, Option.some.injEq] at hwalk
    rw [← hwalk, ← Option.some.inj hprice]
    rfl
  rw [← hcost, ← hi]
  exact hoffered.covered

-- The walks from a ride cover what they lead to. A ride that is too expensive
-- for a walk is covered by a complete journey, and so is whatever follows.
theorem relaxFrom?_advances (hw : t.WellFormed) {price : K}
    (hcost : ∀ f ∈ t.footpaths, 0 ≤ f.cost q.parameters price) [IsStrictOrderedRing K]
    (hf : w.Fits t) {i id : Nat} {l : Label K} (hl : w.labels[id]? = some l) (hi : l.routeStop = i)
    (hride : l.isRide = true)
    (h : relaxFrom? t (TransferPolicy.flat price) q w (i, id) = some w') :
    Advances t (TransferPolicy.flat price) q w w' ∧ w'.Walked t q.parameters price l := by
  rcases relaxFrom?_eq_some h with ⟨l', hl', h⟩
  rw [hl, Option.some.injEq] at hl'
  subst hl' hi
  rcases h with ⟨hexceeds, rfl⟩ | ⟨-, mode, stop, footpaths, hmode, hstop, hfootpaths, h⟩
  · refine ⟨⟨Run.refl w', Improves.refl w'⟩, fun f j hpath => ?_⟩
    -- No walk can cost less than the ride, which costs more than a whole journey.
    rcases exceedsBound_eq_true hexceeds with ⟨b, hb, hlt⟩
    refine Or.inl ⟨b, hb, WithTop.coe_le_coe.mpr ?_⟩
    have hnonneg := hcost f hpath.1
    linarith
  · have hmem := hw.mem_footpathsFrom?_iff hstop hfootpaths
    have hloop : Advances t (TransferPolicy.flat price) q w w' ∧ _ := advances_of_foldlM
      (fun (f : Footpath K) j (c : WithTop K) => t.Leads f l.routeStop j ∧
        c = (l.cost + f.cost q.parameters price : K)) hf ?_ h
    · refine ⟨hloop.1, fun f j hpath => ?_⟩
      have horigin := hpath.2.1
      rw [hstop, Option.some.injEq] at horigin
      exact hloop.2 f ((hmem f).mpr ⟨hpath.1, horigin.symm⟩) j _ ⟨hpath, rfl⟩
    · intro f hfp u u' hu hrun hpass
      rcases Option.bind_eq_some_iff.mp hpass with ⟨targets, htargets, hinner⟩
      have hjmem := hw.mem_routeStopsAt?_iff htargets
      have hcover : Advances t (TransferPolicy.flat price) q u u' ∧ _ := advances_of_foldlM
        (fun j j' (c : WithTop K) => j' = j ∧
          c = (l.cost + f.cost q.parameters price : K)) hu ?_ hinner
      · refine ⟨hcover.1, ?_⟩
        rintro j c ⟨hpath, rfl⟩
        exact hcover.2 j ((hjmem j).mpr hpath.2.2) j _ ⟨rfl, rfl⟩
      · intro j hj v v' hv hrun' hv'
        have hpath : t.Leads f l.routeStop j :=
          ⟨((hmem f).mp hfp).1, by rw [((hmem f).mp hfp).2]; exact hstop, (hjmem j).mp hj⟩
        have hwalk := walkTo?_advances (d := ⟨id, l, mode⟩) hv
          (hrun'.labels_mono (hrun.labels_mono hl)) hride hmode hpath hv'
        refine ⟨hwalk.1, ?_⟩
        rintro j' c ⟨rfl, rfl⟩
        exact hwalk.2

/-- The walks of a round cover what they lead to from the rides it reached. -/
theorem walked_of_relax? (hw : t.WellFormed) {price : K}
    (hcost : ∀ f ∈ t.footpaths, 0 ≤ f.cost q.parameters price) [IsStrictOrderedRing K]
    (hf : w.Fits t) (hv : w.ByVehicle) (h : w.relax? t (TransferPolicy.flat price) q = some w') :
    Advances t (TransferPolicy.flat price) q w w' ∧
      ∀ i ∈ w.reached.toList, ∀ id l, w.Holds i id l → w'.Walked t q.parameters price l := by
  rcases relax?_eq_some h with ⟨sources, w₁, hsources, hloop, rfl⟩
  have hstart : ∀ x ∈ sources, ∃ l, w.labels[x.2]? = some l ∧ l.routeStop = x.1 ∧
      l.isRide = true := by
    rintro ⟨i, id⟩ hmem
    rcases (mem_sources? hsources i id).mp hmem with ⟨hi, hb⟩
    exact hv.source hf hi hb
  have hadv : Advances t (TransferPolicy.flat price) q w w₁ ∧ _ := advances_of_foldlM
    (fun (x : Nat × Nat) j (c : WithTop K) => ∃ l f, w.labels[x.2]? = some l ∧
      t.Leads f l.routeStop j ∧ c = (l.cost + f.cost q.parameters price : K)) hf ?_ hloop
  · have haway : Run t (TransferPolicy.flat price) q w₁ (w₁.putAway sources) :=
      Run.single (Event.quiet (quiet_putAway w₁ sources))
    refine ⟨⟨hadv.1.1.trans haway, hadv.1.2.putAway sources⟩, fun i hi id l hl f j hpath => ?_⟩
    exact hadv.2 (i, id) ((mem_sources? hsources i id).mpr ⟨hi, hl.1⟩) j _ ⟨l, f, hl.2, hpath, rfl⟩
  · rintro ⟨i, id⟩ hmem u u' hu hrun hpass
    rcases hstart (i, id) hmem with ⟨l, hl, hi, hride⟩
    rcases relaxFrom?_advances hw hcost hu (hrun.labels_mono hl) hi hride hpass with
      ⟨hadv, hwalked⟩
    refine ⟨hadv, ?_⟩
    rintro j c ⟨l', f, hl', hpath, rfl⟩
    rw [hl, Option.some.injEq] at hl'
    subst hl'
    exact hwalked f j hpath

end Workspace

end Journey
