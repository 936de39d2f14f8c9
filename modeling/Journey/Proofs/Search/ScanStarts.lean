import Journey.Proofs.Sample
import Journey.Proofs.Search.Additions
import Journey.Proofs.Search.Beginnings
import Journey.Proofs.Search.BetweenRounds

/-!
# Where Scans Start

Every route that a round scans is scanned from its first improved route-stop.

The starts of scans and the improved route-stops are kept apart. A route-stop is put into
the set and lowers the start of its route; when a round opens, the set is emptied at once,
while the starts stay and are taken one by one, each by the scan of its route. That they
agree again when the next round begins is therefore not plain. `StartsNoted` says that they
agree: the start of every route is the first improved route-stop on it, and there is none
if no route-stop on it was improved.

Improving one more route-stop keeps the agreement, and so do access and walks, which do
nothing else. Scans leave the set alone, and take the starts of just the routes on which
it has a member, so after them there is no start left. A route is therefore never scanned
as a whole for want of a start.

## Main definitions

* `Timetable.FirstOn`: The first of some route-stops on a route.
* `Workspace.StartsNoted`: Scans will start at the first improved route-stops.
* `Workspace.ScansFromFirst`: What the scans of a round start from.

## Theorems

* `Workspace.StartsNoted.improvement`: Improving a route-stop keeps the agreement.
* `Workspace.scanStart_of_scans`: Scans take the starts of their routes and no others.
* `Workspace.StartsNoted.round?`: A round keeps the agreement as well.
* `Engine.InService.scans_from_first_improved`: In every round of every search, routes are
  scanned from their first improved route-stops.
-/

namespace Journey

/-- The first of some route-stops on a route, if there is one. -/
def Timetable.FirstOn {α : Type} (t : Timetable α) (routeStops : List Nat) (r : Nat) :
    Option Nat → Prop
  | some first => first ∈ routeStops ∧ t.On first r ∧ ∀ i ∈ routeStops, t.On i r → first ≤ i
  | none => ∀ i ∈ routeStops, ¬ t.On i r

namespace Timetable

variable {α : Type} {t : Timetable α} {routeStops routeStops' : List Nat} {r i : Nat}
  {start : Option Nat}

theorem FirstOn.of_nil : t.FirstOn [] r none := fun _ hi => absurd hi List.not_mem_nil

theorem FirstOn.exists_of_on (h : t.FirstOn routeStops r start) (hi : i ∈ routeStops)
    (hon : t.On i r) : ∃ first, start = some first := by
  cases start with
  | none => exact absurd hon (h i hi)
  | some first => exact ⟨first, rfl⟩

theorem FirstOn.eq_none (h : t.FirstOn routeStops r start) (hnone : ∀ i ∈ routeStops, ¬ t.On i r) :
    start = none := by
  cases start with
  | none => rfl
  | some first => exact absurd h.2.1 (hnone first h.1)

/-- One more route-stop on the route is the first one if it comes before the start there
    was. -/
theorem FirstOn.insert (h : t.FirstOn routeStops r start) (hon : t.On i r)
    (hmem : ∀ j, j ∈ routeStops' ↔ j = i ∨ j ∈ routeStops) :
    t.FirstOn routeStops' r (if start.all (i < ·) then some i else start) := by
  have hself : i ∈ routeStops' := (hmem i).mpr (Or.inl rfl)
  cases start with
  | none =>
      refine ⟨hself, hon, fun j hj hjr => ?_⟩
      rcases (hmem j).mp hj with rfl | hj
      · exact Nat.le_refl j
      · exact absurd hjr (h j hj)
  | some first =>
      rcases h with ⟨hfirst, hfirstOn, hle⟩
      simp only [Option.all_some, decide_eq_true_eq]
      by_cases hlt : i < first
      · rw [if_pos hlt]
        refine ⟨hself, hon, fun j hj hjr => ?_⟩
        rcases (hmem j).mp hj with rfl | hj
        · exact Nat.le_refl j
        · exact hlt.le.trans (hle j hj hjr)
      · rw [if_neg hlt]
        refine ⟨(hmem first).mpr (Or.inr hfirst), hfirstOn, fun j hj hjr => ?_⟩
        rcases (hmem j).mp hj with rfl | hj
        · exact Nat.le_of_not_lt hlt
        · exact hle j hj hjr

/-- One more route-stop on another route makes no difference. -/
theorem FirstOn.insert_of_not_on (h : t.FirstOn routeStops r start) (hon : ¬ t.On i r)
    (hmem : ∀ j, j ∈ routeStops' ↔ j = i ∨ j ∈ routeStops) : t.FirstOn routeStops' r start := by
  have hback : ∀ j ∈ routeStops', t.On j r → j ∈ routeStops := by
    intro j hj hjr
    rcases (hmem j).mp hj with rfl | hj
    · exact absurd hjr hon
    · exact hj
  cases start with
  | none => exact fun j hj hjr => h j (hback j hj hjr) hjr
  | some first =>
      exact ⟨(hmem first).mpr (Or.inr h.1), h.2.1,
        fun j hj hjr => h.2.2 j (hback j hj hjr) hjr⟩

end Timetable

namespace Workspace

section Definitions

variable {α : Type}

/-- The start that is noted for every route is the first improved route-stop on it. -/
structure StartsNoted (t : Timetable α) (w : Workspace α) : Prop where
  fits : w.Fits t
  first : ∀ r < t.routes.size, ∃ start, w.scanStart[r]? = some start ∧
    t.FirstOn w.improved.toList r start

/-- The round that begins in `u` opens with `v`, and its scans end with `x`. Every route with
    an improved route-stop is scanned once, from the first one, and no others are. -/
structure ScansFromFirst [Scalar α] (t : Timetable α) (p : Parameters α) (u v x : Workspace α) :
    Prop where
  noted : u.StartsNoted t
  once : v.touched.toList.Nodup
  mem_touched_iff : ∀ r, r ∈ v.touched.toList ↔ ∃ i ∈ u.improved.toList, t.On i r
  /-- The start is still noted when the turn of the route comes, and it is taken. -/
  turn : ∀ done r rest, v.touched.toList = done ++ r :: rest →
    ∃ y row first y', done.foldlM (scanRoute? t p) v = some y ∧ t.routes[r]? = some row ∧
      t.FirstOn u.improved.toList r (some first) ∧ y.scanStart[r]? = some (some first) ∧
      y.takeScanStart? r row = some (y', first)
  /-- No start is left for the next round. -/
  taken : ∀ r < t.routes.size, x.scanStart[r]? = some none

end Definitions

variable {α : Type} [Scalar α] {t : Timetable α} {policy : TransferPolicy α} {q : SearchQuery α}
  {w w' u v x : Workspace α}

namespace StartsNoted

omit [Scalar α] in
-- Nothing is improved, and there are no starts.
theorem of_none (hf : w.Fits t) (himproved : w.improved.toList = [])
    (hnone : ∀ r < t.routes.size, w.scanStart[r]? = some none) : w.StartsNoted t where
  fits := hf
  first := fun r hr => ⟨none, hnone r hr, himproved ▸ Timetable.FirstOn.of_nil⟩

omit [Scalar α] in
theorem congr (h : w.StartsNoted t) (hf : w'.Fits t) (himproved : w'.improved = w.improved)
    (hstart : w'.scanStart = w.scanStart) : w'.StartsNoted t where
  fits := hf
  first := by rw [himproved, hstart]; exact h.first

/-- Improving a route-stop keeps the starts in agreement. -/
theorem improvement (h : w.StartsNoted t) (hstep : Improvement t w w') : w'.StartsNoted t := by
  rcases hstep with ⟨l, w₁, hstore, hmark⟩
  have hfits := (h.fits.store hstore).markImproved hmark
  rcases store?_eq_some hstore with ⟨best, labelled, egress, -, -, -, rfl⟩
  rcases markImproved?_eq_some hmark with
    ⟨improved, rs, start, scanStart, himproved, hrs, hstart, hwrite, rfl⟩
  have hmem := (h.fits.improved_over.mark himproved).2.2
  have hon : t.On l.routeStop rs.route := ⟨rs, hrs, rfl⟩
  refine ⟨hfits, fun r hr => ?_⟩
  rcases h.first r hr with ⟨start', hstart', hfirst⟩
  by_cases hroute : rs.route = r
  · subst hroute
    rw [hstart', Option.some.injEq] at hstart
    subst hstart
    refine ⟨_, ?_, hfirst.insert hon hmem⟩
    split at hwrite
    · rename_i hall
      rw [(write?_eq_some hwrite).2.2, if_pos rfl, if_pos hall]
    · rename_i hall
      rw [← Option.some.inj hwrite, if_neg hall]
      exact hstart'
  · refine ⟨start', ?_, hfirst.insert_of_not_on (fun hc => hroute (hon.unique hc)) hmem⟩
    split at hwrite
    · rw [(write?_eq_some hwrite).2.2, if_neg hroute]
      exact hstart'
    · rw [← Option.some.inj hwrite]
      exact hstart'

theorem improvements (h : w.StartsNoted t) (hsteps : Improvements t w w') : w'.StartsNoted t := by
  induction hsteps with
  | refl => exact h
  | tail _ hstep ih => exact ih.improvement hstep

end StartsNoted

section Scans

variable {p : Parameters α}

/-- Reaching route-stops by vehicle improves none and leaves the starts alone. -/
theorem Landings.notes_eq (h : Landings w w') :
    w'.improved = w.improved ∧ w'.scanStart = w.scanStart := by
  induction h with
  | refl => exact ⟨rfl, rfl⟩
  | tail _ hstep ih =>
      rcases hstep with ⟨l, w₁, hstore, hmark⟩
      rcases store?_eq_some hstore with ⟨best, labelled, egress, -, -, -, rfl⟩
      rcases markReached?_eq_some hmark with ⟨reached, -, rfl⟩
      exact ih

theorem scanStart_of_scanRoute? {r : Nat} (h : scanRoute? t p w r = some w') :
    w'.improved = w.improved ∧
      ∀ r' : Nat, w'.scanStart[r']? = if r = r' then some none else w.scanStart[r']? := by
  rcases landings_of_scanRoute? h with ⟨row, w₁, first, -, htake, hlandings⟩
  rcases takeScanStart?_eq_some htake with ⟨start, scanStart, -, hwrite, rfl, -⟩
  rcases hlandings.notes_eq with ⟨himproved, hstart⟩
  refine ⟨himproved, fun r' => ?_⟩
  rw [hstart]
  exact (write?_eq_some hwrite).2.2 r'

/-- Scans take the starts of their routes and no others. -/
theorem scanStart_of_scans {routes : List Nat} (h : routes.foldlM (scanRoute? t p) w = some w') :
    w'.improved = w.improved ∧
      ∀ r : Nat, w'.scanStart[r]? = if r ∈ routes then some none else w.scanStart[r]? := by
  refine Loop.foldlM_invariant (fun done u => u.improved = w.improved ∧
    ∀ r : Nat, u.scanStart[r]? = if r ∈ done then some none else w.scanStart[r]?) routes ?_ w w'
    ⟨rfl, fun r => by rw [if_neg List.not_mem_nil]⟩ h
  rintro done r rest u u' - ⟨himproved, hstart⟩ hscan
  rcases scanStart_of_scanRoute? hscan with ⟨himproved', hstart'⟩
  refine ⟨himproved'.trans himproved, fun r' => ?_⟩
  rw [hstart', hstart]
  by_cases hr : r = r'
  · rw [if_pos hr, if_pos (List.mem_append_right _ (List.mem_singleton.mpr hr.symm))]
  · rw [if_neg hr]
    simp only [List.mem_append, List.mem_singleton, Ne.symm hr, or_false]

end Scans

section Rounds

/-- The scans of a round start from the first improved route-stops if these were noted. -/
theorem StartsNoted.scansFromFirst (h : u.StartsNoted t) (hopen : u.openRound? t = some v)
    (hscans : v.scanRoutes? t q.parameters = some x) :
    ScansFromFirst t q.parameters u v x := by
  rcases quiet_openRound? hopen with ⟨hquiet, -, -, hstart⟩
  have hover := (hquiet.fits h.fits).touched_over
  have hmem := mem_touched_iff h.fits hopen
  refine ⟨h, hover.valid.nodup, hmem, fun done r rest htouched => ?_, fun r hr => ?_⟩
  · have hr : r ∈ v.touched.toList := htouched ▸ List.mem_append_right _ List.mem_cons_self
    rcases (hmem r).mp hr with ⟨i, hi, hon⟩
    rcases h.first r (hover.mem_lt hr) with ⟨start, hnoted, hfirst⟩
    rcases hfirst.exists_of_on hi hon with ⟨first, rfl⟩
    unfold scanRoutes? at hscans
    rw [htouched, List.foldlM_append] at hscans
    rcases Option.bind_eq_some_iff.mp hscans with ⟨y, hdone, hrest⟩
    rcases Loop.foldlM_cons_eq_some hrest with ⟨y₁, hscan, -⟩
    rcases landings_of_scanRoute? hscan with ⟨row, y', first', hrow, htake, -⟩
    -- No route before this one was the same, so its start is still there.
    have hnot : r ∉ done := hover.valid.not_mem_before htouched
    have hstill : y.scanStart[r]? = some (some first) := by
      rw [(scanStart_of_scans hdone).2 r, if_neg hnot, hstart, hnoted]
    rcases takeScanStart?_eq_some htake with ⟨start', scanStart, hstart', -, -, heq⟩
    rw [hstill, Option.some.injEq] at hstart'
    rw [← hstart', Option.getD_some] at heq
    exact ⟨y, row, first, y', hdone, hrow, hfirst, hstill, heq ▸ htake⟩
  · rw [(scanStart_of_scans hscans).2 r]
    by_cases hr' : r ∈ v.touched.toList
    · rw [if_pos hr']
    · rcases h.first r hr with ⟨start, hnoted, hfirst⟩
      have hnone := hfirst.eq_none fun i hi hon => hr' ((hmem r).mpr ⟨i, hi, hon⟩)
      rw [if_neg hr', hstart, hnoted, hnone]

/-- A round that begins with the starts in agreement ends so. -/
theorem StartsNoted.round? (h : u.StartsNoted t) (hw : t.WellFormed)
    (hround : u.round? t policy q = some w') : w'.StartsNoted t := by
  rcases round?_eq_some hround with ⟨v, x, x', hopen, hscans, hrelax, rfl⟩
  rcases quiet_openRound? hopen with ⟨hquiet, -, hnone, -⟩
  have hf := hquiet.fits h.fits
  have hrun : Run t policy q v x := (run_of_scanning hw hf (byVehicle_of_openRound? hopen)
    (Loop.passes_of_foldlM _ hscans)).1
  have himproved : x.improved.toList = [] := by rw [(scanStart_of_scans hscans).1, hnone]
  have hscanned : x.StartsNoted t :=
    of_none (hrun.fits hf) himproved (h.scansFromFirst hopen hscans).taken
  rcases improvements_of_relax? hrelax with ⟨y, sources, himproves, rfl⟩
  have hwalked := hscanned.improvements himproves
  have haway := (quiet_putAway y sources).fits hwalked.fits
  exact hwalked.congr ((quiet_closeRound (y.putAway sources)).fits haway) rfl rfl

omit [Scalar α] in
/-- Forgetting a query forgets all starts. -/
theorem Fits.scanStart_reset (hf : w.Fits t) {r : Nat} (hr : r < t.routes.size) :
    w.reset.scanStart[r]? = some none := by
  unfold Workspace.reset
  rw [Array.getElem?_replicate, if_pos (hf.scanStart_size ▸ hr)]

/-- Every round of a search begins with the starts in agreement. -/
theorem BeforeRound.startsNoted {n : Nat} (h : BeforeRound t policy q w n u) (hw : t.WellFormed)
    (hf : w.Fits t) : u.StartsNoted t := by
  induction h with
  | first begun =>
      rcases begin?_eq_some begun with ⟨w₁, hegress, haccess⟩
      have hreset : w.reset.StartsNoted t :=
        .of_none hf.reset hf.clean_reset.improved fun r hr => hf.scanStart_reset hr
      have hready := (readied_of_setEgress? hw hf.reset hegress).1
      rcases hready.only with ⟨egress, destinations, rfl⟩
      exact (hreset.congr hready.fits rfl rfl).improvements (improvements_of_setAccess? haccess)
  | next _ round _ _ ih => exact ih.round? hw round

end Rounds

end Workspace

namespace Sample

/-- Beginning at either stop of the first line, of which the second one is offered first. -/
def eitherStop : SearchQuery ℚ := query [candidate 1 20, candidate 0 0] [candidate 3 0] 1

end Sample

namespace Engine

namespace InService

variable {α : Type} [Scalar α] [Planar α] [MarkerTree α] {t : Timetable α}
  {policy : TransferPolicy α} {e : Engine α}

/-- A search forgets the starts that the one before may have left. Its rounds then open and
    scan their routes, each from its first improved route-stop. -/
theorem scans_from_first_improved {d : Draft α} (hd : d.build = .ok t)
    (h : InService t policy e) (q : SearchQuery α) :
    (∀ r < t.routes.size, e.workspace.reset.scanStart[r]? = some none) ∧
    (q.Within t → ∃ u, Workspace.BeforeRound t policy q e.workspace 0 u) ∧
    ∀ n u, Workspace.BeforeRound t policy q e.workspace n u →
      ∃ v x, u.openRound? t = some v ∧ v.scanRoutes? t q.parameters = some x ∧
        Workspace.ScansFromFirst t q.parameters u v x := by
  have hw := Draft.wellFormed_of_build hd
  have hf := (h.fits hw).2.2
  refine ⟨fun r hr => hf.scanStart_reset hr, fun hq => ?_, fun n u hbefore => ?_⟩
  · rcases hf.begin?_exists hw hq with ⟨u, hbegin, -⟩
    exact ⟨u, .first hbegin⟩
  · have hnoted := hbefore.startsNoted hw hf
    rcases hnoted.fits.openRound?_exists hw with ⟨v, hopen⟩
    have hfv := (Workspace.quiet_openRound? hopen).1.fits hnoted.fits
    rcases hfv.scanRoutes?_exists hw q (Workspace.byVehicle_of_openRound? hopen) with ⟨x, hscans⟩
    exact ⟨v, x, hopen, hscans, hnoted.scansFromFirst hopen hscans⟩

/-- The first line is scanned from its first stop, although that was improved last. Its start
    is gone when the second round begins, and the second line has one instead. -/
theorem scans_from_first_improved_eitherStop : ∃ u₀ u₁ v₀ v₁ x₀ x₁,
    Workspace.ScansFromFirst Sample.changeover.assemble Sample.eitherStop.parameters u₀ v₀ x₀ ∧
    (u₀.improved.toList, u₀.scanStart.toList) = ([1, 0], [some 0, none]) ∧
    u₀.round? Sample.changeover.assemble (TransferPolicy.flat 0) Sample.eitherStop = some u₁ ∧
    Workspace.ScansFromFirst Sample.changeover.assemble Sample.eitherStop.parameters u₁ v₁ x₁ ∧
    (u₁.improved.toList, u₁.scanStart.toList) = ([2], [none, some 2]) := by
  have hrun : ((Workspace.ofTimetable Sample.changeover.assemble).begin?
      Sample.changeover.assemble Sample.eitherStop).bind (fun u₀ =>
        (u₀.round? Sample.changeover.assemble (TransferPolicy.flat 0) Sample.eitherStop).map
          fun u₁ => ((u₀.improved.toList, u₀.scanStart.toList),
            (u₁.improved.toList, u₁.scanStart.toList), u₁.improved.isEmpty))
      = some (([1, 0], [some 0, none]), ([2], [none, some 2]), false) := by decide +kernel
  rcases Option.bind_eq_some_iff.mp hrun with ⟨u₀, hbegin, hrun⟩
  rcases Option.map_eq_some_iff.mp hrun with ⟨u₁, hround, hview⟩
  simp only [Prod.mk.injEq] at hview
  rcases hview with ⟨hfirst, hsecond, himproved⟩
  have hbefore : Workspace.BeforeRound Sample.changeover.assemble (TransferPolicy.flat 0)
      Sample.eitherStop
      (Engine.new Sample.changeover.assemble (TransferPolicy.flat 0)).workspace 0 u₀ :=
    .first hbegin
  have hservice : InService Sample.changeover.assemble (TransferPolicy.flat 0)
      (Engine.new Sample.changeover.assemble (TransferPolicy.flat 0)) := .new
  have hrounds := (scans_from_first_improved Sample.build_changeover hservice
    Sample.eitherStop).2.2
  rcases hrounds 0 u₀ hbefore with ⟨v₀, x₀, -, -, hscans₀⟩
  rcases hrounds 1 u₁ (hbefore.next hround himproved Nat.one_pos) with ⟨v₁, x₁, -, -, hscans₁⟩
  exact ⟨u₀, u₁, v₀, v₁, x₀, x₁, hscans₀, Prod.ext hfirst.1 hfirst.2, hround, hscans₁,
    Prod.ext hsecond.1 hsecond.2⟩

end InService

end Engine

end Journey
