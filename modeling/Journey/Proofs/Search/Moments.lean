import Journey.Proofs.Loop
import Journey.Proofs.Sample
import Journey.Proofs.Search.Scan
import Journey.Proofs.Timetable.Assembly
import Journey.Search.Engine

/-!
# The Moments of a Search

The states in which a search can be found.

A search is a loop over rounds, with loops over routes, route-stops, footpaths
and candidates inside. `Moment` follows this nesting and picks out every state
between two steps of the innermost loops, also of a search that fails later. It
is what "at any time during the search" means, and `Moment.run` says that
nothing but events has happened until then.

What a loop has to carry from pass to pass for this is little. A scan has to
know that the vehicle held was boarded from a label behind (`Carries`), and the
walks of a round have to know that they start from rides (`ByVehicle`). The routes
to scan are noted when a round opens, in the order in which the improved route-stops
lead to them.

## Main definitions

* `Timetable.routesMet`: The order in which routes are met.
* `Workspace.Carries`: Where the vehicle held by a scan was boarded.
* `Workspace.ByVehicle`: The route-stops noted as reached hold rides.
* `Workspace.Moment`: The states of a search.
* `Engine.InService`: The engines that any number of searches leave behind.

## Theorems

* `Workspace.Visit.run`: A visit of a scan is a run.
* `Workspace.toList_touchRoutes?`: The routes of a round.
* `Workspace.Moment.run`: Every moment of a search ends a run.
* `Workspace.moment_of_explore?`: The end of a search is one of its moments.
* `Engine.InService.fits`: The workspace of an engine in service fits.
* `Engine.InService.isLegal_of_moment`: Every label of a search is legal at every moment.
-/

namespace Journey

namespace Timetable

variable {α : Type}

/-- The routes of some route-stops, in the order in which they are first met. -/
def routesMet (t : Timetable α) (routeStops : List Nat) : List Nat :=
  (routeStops.filterMap fun i => t.routeStops[i]?.map (·.route)).eraseDups

theorem routesMet_concat (t : Timetable α) (routeStops : List Nat) {i : Nat} {rs : RouteStop α}
    (h : t.routeStops[i]? = some rs) :
    t.routesMet (routeStops ++ [i])
      = if rs.route ∈ t.routesMet routeStops then t.routesMet routeStops
        else t.routesMet routeStops ++ [rs.route] := by
  unfold routesMet
  rw [List.filterMap_append, List.filterMap_cons, h, List.filterMap_nil, Option.map_some,
    eraseDups_concat]
  simp only [List.mem_eraseDups]

/-- A route is met if one of the route-stops is on it. -/
theorem mem_routesMet_iff {t : Timetable α} {routeStops : List Nat} {r : Nat} :
    r ∈ t.routesMet routeStops ↔ ∃ i ∈ routeStops, t.On i r := by
  unfold routesMet On
  rw [List.mem_eraseDups, List.mem_filterMap]
  simp only [Option.map_eq_some_iff]

end Timetable

namespace Workspace

variable {α : Type} [Scalar α] {t : Timetable α} {policy : TransferPolicy α} {q : SearchQuery α}
  {w w' : Workspace α}

/-- The vehicle held was boarded from a label, at `first` or later and
    before `x`. -/
def Carries (t : Timetable α) (w : Workspace α) (first x : Nat) (held : Option (Boarding α)) :
    Prop :=
  ∀ b, held = some b → (∃ l, b.Boards t w.labels l) ∧ first ≤ b.routeStop ∧ b.routeStop < x

/-- The route-stops noted as reached hold rides. -/
def ByVehicle (w : Workspace α) : Prop :=
  ∀ i ∈ w.reached.toList, ∃ id l, w.Holds i id l ∧ l.isRide = true

/-- Offer an egress candidate at all route-stops of its stop. -/
def offerEgressAt? (t : Timetable α) (w : Workspace α) (candidate : Candidate α × Nat) :
    Option (Workspace α) := do
  let routeStops ← t.routeStopsAt? candidate.1.stop
  routeStops.foldlM (fun w rs => w.offerEgress? ⟨candidate.1.cost, candidate.2⟩ rs) w

/-- Offer an access candidate at all route-stops of its stop. -/
def offerAccessAt? (t : Timetable α) (departureTime : α) (w : Workspace α)
    (candidate : Candidate α × Nat) : Option (Workspace α) := do
  let routeStops ← t.routeStopsAt? candidate.1.stop
  routeStops.foldlM
    (fun w rs => w.offerAccess? t (Label.ofAccess departureTime candidate.2 candidate.1 rs)) w

/-- Walk to one route-stop. -/
def walkTo? (t : Timetable α) (policy : TransferPolicy α) (q : SearchQuery α) (d : Departing α)
    (duration : α) (w : Workspace α) (target : Nat) : Option (Workspace α) := do
  w.offerWalk? t (← d.walk? t policy q w.labels duration target)

theorem setEgress?_eq (w : Workspace α) (t : Timetable α) (l : List (Candidate α)) :
    w.setEgress? t l = l.zipIdx.foldlM (offerEgressAt? t) w := rfl

theorem setAccess?_eq (w : Workspace α) (t : Timetable α) (time : α) (l : List (Candidate α)) :
    w.setAccess? t time l = l.zipIdx.foldlM (offerAccessAt? t time) w := rfl

/-- While an egress candidate is offered. -/
def InOfferEgress (t : Timetable α) (w : Workspace α) (candidate : Candidate α × Nat)
    (w' : Workspace α) : Prop :=
  ∃ routeStops, t.routeStopsAt? candidate.1.stop = some routeStops ∧
    Loop.Passes (fun w rs => w.offerEgress? ⟨candidate.1.cost, candidate.2⟩ rs) Loop.nothing
      w routeStops w'

/-- While an access candidate is offered. -/
def InOfferAccess (t : Timetable α) (departureTime : α) (w : Workspace α)
    (candidate : Candidate α × Nat) (w' : Workspace α) : Prop :=
  ∃ routeStops, t.routeStopsAt? candidate.1.stop = some routeStops ∧
    Loop.Passes (fun w rs => w.offerAccess? t
      (Label.ofAccess departureTime candidate.2 candidate.1 rs)) Loop.nothing w routeStops w'

/-- While a route is scanned. -/
def InScanRoute (t : Timetable α) (p : Parameters α) (w : Workspace α) (r : Nat)
    (w' : Workspace α) : Prop :=
  ∃ row w₁ first held, t.routes[r]? = some row ∧ w.takeScanStart? r row = some (w₁, first) ∧
    Loop.Passes (scanStop? t p) Loop.nothing (w₁, none) (Span.mk first row.routeStops.stop).toList
      (w', held)

/-- While walking along a footpath. -/
def InRelaxFootpath (t : Timetable α) (policy : TransferPolicy α) (q : SearchQuery α)
    (d : Departing α) (w : Workspace α) (f : Footpath α) (w' : Workspace α) : Prop :=
  ∃ targets, t.routeStopsAt? f.target = some targets ∧
    Loop.Passes (walkTo? t policy q d (Scalar.larger f.duration q.parameters.minTransferTime))
      Loop.nothing w targets w'

/-- While walking from a route-stop. -/
def InRelaxFrom (t : Timetable α) (policy : TransferPolicy α) (q : SearchQuery α)
    (w : Workspace α) (source : Nat × Nat) (w' : Workspace α) : Prop :=
  w' = w ∨ ∃ label mode stop footpaths, w.labels[source.2]? = some label ∧
    w.exceedsBound label.cost = false ∧ t.modeOf? source.1 = some mode ∧
    t.stopOf? source.1 = some stop ∧ t.footpathsFrom? stop = some footpaths ∧
    Loop.Passes (relaxFootpath? t policy q ⟨source.2, label, mode⟩)
      (InRelaxFootpath t policy q ⟨source.2, label, mode⟩) w footpaths w'

/-- During a round. -/
inductive InRound (t : Timetable α) (policy : TransferPolicy α) (q : SearchQuery α)
    (w : Workspace α) : Workspace α → Prop where
  /-- While the routes are scanned. -/
  | scanning {w₁ w' : Workspace α} (opened : w.openRound? t = some w₁)
      (h : Loop.Passes (scanRoute? t q.parameters) (InScanRoute t q.parameters)
        w₁ w₁.touched.toList w') : InRound t policy q w w'
  /-- During the walks. -/
  | relaxing {w₁ w₂ w' : Workspace α} {sources : List (Nat × Nat)}
      (opened : w.openRound? t = some w₁) (scanned : w₁.scanRoutes? t q.parameters = some w₂)
      (hsources : w₂.sources? = some sources)
      (h : Loop.Passes (relaxFrom? t policy q) (InRelaxFrom t policy q) w₂ sources w') :
      InRound t policy q w w'
  /-- At the end. -/
  | closed {w' : Workspace α} (h : w.round? t policy q = some w') : InRound t policy q w w'

/-- During a number of rounds. -/
inductive InRounds (t : Timetable α) (policy : TransferPolicy α) (q : SearchQuery α) :
    Nat → Workspace α → Workspace α → Prop where
  | here (budget : Nat) (w : Workspace α) : InRounds t policy q budget w w
  | within {budget : Nat} {w w' : Workspace α} (h : InRound t policy q w w') :
      InRounds t policy q (budget + 1) w w'
  | later {budget : Nat} {w w₁ w' : Workspace α} (h : w.round? t policy q = some w₁)
      (improved : w₁.improved.isEmpty = false) (rest : InRounds t policy q budget w₁ w') :
      InRounds t policy q (budget + 1) w w'

/-- During a search that starts in a workspace. -/
inductive Moment (t : Timetable α) (policy : TransferPolicy α) (q : SearchQuery α)
    (w : Workspace α) : Workspace α → Prop where
  /-- While the egress candidates are offered. -/
  | egress {w' : Workspace α}
      (h : Loop.Passes (offerEgressAt? t) (InOfferEgress t) w.reset q.egress.zipIdx w') :
      Moment t policy q w w'
  /-- While the access candidates are offered. -/
  | access {w₁ w' : Workspace α} (told : w.reset.setEgress? t q.egress = some w₁)
      (h : Loop.Passes (offerAccessAt? t q.departureTime) (InOfferAccess t q.departureTime)
        w₁ q.access.zipIdx w') : Moment t policy q w w'
  /-- During the rounds. -/
  | rounds {w₁ w' : Workspace α} (begun : w.begin? t q = some w₁)
      (h : InRounds t policy q (q.maxTransfers + 1) w₁ w') : Moment t policy q w w'
  /-- At the end. -/
  | concluded {w' : Workspace α} (h : w.explore? t policy q = some w') : Moment t policy q w w'

-- A loop whose passes are runs is a run at every moment.
theorem run_of_passes {β : Type} {f : Workspace α → β → Option (Workspace α)}
    {inside : Workspace α → β → Workspace α → Prop} {xs : List β} (hf : w.Fits t)
    (hstep : ∀ x ∈ xs, ∀ u u', u.Fits t → Run t policy q w u → f u x = some u' →
      Run t policy q u u')
    (hinside : ∀ x ∈ xs, ∀ u u', u.Fits t → Run t policy q w u → inside u x u' →
      Run t policy q u u')
    (h : Loop.Passes f inside w xs w') : Run t policy q w w' := by
  refine h.invariant (fun _ u => Run t policy q w u) (Run t policy q w) ?_ ?_ (fun _ _ hu => hu)
    (Run.refl w)
  · intro done x rest u u' hxs hu h
    exact hu.trans (hstep x (by rw [hxs]; exact List.mem_append_right _ List.mem_cons_self) u u'
      (hu.fits hf) hu h)
  · intro done x rest u u' hxs hu h
    exact hu.trans (hinside x (by rw [hxs]; exact List.mem_append_right _ List.mem_cons_self) u u'
      (hu.fits hf) hu h)

theorem InOfferEgress.run (hw : t.WellFormed) (hf : w.Fits t) {c : Candidate α} {k : Nat}
    (hc : q.egress[k]? = some c) (h : InOfferEgress t w (c, k) w') : Run t policy q w w' := by
  rcases h with ⟨routeStops, hrs, h⟩
  have hmem := hw.mem_routeStopsAt?_iff hrs
  refine run_of_passes hf (fun i hi u u' _ _ h => ?_) (fun _ _ _ _ _ _ h => h.elim) h
  exact Run.single (Event.egress hc ((hmem i).mp hi) h)

theorem InOfferAccess.run (hw : t.WellFormed) (hf : w.Fits t) {c : Candidate α} {k : Nat}
    (hc : q.access[k]? = some c) (h : InOfferAccess t q.departureTime w (c, k) w') :
    Run t policy q w w' := by
  rcases h with ⟨routeStops, hrs, h⟩
  have hmem := hw.mem_routeStopsAt?_iff hrs
  refine run_of_passes hf (fun i hi u u' hu _ h => ?_) (fun _ _ _ _ _ _ h => h.elim) h
  exact Run.single (Event.offer (Label.isLegal_ofAccess hc ((hmem i).mp hi))
    (hu.offerAccess?_eq_some rfl rfl h))

/-- A visit of a scan is a run, and what is held afterwards was boarded before
    the next route-stop. -/
theorem Visit.run (hw : t.WellFormed) (hf : w.Fits t) {r : Nat} {row : Route} {first x : Nat}
    (hrow : t.routes[r]? = some row) (hfirst : row.routeStops.start ≤ first) (hle : first ≤ x)
    (hx : x < row.routeStops.stop) {held held' : Option (Boarding α)}
    (hc : w.Carries t first x held) (h : Visit t q.parameters w held x w' held') :
    Run t policy q w w' ∧ w'.Carries t first (x + 1) held' := by
  cases h with
  | @switch b l boards holds earlier =>
      refine ⟨Run.refl w, fun b' hb' => ?_⟩
      rw [Option.some.injEq] at hb'
      subst hb'
      -- Boarding happens at the route-stop that is visited.
      have hbx : b.routeStop = x := boards.routeStop_eq.trans (hf.holds_routeStop holds)
      exact ⟨⟨l, boards⟩, hbx ▸ hle, hbx ▸ Nat.lt_succ_self _⟩
  | pass noEarlier hheld =>
      exact ⟨Run.refl w, fun b' hb' => absurd hb' (by simp only [reduceCtorEq, not_false_eq_true])⟩
  | @alight b w' noEarlier hheld h =>
      rcases hc b hheld with ⟨⟨l, boards⟩, hlo, hhi⟩
      have hahead : t.Ahead b.routeStop x :=
        (hw.ahead_iff_span hrow (Nat.le_trans hfirst hlo) (Nat.lt_trans hhi hx) x).mpr ⟨hhi, hx⟩
      -- The ride is legal because the label it was boarded from is still there.
      rcases boards.exists_departure hw with ⟨boardingTime, hdep⟩
      rcases hf.alight?_eq_some hdep h with ⟨arrivalTime, harr, hoffered⟩
      have hrun : Run t policy q w w' :=
        Run.single (Event.offer (boards.isLegal policy q hahead hdep harr) hoffered)
      refine ⟨hrun, fun b' hb' => ?_⟩
      rw [Option.some.injEq] at hb'
      subst hb'
      exact ⟨⟨l, boards.mono fun _ _ hl => hrun.labels_mono hl⟩, hlo, Nat.lt_succ_of_lt hhi⟩

-- A visit of a scan stores no label but rides.
theorem Visit.byVehicle (hw : t.WellFormed) (hf : w.Fits t) {p : Parameters α} {first x : Nat}
    {held held' : Option (Boarding α)} (hc : w.Carries t first x held) (hv : w.ByVehicle)
    (h : Visit t p w held x w' held') : w'.ByVehicle := by
  cases h with
  | switch => exact hv
  | pass => exact hv
  | @alight b w' noEarlier hheld h =>
      rcases hc b hheld with ⟨⟨l, boards⟩, -, -⟩
      rcases boards.exists_departure hw with ⟨boardingTime, hdep⟩
      rcases hf.alight?_eq_some hdep h with ⟨arrivalTime, harr, hoffered⟩
      cases hoffered with
      | exceeded => exact hv
      | kept => exact hv
      | stored hs =>
          intro i hi
          by_cases hix : i = x
          · subst hix
            exact ⟨_, _, hs.holds_self, rfl⟩
          · rcases (hs.reached i).mp hi with hi | ⟨-, hi⟩
            · rcases hv i hi with ⟨id, l', hl', hride⟩
              exact ⟨id, l', hs.holds_of_ne hix hl', hride⟩
            · exact absurd hi hix

theorem inScanRoute_of_scanRoute? {p : Parameters α} {r : Nat}
    (h : scanRoute? t p w r = some w') : InScanRoute t p w r w' := by
  rcases scanRoute?_eq_some h with ⟨row, w₁, first, held, hrow, htake, hloop⟩
  exact ⟨row, w₁, first, held, hrow, htake, Loop.passes_of_foldlM _ hloop⟩

/-- The scan of a route is a run that stores rides. The vehicle held is always
    one that was boarded before the next route-stop. -/
theorem InScanRoute.run (hw : t.WellFormed) (hf : w.Fits t) (hv : w.ByVehicle) {r : Nat}
    (h : InScanRoute t q.parameters w r w') : Run t policy q w w' ∧ w'.ByVehicle := by
  rcases h with ⟨row, w₁, first, held, hrow, htake, h⟩
  rcases hf.quiet_takeScanStart? hw hrow htake with ⟨hquiet, hfirst, -, hreached, -⟩
  -- Taking the start of the scan does not change what route-stops hold.
  have hv₁ : w₁.ByVehicle := by
    intro i hi
    rw [hreached] at hi
    rcases hv i hi with ⟨id, l, hl, hride⟩
    exact ⟨id, l, (hquiet.holds_iff i id l).mpr hl, hride⟩
  refine h.invariant
    (fun done s => Run t policy q w s.1 ∧ s.1.ByVehicle ∧
      s.1.Carries t first (first + done.length) s.2)
    (fun s => Run t policy q w s.1 ∧ s.1.ByVehicle) ?_ (fun _ _ _ _ _ _ _ h => h.elim)
    (fun _ _ hs => ⟨hs.1, hs.2.1⟩) ?_
  · rintro done x rest ⟨u, hheld⟩ ⟨u', hheld'⟩ hxs ⟨hrun, hby, hcarries⟩ hstop
    rcases Span.toList_split hxs with ⟨rfl, hx⟩
    have hfu := hrun.fits hf
    have hvisit := hfu.visit hstop
    rcases hvisit.run hw hfu hrow hfirst (Nat.le_add_right _ _) hx hcarries with ⟨hrun', hcarries'⟩
    refine ⟨hrun.trans hrun', hvisit.byVehicle hw hfu hcarries hby, ?_⟩
    rw [List.length_append, List.length_singleton, ← Nat.add_assoc]
    exact hcarries'
  · exact ⟨Run.single (Event.quiet hquiet), hv₁,
      fun b hb => absurd hb (by simp only [reduceCtorEq, not_false_eq_true])⟩

omit [Scalar α] in
theorem quiet_openRound? (h : w.openRound? t = some w') :
    Quiet t w w' ∧ w'.reached.toList = [] ∧ w'.improved.toList = [] ∧
      w'.scanStart = w.scanStart := by
  unfold openRound? at h
  rcases Option.bind_eq_some_iff.mp h with ⟨touched, htouched, h⟩
  rw [Option.pure_def, Option.some.injEq] at h
  subst h
  refine ⟨⟨rfl, rfl, rfl, rfl, fun hf => ?_⟩, IndexSet.toList_clear _, IndexSet.toList_clear _, rfl⟩
  refine { hf with
    improved_over := hf.improved_over.clear
    reached_over := hf.reached_over.clear
    touched_over := ?_ }
  -- The routes are put into the emptied set one after the other.
  refine Loop.foldlM_invariant (fun _ (s : IndexSet) => s.Over t.routes.size) _ ?_ _ _
    hf.touched_over.clear htouched
  intro done i rest s s' _ hs hmark
  rcases Option.bind_eq_some_iff.mp hmark with ⟨rs, -, hmark⟩
  exact (hs.mark hmark).2.1

omit [Scalar α] in
/-- The routes of a round are those of the improved route-stops, in that order. -/
theorem toList_touchRoutes? (hf : w.Fits t) {routes : IndexSet}
    (h : w.touchRoutes? t = some routes) : routes.toList = t.routesMet w.improved.toList := by
  refine (Loop.foldlM_invariant (fun done (s : IndexSet) => s.Over t.routes.size ∧
    s.toList = t.routesMet done) _ ?_ _ _ ⟨hf.touched_over.clear, IndexSet.toList_clear _⟩ h).2
  rintro done i rest s s' - ⟨hover, hs⟩ hmark
  rcases Option.bind_eq_some_iff.mp hmark with ⟨rs, hrs, hmark⟩
  refine ⟨(hover.mark hmark).2.1, ?_⟩
  rw [hover.toList_mark hmark, t.routesMet_concat done hrs, hs]

omit [Scalar α] in
theorem mem_touched_iff (hf : w.Fits t) (h : w.openRound? t = some w') (r : Nat) :
    r ∈ w'.touched.toList ↔ ∃ i ∈ w.improved.toList, t.On i r := by
  unfold openRound? at h
  rcases Option.bind_eq_some_iff.mp h with ⟨touched, htouched, h⟩
  rw [← Option.some.inj h, toList_touchRoutes? hf htouched, Timetable.mem_routesMet_iff]

-- The routes of a round are scanned by a run that stores rides.
theorem run_of_scanning (hw : t.WellFormed) (hf : w.Fits t) (hv : w.ByVehicle) {routes : List Nat}
    (h : Loop.Passes (scanRoute? t q.parameters) (InScanRoute t q.parameters) w routes w') :
    Run t policy q w w' ∧ w'.ByVehicle := by
  refine h.invariant (fun _ u => Run t policy q w u ∧ u.ByVehicle)
    (fun u => Run t policy q w u ∧ u.ByVehicle) ?_ ?_ (fun _ _ hu => hu) ⟨Run.refl w, hv⟩
  · intro done r rest u u' _ hu hscan
    rcases (inScanRoute_of_scanRoute? hscan).run hw (hu.1.fits hf) hu.2 with ⟨hrun, hv'⟩
    exact ⟨hu.1.trans hrun, hv'⟩
  · intro done r rest u u' _ hu hscan
    rcases hscan.run hw (hu.1.fits hf) hu.2 with ⟨hrun, hv'⟩
    exact ⟨hu.1.trans hrun, hv'⟩

omit [Scalar α] in
-- Walks start from the best labels of the route-stops reached.
theorem mem_sources? {sources : List (Nat × Nat)} (h : w.sources? = some sources) (i id : Nat) :
    (i, id) ∈ sources ↔ i ∈ w.reached.toList ∧ w.best[i]? = some (some id) := by
  unfold sources? at h
  rcases Option.bind_eq_some_iff.mp h with ⟨found, hfound, h⟩
  rw [Option.pure_def, Option.some.injEq] at h
  subst h
  simp only [List.mem_filterMap, id_eq, exists_eq_right]
  rw [Loop.mem_of_mapM hfound]
  constructor
  · rintro ⟨i', hi', hmap⟩
    rcases Option.bind_eq_some_iff.mp hmap with ⟨best, hb, hmap⟩
    rw [Option.pure_def, Option.some.injEq] at hmap
    rcases Option.map_eq_some_iff.mp hmap with ⟨id', rfl, heq⟩
    rw [Prod.mk.injEq] at heq
    rcases heq with ⟨rfl, rfl⟩
    exact ⟨hi', hb⟩
  · rintro ⟨hi, hb⟩
    exact ⟨i, hi, by rw [hb]; rfl⟩

omit [Scalar α] in
theorem Fits.sources?_exists (hf : w.Fits t) : ∃ sources, w.sources? = some sources := by
  have hfound : ∃ found, w.reached.toList.mapM (fun i => do
      return (← w.best[i]?).map fun id => (i, id)) = some found := by
    refine Loop.mapM_exists (fun i hi => ?_)
    have hlt : i < w.best.size := hf.best_size ▸ hf.reached_over.mem_lt hi
    rw [Array.getElem?_eq_getElem hlt]
    exact ⟨_, rfl⟩
  rcases hfound with ⟨found, hfound⟩
  unfold sources?
  rw [hfound]
  exact ⟨_, rfl⟩

-- Walking from a ride to a route-stop that a footpath leads to is a run.
theorem run_of_walkTo? (hf : w.Fits t) {d : Departing α} (hd : w.labels[d.id]? = some d.label)
    (hride : d.label.isRide = true) (hmode : t.modeOf? d.label.routeStop = some d.mode)
    {f : Footpath α} {i : Nat} (hpath : t.Leads f d.label.routeStop i)
    (h : walkTo? t policy q d (Scalar.larger f.duration q.parameters.minTransferTime) w i
      = some w') : Run t policy q w w' := by
  rcases Option.bind_eq_some_iff.mp h with ⟨l, hwalk, hoffer⟩
  rcases Departing.isLegal_walk? hd hride hmode hpath hwalk with ⟨hlegal, hnoride, -⟩
  exact Run.single (Event.offer hlegal (hf.offerWalk?_eq_some hnoride hoffer))

/-- Walking along a footpath from a ride is a run. -/
theorem InRelaxFootpath.run (hw : t.WellFormed) (hf : w.Fits t) {d : Departing α}
    (hd : w.labels[d.id]? = some d.label) (hride : d.label.isRide = true)
    (hmode : t.modeOf? d.label.routeStop = some d.mode) {f : Footpath α} (hpath : f ∈ t.footpaths)
    (horigin : t.stopOf? d.label.routeStop = some f.origin)
    (h : InRelaxFootpath t policy q d w f w') : Run t policy q w w' := by
  rcases h with ⟨targets, htargets, h⟩
  have hmem := hw.mem_routeStopsAt?_iff htargets
  refine run_of_passes hf (fun i hi u u' hu hrun h => ?_) (fun _ _ _ _ _ _ h => h.elim) h
  exact run_of_walkTo? hu (hrun.labels_mono hd) hride hmode ⟨hpath, horigin, (hmem i).mp hi⟩ h

theorem inRelaxFootpath_of_relaxFootpath? {d : Departing α} {f : Footpath α}
    (h : relaxFootpath? t policy q d w f = some w') : InRelaxFootpath t policy q d w f w' := by
  unfold relaxFootpath? at h
  rcases Option.bind_eq_some_iff.mp h with ⟨targets, htargets, h⟩
  exact ⟨targets, htargets, Loop.passes_of_foldlM _ h⟩

/-- Walking from a route-stop that holds a ride is a run. -/
theorem InRelaxFrom.run (hw : t.WellFormed) (hf : w.Fits t) {i id : Nat} {l : Label α}
    (hl : w.labels[id]? = some l) (hi : l.routeStop = i) (hride : l.isRide = true)
    (h : InRelaxFrom t policy q w (i, id) w') : Run t policy q w w' := by
  rcases h with rfl | ⟨l', mode, stop, footpaths, hl', -, hmode, hstop, hfootpaths, h⟩
  · exact Run.refl w'
  · rw [hl, Option.some.injEq] at hl'
    subst hl' hi
    have hmem := hw.mem_footpathsFrom?_iff hstop hfootpaths
    have horigin : ∀ f ∈ footpaths, t.stopOf? l.routeStop = some f.origin := fun f hf => by
      rw [((hmem f).mp hf).2]
      exact hstop
    refine run_of_passes hf (fun f hfp u u' hu hrun h => ?_) (fun f hfp u u' hu hrun h => ?_) h
    · exact (inRelaxFootpath_of_relaxFootpath? h).run hw hu (hrun.labels_mono hl) hride hmode
        ((hmem f).mp hfp).1 (horigin f hfp)
    · exact h.run hw hu (hrun.labels_mono hl) hride hmode ((hmem f).mp hfp).1 (horigin f hfp)

-- A ride is passed over if it is too expensive by now, and left along all footpaths if not.
theorem relaxFrom?_eq_some {source : Nat × Nat} (h : relaxFrom? t policy q w source = some w') :
    ∃ l, w.labels[source.2]? = some l ∧ (w.exceedsBound l.cost = true ∧ w' = w ∨
      w.exceedsBound l.cost = false ∧ ∃ mode stop footpaths, t.modeOf? source.1 = some mode ∧
        t.stopOf? source.1 = some stop ∧ t.footpathsFrom? stop = some footpaths ∧
        footpaths.foldlM (relaxFootpath? t policy q ⟨source.2, l, mode⟩) w = some w') := by
  unfold relaxFrom? at h
  rcases Option.bind_eq_some_iff.mp h with ⟨l, hl, h⟩
  refine ⟨l, hl, ?_⟩
  split at h
  · rename_i hexceeds
    exact Or.inl ⟨hexceeds, (Option.some.inj h).symm⟩
  · rename_i hexceeds
    rcases Option.bind_eq_some_iff.mp h with ⟨mode, hmode, h⟩
    rcases Option.bind_eq_some_iff.mp h with ⟨stop, hstop, h⟩
    rcases Option.bind_eq_some_iff.mp h with ⟨footpaths, hfootpaths, h⟩
    exact Or.inr ⟨Bool.eq_false_iff.mpr hexceeds, mode, stop, footpaths, hmode, hstop, hfootpaths,
      h⟩

theorem inRelaxFrom_of_relaxFrom? {source : Nat × Nat}
    (h : relaxFrom? t policy q w source = some w') : InRelaxFrom t policy q w source w' := by
  rcases relaxFrom?_eq_some h with
    ⟨l, hl, ⟨-, rfl⟩ | ⟨hexceeds, mode, stop, footpaths, hmode, hstop, hfootpaths, hloop⟩⟩
  · exact Or.inl rfl
  · exact Or.inr ⟨l, mode, stop, footpaths, hl, hexceeds, hmode, hstop, hfootpaths,
      Loop.passes_of_foldlM _ hloop⟩

omit [Scalar α] in
-- Walks start from rides.
theorem ByVehicle.source (hv : w.ByVehicle) (hf : w.Fits t) {i id : Nat}
    (hi : i ∈ w.reached.toList) (hb : w.best[i]? = some (some id)) :
    ∃ l, w.labels[id]? = some l ∧ l.routeStop = i ∧ l.isRide = true := by
  rcases hv i hi with ⟨id', l, hl, hride⟩
  have hb' := hl.1
  rw [hb, Option.some.injEq, Option.some.injEq] at hb'
  subst hb'
  exact ⟨l, hl.2, hf.holds_routeStop hl, hride⟩

-- The walks of a round are a run if the route-stops reached hold rides.
theorem run_of_relaxing (hw : t.WellFormed) (hf : w.Fits t) (hv : w.ByVehicle)
    {sources : List (Nat × Nat)} (hsources : w.sources? = some sources)
    (h : Loop.Passes (relaxFrom? t policy q) (InRelaxFrom t policy q) w sources w') :
    Run t policy q w w' := by
  -- The labels that walks start from were rides before the first walk, and labels
  -- do not change.
  have hride : ∀ i id, (i, id) ∈ sources → ∃ l, w.labels[id]? = some l ∧ l.routeStop = i ∧
      l.isRide = true := by
    intro i id hmem
    rcases (mem_sources? hsources i id).mp hmem with ⟨hi, hb⟩
    exact hv.source hf hi hb
  refine run_of_passes hf ?_ ?_ h
  · rintro ⟨i, id⟩ hmem u u' hu hrun h
    rcases hride i id hmem with ⟨l, hl, hi, hl'⟩
    exact (inRelaxFrom_of_relaxFrom? h).run hw hu (hrun.labels_mono hl) hi hl'
  · rintro ⟨i, id⟩ hmem u u' hu hrun h
    rcases hride i id hmem with ⟨l, hl, hi, hl'⟩
    exact h.run hw hu (hrun.labels_mono hl) hi hl'

theorem inOfferEgress_of_offerEgressAt? {candidate : Candidate α × Nat}
    (h : offerEgressAt? t w candidate = some w') : InOfferEgress t w candidate w' := by
  unfold offerEgressAt? at h
  rcases Option.bind_eq_some_iff.mp h with ⟨routeStops, hrs, h⟩
  exact ⟨routeStops, hrs, Loop.passes_of_foldlM _ h⟩

theorem inOfferAccess_of_offerAccessAt? {time : α} {candidate : Candidate α × Nat}
    (h : offerAccessAt? t time w candidate = some w') : InOfferAccess t time w candidate w' := by
  unfold offerAccessAt? at h
  rcases Option.bind_eq_some_iff.mp h with ⟨routeStops, hrs, h⟩
  exact ⟨routeStops, hrs, Loop.passes_of_foldlM _ h⟩

-- Offering the egress candidates is a run.
theorem run_of_egress (hw : t.WellFormed) (hf : w.Fits t)
    (h : Loop.Passes (offerEgressAt? t) (InOfferEgress t) w q.egress.zipIdx w') :
    Run t policy q w w' := by
  refine run_of_passes hf ?_ ?_ h
  · rintro ⟨c, k⟩ hc u u' hu - h
    exact (inOfferEgress_of_offerEgressAt? h).run hw hu (List.mem_zipIdx_iff_getElem?.mp hc)
  · rintro ⟨c, k⟩ hc u u' hu - h
    exact h.run hw hu (List.mem_zipIdx_iff_getElem?.mp hc)

-- Offering the access candidates is a run.
theorem run_of_access (hw : t.WellFormed) (hf : w.Fits t)
    (h : Loop.Passes (offerAccessAt? t q.departureTime) (InOfferAccess t q.departureTime) w
      q.access.zipIdx w') : Run t policy q w w' := by
  refine run_of_passes hf ?_ ?_ h
  · rintro ⟨c, k⟩ hc u u' hu - h
    exact (inOfferAccess_of_offerAccessAt? h).run hw hu (List.mem_zipIdx_iff_getElem?.mp hc)
  · rintro ⟨c, k⟩ hc u u' hu - h
    exact h.run hw hu (List.mem_zipIdx_iff_getElem?.mp hc)

theorem round?_eq_some (h : w.round? t policy q = some w') :
    ∃ w₁ w₂ w₃, w.openRound? t = some w₁ ∧ w₁.scanRoutes? t q.parameters = some w₂ ∧
      w₂.relax? t policy q = some w₃ ∧ w' = w₃.closeRound := by
  unfold round? at h
  rcases Option.bind_eq_some_iff.mp h with ⟨w₁, h₁, h⟩
  rcases Option.bind_eq_some_iff.mp h with ⟨w₂, h₂, h⟩
  rcases Option.bind_eq_some_iff.mp h with ⟨w₃, h₃, h⟩
  exact ⟨w₁, w₂, w₃, h₁, h₂, h₃, (Option.some.inj h).symm⟩

theorem begin?_eq_some (h : w.begin? t q = some w') :
    ∃ w₁, w.reset.setEgress? t q.egress = some w₁ ∧
      w₁.setAccess? t q.departureTime q.access = some w' := by
  unfold begin? at h
  exact Option.bind_eq_some_iff.mp h

theorem explore?_eq_some (h : w.explore? t policy q = some w') :
    ∃ w₁ w₂, w.begin? t q = some w₁ ∧ w₁.rounds? t policy q (q.maxTransfers + 1) = some w₂ ∧
      w' = w₂.conclude := by
  unfold explore? at h
  rcases Option.bind_eq_some_iff.mp h with ⟨w₁, h₁, h⟩
  rcases Option.bind_eq_some_iff.mp h with ⟨w₂, h₂, h⟩
  exact ⟨w₁, w₂, h₁, h₂, (Option.some.inj h).symm⟩

theorem relax?_eq_some (h : w.relax? t policy q = some w') :
    ∃ sources w₁, w.sources? = some sources ∧
      sources.foldlM (relaxFrom? t policy q) w = some w₁ ∧ w' = w₁.putAway sources := by
  unfold relax? at h
  rcases Option.bind_eq_some_iff.mp h with ⟨sources, hsources, h⟩
  rcases Option.bind_eq_some_iff.mp h with ⟨w₁, hloop, h⟩
  exact ⟨sources, w₁, hsources, hloop, (Option.some.inj h).symm⟩

omit [Scalar α] in
theorem quiet_putAway (w : Workspace α) (sources : List (Nat × Nat)) :
    Quiet t w (w.putAway sources) :=
  ⟨rfl, rfl, rfl, rfl, fun hf => { hf with }⟩

omit [Scalar α] in
theorem quiet_closeRound (w : Workspace α) : Quiet t w w.closeRound :=
  ⟨rfl, rfl, rfl, rfl, fun hf => { hf with }⟩

omit [Scalar α] in
theorem quiet_conclude (w : Workspace α) : Quiet t w w.conclude :=
  ⟨rfl, rfl, rfl, rfl, fun hf => { hf with }⟩

-- All walks of a round are a run.
theorem run_of_relax? (hw : t.WellFormed) (hf : w.Fits t) (hv : w.ByVehicle)
    (h : w.relax? t policy q = some w') : Run t policy q w w' := by
  rcases relax?_eq_some h with ⟨sources, w₁, hsources, hloop, rfl⟩
  exact (run_of_relaxing hw hf hv hsources (Loop.passes_of_foldlM _ hloop)).trans
    (Run.single (Event.quiet (quiet_putAway w₁ sources)))

omit [Scalar α] in
-- Nothing was reached when a round opens, so its walks start from rides.
theorem byVehicle_of_openRound? (h : w.openRound? t = some w') : w'.ByVehicle := by
  rcases quiet_openRound? h with ⟨-, hreached, -⟩
  intro i hi
  rw [hreached] at hi
  exact absurd hi List.not_mem_nil

theorem InRound.run (hw : t.WellFormed) (hf : w.Fits t) (h : InRound t policy q w w') :
    Run t policy q w w' := by
  have hopen : ∀ {w₁}, w.openRound? t = some w₁ → Run t policy q w w₁ ∧ w₁.Fits t := by
    intro w₁ h₁
    have hrun : Run t policy q w w₁ := Run.single (Event.quiet (quiet_openRound? h₁).1)
    exact ⟨hrun, hrun.fits hf⟩
  have hscan : ∀ {w₁ w₂}, w.openRound? t = some w₁ → w₁.scanRoutes? t q.parameters = some w₂ →
      Run t policy q w w₂ ∧ w₂.ByVehicle := by
    intro w₁ w₂ h₁ h₂
    rcases hopen h₁ with ⟨hrun, hf₁⟩
    rcases run_of_scanning hw hf₁ (byVehicle_of_openRound? h₁) (Loop.passes_of_foldlM _ h₂) with
      ⟨hrun₂, hv⟩
    exact ⟨hrun.trans hrun₂, hv⟩
  cases h with
  | scanning h₁ h =>
      rcases hopen h₁ with ⟨hrun, hf₁⟩
      exact hrun.trans (run_of_scanning hw hf₁ (byVehicle_of_openRound? h₁) h).1
  | relaxing h₁ h₂ hsources h =>
      rcases hscan h₁ h₂ with ⟨hrun, hv⟩
      exact hrun.trans (run_of_relaxing hw (hrun.fits hf) hv hsources h)
  | closed h =>
      rcases round?_eq_some h with ⟨w₁, w₂, w₃, h₁, h₂, h₃, rfl⟩
      rcases hscan h₁ h₂ with ⟨hrun, hv⟩
      have hwalks := run_of_relax? hw (hrun.fits hf) hv h₃
      exact (hrun.trans hwalks).trans (Run.single (Event.quiet (quiet_closeRound w₃)))

theorem InRounds.run (hw : t.WellFormed) {budget : Nat} (h : InRounds t policy q budget w w')
    (hf : w.Fits t) : Run t policy q w w' := by
  induction h with
  | here budget w => exact Run.refl w
  | within h => exact h.run hw hf
  | later h improved rest ih =>
      have hrun := (InRound.closed h).run hw hf
      exact hrun.trans (ih (hrun.fits hf))

theorem inRounds_of_rounds? {budget : Nat} :
    ∀ {w : Workspace α}, w.rounds? t policy q budget = some w' →
      InRounds t policy q budget w w' := by
  induction budget with
  | zero =>
      intro w h
      rw [← Option.some.inj h]
      exact InRounds.here 0 w
  | succ budget ih =>
      intro w h
      unfold rounds? at h
      rcases Option.bind_eq_some_iff.mp h with ⟨w₁, h₁, h⟩
      split at h
      · rw [← Option.some.inj h]
        exact InRounds.within (InRound.closed h₁)
      · rename_i himproved
        exact InRounds.later h₁ (Bool.eq_false_iff.mpr himproved) (ih h)

theorem moment_of_explore? (h : w.explore? t policy q = some w') : Moment t policy q w w' :=
  Moment.concluded h

theorem run_of_begin? (hw : t.WellFormed) (hf : w.Fits t) (h : w.begin? t q = some w') :
    Run t policy q w.reset w' := by
  rcases begin?_eq_some h with ⟨w₁, h₁, h₂⟩
  have hrun : Run t policy q w.reset w₁ :=
    run_of_egress hw hf.reset (Loop.passes_of_foldlM _ h₁)
  exact hrun.trans (run_of_access hw (hrun.fits hf.reset) (Loop.passes_of_foldlM _ h₂))

/-- Until any moment of a search nothing but events has happened. -/
theorem Moment.run (hw : t.WellFormed) (hf : w.Fits t) (h : Moment t policy q w w') :
    Run t policy q w.reset w' := by
  cases h with
  | egress h => exact run_of_egress hw hf.reset h
  | @access w₁ w' told h =>
      have hrun : Run t policy q w.reset w₁ :=
        run_of_egress hw hf.reset (Loop.passes_of_foldlM _ told)
      exact hrun.trans (run_of_access hw (hrun.fits hf.reset) h)
  | @rounds w₁ w' begun h =>
      have hrun : Run t policy q w.reset w₁ := run_of_begin? hw hf begun
      exact hrun.trans (h.run hw (hrun.fits hf.reset))
  | concluded h =>
      rcases explore?_eq_some h with ⟨w₁, w₂, h₁, h₂, rfl⟩
      have hrun : Run t policy q w.reset w₁ := run_of_begin? hw hf h₁
      exact (hrun.trans ((inRounds_of_rounds? h₂).run hw (hrun.fits hf.reset))).trans
        (Run.single (Event.quiet (quiet_conclude w₂)))

end Workspace

namespace Engine

variable {α : Type} [Scalar α] [Planar α]

/-- The engines of a timetable and a policy that any number of searches leave
    behind. A search without an answer leaves none. -/
inductive InService (t : Timetable α) (policy : TransferPolicy α) : Engine α → Prop where
  | new : InService t policy (Engine.new t policy)
  | search {e e' : Engine α} {q : SearchQuery α} {found : Option (Itinerary α)}
      (h : InService t policy e) (hsearch : e.search? q = some (e', found)) :
      InService t policy e'

theorem search?_eq_some {e e' : Engine α} {q : SearchQuery α} {found : Option (Itinerary α)}
    (h : e.search? q = some (e', found)) :
    e.workspace.explore? e.timetable e.policy q = some e'.workspace ∧
      e'.workspace.itinerary? e.timetable q = some found ∧ e'.timetable = e.timetable ∧
      e'.policy = e.policy := by
  unfold search? at h
  rcases Option.bind_eq_some_iff.mp h with ⟨w, hw, h⟩
  rcases Option.bind_eq_some_iff.mp h with ⟨it, hit, h⟩
  rw [Option.pure_def, Option.some.injEq, Prod.mk.injEq] at h
  rcases h with ⟨rfl, rfl⟩
  exact ⟨hw, hit, rfl, rfl⟩

namespace InService

variable {t : Timetable α} {policy : TransferPolicy α} {e : Engine α}

/-- An engine in service keeps its timetable and its policy, and its workspace
    fits. -/
theorem fits (hw : t.WellFormed) (h : InService t policy e) :
    e.timetable = t ∧ e.policy = policy ∧ e.workspace.Fits t := by
  induction h with
  | new => exact ⟨rfl, rfl, Workspace.ofTimetable_fits t⟩
  | search h hsearch ih =>
      rcases ih with ⟨ht, hp, hf⟩
      rcases search?_eq_some hsearch with ⟨hexplore, -, ht', hp'⟩
      rw [ht, hp] at hexplore
      refine ⟨ht'.trans ht, hp'.trans hp, ?_⟩
      exact ((Workspace.moment_of_explore? hexplore).run hw hf).fits hf.reset

/-- At every moment of a search in a built timetable, every label is a legal
    step from an earlier one. -/
theorem isLegal_of_moment [MarkerTree α] {d : Draft α} (hd : d.build = .ok t)
    (h : InService t policy e) {q : SearchQuery α} {w : Workspace α}
    (hm : Workspace.Moment t policy q e.workspace w)
    {id : Nat} {l : Label α} (hl : w.labels[id]? = some l) :
    l.IsLegal t policy q (w.labels.extract 0 id) := by
  have hw := Draft.wellFormed_of_build hd
  rcases h.fits hw with ⟨-, -, hf⟩
  exact (hm.run hw hf).legal hf.clean_reset.legal id l hl

/-- The last ride of a trip with a change of vehicles is a legal label. -/
theorem isLegal_changeover : ∃ w l,
    Workspace.Moment Sample.changeover.assemble (TransferPolicy.flat 0) Sample.trip
      (Engine.new Sample.changeover.assemble (TransferPolicy.flat 0)).workspace w ∧
    w.labels[3]? = some l ∧ (l.time = 60 ∧ l.transfers = 1) ∧
    l.IsLegal Sample.changeover.assemble (TransferPolicy.flat 0) Sample.trip
      (w.labels.extract 0 3) := by
  have hrun : ((Workspace.ofTimetable Sample.changeover.assemble).explore?
      Sample.changeover.assemble (TransferPolicy.flat 0) Sample.trip).bind (fun w =>
        w.labels[3]?.map fun l => (l.time, l.transfers)) = some (60, 1) := by decide +kernel
  rcases Option.bind_eq_some_iff.mp hrun with ⟨w, hexplore, hlabel⟩
  rcases Option.map_eq_some_iff.mp hlabel with ⟨l, hl, hview⟩
  rw [Prod.mk.injEq] at hview
  have hm := Workspace.moment_of_explore? hexplore
  exact ⟨w, l, hm, hl, hview, isLegal_of_moment Sample.build_changeover InService.new hm hl⟩

end InService

end Engine

end Journey
