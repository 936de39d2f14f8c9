import Journey.Proofs.Search.Telling
import Journey.Proofs.Search.Traces

/-!
# Searches Do Not Fail

A search in a well-formed timetable has an answer.

Every look-up of the search is guarded and every position it looks up comes out
of a table, so the only things that can make it fail are the query, by naming a
stop that does not exist, and the transfer policy, by not answering. Loops are
dealt with one by one, innermost first, each with what it has to know about the
workspace to get through its next pass.

## Main definitions

* `TransferPolicy.Answers`: The policy has an answer to whatever a search asks.
* `SearchQuery.Within`: The candidates are at stops of the timetable.

## Theorems

* `Workspace.Fits.scanRoutes?_exists`: The scans of a round get through.
* `Workspace.Fits.relax?_exists`: So do its walks.
* `Workspace.Fits.explore?_exists`: So does the search.
* `Workspace.Legal.legs?_exists`: The journey of the winner has no gap.
* `Workspace.Legal.itinerary?_exists`: Reconstruction gets through as well, whether or
  not it finds an itinerary.
* `Engine.InService.search?_exists`: So every query within the timetable is answered.
-/

namespace Journey

variable {α : Type} [Scalar α]

/-- The policy has an answer to whatever a search asks it, which is what walks
    from rides cost while all labels are legal. -/
def TransferPolicy.Answers (policy : TransferPolicy α) (t : Timetable α) (q : SearchQuery α) :
    Prop :=
  ∀ (w : Workspace α) (d : Departing α) (toMode : Mode) (duration : α), w.Legal t policy q →
    w.labels[d.id]? = some d.label → d.label.isRide = true →
    t.modeOf? d.label.routeStop = some d.mode →
    ∃ increment, policy t (d.context q w.labels toMode duration) = some increment

theorem TransferPolicy.flat_answers (price : α) {t : Timetable α} {q : SearchQuery α} :
    (TransferPolicy.flat price).Answers t q :=
  fun _ _ _ _ _ _ _ _ => ⟨price, rfl⟩

/-- The candidates of a query are at stops of the timetable. -/
def SearchQuery.Within {α : Type} (q : SearchQuery α) (t : Timetable α) : Prop :=
  (∀ c ∈ q.access, c.stop < t.stops.size) ∧ ∀ c ∈ q.egress, c.stop < t.stops.size

namespace Workspace

variable {t : Timetable α} {policy : TransferPolicy α} {q : SearchQuery α} {w w' : Workspace α}

omit [Scalar α] in
-- A loop gets through if every pass does, and what the loop has to know about
-- the workspace is kept.
theorem foldlM_exists_of_keeps {β : Type} {f : Workspace α → β → Option (Workspace α)}
    (P : Workspace α → Prop) {xs : List β} (h0 : P w)
    (hpass : ∀ x ∈ xs, ∀ u, P u → ∃ u', f u x = some u')
    (hkeep : ∀ x ∈ xs, ∀ u u', P u → f u x = some u' → P u') :
    ∃ w', xs.foldlM f w = some w' ∧ P w' := by
  refine Loop.foldlM_exists (fun _ => P) xs ?_ w h0
  intro done x rest u hxs hu
  have hx : x ∈ xs := by
    rw [hxs]
    exact List.mem_append_right _ List.mem_cons_self
  rcases hpass x hx u hu with ⟨u', hu'⟩
  exact ⟨u', hu', hkeep x hx u u' hu hu'⟩

omit [Scalar α] in
theorem routeStop_lt_of_stopOf? {i s : Nat} (h : t.stopOf? i = some s) :
    i < t.routeStops.size := by
  rcases (Timetable.stopOf?_eq_some_iff t i s).mp h with ⟨rs, hrs, -⟩
  exact (Array.getElem?_eq_some_iff.mp hrs).1

namespace Fits

theorem offerEgressAt?_exists (hf : w.Fits t) (hw : t.WellFormed) {x : Candidate α × Nat}
    (hx : x.1.stop < t.stops.size) : ∃ w', offerEgressAt? t w x = some w' ∧ w'.Fits t := by
  rcases hw.routeStopsAt x.1.stop hx with ⟨routeStops, hrs, hmem⟩
  unfold offerEgressAt?
  rw [hrs]
  exact foldlM_exists_of_keeps (Fits t) hf
    (fun i hi u hu => hu.offerEgress?_exists _ (routeStop_lt_of_stopOf? ((hmem i).mp hi)))
    (fun i _ u u' hu h => hu.offerEgress h)

theorem offerAccessAt?_exists (hf : w.Fits t) (hw : t.WellFormed) (time : α)
    {x : Candidate α × Nat} (hx : x.1.stop < t.stops.size) :
    ∃ w', offerAccessAt? t time w x = some w' ∧ w'.Fits t := by
  rcases hw.routeStopsAt x.1.stop hx with ⟨routeStops, hrs, hmem⟩
  unfold offerAccessAt?
  rw [hrs]
  refine foldlM_exists_of_keeps (Fits t) hf
    (fun i hi u hu => hu.offerAccess?_exists hw (routeStop_lt_of_stopOf? ((hmem i).mp hi))) ?_
  intro i _ u u' hu h
  cases hu.offerAccess?_eq_some rfl rfl h with
  | exceeded => exact hu
  | kept => exact hu
  | stored hs => exact hs.fits

theorem begin?_exists (hf : w.Fits t) (hw : t.WellFormed) (hq : q.Within t) :
    ∃ w', w.begin? t q = some w' ∧ w'.Fits t := by
  have hegress : ∃ w₁, w.reset.setEgress? t q.egress = some w₁ ∧ w₁.Fits t := by
    rw [setEgress?_eq]
    refine Loop.foldlM_exists (fun _ => Fits t) _ ?_ _ hf.reset
    rintro done ⟨c, k⟩ rest u hxs hu
    -- The candidate is one of the query, and so at a stop of the timetable.
    have hmem : (c, k) ∈ q.egress.zipIdx := by
      rw [hxs]
      exact List.mem_append_right _ List.mem_cons_self
    exact hu.offerEgressAt?_exists hw
      (hq.2 c (List.mem_of_getElem? (List.mem_zipIdx_iff_getElem?.mp hmem)))
  rcases hegress with ⟨w₁, h₁, hf₁⟩
  have haccess : ∃ w₂, w₁.setAccess? t q.departureTime q.access = some w₂ ∧ w₂.Fits t := by
    rw [setAccess?_eq]
    refine Loop.foldlM_exists (fun _ => Fits t) _ ?_ _ hf₁
    rintro done ⟨c, k⟩ rest u hxs hu
    have hmem : (c, k) ∈ q.access.zipIdx := by
      rw [hxs]
      exact List.mem_append_right _ List.mem_cons_self
    exact hu.offerAccessAt?_exists hw _
      (hq.1 c (List.mem_of_getElem? (List.mem_zipIdx_iff_getElem?.mp hmem)))
  rcases haccess with ⟨w₂, h₂, hf₂⟩
  refine ⟨w₂, ?_, hf₂⟩
  unfold begin?
  rw [h₁]
  exact h₂

-- The scan of a route gets through, because the vehicle held serves all
-- route-stops ahead.
theorem scanRoute?_exists (hf : w.Fits t) (hw : t.WellFormed) (q : SearchQuery α) {r : Nat}
    (hr : r < t.routes.size) : ∃ w', scanRoute? t q.parameters w r = some w' := by
  have hrow := Array.getElem?_eq_getElem hr
  rcases hf.takeScanStart?_exists hrow with ⟨⟨w₁, first⟩, htake⟩
  rcases hf.quiet_takeScanStart? hw hrow htake with ⟨hquiet, hfirst, -⟩
  have hloop := Loop.foldlM_exists (f := scanStop? t q.parameters)
    (fun done s => s.1.Fits t ∧ s.1.Carries t first (first + done.length) s.2)
    (Span.mk first t.routes[r].routeStops.stop).toList ?_ (w₁, none)
    ⟨hquiet.fits hf, fun b hb => absurd hb (by simp only [reduceCtorEq, not_false_eq_true])⟩
  · rcases hloop with ⟨⟨w₂, held⟩, hscan, -⟩
    unfold scanRoute?
    simp only [Option.bind_eq_bind, hrow, htake, hscan, Option.bind_some]
    exact ⟨w₂, rfl⟩
  · rintro done x rest ⟨u, held⟩ hxs ⟨hfu, hcarries⟩
    rcases Span.toList_split hxs with ⟨rfl, hx⟩
    have hserves : ∀ b, held = some b →
        t.Serves b.trip b.routeStop ∧ t.Serves b.trip (first + done.length) := by
      intro b hb
      -- The vehicle was boarded before this route-stop, on the same route.
      rcases hcarries b hb with ⟨⟨l, hboards⟩, hlo, hhi⟩
      have hahead := (hw.ahead_iff_span hrow (Nat.le_trans hfirst hlo) (Nat.lt_trans hhi hx) _).mpr
        ⟨hhi, hx⟩
      exact ⟨hboards.serves, hboards.serves.ahead hahead⟩
    rcases hfu.scanStop?_exists hw q.parameters (hw.lt_size_of_span hrow hx) hserves with
      ⟨⟨u', held'⟩, hstop⟩
    have hvisit : Run t (fun _ _ => none) q u u' ∧ u'.Carries t first _ held' :=
      (hfu.visit hstop).run hw hfu hrow hfirst (Nat.le_add_right _ _) hx hcarries
    refine ⟨(u', held'), hstop, hvisit.1.fits hfu, ?_⟩
    rw [List.length_append, List.length_singleton, ← Nat.add_assoc]
    exact hvisit.2

omit [Scalar α] in
theorem openRound?_exists (hf : w.Fits t) (hw : t.WellFormed) :
    ∃ w', w.openRound? t = some w' := by
  have htouched : ∃ touched, w.touchRoutes? t = some touched := by
    unfold touchRoutes?
    have hloop := Loop.foldlM_exists
      (f := fun (routes : IndexSet) (i : Nat) => do
        let rs ← t.routeStops[i]?
        routes.mark rs.route)
      (fun _ (s : IndexSet) => s.Over t.routes.size) w.improved.toList ?_ w.touched.clear
      hf.touched_over.clear
    · rcases hloop with ⟨touched, h, -⟩
      exact ⟨touched, h⟩
    · intro done i rest s hxs hs
      have hi : i ∈ w.improved.toList := by
        rw [hxs]
        exact List.mem_append_right _ List.mem_cons_self
      rcases hw.exists_route (hf.improved_over.mem_lt hi) with ⟨rs, row, hrs, hrow⟩
      rcases hs.mark_exists (Array.getElem?_eq_some_iff.mp hrow).1 with ⟨s', hs'⟩
      refine ⟨s', ?_, (hs.mark hs').2.1⟩
      rw [hrs]
      exact hs'
  rcases htouched with ⟨touched, htouched⟩
  unfold openRound?
  rw [htouched]
  exact ⟨_, rfl⟩

/-- The scans of a round get through. -/
theorem scanRoutes?_exists (hf : w.Fits t) (hw : t.WellFormed) (q : SearchQuery α)
    (hv : w.ByVehicle) : ∃ w', w.scanRoutes? t q.parameters = some w' := by
  have hloop : ∃ w', w.touched.toList.foldlM (scanRoute? t q.parameters) w = some w' ∧
      w'.Fits t ∧ w'.ByVehicle := by
    refine foldlM_exists_of_keeps (fun u => u.Fits t ∧ u.ByVehicle) ⟨hf, hv⟩ ?_ ?_
    · exact fun r hr u hu => hu.1.scanRoute?_exists hw q (hf.touched_over.mem_lt hr)
    · intro r _ u u' hu hscan
      have hrun : Run t (fun _ _ => none) q u u' ∧ u'.ByVehicle :=
        (inScanRoute_of_scanRoute? hscan).run hw hu.1 hu.2
      exact ⟨hrun.1.fits hu.1, hrun.2⟩
  rcases hloop with ⟨w', hw', -⟩
  exact ⟨w', hw'⟩

theorem walkTo?_exists (hf : w.Fits t) (hw : t.WellFormed) (hpolicy : policy.Answers t q)
    (hlegal : w.Legal t policy q) {d : Departing α} (hd : w.labels[d.id]? = some d.label)
    (hride : d.label.isRide = true) (hfrom : t.modeOf? d.label.routeStop = some d.mode)
    (duration : α) {i : Nat} (hi : i < t.routeStops.size) :
    ∃ w', walkTo? t policy q d duration w i = some w' := by
  rcases hw.exists_route hi with ⟨rs, row, hrs, hrow⟩
  have hmode := Timetable.modeOf?_eq hrs hrow
  rcases hpolicy w d row.mode duration hlegal hd hride hfrom with ⟨increment, hprice⟩
  have hwalk : d.walk? t policy q w.labels duration i
      = some (d.walk q.parameters i duration increment) := by
    unfold Departing.walk?
    simp only [Option.bind_eq_bind, hmode, Option.bind_some, hprice, Option.pure_def]
  rcases hf.offerWalk?_exists (l := d.walk q.parameters i duration increment) hw hi with ⟨w', hw'⟩
  refine ⟨w', ?_⟩
  unfold walkTo?
  simp only [Option.bind_eq_bind, hwalk, Option.bind_some, hw']

-- A footpath leads to a stop, and all route-stops there can be walked to.
theorem relaxFootpath?_exists (hf : w.Fits t) (hw : t.WellFormed) (hpolicy : policy.Answers t q)
    (hlegal : w.Legal t policy q) {d : Departing α} (hd : w.labels[d.id]? = some d.label)
    (hride : d.label.isRide = true) (hmode : t.modeOf? d.label.routeStop = some d.mode)
    {f : Footpath α} (hpath : f ∈ t.footpaths)
    (horigin : t.stopOf? d.label.routeStop = some f.origin) :
    ∃ w', relaxFootpath? t policy q d w f = some w' := by
  rcases hw.routeStopsAt f.target (hw.target_lt f hpath) with ⟨targets, htargets, hmem⟩
  have hloop : ∃ w', targets.foldlM (walkTo? t policy q d
      (Scalar.larger f.duration q.parameters.minTransferTime)) w = some w' ∧
      Run t policy q w w' := by
    refine foldlM_exists_of_keeps (Run t policy q w) (Run.refl w) ?_ ?_
    · exact fun j hj u hu => (hu.fits hf).walkTo?_exists hw hpolicy (hu.legal hlegal)
        (hu.labels_mono hd) hride hmode _ (routeStop_lt_of_stopOf? ((hmem j).mp hj))
    · exact fun j hj u u' hu hu' => hu.trans (run_of_walkTo? (hu.fits hf) (hu.labels_mono hd) hride
        hmode ⟨hpath, horigin, (hmem j).mp hj⟩ hu')
  rcases hloop with ⟨w', hw', -⟩
  refine ⟨w', ?_⟩
  unfold relaxFootpath?
  simp only [Option.bind_eq_bind, htargets, Option.bind_some]
  exact hw'

-- The walks from a route-stop that holds a ride get through.
theorem relaxFrom?_exists (hf : w.Fits t) (hw : t.WellFormed) (hpolicy : policy.Answers t q)
    (hlegal : w.Legal t policy q) {i id : Nat} {l : Label α} (hl : w.labels[id]? = some l)
    (hi : l.routeStop = i) (hlt : i < t.routeStops.size) (hride : l.isRide = true) :
    ∃ w', relaxFrom? t policy q w (i, id) = some w' := by
  subst hi
  rcases hw.exists_route hlt with ⟨rs, row, hrs, hrow⟩
  have hmode := Timetable.modeOf?_eq hrs hrow
  have hstop : t.stopOf? l.routeStop = some rs.stop :=
    (Timetable.stopOf?_eq_some_iff t _ _).mpr ⟨rs, hrs, rfl⟩
  rcases hw.footpathsFrom rs.stop (hw.stop_lt _ rs hrs) with ⟨footpaths, hfootpaths, hmem⟩
  have horigin : ∀ f ∈ footpaths, t.stopOf? l.routeStop = some f.origin := fun f hfp => by
    rw [((hmem f).mp hfp).2]
    exact hstop
  have hpaths : ∃ w', footpaths.foldlM (relaxFootpath? t policy q ⟨id, l, row.mode⟩) w = some w' ∧
      Run t policy q w w' := by
    refine foldlM_exists_of_keeps (Run t policy q w) (Run.refl w) ?_ ?_
    · exact fun f hfp u hu => (hu.fits hf).relaxFootpath?_exists hw hpolicy (hu.legal hlegal)
        (hu.labels_mono hl) hride hmode ((hmem f).mp hfp).1 (horigin f hfp)
    · exact fun f hfp u u' hu h => hu.trans ((inRelaxFootpath_of_relaxFootpath? h).run hw
        (hu.fits hf) (hu.labels_mono hl) hride hmode ((hmem f).mp hfp).1 (horigin f hfp))
  rcases hpaths with ⟨w', hw', -⟩
  unfold relaxFrom?
  simp only [Option.bind_eq_bind, hl, Option.bind_some, Option.pure_def, hmode, hstop, hfootpaths,
    hw']
  split <;> exact ⟨_, rfl⟩

/-- The walks of a round get through if the route-stops reached hold rides. -/
theorem relax?_exists (hf : w.Fits t) (hw : t.WellFormed) (hpolicy : policy.Answers t q)
    (hlegal : w.Legal t policy q) (hv : w.ByVehicle) : ∃ w', w.relax? t policy q = some w' := by
  rcases hf.sources?_exists with ⟨sources, hsources⟩
  have hstart : ∀ x ∈ sources, ∃ l, w.labels[x.2]? = some l ∧ l.routeStop = x.1 ∧
      x.1 < t.routeStops.size ∧ l.isRide = true := by
    rintro ⟨i, id⟩ hmem
    rcases (mem_sources? hsources i id).mp hmem with ⟨hi, hb⟩
    rcases hv.source hf hi hb with ⟨l, hl, hrs, hride⟩
    exact ⟨l, hl, hrs, hf.reached_over.mem_lt hi, hride⟩
  have hloop : ∃ w', sources.foldlM (relaxFrom? t policy q) w = some w' ∧
      Run t policy q w w' := by
    refine foldlM_exists_of_keeps (Run t policy q w) (Run.refl w) ?_ ?_
    · rintro ⟨i, id⟩ hmem u hu
      rcases hstart (i, id) hmem with ⟨l, hl, hi, hlt, hride⟩
      exact (hu.fits hf).relaxFrom?_exists hw hpolicy (hu.legal hlegal) (hu.labels_mono hl) hi hlt
        hride
    · rintro ⟨i, id⟩ hmem u u' hu h
      rcases hstart (i, id) hmem with ⟨l, hl, hi, -, hride⟩
      exact hu.trans ((inRelaxFrom_of_relaxFrom? h).run hw (hu.fits hf) (hu.labels_mono hl) hi
        hride)
  rcases hloop with ⟨w', hw', -⟩
  unfold relax?
  simp only [Option.bind_eq_bind, hsources, Option.bind_some, hw', Option.pure_def]
  exact ⟨w'.putAway sources, rfl⟩

theorem round?_exists (hf : w.Fits t) (hw : t.WellFormed) (hpolicy : policy.Answers t q)
    (hlegal : w.Legal t policy q) : ∃ w', w.round? t policy q = some w' := by
  rcases hf.openRound?_exists hw with ⟨w₁, h₁⟩
  have hopen : Run t policy q w w₁ := Run.single (Event.quiet (quiet_openRound? h₁).1)
  have hf₁ := hopen.fits hf
  have hv₁ := byVehicle_of_openRound? h₁
  rcases hf₁.scanRoutes?_exists hw q hv₁ with ⟨w₂, h₂⟩
  have hscan : Run t policy q w₁ w₂ ∧ w₂.ByVehicle :=
    run_of_scanning hw hf₁ hv₁ (Loop.passes_of_foldlM _ h₂)
  rcases (hscan.1.fits hf₁).relax?_exists hw hpolicy ((hopen.trans hscan.1).legal hlegal) hscan.2
    with ⟨w₃, h₃⟩
  unfold round?
  simp only [Option.bind_eq_bind, h₁, h₂, h₃, Option.bind_some]
  exact ⟨_, rfl⟩

theorem rounds?_exists (hw : t.WellFormed) (hpolicy : policy.Answers t q) (budget : Nat) :
    ∀ {w : Workspace α}, w.Fits t → w.Legal t policy q →
      ∃ w', w.rounds? t policy q budget = some w' := by
  induction budget with
  | zero => exact fun {w} _ _ => ⟨w, rfl⟩
  | succ budget ih =>
      intro w hf hlegal
      rcases hf.round?_exists hw hpolicy hlegal with ⟨w₁, h₁⟩
      have hrun := (InRound.closed h₁).run hw hf
      unfold rounds?
      simp only [Option.bind_eq_bind, h₁, Option.bind_some, Option.pure_def]
      split
      · exact ⟨w₁, rfl⟩
      · exact ih (hrun.fits hf) (hrun.legal hlegal)

/-- A search gets through to its end. -/
theorem explore?_exists (hf : w.Fits t) (hw : t.WellFormed) (hpolicy : policy.Answers t q)
    (hq : q.Within t) : ∃ w', w.explore? t policy q = some w' := by
  rcases hf.begin?_exists hw hq with ⟨w₁, h₁, hf₁⟩
  have hlegal : w₁.Legal t policy q := (run_of_begin? hw hf h₁).legal hf.clean_reset.legal
  rcases rounds?_exists hw hpolicy (q.maxTransfers + 1) hf₁ hlegal with ⟨w₂, h₂⟩
  unfold explore?
  simp only [Option.bind_eq_bind, h₁, h₂, Option.bind_some]
  exact ⟨_, rfl⟩

end Fits

section Reconstruction

variable [Planar α]

-- Whatever is told before, a legal label can be told.
theorem extend?_exists (ht : t.WellFormed) {earlier : Array (Label α)} {l : Label α}
    (hl : l.IsLegal t policy q earlier)
    (hearlier : ∀ (id : Nat) (m : Label α), earlier[id]? = some m → w.labels[id]? = some m)
    (hrouteStop : ∀ (id : Nat) (m : Label α), earlier[id]? = some m →
      m.routeStop < t.routeStops.size) (p : Progress α) :
    ∃ p', p.extend? t q w.labels l = some (some p') := by
  rcases ht.exists_stop hl.routeStop_lt with ⟨s, stop, hs, hstop⟩
  unfold Progress.extend?
  simp only [Option.bind_eq_bind, hs, Option.bind_some]
  cases hl with
  | access k c step previous candidate =>
      simp only [step, hstop, candidate, Option.bind_some, Option.pure_def, Option.some.injEq,
        exists_eq']
  | ride id m trip b v e step previous predecessor ahead next =>
      rcases ht.exists_stop (hrouteStop id m predecessor) with ⟨s', stop', hs', hstop'⟩
      have hserves := (Timetable.nextTrip?_some next).1
      rcases ht.exists_route (hserves.ahead ahead).lt_size with ⟨rs, row, hrs, hrow⟩
      have htrip := Array.getElem?_eq_getElem (ht.serves_lt hserves)
      simp only [step, previous, hearlier id m predecessor, hs', hstop', hstop,
        Timetable.routeOf?_eq hrs hrow, htrip, Option.bind_some, Option.pure_def,
        Option.some.injEq, exists_eq']
  | transfer id m f d inc fm tm step previous predecessor =>
      rcases ht.exists_stop (hrouteStop id m predecessor) with ⟨s', stop', hs', hstop'⟩
      simp only [step, previous, hearlier id m predecessor, hs', hstop', hstop, Option.bind_some,
        Option.pure_def]
      split <;> exact ⟨_, rfl⟩

theorem extendAll?_exists {labels : List (Label α)}
    (h : ∀ l ∈ labels, ∀ p : Progress α, ∃ p', p.extend? t q w.labels l = some (some p')) :
    ∀ p : Progress α, ∃ p', p.extendAll? t q w.labels labels = some (some p') := by
  induction labels with
  | nil => exact fun p => ⟨p, rfl⟩
  | cons l rest ih =>
      intro p
      rcases h l List.mem_cons_self p with ⟨p₁, hp₁⟩
      rcases ih (fun l' hl' => h l' (List.mem_cons_of_mem _ hl')) p₁ with ⟨p', hp'⟩
      refine ⟨p', ?_⟩
      unfold Progress.extendAll?
      simp only [hp₁, Option.bind_eq_bind, Option.bind_some]
      exact hp'

omit [Planar α] in
-- Whatever is held at a route-stop, the way to the destination that ends there can be
-- looked up.
theorem Fits.arrivalAt?_exists (hf : w.Fits t) {i : Nat} (hi : i < t.routeStops.size) :
    ∃ arrival, w.arrivalAt? i = some arrival := by
  rcases hf.egress_exists hi with ⟨egress, he⟩
  unfold arrivalAt?
  rcases hf.best_cases hi with hb | ⟨id, l, hb, hl⟩
  · simp only [hb, he, Option.bind_eq_bind, Option.bind_some, Option.pure_def,
      Option.some.injEq, exists_eq']
  · cases egress with
    | none =>
        simp only [hb, he, Option.bind_eq_bind, Option.bind_some, Option.pure_def,
          Option.some.injEq, exists_eq']
    | some e =>
        simp only [hb, he, hl, Option.bind_eq_bind, Option.bind_some, Option.pure_def,
          Option.some.injEq, exists_eq']

omit [Planar α] in
-- The winner can be looked up, and if there is one, it holds a label and an egress
-- candidate.
theorem Fits.winner?_exists (hf : w.Fits t) :
    ∃ found, w.winner? = some found ∧ ∀ a ∈ found, ∃ i e,
      w.Holds i a.id a.label ∧ w.egress[i]? = some (some e) ∧ a.candidate = e.candidate := by
  have hexists : ∃ found, w.winner? = some found ∧ True := by
    refine Loop.foldlM_exists (fun _ _ => True) _ (fun done i rest best hlist _ => ?_) none trivial
    have hmem : i ∈ w.destinationList := hlist ▸ List.mem_append_right _ List.mem_cons_self
    have hi : i < t.routeStops.size := by
      rw [← hf.egress_size]
      exact List.mem_range.mp (List.mem_filter.mp hmem).1
    rcases hf.arrivalAt?_exists hi with ⟨arrival, hat⟩
    cases arrival with
    | none => exact ⟨best, by rw [hat]; rfl, trivial⟩
    | some a => exact ⟨some (Arrival.better best a), by rw [hat]; rfl, trivial⟩
  rcases hexists with ⟨found, hfound, -⟩
  refine ⟨found, hfound, fun a ha => ?_⟩
  rw [Option.mem_def.mp ha] at hfound
  rcases held_of_winner? hfound with ⟨i, e, hheld, hegress, -, hcandidate⟩
  exact ⟨i, e, hheld, hegress, hcandidate⟩

-- The winner's journey can be told, without a gap.
theorem Legal.legs?_exists (h : w.Legal t policy q) (ht : t.WellFormed) (hf : w.Fits t)
    (he : w.EgressTold t q) {a : Arrival α} (hwinner : w.winner? = some (some a)) :
    ∃ legs, w.legs? t q a = some (some legs) := by
  rcases hf.winner?_exists with ⟨found, hfound, hholds⟩
  rw [hwinner, Option.some.injEq] at hfound
  rcases hholds a hfound.symm with ⟨i, e, hheld, hegress, hcandidate⟩
  rcases he i e hegress with ⟨c, hc, hstop, -⟩
  rcases h.exists_traced a.id a.label hheld.2 with ⟨trace, htrace⟩
  have hlabels : ∀ l ∈ trace.reverse.reverse.map Prod.snd, ∀ p : Progress α,
      ∃ p', p.extend? t q w.labels l = some (some p') := by
    intro l hl p
    rw [List.reverse_reverse] at hl
    rcases List.mem_map.mp hl with ⟨⟨id, l⟩, hx, rfl⟩
    refine extend?_exists ht (h id l (htrace.label_of_mem _ hx))
      (fun id' m hm => (label_of_extract hm).2) (fun id' m hm => ?_) p
    exact (h id' m (label_of_extract hm).2).routeStop_lt
  rcases extendAll?_exists hlabels (Progress.start q.departureTime) with ⟨p, hp⟩
  have hlt : c.stop < t.stops.size := by
    rcases (Timetable.stopOf?_eq_some_iff t _ _).mp hstop with ⟨rs, hrs, heq⟩
    exact heq ▸ ht.stop_lt _ rs hrs
  unfold legs?
  simp only [htrace.chain?_eq, hp, hcandidate, hc, Array.getElem?_eq_getElem hlt,
    Option.bind_eq_bind, Option.bind_some, Option.pure_def, Option.some.injEq, exists_eq']

/-- Reconstruction gets through, in any arithmetic. -/
theorem Legal.itinerary?_exists (h : w.Legal t policy q) (ht : t.WellFormed) (hf : w.Fits t)
    (he : w.EgressTold t q) : ∃ found, w.itinerary? t q = some found := by
  rcases hf.winner?_exists with ⟨found, hwinner, -⟩
  unfold itinerary?
  simp only [hwinner, Option.bind_eq_bind, Option.bind_some]
  cases found with
  | none => exact ⟨none, rfl⟩
  | some a =>
      rcases h.legs?_exists ht hf he hwinner with ⟨legs, hlegs⟩
      simp only [hlegs, Option.bind_some, Option.pure_def, Option.some.injEq, exists_eq']

end Reconstruction

end Workspace

/-- Every query within the timetable is answered, in any arithmetic, if the policy
    answers what it is asked. -/
theorem Engine.InService.search?_exists [Planar α] {t : Timetable α} {policy : TransferPolicy α}
    {e : Engine α} {q : SearchQuery α} (he : InService t policy e) (hw : t.WellFormed)
    (hpolicy : policy.Answers t q) (hq : q.Within t) :
    ∃ e' found, e.search? q = some (e', found) := by
  rcases he.fits hw with ⟨ht, hp, hf⟩
  rcases hf.explore?_exists hw hpolicy hq with ⟨w', hexplore⟩
  have hrun := (Workspace.moment_of_explore? hexplore).run hw hf
  rcases (hrun.legal hf.clean_reset.legal).itinerary?_exists hw (hrun.fits hf.reset)
    (hrun.egressTold hf.clean_reset.egressTold) with ⟨found, hfound⟩
  refine ⟨{ e with workspace := w' }, found, ?_⟩
  unfold search?
  simp only [ht, hp, hexplore, hfound, Option.bind_eq_bind, Option.bind_some, Option.pure_def]

end Journey
