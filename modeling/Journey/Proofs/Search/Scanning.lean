import Journey.Proofs.Search.Sweep

/-!
# Scanning the Routes of a Round

From the scan of one route to the scans of all.

The scans of a round do not disturb each other. Each changes what is known
about the route-stops of its own route and of no other, and each route is
scanned once, so every scan finds its route-stops as they were when the round
was opened. `Swept` is the invariant that says so for the routes scanned so far.

A round only scans the routes that have an improved route-stop, each from the
first of those on. `Marked` is what makes this enough: no improved route-stop
lies before the start that is noted for its route.

## Main definitions

* `Workspace.Marked`: Scans start at improved route-stops or before.
* `Workspace.Swept`: The invariant of the scans of a round.

## Theorems

* `Workspace.Swept.scanRoute`: What the scan of one more route keeps.
* `Workspace.swept_of_scanRoutes?`: What the scans of a round achieve.
* `Workspace.Marked.sweeps`: They sweep all improved route-stops.
-/

namespace Journey

namespace Workspace

variable {K : Type} [Field K] [LinearOrder K] {t : Timetable K} {policy : TransferPolicy K}
  {q : SearchQuery K} {w w' : Workspace K}

/-- The scan of a route that has an improved route-stop starts there or
    before. -/
def Marked {α : Type} (t : Timetable α) (w : Workspace α) : Prop :=
  ∀ i ∈ w.improved.toList, ∀ r, t.On i r → ∃ s, s ≤ i ∧ w.scanStart[r]? = some (some s)

/-- Between two workspaces, some routes have been scanned and nothing else has
    happened. -/
structure Swept (t : Timetable K) (q : SearchQuery K) (w : Workspace K) (routes : List Nat)
    (w' : Workspace K) : Prop where
  fits : w'.Fits t
  improved : ∀ i, i ∈ w'.improved.toList ↔ i ∈ w.improved.toList
  /-- Other routes start no later than before. -/
  scanStart : ∀ r s : Nat, r ∉ routes → w.scanStart[r]? = some (some s) →
    ∃ s', s' ≤ s ∧ w'.scanStart[r]? = some (some s')
  /-- Route-stops of other routes hold what they held. -/
  untouched : ∀ i r id l, t.On i r → r ∉ routes → (w'.Holds i id l ↔ w.Holds i id l)
  /-- New labels are rides on the routes scanned. -/
  labels : ∀ (id : Nat) (l : Label K), w'.labels[id]? = some l → w.labels[id]? = some l ∨
    (Ridden t w w' id l ∧ ∃ r ∈ routes, t.On l.routeStop r)
  /-- The rides on the routes scanned are covered from where they started. -/
  sweeps : ∀ r ∈ routes, ∀ s i j : Nat, w.scanStart[r]? = some (some s) → t.On i r → s ≤ i →
    t.Ahead i j → Sweeps t q.parameters w w' i j
  run : ∀ policy, Run t policy q w w'

namespace Swept

variable {routes : List Nat} {w₁ : Workspace K}

theorem start (hf : w.Fits t) : Swept t q w [] w where
  fits := hf
  improved := fun _ => Iff.rfl
  scanStart := fun _ s _ hs => ⟨s, Nat.le_refl s, hs⟩
  untouched := fun _ _ _ _ _ _ => Iff.rfl
  labels := fun _ _ hl => Or.inl hl
  sweeps := fun _ hr => absurd hr List.not_mem_nil
  run := fun _ => Run.refl w

/-- What the scan of one more route keeps. -/
theorem scanRoute (h : Swept t q w routes w') (hw : t.WellFormed) {r : Nat} (hr : r ∉ routes)
    (hscan : scanRoute? t q.parameters w' r = some w₁) : Swept t q w (routes ++ [r]) w₁ := by
  rcases scanned_of_scanRoute? hw h.fits hscan with
    ⟨row, w₂, first, held, hrow, htake, hfirst, hf₂, hscanned⟩
  rcases h.fits.quiet_takeScanStart? hw hrow htake with
    ⟨hquiet, -, himproved, hreached, hstart, hother⟩
  have hrun : ∀ policy, Run t policy q w' w₁ := fun policy =>
    (Run.single (Event.quiet hquiet)).trans (hscanned.run policy)
  -- Before the scan, the route-stops of this route hold what they did at first.
  have hbefore : ∀ i id l, t.On i r → (w₂.Holds i id l ↔ w.Holds i id l) := fun i id l hi =>
    (hquiet.holds_iff i id l).trans (h.untouched i r id l hi hr)
  -- The scan leaves the route-stops of other routes alone.
  have hoff : ∀ i r' id l, t.On i r' → r' ≠ r → (w₁.Holds i id l ↔ w'.Holds i id l) := by
    intro i r' id l hi hne
    refine (hscanned.untouched i id l ?_).trans (hquiet.holds_iff i id l)
    by_contra hc
    exact hne (hi.unique ((hw.on_iff hrow i).mpr (by omega)))
  refine
    { fits := hscanned.fits
      improved := fun i => by rw [hscanned.improved, himproved, h.improved]
      scanStart := ?_
      untouched := ?_
      labels := ?_
      sweeps := ?_
      run := fun policy => (h.run policy).trans (hrun policy) }
  · intro r' s hr' hs
    rw [List.mem_append, List.mem_singleton, not_or] at hr'
    rcases h.scanStart r' s hr'.1 hs with ⟨s', hle, hs'⟩
    rw [← hother r' hr'.2] at hs'
    rcases hscanned.scanStart r' s' hs' with ⟨s'', hle', hs''⟩
    exact ⟨s'', Nat.le_trans hle' hle, hs''⟩
  · intro i r' id l hi hr'
    rw [List.mem_append, List.mem_singleton, not_or] at hr'
    exact (hoff i r' id l hi hr'.2).trans (h.untouched i r' id l hi hr'.1)
  · intro id l hl
    rcases hscanned.labels id l hl with hl | ⟨⟨hheld, hreach, hride, hfrom⟩, hlo, hhi⟩
    · rw [hquiet.labels] at hl
      rcases h.labels id l hl with hl | ⟨⟨hheld, hreach, hrest⟩, r', hr', hon⟩
      · exact Or.inl hl
      · refine Or.inr ⟨⟨?_, hscanned.reached _ (by rw [hreached]; exact hreach), hrest⟩, r',
          List.mem_append_left _ hr', hon⟩
        exact (hoff _ r' id l hon (fun hc => hr (hc ▸ hr'))).mpr hheld
    · have hon : t.On l.routeStop r := (hw.on_iff hrow _).mpr (by omega)
      rcases hfrom with ⟨k, id', l', d, hk, hd, hahead, hrest⟩
      exact Or.inr ⟨⟨hheld, hreach, hride, k, id', l', d,
        (hbefore k id' l' ((hahead.on_iff r).mpr hon)).mp hk, hd, hahead, hrest⟩, r,
        List.mem_append_right _ (List.mem_singleton.mpr rfl), hon⟩
  · intro r' hr' s i j hs hi hsi hij
    by_cases hrr : r' = r
    · subst hrr
      rcases h.scanStart r' s hr hs with ⟨s', hle, hs'⟩
      -- This is the route that was scanned, and the scan started where it was noted.
      have hfs : first = s' := hstart s' hs'
      have hj := (hw.on_iff hrow j).mp ((hij.on_iff r').mp hi)
      intro id l d hl hd
      rcases hscanned.sweeps i j (by omega) hij.1 (by omega) id l d ((hbefore i id l hi).mpr hl) hd
        with ⟨k, id', l', d', c, hk, hd', hprev, hkj, hc, hcov⟩
      have hon : t.On k r' := by
        rcases hkj with rfl | hkj
        · exact (hij.on_iff r').mp hi
        · exact (hkj.on_iff r').mpr ((hij.on_iff r').mp hi)
      exact ⟨k, id', l', d', c, (hbefore k id' l' hon).mp hk, hd', hprev, hkj, hc, hcov⟩
    · have hr'' : r' ∈ routes := by
        rcases List.mem_append.mp hr' with h' | h'
        · exact h'
        · exact absurd (List.mem_singleton.mp h') hrr
      intro id l d hl hd
      -- Another route was swept before, and what is covered stays covered.
      rcases h.sweeps r' hr'' s i j hs hi hsi hij id l d hl hd with
        ⟨k, id', l', d', c, hk, hd', hprev, hkj, hc, hcov⟩
      exact ⟨k, id', l', d', c, hk, hd', hprev, hkj, hc,
        (hrun fun _ _ => none).covered h.fits hcov⟩

end Swept

/-- What the scans of a round achieve. -/
theorem swept_of_scanRoutes? (hw : t.WellFormed) (hf : w.Fits t)
    (h : w.scanRoutes? t q.parameters = some w') : Swept t q w w.touched.toList w' := by
  refine Loop.foldlM_invariant (fun done u => Swept t q w done u) _ ?_ _ _ (Swept.start hf) h
  intro done r rest u u' hxs hu hscan
  exact hu.scanRoute hw (hf.touched_over.valid.not_mem_before hxs) hscan

/-- The scans of a round sweep all route-stops that were improved before it. -/
theorem Marked.sweeps (hm : w.Marked t) (hw : t.WellFormed) (hf : w.Fits t) {w₁ w₂ : Workspace K}
    (hopen : w.openRound? t = some w₁) (hswept : Swept t q w₁ w₁.touched.toList w₂) {i j : Nat}
    (hi : i ∈ w.improved.toList) (hij : t.Ahead i j) : Sweeps t q.parameters w₁ w₂ i j := by
  rcases quiet_openRound? hopen with ⟨-, -, -, hstart⟩
  rcases hw.exists_on (hf.improved_over.mem_lt hi) with ⟨r, -, hr, -⟩
  rcases hm i hi r hr with ⟨s, hle, hs⟩
  rw [← hstart] at hs
  exact hswept.sweeps r ((mem_touched_iff hf hopen r).mpr ⟨i, hi, hr⟩) s i j hs hr hle hij

end Workspace

end Journey
