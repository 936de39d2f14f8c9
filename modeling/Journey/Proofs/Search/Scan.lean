import Journey.Proofs.Search.Run

/-!
# Visits of a Scan

What a scan does at one route-stop.

A scan takes one of three ways at a route-stop. It boards there, if a label has
an earlier vehicle to offer than the one held; it leaves the vehicle held; or it
holds none and passes by. `Visit` is these three, and `NoEarlier` is what is
known where nothing is boarded. Everything about scans is proved by cases on
`Visit`, without looking at the code again.

## Main definitions

* `Workspace.NoEarlier`: No label of a route-stop has an earlier vehicle to
  offer.
* `Workspace.Visit`: The three ways to visit a route-stop.

## Theorems

* `Workspace.takeScanStart?_eq_some`, `Workspace.scanRoute?_eq_some`: The steps of a
  scan.
* `Workspace.Fits.visit`: A visit takes one of the three ways.
* `Workspace.Fits.scanStop?_exists`: A visit does not fail on the way of the
  vehicle held.
* `Workspace.Fits.quiet_takeScanStart?`: Taking the start of a scan only changes
  notes.
-/

namespace Journey

namespace Workspace

variable {α : Type} [Scalar α] {t : Timetable α} {w w' : Workspace α}

/-- No label of a route-stop has an earlier vehicle to offer than the one
    held. -/
def NoEarlier (t : Timetable α) (w : Workspace α) (held : Option (Boarding α)) (i : Nat) : Prop :=
  ∀ id l d, w.Holds i id l → t.nextTrip? i l.time = some (some d) →
    ∃ b, held = some b ∧ b.trip ≤ d

/-- The three ways to visit a route-stop, and what is held afterwards. -/
inductive Visit (t : Timetable α) (p : Parameters α) (w : Workspace α)
    (held : Option (Boarding α)) (i : Nat) : Workspace α → Option (Boarding α) → Prop where
  /-- An earlier vehicle is boarded. -/
  | switch {b : Boarding α} {l : Label α} (boards : b.Boards t w.labels l)
      (holds : w.Holds i b.label l) (earlier : ∀ b', held = some b' → b.trip < b'.trip) :
      Visit t p w held i w (some b)
  /-- There is nothing to board and nothing to leave. -/
  | pass (noEarlier : w.NoEarlier t held i) (hheld : held = none) : Visit t p w held i w none
  /-- The vehicle held is left, and held further. -/
  | alight {b : Boarding α} {w' : Workspace α} (noEarlier : w.NoEarlier t held i)
      (hheld : held = some b) (h : w.alight? t p b i = some w') :
      Visit t p w held i w' (some b)

omit [Scalar α] in
theorem takeScanStart?_eq_some {r first : Nat} {row : Route}
    (h : w.takeScanStart? r row = some (w', first)) :
    ∃ start scanStart, w.scanStart[r]? = some start ∧
      write? w.scanStart r none = some scanStart ∧ w' = { w with scanStart } ∧
      first = start.getD row.firstRouteStop := by
  unfold takeScanStart? at h
  rcases Option.bind_eq_some_iff.mp h with ⟨start, hstart, h⟩
  rcases Option.bind_eq_some_iff.mp h with ⟨scanStart, hwrite, h⟩
  rw [Option.pure_def, Option.some.injEq, Prod.mk.injEq] at h
  exact ⟨start, scanStart, hstart, hwrite, h.1.symm, h.2.symm⟩

theorem scanRoute?_eq_some {p : Parameters α} {r : Nat} (h : scanRoute? t p w r = some w') :
    ∃ row w₁ first held, t.routes[r]? = some row ∧ w.takeScanStart? r row = some (w₁, first) ∧
      (Span.mk first row.routeStops.stop).toList.foldlM (scanStop? t p) (w₁, none)
        = some (w', held) := by
  unfold scanRoute? at h
  rcases Option.bind_eq_some_iff.mp h with ⟨row, hrow, h⟩
  rcases Option.bind_eq_some_iff.mp h with ⟨⟨w₁, first⟩, htake, h⟩
  rcases Option.bind_eq_some_iff.mp h with ⟨⟨w₂, held⟩, hloop, h⟩
  rw [Option.pure_def, Option.some.injEq] at h
  exact ⟨row, w₁, first, held, hrow, htake, h ▸ hloop⟩

namespace Fits

variable {held held' : Option (Boarding α)} {i : Nat}

theorem board?_eq_some (hf : w.Fits t) {r : Option (Boarding α)}
    (h : w.board? t held i = some r) :
    (∃ b l, r = some b ∧ b.Boards t w.labels l ∧ w.Holds i b.label l ∧
      ∀ b', held = some b' → b.trip < b'.trip) ∨ (r = none ∧ w.NoEarlier t held i) := by
  unfold board? at h
  rcases Option.bind_eq_some_iff.mp h with ⟨best, hb, h⟩
  cases best with
  | none =>
      rw [Option.pure_def, Option.some.injEq] at h
      refine Or.inr ⟨h.symm, fun id l d hl _ => ?_⟩
      have hl1 := hl.1
      rw [hb] at hl1
      exact absurd hl1 (by simp only [Option.some.injEq, reduceCtorEq, not_false_eq_true])
  | some id =>
      rcases Option.bind_eq_some_iff.mp h with ⟨l, hl, h⟩
      rcases Option.bind_eq_some_iff.mp h with ⟨next, hnext, h⟩
      have hheld : w.Holds i id l := ⟨hb, hl⟩
      have hrs := hf.holds_routeStop hheld
      -- Whatever the route-stop holds is this label, so its next vehicle is this one.
      have honly : ∀ id' l' d, w.Holds i id' l' → t.nextTrip? i l'.time = some (some d) →
          next = some d := by
        intro id' l' d hl' hd
        rw [← (hheld.unique hl').2, hnext, Option.some.injEq] at hd
        exact hd
      cases next with
      | none =>
          rw [Option.pure_def, Option.some.injEq] at h
          exact Or.inr ⟨h.symm, fun id' l' d hl' hd =>
            absurd (honly id' l' d hl' hd) (by simp only [reduceCtorEq, not_false_eq_true])⟩
      | some trip =>
          simp only at h
          split at h
          · rename_i hany
            rw [Option.pure_def, Option.some.injEq] at h
            refine Or.inr ⟨h.symm, fun id' l' d hl' hd => ?_⟩
            have hd' := honly id' l' d hl' hd
            rw [Option.some.injEq] at hd'
            subst hd'
            cases held with
            | none => exact absurd hany (by simp only [Option.any_none, Bool.false_eq_true,
                not_false_eq_true])
            | some b =>
                exact ⟨b, rfl, by simpa only [Option.any_some, decide_eq_true_eq] using hany⟩
          · rename_i hany
            rcases Option.bind_eq_some_iff.mp h with ⟨a, ha, h⟩
            rw [Option.pure_def, Option.some.injEq] at h
            refine Or.inl ⟨_, l, h.symm, ⟨hl, ?_, a, ?_, rfl⟩, hheld, fun b' hb' => ?_⟩
            · rw [hrs]
              exact hnext
            · rw [hrs]
              exact ha
            · subst hb'
              change trip < b'.trip
              simpa only [Option.any_some, decide_eq_true_eq, Nat.not_le] using hany

theorem board?_exists (hf : w.Fits t) (hw : t.WellFormed) (held : Option (Boarding α))
    (hi : i < t.routeStops.size) : ∃ r, w.board? t held i = some r := by
  unfold board?
  rcases hf.best_cases hi with hb | ⟨id, l, hb, hl⟩
  · exact ⟨none, by simp only [Option.bind_eq_bind, hb, Option.bind_some, Option.pure_def]⟩
  · rcases hw.nextTrip?_exists hi l.time with ⟨next, hnext⟩
    simp only [Option.bind_eq_bind, hb, hl, hnext, Option.bind_some, Option.pure_def]
    cases next with
    | none => exact ⟨none, rfl⟩
    | some trip =>
        rcases (Timetable.nextTrip?_some hnext).1.exists_arrival hw with ⟨a, ha⟩
        simp only [ha, Option.bind_some]
        split <;> exact ⟨_, rfl⟩

/-- A visit takes one of the three ways. -/
theorem visit (hf : w.Fits t) {p : Parameters α}
    (h : scanStop? t p (w, held) i = some (w', held')) : Visit t p w held i w' held' := by
  unfold scanStop? at h
  rcases Option.bind_eq_some_iff.mp h with ⟨r, hr, h⟩
  -- Boarding comes before leaving, and excludes it.
  rcases hf.board?_eq_some hr with ⟨b, l, rfl, hboards, hholds, hearlier⟩ | ⟨rfl, hno⟩
  · rw [Option.pure_def, Option.some.injEq, Prod.mk.injEq] at h
    rcases h with ⟨rfl, rfl⟩
    exact Visit.switch hboards hholds hearlier
  · cases held with
    | none =>
        rw [Option.pure_def, Option.some.injEq, Prod.mk.injEq] at h
        rcases h with ⟨rfl, rfl⟩
        exact Visit.pass hno rfl
    | some b =>
        rcases Option.bind_eq_some_iff.mp h with ⟨w₁, hw₁, h⟩
        rw [Option.pure_def, Option.some.injEq, Prod.mk.injEq] at h
        rcases h with ⟨rfl, rfl⟩
        exact Visit.alight hno rfl hw₁

theorem scanStop?_exists (hf : w.Fits t) (hw : t.WellFormed) (p : Parameters α)
    (hi : i < t.routeStops.size)
    (hheld : ∀ b, held = some b → t.Serves b.trip b.routeStop ∧ t.Serves b.trip i) :
    ∃ s', scanStop? t p (w, held) i = some s' := by
  rcases hf.board?_exists hw held hi with ⟨r, hr⟩
  unfold scanStop?
  simp only [Option.bind_eq_bind, hr, Option.bind_some, Option.pure_def]
  cases r with
  | some b => exact ⟨_, rfl⟩
  | none =>
      cases held with
      | none => exact ⟨_, rfl⟩
      | some b =>
          rcases hheld b rfl with ⟨hb, hbi⟩
          rcases hf.alight?_exists hw p hb hbi with ⟨w', hw'⟩
          simp only [hw', Option.bind_some]
          exact ⟨_, rfl⟩

omit [Scalar α] in
/-- Taking the start of a scan only changes notes, and the scan starts on its
    route. -/
theorem quiet_takeScanStart? (hf : w.Fits t) (hw : t.WellFormed) {r : Nat} {row : Route}
    {first : Nat} (hrow : t.routes[r]? = some row)
    (h : w.takeScanStart? r row = some (w', first)) :
    Quiet t w w' ∧ row.routeStops.start ≤ first ∧ w'.improved = w.improved ∧
      w'.reached = w.reached ∧ (∀ s, w.scanStart[r]? = some (some s) → first = s) ∧
      ∀ r' : Nat, r' ≠ r → w'.scanStart[r']? = w.scanStart[r']? := by
  rcases takeScanStart?_eq_some h with ⟨start, scanStart, hstart, hwrite, rfl, rfl⟩
  rcases write?_eq_some hwrite with ⟨-, hsize, hget⟩
  refine ⟨⟨rfl, rfl, rfl, rfl, fun hf => ?_⟩, ?_, rfl, rfl, ?_, ?_⟩
  · refine { hf with
      scanStart_size := hsize.trans hf.scanStart_size
      scanStart_route := ?_ }
    intro r' s hs
    rw [hget] at hs
    split at hs
    · exact absurd hs (by simp only [Option.some.injEq, reduceCtorEq, not_false_eq_true])
    · exact hf.scanStart_route r' s hs
  · cases start with
    | none => exact Nat.le_refl _
    | some s =>
        -- The start belongs to the route, so it is in the span.
        rcases hf.scanStart_route r s hstart with ⟨rs, hrs, hr⟩
        exact ((hw.route_iff s r rs row hrs hrow).mp hr).1
  · intro s hs
    rw [hstart, Option.some.injEq] at hs
    subst hs
    rfl
  · intro r' hr'
    rw [hget, if_neg hr'.symm]

omit [Scalar α] in
theorem takeScanStart?_exists (hf : w.Fits t) {r : Nat} {row : Route}
    (hrow : t.routes[r]? = some row) : ∃ s, w.takeScanStart? r row = some s := by
  have hr : r < w.scanStart.size := hf.scanStart_size ▸ (Array.getElem?_eq_some_iff.mp hrow).1
  rcases write?_exists hr none with ⟨scanStart, hw⟩
  unfold takeScanStart?
  simp only [Option.bind_eq_bind, Array.getElem?_eq_getElem hr, hw, Option.bind_some,
    Option.pure_def, Option.some.injEq, exists_eq']

end Fits

end Workspace

end Journey
