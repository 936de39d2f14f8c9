import Journey.Proofs.Search.Coverage
import Journey.Proofs.Search.Moments

/-!
# What a Scan Achieves

Every ride that a scan could have made is made, or a better one.

A scan holds one vehicle and lets an earlier one take its place, whatever the
two cost. So from a label with a next vehicle, what a scan covers ahead is not
that ride but the ride on the vehicle held there, which prevails over it:
it is the same one, or an earlier vehicle boarded further ahead, or one that is
no later and was boarded further behind. `Prevails` is this relation, and
`Sweeps` says for a pair of workspaces that between them every ride is covered
up to a ride that prevails over it.

The route-stop where a vehicle takes over is not left there, and what is covered
at it is the label that it has. `Brings` therefore counts a label as bringing
the traveller to its own route-stop.

## Main definitions

* `Prevails`: Which of two boardings of a route a scan holds.
* `Label.Brings`: What getting to a route-stop with a vehicle costs.
* `Workspace.Sweeps`: The rides from a route-stop are covered.
* `Workspace.Ridden`: A label is a ride of the scan and still held.
* `Workspace.Scanned`: The invariant of the scan of a route.

## Theorems

* `Workspace.Scanned.visit`: What one visit keeps.
* `Workspace.scanned_of_scanRoute?`: What the scan of a route achieves.
-/

namespace Journey

/-- Of two boardings on one route, given by route-stop and trip, a scan that
    goes past both holds the first one rather than the second. -/
def Prevails (k d' i d : Nat) : Prop :=
  (k = i ∧ d' = d) ∨ (k < i ∧ d' ≤ d) ∨ (i < k ∧ d' < d)

theorem Prevails.trip_le {k d' i d : Nat} (h : Prevails k d' i d) : d' ≤ d := by
  rcases h with ⟨-, h⟩ | ⟨-, h⟩ | ⟨-, h⟩
  · exact Nat.le_of_eq h
  · exact h
  · exact Nat.le_of_lt h

variable {K : Type} [Field K] [LinearOrder K]

/-- With the vehicle of a trip, a label brings the traveller to a route-stop at
    a cost: its own one as it is, and one ahead by riding. -/
def Label.Brings (t : Timetable K) (p : Parameters K) (l : Label K) (d j : Nat) (c : K) : Prop :=
  (l.routeStop = j ∧ c = l.cost) ∨ (t.Ahead l.routeStop j ∧
    ∃ a b enter, t.arrival? d l.routeStop = some a ∧ t.arrival? d j = some b ∧
      enter = Scalar.larger l.time a ∧
      c = l.cost + (enter - l.time) * p.waitingCost + (b - enter) * p.inVehicleCost)

namespace Workspace

variable {t : Timetable K} {policy : TransferPolicy K} {q : SearchQuery K} {w w' : Workspace K}

/-- What a label of the first workspace could reach by riding from a route-stop
    is covered in the second, at the cost of a ride that prevails. -/
def Sweeps (t : Timetable K) (p : Parameters K) (w w' : Workspace K) (i j : Nat) : Prop :=
  ∀ id l d, w.Holds i id l → t.nextTrip? i l.time = some (some d) →
    ∃ k id' l' d' c, w.Holds k id' l' ∧ t.nextTrip? k l'.time = some (some d') ∧
      Prevails k d' i d ∧ (k = j ∨ t.Ahead k j) ∧ l'.Brings t p d' j c ∧ w'.Covered j c

/-- The label is held, was noted as reached, and is a ride on the next vehicle
    of a label that the first workspace holds. -/
def Ridden (t : Timetable K) (w w' : Workspace K) (id : Nat) (l : Label K) : Prop :=
  w'.Holds l.routeStop id l ∧ l.routeStop ∈ w'.reached.toList ∧ l.isRide = true ∧
    ∃ k id' l' d, w.Holds k id' l' ∧ t.nextTrip? k l'.time = some (some d) ∧
      t.Ahead k l.routeStop ∧ t.arrival? d l.routeStop = some l.time ∧ l.transfers = l'.transfers

/-- The scan of a route that began in one workspace at `first` is in another
    one before `x`, with a vehicle held. -/
structure Scanned (t : Timetable K) (q : SearchQuery K) (w : Workspace K) (first x : Nat)
    (w' : Workspace K) (held : Option (Boarding K)) : Prop where
  fits : w'.Fits t
  improved : ∀ i, i ∈ w'.improved.toList ↔ i ∈ w.improved.toList
  scanStart : ∀ r s : Nat, w.scanStart[r]? = some (some s) →
    ∃ s', s' ≤ s ∧ w'.scanStart[r]? = some (some s')
  reached : ∀ i ∈ w.reached.toList, i ∈ w'.reached.toList
  /-- The vehicle held was boarded from a label that was there. -/
  boarded : ∀ b, held = some b → ∃ l, w.Holds b.routeStop b.label l ∧ b.Boards t w.labels l ∧
    first ≤ b.routeStop ∧ b.routeStop < x
  /-- It prevails over whatever else could have been boarded. -/
  prevails : ∀ i id l d, first ≤ i → i < x → w.Holds i id l →
    t.nextTrip? i l.time = some (some d) →
    ∃ b, held = some b ∧ Prevails b.routeStop b.trip i d
  /-- Other route-stops hold what they held. -/
  untouched : ∀ i id l, (i < first ∨ x ≤ i) → (w'.Holds i id l ↔ w.Holds i id l)
  /-- The rides to route-stops visited are covered. -/
  sweeps : ∀ i j, first ≤ i → i < j → j < x → Sweeps t q.parameters w w' i j
  /-- New labels are rides to route-stops visited. -/
  labels : ∀ (id : Nat) (l : Label K), w'.labels[id]? = some l →
    w.labels[id]? = some l ∨ (Ridden t w w' id l ∧ first ≤ l.routeStop ∧ l.routeStop < x)
  run : ∀ policy, Run t policy q w w'

/-- What offering a ride changes, as far as scans depend on it. -/
structure AddsRide (t : Timetable K) (w : Workspace K) (l : Label K) (w' : Workspace K) :
    Prop where
  fits : w'.Fits t
  improved : ∀ i, i ∈ w'.improved.toList ↔ i ∈ w.improved.toList
  scanStart : ∀ r s : Nat, w.scanStart[r]? = some (some s) →
    ∃ s', s' ≤ s ∧ w'.scanStart[r]? = some (some s')
  reached : ∀ i ∈ w.reached.toList, i ∈ w'.reached.toList
  holds : ∀ i id l', i ≠ l.routeStop → (w'.Holds i id l' ↔ w.Holds i id l')
  labels : ∀ (id : Nat) (l' : Label K), w'.labels[id]? = some l' → w.labels[id]? = some l' ∨
    (l' = l ∧ w'.Holds l.routeStop id l ∧ l.routeStop ∈ w'.reached.toList)

theorem Offered.addsRide {l : Label K} (h : Offered t w l w') (hf : w.Fits t)
    (hride : l.isRide = true) : AddsRide t w l w' := by
  have hsame : AddsRide t w l w :=
    { fits := hf
      improved := fun _ => Iff.rfl
      scanStart := fun r s hs => ⟨s, Nat.le_refl s, hs⟩
      reached := fun _ hi => hi
      holds := fun _ _ _ _ => Iff.rfl
      labels := fun _ _ hl => Or.inl hl }
  cases h with
  | exceeded => exact hsame
  | kept => exact hsame
  | stored hs hbeaten =>
      exact
        { fits := hs.fits
          improved := fun i => by
            rw [hs.improved, hride]
            simp only [Bool.true_eq_false, false_and, or_false]
          scanStart := hs.scanStart
          reached := fun i hi => (hs.reached i).mpr (Or.inl hi)
          holds := fun i id l' hi => by
            refine ⟨fun hl => ?_, hs.holds_of_ne hi⟩
            rcases hs.holds_cases hf hl with ⟨heq, -⟩ | ⟨-, hl⟩
            · exact absurd heq hi
            · exact hl
          labels := fun id l' hl => by
            rcases hs.label_cases hl with ⟨rfl, rfl⟩ | hl
            · exact Or.inr ⟨rfl, hs.holds_self, (hs.reached _).mpr (Or.inr ⟨hride, rfl⟩)⟩
            · exact Or.inl hl }

namespace Scanned

variable {first x : Nat} {held held' : Option (Boarding K)} {w₁ : Workspace K}

theorem start (hf : w.Fits t) : Scanned t q w first first w none where
  fits := hf
  improved := fun _ => Iff.rfl
  scanStart := fun r s hs => ⟨s, Nat.le_refl s, hs⟩
  reached := fun _ hi => hi
  boarded := fun b hb => absurd hb (by simp only [reduceCtorEq, not_false_eq_true])
  prevails := fun i id l d hlo hhi => absurd hlo (Nat.not_le.mpr hhi)
  untouched := fun i id l _ => Iff.rfl
  sweeps := fun i j hlo hij hj => absurd (Nat.le_trans hlo (Nat.le_of_lt hij)) (Nat.not_le.mpr hj)
  labels := fun id l hl => Or.inl hl
  run := fun _ => Run.refl w

-- Boarding at a route-stop: the vehicle boarded prevails over the one held,
-- and the route-stop is covered by the label it has.
theorem switch (h : Scanned t q w first x w' held) (hle : first ≤ x) {b : Boarding K} {l : Label K}
    (boards : b.Boards t w'.labels l) (holds : w'.Holds x b.label l)
    (earlier : ∀ b', held = some b' → b.trip < b'.trip) :
    Scanned t q w first (x + 1) w' (some b) := by
  -- The route-stop has not been visited, so its label is that of the beginning.
  have hholds : w.Holds x b.label l := (h.untouched x _ _ (Or.inr (Nat.le_refl x))).mp holds
  have hrs : l.routeStop = x := h.fits.holds_routeStop holds
  have hbx : b.routeStop = x := boards.routeStop_eq.trans hrs
  have hnext : t.nextTrip? x l.time = some (some b.trip) := hrs ▸ boards.next
  -- Whatever was boarded behind is on a later vehicle.
  have hlater : ∀ i id l d, first ≤ i → i < x → w.Holds i id l →
      t.nextTrip? i l.time = some (some d) → Prevails x b.trip i d := by
    intro i id l d hlo hhi hl hd
    rcases h.prevails i id l d hlo hhi hl hd with ⟨b', hb', hprev⟩
    exact Or.inr (Or.inr ⟨hhi, Nat.lt_of_lt_of_le (earlier b' hb') hprev.trip_le⟩)
  refine { h with
    boarded := ?_
    prevails := ?_
    untouched := fun i id l hi => h.untouched i id l (by omega)
    sweeps := ?_
    labels := ?_ }
  · intro b' hb'
    rw [Option.some.injEq] at hb'
    subst hb'
    exact ⟨l, hbx ▸ hholds, { boards with label := hholds.2 }, hbx ▸ hle,
      hbx ▸ Nat.lt_succ_self _⟩
  · intro i id l' d hlo hhi hl' hd
    refine ⟨b, rfl, ?_⟩
    rw [hbx]
    by_cases hix : i = x
    · subst hix
      rw [← (hholds.unique hl').2, hnext, Option.some.injEq, Option.some.injEq] at hd
      exact Or.inl ⟨rfl, hd⟩
    · exact hlater i id l' d hlo (by omega) hl' hd
  · intro i j hlo hij hj
    by_cases hjx : j = x
    · subst hjx
      intro id l' d hl' hd
      exact ⟨j, b.label, l, b.trip, l.cost, hholds, hnext, hlater i id l' d hlo hij hl' hd,
        Or.inl rfl, Or.inl ⟨hrs, rfl⟩, holds.covered⟩
    · exact h.sweeps i j hlo hij (by omega)
  · intro id l' hl'
    rcases h.labels id l' hl' with hl' | ⟨hridden, hlo, hhi⟩
    · exact Or.inl hl'
    · exact Or.inr ⟨hridden, hlo, Nat.lt_succ_of_lt hhi⟩

-- Passing by without a vehicle: nothing could be boarded so far.
theorem pass (h : Scanned t q w first x w' none) (noEarlier : w'.NoEarlier t none x) :
    Scanned t q w first (x + 1) w' none := by
  -- A vehicle that could have been boarded would be held now.
  have hnone : ∀ i id l d, first ≤ i → i < x + 1 → w.Holds i id l →
      t.nextTrip? i l.time ≠ some (some d) := by
    intro i id l d hlo hhi hl hd
    by_cases hix : i = x
    · subst hix
      rcases noEarlier id l d ((h.untouched i id l (Or.inr (Nat.le_refl i))).mpr hl) hd with
        ⟨b, hb, -⟩
      exact absurd hb (by simp only [reduceCtorEq, not_false_eq_true])
    · rcases h.prevails i id l d hlo (by omega) hl hd with ⟨b, hb, -⟩
      exact absurd hb (by simp only [reduceCtorEq, not_false_eq_true])
  refine { h with
    boarded := fun b hb => absurd hb (by simp only [reduceCtorEq, not_false_eq_true])
    prevails := fun i id l d hlo hhi hl hd => absurd hd (hnone i id l d hlo hhi hl)
    untouched := fun i id l hi => h.untouched i id l (by omega)
    sweeps := fun i j hlo hij hj id l d hl hd => absurd hd (hnone i id l d hlo (by omega) hl)
    labels := ?_ }
  intro id l' hl'
  rcases h.labels id l' hl' with hl' | ⟨hridden, hlo, hhi⟩
  · exact Or.inl hl'
  · exact Or.inr ⟨hridden, hlo, Nat.lt_succ_of_lt hhi⟩

-- Leaving the vehicle held at a route-stop covers it.
theorem alight (h : Scanned t q w first x w' held) (hw : t.WellFormed) {r : Nat} {row : Route}
    (hrow : t.routes[r]? = some row) (hfirst : row.routeStops.start ≤ first)
    (hx : x < row.routeStops.stop) {b : Boarding K} (hheld : held = some b)
    (noEarlier : w'.NoEarlier t held x) (halight : w'.alight? t q.parameters b x = some w₁) :
    Scanned t q w first (x + 1) w₁ (some b) := by
  rcases h.boarded b hheld with ⟨l, hl, hboards, hlo, hhi⟩
  have hahead : t.Ahead b.routeStop x :=
    (hw.ahead_iff_span hrow (Nat.le_trans hfirst hlo) (Nat.lt_trans hhi hx) x).mpr ⟨hhi, hx⟩
  rcases hboards.exists_departure hw with ⟨boardingTime, hdep⟩
  rcases h.fits.alight?_eq_some hdep halight with ⟨arrivalTime, harr, hoffered⟩
  have hevent : ∀ policy, Event t policy q w' w₁ := fun policy =>
    Event.offer ((hboards.mono fun _ _ hl => (h.run policy).labels_mono hl).isLegal policy q hahead
      hdep harr) hoffered
  have hrs : l.routeStop = b.routeStop := hboards.routeStop_eq.symm
  have hnext : t.nextTrip? b.routeStop l.time = some (some b.trip) := hrs ▸ hboards.next
  -- What could be boarded here is no earlier than the vehicle held, and the
  -- vehicle was boarded before.
  have hprevails : ∀ i id l d, first ≤ i → i < x + 1 → w.Holds i id l →
      t.nextTrip? i l.time = some (some d) → Prevails b.routeStop b.trip i d := by
    intro i id l d hilo hihi hl hd
    by_cases hix : i = x
    · subst hix
      rcases noEarlier id l d ((h.untouched i id l (Or.inr (Nat.le_refl i))).mpr hl) hd with
        ⟨b', hb', hle⟩
      rw [hheld, Option.some.injEq] at hb'
      subst hb'
      exact Or.inr (Or.inl ⟨hhi, hle⟩)
    · rcases h.prevails i id l d hilo (by omega) hl hd with ⟨b', hb', hprev⟩
      rw [hheld, Option.some.injEq] at hb'
      subst hb'
      exact hprev
  -- The cost at which the vehicle is left is that of the ride.
  have hbrings : l.Brings t q.parameters b.trip x (b.costUntil q.parameters arrivalTime) := by
    rcases hboards.held with ⟨a, ha, hb⟩
    refine Or.inr ⟨hrs ▸ hahead, a, arrivalTime, Scalar.larger l.time a, ha, harr, rfl, ?_⟩
    rw [hb]
    rfl
  have hadds := hoffered.addsRide h.fits rfl
  exact
    { fits := hadds.fits
      improved := fun i => (hadds.improved i).trans (h.improved i)
      scanStart := fun r s hs => by
        rcases h.scanStart r s hs with ⟨s', hle, hs'⟩
        rcases hadds.scanStart r s' hs' with ⟨s'', hle', hs''⟩
        exact ⟨s'', Nat.le_trans hle' hle, hs''⟩
      reached := fun i hi => hadds.reached i (h.reached i hi)
      boarded := fun b' hb' => by
        rw [Option.some.injEq] at hb'
        subst hb'
        exact ⟨l, hl, hboards, hlo, Nat.lt_succ_of_lt hhi⟩
      prevails := fun i id l' d hilo hihi hl' hd => ⟨b, rfl, hprevails i id l' d hilo hihi hl' hd⟩
      untouched := fun i id l' hi =>
        (hadds.holds i id l' (by change i ≠ x; have := h.boarded b hheld; omega)).trans
          (h.untouched i id l' (by omega))
      sweeps := fun i j hilo hij hj => by
        by_cases hjx : j = x
        · subst hjx
          intro id l' d hl' hd
          exact ⟨b.routeStop, b.label, l, b.trip, _, hl, hnext,
            hprevails i id l' d hilo (by omega) hl' hd, Or.inr hahead, hbrings, hoffered.covered⟩
        · intro id l' d hl' hd
          rcases h.sweeps i j hilo hij (by omega) id l' d hl' hd with
            ⟨k, id', l'', d', c, hk, hd', hprev, hkj, hc, hcov⟩
          exact ⟨k, id', l'', d', c, hk, hd', hprev, hkj, hc,
            (hevent fun _ _ => none).covered h.fits hcov⟩
      labels := fun id l' hl' => by
        rcases hadds.labels id l' hl' with hl' | ⟨rfl, hself, hreached⟩
        · rcases h.labels id l' hl' with hl' | ⟨⟨hholds, hreached, hrest⟩, hlo', hhi'⟩
          · exact Or.inl hl'
          · refine Or.inr ⟨⟨?_, hadds.reached _ hreached, hrest⟩, hlo', Nat.lt_succ_of_lt hhi'⟩
            exact (hadds.holds _ _ _ (Nat.ne_of_lt hhi')).mpr hholds
        · exact Or.inr ⟨⟨hself, hreached, rfl, b.routeStop, b.label, l, b.trip, hl, hnext, hahead,
            harr, hboards.transfers_eq⟩, Nat.le_trans hlo (Nat.le_of_lt hhi), Nat.lt_succ_self _⟩
      run := fun policy => (h.run policy).trans (Run.single (hevent policy)) }

/-- What one visit keeps. -/
theorem visit (h : Scanned t q w first x w' held) (hw : t.WellFormed) {r : Nat} {row : Route}
    (hrow : t.routes[r]? = some row) (hfirst : row.routeStops.start ≤ first) (hle : first ≤ x)
    (hx : x < row.routeStops.stop) (hvisit : Visit t q.parameters w' held x w₁ held') :
    Scanned t q w first (x + 1) w₁ held' := by
  cases hvisit with
  | switch boards holds earlier => exact h.switch hle boards holds earlier
  | pass noEarlier hheld =>
      subst hheld
      exact h.pass noEarlier
  | alight noEarlier hheld halight => exact h.alight hw hrow hfirst hx hheld noEarlier halight

end Scanned

/-- What the scan of a route achieves, from where it starts to the end of the
    route. -/
theorem scanned_of_scanRoute? (hw : t.WellFormed) (hf : w.Fits t) {r : Nat}
    (h : scanRoute? t q.parameters w r = some w') :
    ∃ row w₁ first held, t.routes[r]? = some row ∧ w.takeScanStart? r row = some (w₁, first) ∧
      row.routeStops.start ≤ first ∧ w₁.Fits t ∧
      Scanned t q w₁ first (max first row.routeStops.stop) w' held := by
  rcases scanRoute?_eq_some h with ⟨row, w₁, first, held, hrow, htake, hloop⟩
  rcases hf.quiet_takeScanStart? hw hrow htake with ⟨hquiet, hfirst, -⟩
  have hf₁ := hquiet.fits hf
  refine ⟨row, w₁, first, held, hrow, htake, hfirst, hf₁, ?_⟩
  have hend := Loop.foldlM_invariant
    (fun done s => Scanned t q w₁ first (first + done.length) s.1 s.2) _ ?_ _ _
    (Scanned.start hf₁) hloop
  · -- A scan that starts beyond the end of the route visits nothing.
    have hlen : first + (Span.mk first row.routeStops.stop).toList.length
        = max first row.routeStops.stop := by
      rw [Span.length_toList]
      change first + (row.routeStops.stop - first) = max first row.routeStops.stop
      omega
    rw [hlen] at hend
    exact hend
  · rintro done x rest ⟨u, hheld⟩ ⟨u', hheld'⟩ hxs hu hstop
    rcases Span.toList_split hxs with ⟨rfl, hx⟩
    rw [List.length_append, List.length_singleton, ← Nat.add_assoc]
    exact hu.visit hw hrow hfirst (Nat.le_add_right _ _) hx (hu.fits.visit hstop)

end Workspace

end Journey
