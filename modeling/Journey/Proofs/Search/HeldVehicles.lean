import Journey.Proofs.Search.BetweenRounds
import Journey.Proofs.Search.Totality

/-!
# The Vehicle Held by a Scan

What the scan of a route does, without the loop.

Every label on a route offers a vehicle, the first one that leaves after the arrival.
A scan overwrites labels as it goes, but only those it has passed, so at each route-stop it
meets the label from before. Which vehicle it holds there is therefore a matter of the
labels from before the scan alone: the earliest of those offered so far, boarded where it
was offered first. `Holding` says this, and by `Holding.unique` nothing else can be held.

Where the scan gets to with a vehicle and the route-stop does not offer an earlier one, the
ride becomes the label of the route-stop if it is welcome there: if it does not cost more
than the best journey known by then, and less than the label that is there or the same with
fewer transfers. Everywhere else labels stay. That the bound becomes tighter in mid-route
shows up in one place only, in what is welcome.

One visit is followed by `Scanning.visit`, and the scan by induction on the route-stops.

## Main definitions

* `Workspace.Offers`: A label of a route-stop offers a vehicle.
* `Workspace.Holding`: The earliest vehicle offered so far is held, if there is any.
* `Workspace.Welcomes`: An arrival is cheap enough to become a label.
* `Workspace.ScanGets`: A scan gets to a route-stop.
* `Workspace.Relabels`: What the label of a route-stop becomes.
* `Workspace.ScansByRule`: What the scan of a route does.
* `Workspace.Scanning`: What is true of a scan on its way.

## Theorems

* `Workspace.Holding.unique`: Only one vehicle can be held.
* `Workspace.Scanning.visit`: What one visit does.
* `Workspace.Fits.scansByRule`: What a scan does, in any workspace that fits.
* `Workspace.BeforeScan.not_mem_reached`: What a route scan reaches was not reached before.
* `Engine.InService.scanRoute?_by_rule`: The scans of a search follow the rule.
-/

namespace Journey

namespace Workspace

variable {α : Type} [Scalar α] {t : Timetable α} {p : Parameters α} {w w' : Workspace α}

/-- The label of a route-stop offers a vehicle: it is the next one that leaves from there. -/
def Offers (t : Timetable α) (w : Workspace α) (i trip : Nat) : Prop :=
  ∃ id l, w.Holds i id l ∧ t.nextTrip? i l.time = some (some trip)

/-- The vehicle is the earliest of those offered from `first` on and before `x`, and was
    boarded from the label that offers it first. -/
structure HoldsEarliest (t : Timetable α) (w : Workspace α) (first x : Nat) (b : Boarding α) :
    Prop where
  first_le : first ≤ b.routeStop
  lt : b.routeStop < x
  /-- It was boarded when it was there and the traveller too. -/
  boarded : ∃ l vehicleArrival, w.Holds b.routeStop b.label l ∧
    t.nextTrip? b.routeStop l.time = some (some b.trip) ∧
    t.arrival? b.trip b.routeStop = some vehicleArrival ∧
    b = Boarding.ofLabel b.label l b.trip vehicleArrival
  least : ∀ i trip, first ≤ i → i < x → w.Offers t i trip → b.trip ≤ trip
  earliest : ∀ i, first ≤ i → i < b.routeStop → ¬ w.Offers t i b.trip

/-- What a scan holds before `x`: nothing if nothing has been offered since `first`, and
    else the earliest vehicle. -/
def Holding (t : Timetable α) (w : Workspace α) (first x : Nat) : Option (Boarding α) → Prop
  | none => ∀ i trip, first ≤ i → i < x → ¬ w.Offers t i trip
  | some b => w.HoldsEarliest t first x b

/-- An arrival can become the label of a route-stop: by the bound of `u` it is not too
    expensive, and it beats the label that the route-stop has in `w`, if there is one. -/
def Welcomes (w u : Workspace α) (i : Nat) (l : Label α) : Prop :=
  (∀ bound, u.bound = some bound → ¬ bound < l.cost) ∧
    ∀ id held, w.Holds i id held → l.cost < held.cost ∨
      (l.cost ≤ held.cost ∧ held.cost ≤ l.cost) ∧ l.transfers < held.transfers

/-- The scan of a route gets to a route-stop, or to the end of the route, and holds a
    vehicle or none. -/
def ScanGets (t : Timetable α) (p : Parameters α) (w : Workspace α) (r x : Nat)
    (u : Workspace α) (held : Option (Boarding α)) : Prop :=
  ∃ row w₁ first, t.routes[r]? = some row ∧ w.takeScanStart? r row = some (w₁, first) ∧
    (Span.mk first x).toList.foldlM (scanStop? t p) (w₁, none) = some (u, held)

/-- What becomes of the label of a route-stop that a scan of `w` gets to in the state `u`,
    with a vehicle held or none. -/
structure Relabels (t : Timetable α) (p : Parameters α) (w u : Workspace α)
    (held : Option (Boarding α)) (i : Nat) (w' : Workspace α) : Prop where
  /-- It stays if no vehicle is held or an earlier one is offered. -/
  stays : (held = none ∨ ∃ b trip, held = some b ∧ w.Offers t i trip ∧ trip < b.trip) →
    w'.best[i]? = w.best[i]?
  /-- Else the ride takes its place if it is welcome. -/
  rides : ∀ b, held = some b → (∀ trip, w.Offers t i trip → b.trip ≤ trip) →
    ∃ arrivalTime boardingTime, t.arrival? b.trip i = some arrivalTime ∧
      t.departure? b.trip b.routeStop = some boardingTime ∧
      (w.Welcomes u i (b.toLabel p i boardingTime arrivalTime) →
        w'.Holds i u.labels.size (b.toLabel p i boardingTime arrivalTime)) ∧
      (¬ w.Welcomes u i (b.toLabel p i boardingTime arrivalTime) → w'.best[i]? = w.best[i]?)

/-- What the scan of a route from `first` on does. -/
structure ScansByRule (t : Timetable α) (p : Parameters α) (r : Nat) (row : Route) (first : Nat)
    (w w' : Workspace α) : Prop where
  /-- It starts at the start noted for the route, or else at its first route-stop. -/
  first_eq : first = (w.scanStart[r]?.join).getD row.firstRouteStop
  on_route : row.routeStops.start ≤ first
  /-- It gets to all route-stops from there on, and to the end. -/
  gets : ∀ x, first ≤ x → x ≤ row.routeStops.stop → ∃ u held, ScanGets t p w r x u held
  /-- It holds the earliest vehicle offered so far. -/
  holding : ∀ x u held, first ≤ x → x ≤ row.routeStops.stop → ScanGets t p w r x u held →
    w.Holding t first x held
  relabels : ∀ x u held, first ≤ x → x < row.routeStops.stop → ScanGets t p w r x u held →
    Relabels t p w u held x w'
  /-- What is reached by it are the route-stops with another label than before. -/
  reached : ∀ i, i ∈ w'.reached.toList ↔ i ∈ w.reached.toList ∨ w'.best[i]? ≠ w.best[i]?
  /-- Other labels do not change. -/
  elsewhere : ∀ i, i < first ∨ row.routeStops.stop ≤ i → w'.best[i]? = w.best[i]?
  labels : ∀ (id : Nat) (l : Label α), w.labels[id]? = some l → w'.labels[id]? = some l

theorem Offers.unique {i trip trip' : Nat} (h : w.Offers t i trip) (h' : w.Offers t i trip') :
    trip = trip' := by
  rcases h with ⟨id, l, hl, hnext⟩
  rcases h' with ⟨id', l', hl', hnext'⟩
  rw [(hl.unique hl').2, hnext', Option.some.injEq, Option.some.injEq] at hnext
  exact hnext.symm

namespace HoldsEarliest

variable {first x : Nat} {b b' : Boarding α}

theorem offers (h : w.HoldsEarliest t first x b) : w.Offers t b.routeStop b.trip := by
  rcases h.boarded with ⟨l, a, hl, hnext, -⟩
  exact ⟨b.label, l, hl, hnext⟩

theorem serves (h : w.HoldsEarliest t first x b) : t.Serves b.trip b.routeStop := by
  rcases h.boarded with ⟨l, a, -, hnext, -⟩
  exact (Timetable.nextTrip?_some hnext).1

theorem trip_le (h : w.HoldsEarliest t first x b) (h' : w.HoldsEarliest t first x b') :
    b.trip ≤ b'.trip :=
  h.least _ _ h'.first_le h'.lt h'.offers

theorem routeStop_le (h : w.HoldsEarliest t first x b) (h' : w.HoldsEarliest t first x b') :
    b.routeStop ≤ b'.routeStop := by
  by_contra hlt
  have heq : b.trip = b'.trip := Nat.le_antisymm (h.trip_le h') (h'.trip_le h)
  exact h.earliest _ h'.first_le (Nat.lt_of_not_le hlt) (heq ▸ h'.offers)

/-- There is only one earliest vehicle, boarded where it is offered first. -/
theorem unique (h : w.HoldsEarliest t first x b) (h' : w.HoldsEarliest t first x b') : b = b' := by
  have htrip : b.trip = b'.trip := Nat.le_antisymm (h.trip_le h') (h'.trip_le h)
  have hstop : b.routeStop = b'.routeStop :=
    Nat.le_antisymm (h.routeStop_le h') (h'.routeStop_le h)
  rcases h.boarded with ⟨l, a, hl, -, ha, hb⟩
  rcases h'.boarded with ⟨l', a', hl', -, ha', hb'⟩
  rw [hstop] at hl
  rcases hl.unique hl' with ⟨hlabel, hll⟩
  rw [htrip, hstop, ha', Option.some.injEq] at ha
  rw [hb, hb', hlabel, hll, htrip, ha]

-- Going on to where no earlier vehicle is offered.
theorem pass (h : w.HoldsEarliest t first x b)
    (hno : ∀ trip, w.Offers t x trip → b.trip ≤ trip) : w.HoldsEarliest t first (x + 1) b :=
  { h with
    lt := Nat.lt_succ_of_lt h.lt
    least := fun i trip hlo hhi hoffers => by
      rcases Nat.lt_succ_iff_lt_or_eq.mp hhi with hlt | rfl
      · exact h.least i trip hlo hlt hoffers
      · exact hno trip hoffers }

end HoldsEarliest

/-- Only one vehicle can be held, if any. -/
theorem Holding.unique {first x : Nat} {held held' : Option (Boarding α)}
    (h : w.Holding t first x held) (h' : w.Holding t first x held') : held = held' := by
  cases held with
  | none =>
      cases held' with
      | none => rfl
      | some b => exact absurd h'.offers (h _ _ h'.first_le h'.lt)
  | some b =>
      cases held' with
      | none => exact absurd h.offers (h' _ _ h.first_le h.lt)
      | some b' => rw [HoldsEarliest.unique h h']

theorem welcomes_iff (w u : Workspace α) (i : Nat) (l : Label α) :
    w.Welcomes u i l ↔ u.exceedsBound l.cost = false ∧
      ∀ id held, w.Holds i id held → held.isBeatenBy l.cost l.transfers = true := by
  unfold Welcomes exceedsBound Label.isBeatenBy Scalar.same
  simp only [Option.any_eq_false, decide_eq_true_eq, decide_eq_false_iff_not, Bool.or_eq_true,
    Bool.and_eq_true]

/-- In exact arithmetic an arrival is welcome if its cost is at most the bound and it comes
    before the label of the route-stop in the order of cost and then of transfers. -/
theorem welcomes_iff_le {K : Type} [Field K] [LinearOrder K] (w u : Workspace K) (i : Nat)
    (l : Label K) : w.Welcomes u i l ↔ (∀ bound, u.bound = some bound → l.cost ≤ bound) ∧
      ∀ id held, w.Holds i id held →
        l.cost < held.cost ∨ l.cost = held.cost ∧ l.transfers < held.transfers := by
  unfold Welcomes
  simp only [not_lt, le_antisymm_iff]

-- A ride beyond the bound is not stored.
theorem alight?_of_exceedsBound {b : Boarding α} {i : Nat} {arrivalTime : α}
    (harr : t.arrival? b.trip i = some arrivalTime)
    (hexceeds : w.exceedsBound (b.costUntil p arrivalTime) = true)
    (h : w.alight? t p b i = some w') : w' = w := by
  unfold alight? at h
  simp only [Option.bind_eq_bind, harr, Option.bind_some, hexceeds, if_true, Option.pure_def,
    Option.some.injEq] at h
  exact h.symm

/-- A scan of `w` from `first` on is at `x`. -/
structure Scanning (t : Timetable α) (w : Workspace α) (first x : Nat) (u : Workspace α)
    (held : Option (Boarding α)) : Prop where
  fits : u.Fits t
  labels : ∀ (id : Nat) (l : Label α), w.labels[id]? = some l → u.labels[id]? = some l
  /-- Only labels of route-stops behind have changed. -/
  best : ∀ i : Nat, i < first ∨ x ≤ i → u.best[i]? = w.best[i]?
  reached : ∀ i, i ∈ u.reached.toList ↔ i ∈ w.reached.toList ∨ u.best[i]? ≠ w.best[i]?
  holding : w.Holding t first x held

namespace Scanning

variable {u v : Workspace α} {held held' : Option (Boarding α)} {first x : Nat}

-- Where the scan is, labels are those from before it.
theorem holds_iff (h : Scanning t w first x u held) (hf : w.Fits t) (id : Nat) (l : Label α) :
    u.Holds x id l ↔ w.Holds x id l := by
  have hbest := h.best x (Or.inr (Nat.le_refl x))
  constructor
  · rintro ⟨hb, hl⟩
    rw [hbest] at hb
    rcases hf.exists_label x id hb with ⟨l', hl', -⟩
    have heq := h.labels id l' hl'
    rw [hl, Option.some.injEq] at heq
    exact ⟨hb, heq.symm ▸ hl'⟩
  · rintro ⟨hb, hl⟩
    exact ⟨hbest.trans hb, h.labels id l hl⟩

-- What is known where nothing is boarded, in terms of the labels from before.
theorem le_of_noEarlier (h : Scanning t w first x u held) (hf : w.Fits t)
    (hno : u.NoEarlier t held x) {trip : Nat} (hoffers : w.Offers t x trip) :
    ∃ b, held = some b ∧ b.trip ≤ trip := by
  rcases hoffers with ⟨id, l, hl, hnext⟩
  exact hno id l trip ((h.holds_iff hf id l).mpr hl) hnext

-- A visit that stores nothing takes the scan on.
theorem pass (h : Scanning t w first x u held) (hholding : w.Holding t first (x + 1) held') :
    Scanning t w first (x + 1) u held' :=
  { h with
    best := fun i hi => h.best i (by omega)
    holding := hholding }

-- A visit that boards.
theorem board (h : Scanning t w first x u held) (hf : w.Fits t) (hle : first ≤ x)
    {b : Boarding α} {l : Label α} (hboards : b.Boards t u.labels l)
    (hholds : u.Holds x b.label l) (hearlier : ∀ b', held = some b' → b.trip < b'.trip) :
    w.HoldsEarliest t first (x + 1) b := by
  have hstop : b.routeStop = x := hboards.routeStop_eq.trans (h.fits.holds_routeStop hholds)
  have hl : l.routeStop = x := h.fits.holds_routeStop hholds
  have hholds' := (h.holds_iff hf b.label l).mp hholds
  rcases hboards.held with ⟨a, ha, hb⟩
  have hnext := hboards.next
  rw [hl] at hnext ha
  -- What was offered before is later than the vehicle that was held, if any was.
  have hbefore : ∀ i trip, first ≤ i → i < x → w.Offers t i trip → b.trip < trip := by
    intro i trip hlo hhi hoffers
    cases held with
    | none => exact absurd hoffers (h.holding i trip hlo hhi)
    | some b' => exact Nat.lt_of_lt_of_le (hearlier b' rfl) (h.holding.least i trip hlo hhi hoffers)
  have hoffers : w.Offers t x b.trip := ⟨b.label, l, hholds', hnext⟩
  refine
    { first_le := hstop ▸ hle
      lt := hstop ▸ Nat.lt_succ_self x
      boarded := ⟨l, a, hstop ▸ hholds', hstop ▸ hnext, hstop ▸ ha, hb⟩
      least := fun i trip hlo hhi hoffers' => ?_
      earliest := fun i hlo hhi hoffers' => ?_ }
  · rcases Nat.lt_succ_iff_lt_or_eq.mp hhi with hlt | rfl
    · exact Nat.le_of_lt (hbefore i trip hlo hlt hoffers')
    · exact Nat.le_of_eq (hoffers.unique hoffers')
  · exact Nat.lt_irrefl _ (hbefore i b.trip hlo (hstop ▸ hhi) hoffers')

-- A stored label has a new position.
theorem best_ne_of_stored {l : Label α} (hu : u.Fits t) (hs : Stored t u l v) :
    v.best[l.routeStop]? ≠ u.best[l.routeStop]? := by
  rw [hs.best_self]
  intro heq
  rcases hu.exists_label _ _ heq.symm with ⟨l', hl', -⟩
  exact absurd (Array.getElem?_eq_some_iff.mp hl').1 (Nat.lt_irrefl _)

-- A visit that stores a ride.
theorem store (h : Scanning t w first x u held) (hle : first ≤ x)
    (hholding : w.Holding t first (x + 1) held') {l : Label α} (hl : l.routeStop = x)
    (hride : l.isRide = true) (hs : Stored t u l v) : Scanning t w first (x + 1) v held' := by
  subst hl
  have hbest := h.best _ (Or.inr (Nat.le_refl l.routeStop))
  refine
    { fits := hs.fits
      labels := fun id l' hl' => hs.labels_mono (h.labels id l' hl')
      best := fun i hi => (hs.best_other i (by omega)).trans (h.best i (by omega))
      reached := fun i => ?_
      holding := hholding }
  rw [hs.reached, h.reached, hride]
  by_cases hi : i = l.routeStop
  · subst hi
    have hne : v.best[l.routeStop]? ≠ w.best[l.routeStop]? :=
      hbest ▸ best_ne_of_stored h.fits hs
    exact ⟨fun _ => Or.inr hne, fun _ => Or.inr ⟨rfl, rfl⟩⟩
  · rw [hs.best_other i hi]
    exact ⟨fun hor => hor.resolve_right fun hc => hi hc.2, Or.inl⟩

/-- Leaving the vehicle held, where no earlier one is offered. -/
theorem alight (hw : t.WellFormed) {b : Boarding α} (h : Scanning t w first x u (some b))
    (hf : w.Fits t) (hle : first ≤ x) (hno : ∀ trip, w.Offers t x trip → b.trip ≤ trip)
    (ha : u.alight? t p b x = some v) :
    Scanning t w first (x + 1) v (some b) ∧ Relabels t p w u (some b) x v ∧
      (∀ i : Nat, i ≠ x → v.best[i]? = u.best[i]?) ∧
      ∀ (id : Nat) (l : Label α), u.labels[id]? = some l → v.labels[id]? = some l := by
  have hbest := h.best x (Or.inr (Nat.le_refl x))
  have hholding : w.Holding t first (x + 1) (some b) := HoldsEarliest.pass h.holding hno
  rcases (HoldsEarliest.serves h.holding).exists_departure hw with ⟨boardingTime, hdep⟩
  rcases h.fits.alight?_eq_some hdep ha with ⟨arrivalTime, harr, hoffered⟩
  have hrelabels : (w.Welcomes u x (b.toLabel p x boardingTime arrivalTime) →
        v.Holds x u.labels.size (b.toLabel p x boardingTime arrivalTime)) →
      (¬ w.Welcomes u x (b.toLabel p x boardingTime arrivalTime) → v.best[x]? = w.best[x]?) →
        Relabels t p w u (some b) x v := by
    intro hwelcome hturned
    refine ⟨?_, fun b' hb' _ => ?_⟩
    · rintro (hnone | ⟨b', trip, hb', hoffers, hlt⟩)
      · exact absurd hnone (by simp only [reduceCtorEq, not_false_eq_true])
      · rw [Option.some.injEq] at hb'
        exact absurd (hno trip hoffers) (Nat.not_le.mpr (hb' ▸ hlt))
    · rw [Option.some.injEq] at hb'
      subst hb'
      exact ⟨arrivalTime, boardingTime, harr, hdep, hwelcome, hturned⟩
  cases hoffered with
  | exceeded hexceeds =>
      refine ⟨h.pass hholding, hrelabels (fun hwelcome => ?_) fun _ => hbest, fun i _ => rfl,
        fun id l hl => hl⟩
      rw [((w.welcomes_iff u x _).mp hwelcome).1] at hexceeds
      exact absurd hexceeds (by decide)
  | @kept id held hheld hkept =>
      refine ⟨h.pass hholding, hrelabels (fun hwelcome => ?_) fun _ => hbest, fun i _ => rfl,
        fun id l hl => hl⟩
      have hbeaten := ((w.welcomes_iff u x _).mp hwelcome).2 id held
        ((h.holds_iff hf id held).mp hheld)
      rw [hkept] at hbeaten
      exact absurd hbeaten (by decide)
  | stored hs hbeaten =>
      refine ⟨h.store hle hholding rfl rfl hs, hrelabels (fun _ => hs.holds_self)
        fun hturned => absurd ?_ hturned, hs.best_other, fun id l hl => hs.labels_mono hl⟩
      -- It has been stored, so it was not beyond the bound.
      refine (w.welcomes_iff u x _).mpr ⟨Bool.eq_false_iff.mpr fun hexceeds => ?_,
        fun id held hheld => hbeaten id held ((h.holds_iff hf id held).mpr hheld)⟩
      exact best_ne_of_stored h.fits hs (by rw [alight?_of_exceedsBound harr hexceeds ha])

/-- What one visit of a scan does. -/
theorem visit (hw : t.WellFormed) (hf : w.Fits t) (hle : first ≤ x)
    (h : Scanning t w first x u held) (hvisit : Visit t p u held x v held') :
    Scanning t w first (x + 1) v held' ∧ Relabels t p w u held x v ∧
      (∀ i : Nat, i ≠ x → v.best[i]? = u.best[i]?) ∧
      ∀ (id : Nat) (l : Label α), u.labels[id]? = some l → v.labels[id]? = some l := by
  have hbest := h.best x (Or.inr (Nat.le_refl x))
  cases hvisit with
  | @switch b l hboards hholds hearlier =>
      have hb := h.board hf hle hboards hholds hearlier
      have hoffers : w.Offers t x b.trip := by
        have hstop : b.routeStop = x := hboards.routeStop_eq.trans (h.fits.holds_routeStop hholds)
        exact hstop ▸ hb.offers
      refine ⟨h.pass hb, ⟨fun _ => hbest, fun b' hb' hno => ?_⟩, fun i _ => rfl, fun id l hl => hl⟩
      exact absurd (hno b.trip hoffers) (Nat.not_le.mpr (hearlier b' hb'))
  | pass hno hheld =>
      subst hheld
      refine ⟨h.pass fun i trip hlo hhi hoffers => ?_, ⟨fun _ => hbest, fun b hb => ?_⟩,
        fun i _ => rfl, fun id l hl => hl⟩
      · rcases Nat.lt_succ_iff_lt_or_eq.mp hhi with hlt | rfl
        · exact h.holding i trip hlo hlt hoffers
        · rcases h.le_of_noEarlier hf hno hoffers with ⟨b, hb, -⟩
          exact absurd hb (by simp only [reduceCtorEq, not_false_eq_true])
      · exact absurd hb (by simp only [reduceCtorEq, not_false_eq_true])
  | @alight b v hno hheld ha =>
      subst hheld
      refine h.alight hw hf hle (fun trip hoffers => ?_) ha
      rcases h.le_of_noEarlier hf hno hoffers with ⟨b', hb', hle'⟩
      rw [Option.some.injEq] at hb'
      exact hb' ▸ hle'

/-- What a number of visits one after the other do. -/
theorem visits (hw : t.WellFormed) (hf : w.Fits t) (hle : first ≤ x) {y : Nat} (hxy : x ≤ y)
    (h : Scanning t w first x u held)
    (hloop : (Span.mk x y).toList.foldlM (scanStop? t p) (u, held) = some (v, held')) :
    Scanning t w first y v held' ∧ (∀ i : Nat, i < x → v.best[i]? = u.best[i]?) ∧
      ∀ (id : Nat) (l : Label α), u.labels[id]? = some l → v.labels[id]? = some l := by
  have hinv := Loop.foldlM_invariant (f := scanStop? t p)
    (fun done s => Scanning t w first (x + done.length) s.1 s.2 ∧
      (∀ i : Nat, i < x → s.1.best[i]? = u.best[i]?) ∧
      ∀ (id : Nat) (l : Label α), u.labels[id]? = some l → s.1.labels[id]? = some l)
    (Span.mk x y).toList ?_ (u, held) (v, held')
    ⟨h, fun i _ => rfl, fun id l hl => hl⟩ hloop
  · rw [Span.length_toList, Nat.add_sub_cancel' hxy] at hinv
    exact hinv
  · rintro done z rest ⟨s, hs⟩ ⟨s', hs'⟩ hsplit ⟨hscan, hbehind, hlabels⟩ hstop
    rcases Span.toList_split hsplit with ⟨rfl, -⟩
    rcases hscan.visit hw hf (Nat.le_trans hle (Nat.le_add_right _ _)) (hscan.fits.visit hstop) with
      ⟨hscan', -, hother, hmono⟩
    rw [List.length_append, List.length_singleton, ← Nat.add_assoc]
    exact ⟨hscan', fun i hi => (hother i (by omega)).trans (hbehind i hi),
      fun id l hl => hmono id l (hlabels id l hl)⟩

end Scanning

-- What becomes of a label in one state becomes of it in a later one where it is the same.
theorem Relabels.mono {u v : Workspace α} {held : Option (Boarding α)} {i : Nat}
    (h : Relabels t p w u held i v) (hbest : w'.best[i]? = v.best[i]?)
    (hlabels : ∀ (id : Nat) (l : Label α), v.labels[id]? = some l → w'.labels[id]? = some l) :
    Relabels t p w u held i w' := by
  refine ⟨fun hstays => hbest.trans (h.stays hstays), fun b hb hno => ?_⟩
  rcases h.rides b hb hno with ⟨a, d, ha, hd, hwelcome, hturned⟩
  exact ⟨a, d, ha, hd, fun hw => ⟨hbest.trans (hwelcome hw).1, hlabels _ _ (hwelcome hw).2⟩,
    fun hw => hbest.trans (hturned hw)⟩

-- A scan starts at the start noted for its route, which is no later than its end.
theorem Fits.scanning_start (hw : t.WellFormed) (hf : w.Fits t) {r : Nat} {row : Route}
    {first : Nat} (hrow : t.routes[r]? = some row)
    (h : w.takeScanStart? r row = some (w', first)) :
    first = (w.scanStart[r]?.join).getD row.firstRouteStop ∧ row.routeStops.start ≤ first ∧
      first ≤ row.routeStops.stop ∧ Scanning t w first first w' none := by
  rcases hf.quiet_takeScanStart? hw hrow h with ⟨hquiet, hfirst, -, hreached, -⟩
  rcases takeScanStart?_eq_some h with ⟨start, scanStart, hstart, -, -, heq⟩
  refine ⟨by rw [hstart, Option.join_some, heq], hfirst, ?_, ?_⟩
  · rw [heq]
    cases start with
    | none => exact (hw.routeStops_span r row hrow).1
    | some s =>
        rcases hf.scanStart_route r s hstart with ⟨rs, hrs, hr⟩
        exact Nat.le_of_lt ((hw.route_iff s r rs row hrs hrow).mp hr).2
  · exact
      { fits := hquiet.fits hf
        labels := fun id l hl => by rwa [hquiet.labels]
        best := fun i _ => by rw [hquiet.best]
        reached := fun i => by
          simp only [hreached, hquiet.best, ne_eq, not_true_eq_false, or_false]
        holding := fun i trip hlo hhi => absurd hhi (Nat.not_lt.mpr hlo) }

/-- Scanning a route follows the rule, in any workspace that fits. -/
theorem Fits.scansByRule (hw : t.WellFormed) (hf : w.Fits t) {r : Nat} {row : Route}
    (hrow : t.routes[r]? = some row) (h : scanRoute? t p w r = some w') :
    ∃ first, ScansByRule t p r row first w w' := by
  rcases scanRoute?_eq_some h with ⟨row', w₁, first, last, hrow', htake, hloop⟩
  rw [hrow, Option.some.injEq] at hrow'
  subst hrow'
  rcases hf.scanning_start hw hrow htake with ⟨hfirst, hstart, hstop, hscan⟩
  -- The scan of the whole route goes through the state at any of its route-stops.
  have hsplit : ∀ x, first ≤ x → x ≤ row.routeStops.stop → ∃ s,
      (Span.mk first x).toList.foldlM (scanStop? t p) (w₁, none) = some s ∧
        (Span.mk x row.routeStops.stop).toList.foldlM (scanStop? t p) s = some (w', last) := by
    intro x hlo hhi
    rw [← Span.toList_append hlo hhi, List.foldlM_append] at hloop
    exact Option.bind_eq_some_iff.mp hloop
  have hgets : ∀ x u held, ScanGets t p w r x u held →
      (Span.mk first x).toList.foldlM (scanStop? t p) (w₁, none) = some (u, held) := by
    rintro x u held ⟨row', w₁', first', hrow', htake', hu⟩
    rw [hrow, Option.some.injEq] at hrow'
    subst hrow'
    rw [htake, Option.some.injEq, Prod.mk.injEq] at htake'
    rw [htake'.1, htake'.2]
    exact hu
  have hend := (hscan.visits hw hf (Nat.le_refl _) hstop hloop).1
  refine ⟨first,
    { first_eq := hfirst
      on_route := hstart
      gets := fun x hlo hhi => ?_
      holding := fun x u held hlo hhi hu =>
        (hscan.visits hw hf (Nat.le_refl _) hlo (hgets x u held hu)).1.holding
      relabels := fun x u held hlo hhi hu => ?_
      reached := hend.reached
      elsewhere := hend.best
      labels := hend.labels }⟩
  · rcases hsplit x hlo hhi with ⟨⟨u, held⟩, hu, -⟩
    exact ⟨u, held, row, w₁, first, hrow, htake, hu⟩
  · have hu' := hgets x u held hu
    rcases hsplit x hlo (Nat.le_of_lt hhi) with ⟨s, hs, hrest⟩
    rw [hu', Option.some.injEq] at hs
    subst hs
    rw [Span.toList_cons hhi] at hrest
    rcases Loop.foldlM_cons_eq_some hrest with ⟨⟨v, held'⟩, hvisit, hrest⟩
    have hscanx := (hscan.visits hw hf (Nat.le_refl _) hlo hu').1
    rcases hscanx.visit hw hf hlo (hscanx.fits.visit hvisit) with ⟨hscan', hrelabels, -, -⟩
    -- The visits after this one do not come back.
    rcases hscan'.visits hw hf (Nat.le_succ_of_le hlo) hhi hrest with ⟨-, hbest, hlabels⟩
    exact hrelabels.mono (hbest x (Nat.lt_succ_self x)) hlabels

-- What a scan reaches is on its route.
theorem ScansByRule.on_of_reached (hw : t.WellFormed) {r first i : Nat} {row : Route}
    (hrow : t.routes[r]? = some row) (h : ScansByRule t p r row first w w')
    (hi : i ∈ w'.reached.toList) : i ∈ w.reached.toList ∨ t.On i r := by
  rcases (h.reached i).mp hi with hi | hne
  · exact Or.inl hi
  · refine Or.inr ((hw.on_iff hrow i).mpr ?_)
    by_contra hout
    exact hne (h.elsewhere i (by have := h.on_route; omega))

/-- When the turn of a route comes in a round, none of its route-stops has been reached
    yet. -/
theorem BeforeScan.not_mem_reached {policy : TransferPolicy α} {q : SearchQuery α}
    (hw : t.WellFormed) (hf : w.Fits t) {r : Nat} {u : Workspace α}
    (h : BeforeScan t policy q w r u) {i : Nat} (hi : t.On i r) : i ∉ u.reached.toList := by
  rcases h with ⟨n, v, v₁, done, rest, hbefore, hopen, htouched, hdone⟩
  have hfv : v.Fits t := (hbefore.moment.run hw hf).fits hf.reset
  rcases quiet_openRound? hopen with ⟨hquiet, hnone, -⟩
  have hfv₁ := hquiet.fits hfv
  have hbelow : ∀ r' ∈ done, r' < t.routes.size := fun r' hr' =>
    hfv₁.touched_over.mem_lt (htouched ▸ List.mem_append_left _ hr')
  have hinv := Loop.foldlM_invariant (f := scanRoute? t q.parameters)
    (fun before s => (Run t policy q v₁ s ∧ s.ByVehicle) ∧
      ∀ i ∈ s.reached.toList, ∃ r' ∈ before, t.On i r') done ?_ v₁ u
    ⟨⟨Run.refl v₁, byVehicle_of_openRound? hopen⟩, fun i hi => ?_⟩ hdone
  · intro hmem
    rcases hinv.2 i hmem with ⟨r', hr', hon⟩
    -- Every route is scanned once.
    exact hfv₁.touched_over.valid.not_mem_before htouched (hon.unique hi ▸ hr')
  · rintro before r' after s s' hsplit ⟨⟨hrun, hby⟩, hreached⟩ hscan
    have hfs := hrun.fits hfv₁
    have hrow := Array.getElem?_eq_getElem
      (hbelow r' (hsplit ▸ List.mem_append_right _ List.mem_cons_self))
    rcases (inScanRoute_of_scanRoute? hscan).run hw hfs hby with ⟨hrun', hby'⟩
    rcases hfs.scansByRule hw hrow hscan with ⟨first, hrule⟩
    refine ⟨⟨hrun.trans hrun', hby'⟩, fun i hi => ?_⟩
    rcases hrule.on_of_reached hw hrow hi with hi | hon
    · rcases hreached i hi with ⟨r'', hr'', hon⟩
      exact ⟨r'', List.mem_append_left _ hr'', hon⟩
    · exact ⟨r', List.mem_append_right _ List.mem_cons_self, hon⟩
  · rw [hnone] at hi
    exact absurd hi List.not_mem_nil

end Workspace

namespace Sample

/-- A line with two vehicles, of which the second one can be caught at the beginning and
    the first one at the next stop. -/
def twoVehicles : Draft ℚ :=
  network ["A", "B", "C"] [line "one" [("A", 0), ("B", 10), ("C", 20)] [0, 30]] []

/-- Beginning late at the first stop or early at the second. -/
def lateOrAhead : SearchQuery ℚ :=
  query [{ candidate 0 0 with time := 20 }, { candidate 1 0 with time := 5 }] [candidate 2 0] 1

end Sample

namespace Engine

namespace InService

variable {α : Type} [Scalar α] [Planar α] [MarkerTree α] {t : Timetable α}
  {policy : TransferPolicy α} {e : Engine α}

/-- In every state in which the scan of a route begins, scanning a route succeeds and
    follows the rule. If its turn has come, what it reaches is what it relabels. -/
theorem scanRoute?_by_rule {d : Draft α} (hd : d.build = .ok t) (h : InService t policy e)
    {q : SearchQuery α} {w : Workspace α} {turn : Nat}
    (hm : Workspace.BeforeScan t policy q e.workspace turn w) {r : Nat} {row : Route}
    (hrow : t.routes[r]? = some row) :
    ∃ w' first, Workspace.scanRoute? t q.parameters w r = some w' ∧
      Workspace.ScansByRule t q.parameters r row first w w' ∧
      (r = turn → ∀ i, i ∈ w'.reached.toList ∧ i ∉ w.reached.toList ↔
        w'.best[i]? ≠ w.best[i]?) := by
  have hw := Draft.wellFormed_of_build hd
  rcases h.fits hw with ⟨-, -, hfe⟩
  have hf : w.Fits t := (hm.moment.run hw hfe).fits hfe.reset
  rcases hf.scanRoute?_exists hw q (Array.getElem?_eq_some_iff.mp hrow).1 with ⟨w', hscan⟩
  rcases hf.scansByRule hw hrow hscan with ⟨first, hrule⟩
  refine ⟨w', first, hscan, hrule, ?_⟩
  rintro rfl i
  rw [hrule.reached]
  constructor
  · exact fun hi => hi.1.resolve_left hi.2
  · intro hne
    refine ⟨Or.inr hne, hm.not_mem_reached hw hfe ((hw.on_iff hrow i).mpr ?_)⟩
    by_contra hout
    exact hne (hrule.elsewhere i (by have := hrule.on_route; omega))

/-- The vehicle held from the first stop is given up for the earlier one at the second,
    and it is the earlier one that takes the traveller to the end. -/
theorem scanRoute?_by_rule_twoVehicles : ∃ w w' first row,
    Workspace.BeforeScan Sample.twoVehicles.assemble (TransferPolicy.flat 0) Sample.lateOrAhead
      (Engine.new Sample.twoVehicles.assemble (TransferPolicy.flat 0)).workspace 0 w ∧
    Workspace.scanRoute? Sample.twoVehicles.assemble Sample.lateOrAhead.parameters w 0 = some w' ∧
    Workspace.ScansByRule Sample.twoVehicles.assemble Sample.lateOrAhead.parameters 0 row first
      w w' ∧
    (w'.labels[2]?.map fun l => (l.previous, l.step, l.time)) = some (some 1, .ride 0 10, 20) := by
  have hbuild : Sample.twoVehicles.build = .ok Sample.twoVehicles.assemble :=
    Sample.build_eq_ok (by decide +kernel)
  have hrun : ((Workspace.ofTimetable Sample.twoVehicles.assemble).begin?
      Sample.twoVehicles.assemble Sample.lateOrAhead).bind (fun v =>
        (v.openRound? Sample.twoVehicles.assemble).bind fun w =>
          (Workspace.scanRoute? Sample.twoVehicles.assemble Sample.lateOrAhead.parameters w 0).map
            fun w' => (w.touched.toList, w'.labels[2]?.map fun l => (l.previous, l.step, l.time)))
      = some ([0], some (some 1, .ride 0 10, 20)) := by decide +kernel
  rcases Option.bind_eq_some_iff.mp hrun with ⟨v, hbegin, hrun⟩
  rcases Option.bind_eq_some_iff.mp hrun with ⟨w, hopen, hrun⟩
  rcases Option.map_eq_some_iff.mp hrun with ⟨w', hscan, hview⟩
  rw [Prod.mk.injEq] at hview
  have hbefore : Workspace.BeforeScan Sample.twoVehicles.assemble (TransferPolicy.flat 0)
      Sample.lateOrAhead
      (Engine.new Sample.twoVehicles.assemble (TransferPolicy.flat 0)).workspace 0 w :=
    ⟨0, v, w, [], [], Workspace.BeforeRound.first hbegin, hopen, hview.1, rfl⟩
  have hrow : Sample.twoVehicles.assemble.routes[0]? =
      some Sample.twoVehicles.assemble.routes[0] := rfl
  rcases scanRoute?_by_rule hbuild InService.new hbefore hrow with ⟨w₁, first, hscan₁, hrule, -⟩
  rw [hscan, Option.some.injEq] at hscan₁
  subst hscan₁
  exact ⟨w, w', first, _, hbefore, hscan, hrule, hview.2⟩

end InService

end Engine

end Journey
