import Journey.Proofs.MoreRounds
import Journey.Proofs.Search.BetweenRounds
import Journey.Proofs.Search.Bounds
import Journey.Proofs.Search.Moves
import Journey.Proofs.Search.Scanning
import Journey.Proofs.Search.Tightening

/-!
# The Best Walk to a Route-Stop

What the walks of a round do, in whatever order they are made.

The walks overwrite labels of route-stops from which others still start, and the bound
gets tighter on the way, so each walk depends on those before it. What comes out does not.
The rides that walks start from are fixed before the first one, and since labels are never
changed and a policy prices by the chain of the ride, all walks cost what they cost at the
beginning. A walk is turned down only for a label that is as good, which may be replaced
by a better one but never lost, or for a bound that it exceeds, which only gets tighter.
A ride beyond the bound is passed over with all of its walks, which cost no less. So when
all rides have been looked at, every walk is answered: it is dearer than the bound, or its
target has something as good. As every new label is one of the walks, the best of them
and of the label that was there is what a route-stop has, unless it is dearer than the
bound.

The bound itself is a least cost as well, as long as no way out has a negative cost:
a walk that is dearer than the bound cannot tighten it.

## Main definitions

* `Walk`, `Walk.arrival`: A walk from a ride, and the label that it offers.
* `Walk.Open`: The walks of a round.
* `Workspace.Eligible`: What a route-stop chooses from.
* `Workspace.Totals`: The complete journeys that determine the bound.
* `Workspace.WalksByRule`: What the walks of a round do.
* `Workspace.Sources`: The rides that they start from.
* `Workspace.Walking`: What is true when some walks have been made.

## Theorems

* `Workspace.Run.price_eq`: Prices do not depend on the walks before.
* `Workspace.Walking.walkTo`: What one walk does.
* `Workspace.Ready.walksByRule`: What the walks of a round do, in any order.
* `SearchQuery.Growing.charges`: What is assumed of increments is true of the policies that
  a search comes with.
* `Engine.InService.relax?_by_rule`: The walks of a search follow the rule.
-/

namespace Journey

/-- A walk from a ride along a footpath to a route-stop, and what the transfer policy adds
    to its cost. -/
structure Walk (α : Type) extends Departing α where
  path : Footpath α
  target : Nat
  increment : α

section Definitions

variable {α : Type} [Scalar α]

/-- The arrival on foot. -/
def Walk.arrival (p : Parameters α) (x : Walk α) : Label α :=
  { previous := some x.id
    routeStop := x.target
    step := .transfer (x.path.time p) (x.path.time p * p.walkCost + x.increment)
    time := x.label.time + x.path.time p
    cost := x.label.cost + (x.path.time p * p.walkCost + x.increment)
    transferCost := x.label.transferCost + x.increment
    transfers := x.label.transfers + 1 }

omit [Scalar α] in
/-- A ride by which a route-stop was reached, and which its label was when the routes had
    been scanned. -/
structure Departing.Arrived (t : Timetable α) (w : Workspace α) (d : Departing α) : Prop where
  reached : d.label.routeStop ∈ w.reached.toList
  holds : w.Holds d.label.routeStop d.id d.label
  mode : t.modeOf? d.label.routeStop = some d.mode

omit [Scalar α] in
theorem Departing.Arrived.isRide {t : Timetable α} {w : Workspace α} {d : Departing α}
    (h : d.Arrived t w) (hf : w.Fits t) (hv : w.ByVehicle) : d.label.isRide = true := by
  rcases hv.source hf h.reached h.holds.1 with ⟨l, hl, -, hride⟩
  rw [h.holds.2, Option.some.injEq] at hl
  exact hl ▸ hride

omit [Scalar α] in
-- One label is one ride.
theorem Departing.Arrived.eq_of_id_eq {t : Timetable α} {w : Workspace α} {d d' : Departing α}
    (h : d.Arrived t w) (h' : d'.Arrived t w) (hid : d.id = d'.id) : d = d' := by
  have hlabel : d.label = d'.label := Option.some.inj (h.holds.2.symm.trans (hid ▸ h'.holds.2))
  have hmode : d.mode = d'.mode := Option.some.inj (h.mode.symm.trans (hlabel ▸ h'.mode))
  cases d
  cases d'
  simp only at hid hlabel hmode
  rw [hid, hlabel, hmode]

/-- A walk of the round whose routes have been scanned in `w`. -/
structure Walk.Open (t : Timetable α) (policy : TransferPolicy α) (q : SearchQuery α)
    (w : Workspace α) (x : Walk α) : Prop where
  arrived : x.toDeparting.Arrived t w
  leads : t.Leads x.path x.label.routeStop x.target
  priced : ∃ toMode, t.modeOf? x.target = some toMode ∧
    policy t (x.toDeparting.context q w.labels toMode (x.path.time q.parameters)) =
      some x.increment

/-- What a route-stop can choose from when the routes have been scanned: the label that it
    has, and the arrivals of the walks that lead to it. -/
def Workspace.Eligible (t : Timetable α) (policy : TransferPolicy α) (q : SearchQuery α)
    (w : Workspace α) (i : Nat) (l : Label α) : Prop :=
  (∃ id, w.Holds i id l) ∨
    ∃ x : Walk α, x.Open t policy q w ∧ x.target = i ∧ l = x.arrival q.parameters

end Definitions

variable {K : Type} [Field K] [LinearOrder K]

-- The minimal transfer time keeps walks from taking negative time.
theorem Parameters.time_nonneg {p : Parameters K} (hp : p.validate = .ok ()) (f : Footpath K) :
    0 ≤ f.time p := by
  unfold Footpath.time
  rw [Scalar.larger_eq_max]
  exact le_max_of_le_right (validate_ok hp).2.2.2

-- No walk costs less than the ride that it starts from.
theorem Walk.cost_le_arrival [IsStrictOrderedRing K] {p : Parameters K} (hp : p.validate = .ok ())
    (x : Walk K) (hx : 0 ≤ x.increment) : x.label.cost ≤ (x.arrival p).cost := by
  have hwalk := mul_nonneg (Parameters.time_nonneg hp x.path) (Parameters.walkCost_nonneg hp)
  change x.label.cost ≤ x.label.cost + (x.path.time p * p.walkCost + x.increment)
  linarith

namespace Workspace

/-- What a policy asks for a walk from a ride does not depend on the labels stored since. -/
theorem Run.price_eq {α : Type} [Scalar α] {t : Timetable α} {policy : TransferPolicy α}
    {q : SearchQuery α} {w u : Workspace α} (h : Run t policy q w u) (hlegal : w.Legal t policy q)
    (hpolicy : policy.ByChain) {d : Departing α} (hd : w.labels[d.id]? = some d.label)
    (toMode : Mode) (duration : α) :
    policy t (d.context q u.labels toMode duration) =
      policy t (d.context q w.labels toMode duration) := by
  rcases hlegal.exists_traced d.id d.label hd with ⟨trace, htrace⟩
  have htwins := hlegal.twins_of_moves_eq (h.legal hlegal) hpolicy htrace
    (htrace.mono fun _ _ hl => h.labels_mono hl) rfl
  exact hpolicy t _ _ q.access q.access d.label d.label hlegal.ordered (h.legal hlegal).ordered hd
    (h.labels_mono hd) htwins rfl

variable {t : Timetable K} {policy : TransferPolicy K} {q : SearchQuery K} {w u u' : Workspace K}

/-- The total costs from which the bound is chosen: the bound there was, and the costs of the
    complete journeys that end with a walk, where that is better than the label there was. -/
def Totals (t : Timetable K) (policy : TransferPolicy K) (q : SearchQuery K) (w : Workspace K)
    (c : K) : Prop :=
  w.bound = some c ∨ ∃ (x : Walk K) (e : Egress K), x.Open t policy q w ∧
    (∀ id held, w.Holds x.target id held → ¬ held.AsGoodAs (x.arrival q.parameters)) ∧
    w.egress[x.target]? = some (some e) ∧ c = (x.arrival q.parameters).cost + e.cost

/-- What the walks of a round do that starts in `w`. -/
structure WalksByRule (t : Timetable K) (policy : TransferPolicy K) (q : SearchQuery K)
    (w w' : Workspace K) : Prop where
  /-- A route-stop has a label as good as the best it could choose from, unless that is beyond
      the bound. -/
  least : ∀ i l, w.Eligible t policy q i l →
    (∀ l', w.Eligible t policy q i l' → l.AsGoodAs l') →
    (∀ b, w'.bound = some b → l.cost ≤ b) →
    ∃ id held, w'.Holds i id held ∧ held.cost = l.cost ∧ held.transfers = l.transfers
  /-- What is improved are the route-stops with another label than before. -/
  improved : ∀ i, i ∈ w'.improved.toList ↔ w'.best[i]? ≠ w.best[i]?
  labels : ∀ (id : Nat) (l : Label K), w.labels[id]? = some l → w'.labels[id]? = some l
  /-- What has been stored are walks from rides, and these were there before. -/
  walked : ∀ (id : Nat) (l : Label K), w'.labels[id]? = some l → w.labels.size ≤ id →
    ∃ x : Walk K, x.Open t policy q w ∧ l = x.arrival q.parameters ∧ x.label.isRide = true ∧
      l.previous = some x.id ∧ x.id < w.labels.size
  bound : (∀ c ∈ q.egress, 0 ≤ c.cost) → Scalar.IsLeast (w.Totals t policy q) w'.bound

/-- The rides from which the walks of a round start: one for each route-stop that was reached
    by vehicle, which is the label that it has. -/
structure Sources {α : Type} (w : Workspace α) (rides : List (Nat × Nat)) : Prop where
  reached : rides.map Prod.fst = w.reached.toList
  once : rides.Nodup
  rides : ∀ i id, (i, id) ∈ rides → ∃ l, w.Holds i id l ∧ l.isRide = true

/-- What is known of a workspace from which the walks of a round start. -/
structure Ready (t : Timetable K) (policy : TransferPolicy K) (q : SearchQuery K)
    (w : Workspace K) : Prop where
  fits : w.Fits t
  legal : w.Legal t policy q
  egressTold : w.EgressTold t q
  keepsBest : w.KeepsBest
  byVehicle : w.ByVehicle
  unimproved : ∀ i, i ∉ w.improved.toList

/-- The walks start from such a workspace. -/
theorem AfterScans.ready {start : Workspace K} (hw : t.WellFormed) (hf : start.Fits t)
    (h : AfterScans t policy q start w) : Ready t policy q w := by
  have hrun : Run t policy q start.reset w := h.moment.run hw hf
  rcases h with ⟨n, v, v₁, hbefore, hopen, hscanned⟩
  rcases quiet_openRound? hopen with ⟨hquiet, -, himproved, -⟩
  have hfv := hquiet.fits ((hbefore.moment.run hw hf).fits hf.reset)
  have hscanning : Run t policy q v₁ w ∧ w.ByVehicle :=
    run_of_scanning hw hfv (byVehicle_of_openRound? hopen) (Loop.passes_of_foldlM _ hscanned)
  refine
    { fits := hrun.fits hf.reset
      legal := hrun.legal hf.clean_reset.legal
      egressTold := hrun.egressTold hf.clean_reset.egressTold
      keepsBest := hrun.keepsBest hf.clean_reset.keepsBest
      byVehicle := hscanning.2
      unimproved := fun i hi => ?_ }
  -- Rides are not noted as improvements.
  rw [(swept_of_scanRoutes? hw hfv hscanned).improved, himproved] at hi
  exact absurd hi List.not_mem_nil

/-- An arrival is beyond the bound, or its route-stop has a label that is as good. -/
def Answered (u : Workspace K) (l : Label K) : Prop :=
  (∃ b, u.bound = some b ∧ b < l.cost) ∨
    ∃ id held, u.Holds l.routeStop id held ∧ held.AsGoodAs l

theorem Offered.answered {l : Label K} (h : Offered t u l u') : u'.Answered l := by
  cases h with
  | exceeded h => exact Or.inl (exceedsBound_eq_true h)
  | kept h hkept => exact Or.inr ⟨_, _, h, (Label.not_isBeatenBy_iff _ _).mp hkept⟩
  | stored h => exact Or.inr ⟨_, _, h.holds_self, Label.AsGoodAs.refl l⟩

/-- What is answered stays answered. -/
theorem Run.answered (h : Run t policy q u u') (hf : u.Fits t) (hkeeps : u.KeepsBest)
    {l : Label K} (hl : u.Answered l) : u'.Answered l := by
  rcases hl with ⟨b, hb, hlt⟩ | ⟨id, held, hheld, hgood⟩
  · rcases h.tightens hf b hb with ⟨b', hb', hle⟩
    exact Or.inl ⟨b', hb', lt_of_le_of_lt hle hlt⟩
  · rcases h.holds_asGoodAs hf hkeeps hheld with ⟨id', held', hheld', hgood'⟩
    exact Or.inr ⟨id', held', hheld', hgood'.trans hgood⟩

/-- Some of the walks of a round that starts in `w` have been made. -/
structure Walking (t : Timetable K) (policy : TransferPolicy K) (q : SearchQuery K)
    (w u : Workspace K) : Prop where
  run : Run t policy q w u
  egress : u.egress = w.egress
  improved : ∀ i, i ∈ u.improved.toList ↔ u.best[i]? ≠ w.best[i]?
  /-- All new labels are walks. -/
  walked : ∀ (id : Nat) (l : Label K), u.labels[id]? = some l → w.labels[id]? = some l ∨
    ∃ x : Walk K, x.Open t policy q w ∧ l = x.arrival q.parameters
  /-- The bound is that of a journey. -/
  bound : ∀ c, u.bound = some c → w.Totals t policy q c
  /-- The complete journeys that new labels lead to do not cost less. -/
  told : ∀ (id : Nat) (l : Label K) (e : Egress K), u.labels[id]? = some l →
    w.labels.size ≤ id → w.egress[l.routeStop]? = some (some e) →
    ∃ b, u.bound = some b ∧ b ≤ l.cost + e.cost

namespace Walking

theorem start (h : Ready t policy q w) : Walking t policy q w w where
  run := Run.refl w
  egress := rfl
  improved := fun i => iff_of_false (h.unimproved i) (fun hne => hne rfl)
  walked := fun _ _ hl => Or.inl hl
  bound := fun _ hc => Or.inl hc
  told := fun _ _ _ hl hid => absurd (Array.getElem?_eq_some_iff.mp hl).1 (Nat.not_lt.mpr hid)

theorem fits (h : Walking t policy q w u) (hw : Ready t policy q w) : u.Fits t :=
  h.run.fits hw.fits

theorem legal (h : Walking t policy q w u) (hw : Ready t policy q w) : u.Legal t policy q :=
  h.run.legal hw.legal

theorem keepsBest (h : Walking t policy q w u) (hw : Ready t policy q w) : u.KeepsBest :=
  h.run.keepsBest hw.keepsBest

-- No route-stop had a label before at the position of the next one.
theorem best_ne (h : Walking t policy q w u) (hw : Ready t policy q w) (i : Nat) :
    w.best[i]? ≠ some (some u.labels.size) := by
  intro hbest
  rcases hw.fits.exists_label i _ hbest with ⟨l, hl, -⟩
  exact absurd (Array.getElem?_eq_some_iff.mp (h.run.labels_mono hl)).1 (Nat.lt_irrefl _)

/-- A walk is stored. -/
theorem store (h : Walking t policy q w u) (hw : Ready t policy q w) {x : Walk K}
    (hx : x.Open t policy q w) (hrun : Run t policy q u u')
    (hs : Stored t u (x.arrival q.parameters) u')
    (hbeaten : ∀ id held, u.Holds x.target id held →
      held.isBeatenBy (x.arrival q.parameters).cost (x.arrival q.parameters).transfers = true) :
    Walking t policy q w u' := by
  refine
    { run := h.run.trans hrun
      egress := hs.egress.trans h.egress
      improved := fun i => ?_
      walked := fun id l hl => ?_
      bound := fun c hc => ?_
      told := fun id l e hl hid he => ?_ }
  · rw [hs.improved, h.improved]
    by_cases hi : i = x.target
    · subst hi
      have hself : u'.best[x.target]? = some (some u.labels.size) := hs.best_self
      rw [hself]
      exact iff_of_true (Or.inr ⟨rfl, rfl⟩) (h.best_ne hw x.target).symm
    · rw [hs.best_other i hi]
      exact or_iff_left fun hself => hi hself.2
  · rcases hs.label_cases hl with ⟨-, rfl⟩ | hl
    · exact Or.inr ⟨x, hx, rfl⟩
    · exact h.walked id l hl
  · rcases hs.bound_cases (h.fits hw) with heq | ⟨e, b, he, hb, hcases, -⟩
    · exact h.bound c (heq.symm.trans hc)
    · rw [hc, Option.some.injEq] at hb
      subst hb
      rcases hcases with rfl | hbefore
      · refine Or.inr ⟨x, e, hx, fun id held hheld hgood => ?_, h.egress ▸ he, rfl⟩
        -- What is there now is as good as what was there before.
        rcases h.run.holds_asGoodAs hw.fits hw.keepsBest hheld with ⟨id', held', hheld', hgood'⟩
        have hkept := (Label.not_isBeatenBy_iff _ _).mpr (hgood'.trans hgood)
        exact absurd (hkept.symm.trans (hbeaten id' held' hheld')) (by decide)
      · exact h.bound c hbefore
  · rcases hs.label_cases hl with ⟨-, rfl⟩ | hl
    · rcases tightened_cases u.bound ((x.arrival q.parameters).cost + e.cost) with ⟨b, hb, hle, -⟩
      exact ⟨b, (hs.bound_destination e (h.egress.symm ▸ he)).trans hb, hle⟩
    · rcases h.told id l e hl hid he with ⟨b, hb, hle⟩
      rcases hs.bound_le (h.fits hw) hb with ⟨b', hb', hle'⟩
      exact ⟨b', hb', le_trans hle' hle⟩

/-- What one walk does: walks go on, and it is answered. -/
theorem walkTo (h : Walking t policy q w u) (hw : Ready t policy q w) (hpolicy : policy.ByChain)
    {d : Departing K} (hd : d.Arrived t w) {f : Footpath K} {i : Nat}
    (hleads : t.Leads f d.label.routeStop i)
    (hwalk : walkTo? t policy q d (f.time q.parameters) u i = some u') :
    Walking t policy q w u' ∧ Run t policy q u u' ∧
      ∀ x : Walk K, x.Open t policy q w → x.toDeparting = d → x.path = f → x.target = i →
        u'.Answered (x.arrival q.parameters) := by
  rcases Option.bind_eq_some_iff.mp hwalk with ⟨l, hl, hoffer⟩
  rcases Departing.isLegal_walk? (h.run.labels_mono hd.holds.2) (hd.isRide hw.fits hw.byVehicle)
    hd.mode hleads hl with ⟨hlegal, hnoride, -⟩
  unfold Departing.walk? at hl
  rcases Option.bind_eq_some_iff.mp hl with ⟨toMode, hto, hl⟩
  rcases Option.bind_eq_some_iff.mp hl with ⟨increment, hprice, hl⟩
  rw [h.run.price_eq hw.legal hpolicy hd.holds.2] at hprice
  rw [Option.pure_def, Option.some.injEq] at hl
  have hl : l = Walk.arrival q.parameters ⟨d, f, i, increment⟩ := hl.symm
  subst hl
  have hopen : Walk.Open t policy q w ⟨d, f, i, increment⟩ := ⟨hd, hleads, toMode, hto, hprice⟩
  have hoffered := (h.fits hw).offerWalk?_eq_some hnoride hoffer
  have hrun : Run t policy q u u' := Run.single (Event.offer hlegal hoffered)
  refine ⟨?_, hrun, ?_⟩
  · cases hoffered with
    | exceeded => exact h
    | kept => exact h
    | stored hs hbeaten => exact h.store hw hopen hrun hs hbeaten
  · -- There is only one price, and so only one such walk.
    rintro ⟨d', f', i', increment'⟩ hx rfl rfl rfl
    rcases hx.priced with ⟨toMode', hto', hprice'⟩
    rw [hto, Option.some.injEq] at hto'
    subst hto'
    rw [hprice, Option.some.injEq] at hprice'
    subst hprice'
    exact hoffered.answered

-- A loop each pass of which answers some of the walks answers all of them.
theorem loop {β : Type} {f : Workspace K → β → Option (Workspace K)} {xs : List β}
    (G : β → Walk K → Prop) (h : Walking t policy q w u) (hw : Ready t policy q w)
    (hstep : ∀ y ∈ xs, ∀ v v', Walking t policy q w v → f v y = some v' →
      Walking t policy q w v' ∧ Run t policy q v v' ∧
        ∀ x, G y x → v'.Answered (x.arrival q.parameters))
    (hloop : xs.foldlM f u = some u') :
    Walking t policy q w u' ∧ Run t policy q u u' ∧
      ∀ y ∈ xs, ∀ x, G y x → u'.Answered (x.arrival q.parameters) := by
  have hcollect := Loop.foldlM_collect
    (fun v v' => Run t policy q v v' ∧ (Walking t policy q w v → Walking t policy q w v'))
    (fun y v => ∀ x, G y x → v.Answered (x.arrival q.parameters))
    ⟨Run.refl u, fun hu => hu⟩
    (fun v v' hv hv' => ⟨hv.1.trans hv'.1, fun hu => hv'.2 (hv.2 hu)⟩) ?_ ?_ hloop
  · exact ⟨hcollect.1.2 h, hcollect.1.1, hcollect.2⟩
  · intro y v v' hv hv' hanswered x hx
    have hwalking := hv.2 h
    exact hv'.1.answered (hwalking.fits hw) (hwalking.keepsBest hw) (hanswered x hx)
  · intro y hy v v' hv hpass
    rcases hstep y hy v v' (hv.2 h) hpass with ⟨hwalking, hrun, hanswered⟩
    exact ⟨⟨hrun, fun _ => hwalking⟩, hanswered⟩

/-- All walks along a footpath are answered. -/
theorem relaxFootpath (h : Walking t policy q w u) (hw : Ready t policy q w) (ht : t.WellFormed)
    (hpolicy : policy.ByChain) {d : Departing K} (hd : d.Arrived t w) {f : Footpath K}
    (hf : f ∈ t.footpaths) (horigin : t.stopOf? d.label.routeStop = some f.origin)
    (hpass : relaxFootpath? t policy q d u f = some u') :
    Walking t policy q w u' ∧ Run t policy q u u' ∧
      ∀ x : Walk K, x.Open t policy q w → x.toDeparting = d → x.path = f →
        u'.Answered (x.arrival q.parameters) := by
  rcases Option.bind_eq_some_iff.mp hpass with ⟨targets, htargets, hinner⟩
  have hmem := ht.mem_routeStopsAt?_iff htargets
  have hloop := h.loop (f := walkTo? t policy q d (f.time q.parameters)) (fun i x =>
    x.Open t policy q w ∧ x.toDeparting = d ∧ x.path = f ∧ x.target = i) hw ?_ hinner
  · refine ⟨hloop.1, hloop.2.1, fun x hx hxd hxf => ?_⟩
    exact hloop.2.2 x.target ((hmem x.target).mpr (hxf ▸ hx.leads.2.2)) x ⟨hx, hxd, hxf, rfl⟩
  · intro i hi v v' hv hv'
    rcases hv.walkTo hw hpolicy hd ⟨hf, horigin, (hmem i).mp hi⟩ hv' with
      ⟨hwalking, hrun, hanswered⟩
    exact ⟨hwalking, hrun, fun x hx => hanswered x hx.1 hx.2.1 hx.2.2.1 hx.2.2.2⟩

variable [IsStrictOrderedRing K]

/-- The walks from a ride are answered, be it passed over or not. -/
theorem relaxFrom (h : Walking t policy q w u) (hw : Ready t policy q w) (ht : t.WellFormed)
    (hpolicy : policy.ByChain) (hp : q.parameters.validate = .ok ())
    (hcharges : ∀ x : Walk K, x.Open t policy q w → 0 ≤ x.increment) {i id : Nat}
    (hi : i ∈ w.reached.toList) (hb : w.best[i]? = some (some id))
    (hpass : relaxFrom? t policy q u (i, id) = some u') :
    Walking t policy q w u' ∧ Run t policy q u u' ∧
      ∀ x : Walk K, x.Open t policy q w → x.id = id → u'.Answered (x.arrival q.parameters) := by
  rcases hw.byVehicle.source hw.fits hi hb with ⟨l, hl, rfl, -⟩
  rcases relaxFrom?_eq_some hpass with ⟨l', hl', hpass⟩
  rw [h.run.labels_mono hl, Option.some.injEq] at hl'
  subst hl'
  rcases hpass with ⟨hexceeds, rfl⟩ | ⟨-, mode, stop, footpaths, hmode, hstop, hfootpaths, hpass⟩
  · refine ⟨h, Run.refl u', fun x hx hid => ?_⟩
    have hlabel : x.label = l := Option.some.inj (hx.arrived.holds.2.symm.trans (hid ▸ hl))
    have hcost := x.cost_le_arrival hp (hcharges x hx)
    rw [hlabel] at hcost
    rcases exceedsBound_eq_true hexceeds with ⟨b, hbound, hlt⟩
    exact Or.inl ⟨b, hbound, lt_of_lt_of_le hlt hcost⟩
  · have hmem := ht.mem_footpathsFrom?_iff hstop hfootpaths
    have hd : Departing.Arrived t w ⟨id, l, mode⟩ := ⟨hi, ⟨hb, hl⟩, hmode⟩
    have hloop := h.loop (fun f x => x.Open t policy q w ∧ x.toDeparting = ⟨id, l, mode⟩ ∧
      x.path = f) hw ?_ hpass
    · refine ⟨hloop.1, hloop.2.1, fun x hx hid => ?_⟩
      have hxd := hx.arrived.eq_of_id_eq hd hid
      have horigin := hx.leads.2.1
      rw [hxd, hstop, Option.some.injEq] at horigin
      exact hloop.2.2 x.path ((hmem x.path).mpr ⟨hx.leads.1, horigin.symm⟩) x ⟨hx, hxd, rfl⟩
    · intro f hf v v' hv hv'
      have horigin : t.stopOf? l.routeStop = some f.origin := by
        rw [((hmem f).mp hf).2]
        exact hstop
      rcases hv.relaxFootpath hw ht hpolicy hd ((hmem f).mp hf).1 horigin hv' with
        ⟨hwalking, hrun, hanswered⟩
      exact ⟨hwalking, hrun, fun x hx => hanswered x hx.1 hx.2.1 hx.2.2⟩

omit [IsStrictOrderedRing K] in
/-- What a route-stop has now is one of the labels that it could choose from. -/
theorem eligible (h : Walking t policy q w u) (hw : Ready t policy q w) {i id : Nat}
    {held : Label K} (hheld : u.Holds i id held) : w.Eligible t policy q i held := by
  rcases h.run.holds_cases hw.fits hheld with hheld | hid
  · exact Or.inl ⟨id, hheld⟩
  · rcases h.walked id held hheld.2 with hl | ⟨x, hx, rfl⟩
    · exact absurd (Array.getElem?_eq_some_iff.mp hl).1 (Nat.not_lt.mpr hid)
    · exact Or.inr ⟨x, hx, (h.fits hw).holds_routeStop hheld, rfl⟩

-- When all walks are answered, the bound is the least of the totals.
theorem isLeast_bound (h : Walking t policy q w u) (hw : Ready t policy q w)
    (hanswered : ∀ x : Walk K, x.Open t policy q w → u.Answered (x.arrival q.parameters))
    (hegress : ∀ c ∈ q.egress, 0 ≤ c.cost) : Scalar.IsLeast (w.Totals t policy q) u.bound := by
  have hle : ∀ c, w.Totals t policy q c → ∃ b, u.bound = some b ∧ b ≤ c := by
    rintro c (hc | ⟨x, e, hx, hbetter, he, rfl⟩)
    · exact h.run.tightens hw.fits c hc
    · rcases hanswered x hx with ⟨b, hb, hlt⟩ | ⟨id, held, hheld, hgood⟩
      · rcases hw.egressTold x.target e he with ⟨c, hc, -, hcost⟩
        have hnonneg := hegress c (List.mem_of_getElem? hc)
        exact ⟨b, hb, by linarith⟩
      · -- The label that there was is not as good, so this one is new.
        have hid := (h.run.holds_cases hw.fits hheld).resolve_left fun hold =>
          hbetter id held hold hgood
        have hstop : held.routeStop = x.target := (h.fits hw).holds_routeStop hheld
        rcases h.told id held e hheld.2 hid (hstop ▸ he) with ⟨b, hb, hle⟩
        exact ⟨b, hb, le_trans hle (add_le_add_left hgood.cost_le _)⟩
  cases hbound : u.bound with
  | none =>
      intro c hc
      rcases hle c hc with ⟨b, hb, -⟩
      exact absurd (hbound.symm.trans hb) (Option.some_ne_none b).symm
  | some b =>
      refine ⟨h.bound b hbound, le_refl b, fun c hc hlt => ?_⟩
      rcases hle c hc with ⟨b', hb', hle⟩
      rw [hbound, Option.some.injEq] at hb'
      exact absurd hlt (not_lt.mpr (hb' ▸ hle))

/-- When all walks are answered, the round has followed the rule. -/
theorem walksByRule (h : Walking t policy q w u) (hw : Ready t policy q w)
    (hanswered : ∀ x : Walk K, x.Open t policy q w → u.Answered (x.arrival q.parameters)) :
    WalksByRule t policy q w u where
  least := by
    intro i l hl hleast hwithin
    have hgood : ∃ id held, u.Holds i id held ∧ held.AsGoodAs l := by
      rcases hl with ⟨id, hl⟩ | ⟨x, hx, rfl, rfl⟩
      · exact h.run.holds_asGoodAs hw.fits hw.keepsBest hl
      · refine (hanswered x hx).resolve_left ?_
        rintro ⟨b, hb, hlt⟩
        exact absurd (hwithin b hb) (not_le.mpr hlt)
    rcases hgood with ⟨id, held, hheld, hgood⟩
    exact ⟨id, held, hheld, hgood.antisymm (hleast held (h.eligible hw hheld))⟩
  improved := h.improved
  labels := fun _ _ hl => h.run.labels_mono hl
  walked := by
    intro id l hl hid
    rcases h.walked id l hl with hl | ⟨x, hx, rfl⟩
    · exact absurd (Array.getElem?_eq_some_iff.mp hl).1 (Nat.not_lt.mpr hid)
    · exact ⟨x, hx, rfl, hx.arrived.isRide hw.fits hw.byVehicle, rfl,
        (Array.getElem?_eq_some_iff.mp hx.arrived.holds.2).1⟩
  bound := h.isLeast_bound hw hanswered

end Walking

omit [Field K] [LinearOrder K] in
-- There is one ride for each route-stop that was reached.
theorem map_fst_sources? (hv : w.ByVehicle) {rides : List (Nat × Nat)}
    (h : w.sources? = some rides) : rides.map Prod.fst = w.reached.toList := by
  have hfound : ∀ (is : List Nat) (found : List (Option (Nat × Nat))),
      (∀ i ∈ is, ∃ id, w.best[i]? = some (some id)) →
      is.mapM (fun i => (w.best[i]?).bind fun best => some (best.map fun id => (i, id))) =
        some found → (found.filterMap id).map Prod.fst = is := by
    intro is
    induction is with
    | nil =>
        intro found _ hfound
        rw [List.mapM_nil] at hfound
        rw [← Option.some.inj hfound]
        rfl
    | cons i is ih =>
        intro found hheld hfound
        rcases hheld i List.mem_cons_self with ⟨id, hid⟩
        rw [List.mapM_cons, hid] at hfound
        rcases Option.bind_eq_some_iff.mp hfound with ⟨ride, hride, hfound⟩
        rcases Option.bind_eq_some_iff.mp hfound with ⟨rest, hrest, hfound⟩
        rw [← Option.some.inj hfound, ← Option.some.inj hride]
        exact congrArg (i :: ·) (ih rest (fun j hj => hheld j (List.mem_cons_of_mem _ hj)) hrest)
  unfold sources? at h
  rcases Option.bind_eq_some_iff.mp h with ⟨found, hmap, h⟩
  rw [← Option.some.inj h]
  refine hfound _ found (fun i hi => ?_) hmap
  rcases hv i hi with ⟨id, l, hl, -⟩
  exact ⟨id, hl.1⟩

omit [Field K] [LinearOrder K] in
theorem Fits.sources (hf : w.Fits t) (hv : w.ByVehicle) {rides : List (Nat × Nat)}
    (h : w.sources? = some rides) : w.Sources rides := by
  have hreached := map_fst_sources? hv h
  refine ⟨hreached, List.Nodup.of_map Prod.fst ?_, fun i id hmem => ?_⟩
  · rw [hreached]
    exact hf.reached_over.valid.nodup
  · rcases (mem_sources? h i id).mp hmem with ⟨hi, hb⟩
    rcases hv.source hf hi hb with ⟨l, hl, -, hride⟩
    exact ⟨l, ⟨hb, hl⟩, hride⟩

variable [IsStrictOrderedRing K]

/-- The walks of a round follow the rule, in whatever order the rides are taken. -/
theorem Ready.walksByRule (hw : Ready t policy q w) (ht : t.WellFormed) (hpolicy : policy.ByChain)
    (hanswers : policy.Answers t q) (hp : q.parameters.validate = .ok ())
    (hcharges : ∀ x : Walk K, x.Open t policy q w → 0 ≤ x.increment) {order : List (Nat × Nat)}
    (horder : ∀ i id, (i, id) ∈ order ↔ i ∈ w.reached.toList ∧ w.best[i]? = some (some id)) :
    ∃ w', order.foldlM (relaxFrom? t policy q) w = some w' ∧ WalksByRule t policy q w w' := by
  have hloop : ∃ w', order.foldlM (relaxFrom? t policy q) w = some w' ∧
      Walking t policy q w w' := by
    refine foldlM_exists_of_keeps (Walking t policy q w) (Walking.start hw) ?_ ?_
    · rintro ⟨i, id⟩ hmem u hu
      rcases (horder i id).mp hmem with ⟨hi, hb⟩
      rcases hw.byVehicle.source hw.fits hi hb with ⟨l, hl, hstop, hride⟩
      exact (hu.fits hw).relaxFrom?_exists ht hanswers (hu.legal hw) (hu.run.labels_mono hl) hstop
        (hw.fits.reached_over.mem_lt hi) hride
    · rintro ⟨i, id⟩ hmem u u' hu hpass
      rcases (horder i id).mp hmem with ⟨hi, hb⟩
      exact (hu.relaxFrom hw ht hpolicy hp hcharges hi hb hpass).1
  rcases hloop with ⟨w', hw', -⟩
  have hall := (Walking.start hw).loop (fun s x => x.Open t policy q w ∧ x.id = s.2) hw ?_ hw'
  · refine ⟨w', hw', hall.1.walksByRule hw fun x hx => ?_⟩
    exact hall.2.2 (x.label.routeStop, x.id)
      ((horder _ _).mpr ⟨hx.arrived.reached, hx.arrived.holds.1⟩) x ⟨hx, rfl⟩
  · rintro ⟨i, id⟩ hmem u u' hu hpass
    rcases (horder i id).mp hmem with ⟨hi, hb⟩
    rcases hu.relaxFrom hw ht hpolicy hp hcharges hi hb hpass with ⟨hwalking, hrun, hanswered⟩
    exact ⟨hwalking, hrun, fun x hx => hanswered x hx.1 hx.2⟩

end Workspace

/-- The increments of policies that a search comes with are not negative. -/
theorem SearchQuery.Growing.charges [IsStrictOrderedRing K] {t : Timetable K}
    {policy : TransferPolicy K} {q : SearchQuery K} {w : Workspace K} (hq : q.Growing t policy)
    (hw : Workspace.Ready t policy q w) {x : Walk K} (hx : x.Open t policy q w) :
    0 ≤ x.increment := by
  rcases hx.priced with ⟨toMode, -, hprice⟩
  exact hw.legal.increment_nonneg hq hx.arrived.holds.2 (hx.arrived.isRide hw.fits hw.byVehicle)
    (Parameters.time_nonneg hq.parameters x.path) hprice

namespace Sample

/-- Two lines from which one can walk to a third one, which is nearer to the second. -/
def twoWalks : Draft ℚ :=
  network ["A", "B", "C", "D", "E"]
    [line "one" [("A", 0), ("B", 10)] [0], line "two" [("A", 0), ("C", 10)] [0],
      line "three" [("D", 0), ("E", 10)] [100]]
    [("B", "D", 30), ("C", "D", 20)]

/-- From where the first two lines begin to where the third one ends. -/
def toTheThird : SearchQuery ℚ := query [candidate 0 0] [candidate 4 0] 1

end Sample

namespace Engine

namespace InService

variable [IsStrictOrderedRing K] [Planar K] [MarkerTree K] {t : Timetable K}
  {policy : TransferPolicy K} {e : Engine K}

/-- In every state in which the walks of a round begin, they start once from every ride by
    which a route-stop was reached, and follow the rule. So they do in every other order,
    with the same bound if no way out has a negative cost. -/
theorem relax?_by_rule {d : Draft K} (hd : d.build = .ok t) (hpolicy : policy.Standard)
    (h : InService t policy e) {q : SearchQuery K} (hp : q.parameters.validate = .ok ())
    {w : Workspace K} (hm : Workspace.AfterScans t policy q e.workspace w)
    (hcharges : ∀ x : Walk K, x.Open t policy q w → 0 ≤ x.increment) :
    ∃ rides w', w.sources? = some rides ∧ w.Sources rides ∧
      w.relax? t policy q = some w' ∧ Workspace.WalksByRule t policy q w w' ∧
      ∀ order : List (Nat × Nat), order.Perm rides →
        ∃ u, order.foldlM (Workspace.relaxFrom? t policy q) w = some u ∧
          Workspace.WalksByRule t policy q w u ∧
          ((∀ c ∈ q.egress, 0 ≤ c.cost) → u.bound = w'.bound) := by
  have ht := Draft.wellFormed_of_build hd
  rcases h.fits ht with ⟨-, -, hf⟩
  have hw := hm.ready ht hf
  rcases hw.fits.sources?_exists with ⟨rides, hrides⟩
  have hmem := Workspace.mem_sources? hrides
  have hbyChain := hpolicy.byChain
  have hanswers := hpolicy.answers ht q
  rcases hw.walksByRule ht hbyChain hanswers hp hcharges hmem with ⟨w', hw', hrule⟩
  refine ⟨rides, w'.putAway rides, hrides, hw.fits.sources hw.byVehicle hrides, ?_, { hrule with },
    ?_⟩
  · unfold Workspace.relax?
    simp only [hrides, hw', Option.bind_eq_bind, Option.bind_some, Option.pure_def]
  · intro order horder
    rcases hw.walksByRule ht hbyChain hanswers hp hcharges
      (fun i id => horder.mem_iff.trans (hmem i id)) with ⟨u, hu, hrule'⟩
    exact ⟨u, hu, hrule', fun hegress => (hrule'.bound hegress).eq (hrule.bound hegress)⟩

/-- Both walks are stored, the dearer one first, and the cheaper one remains. -/
theorem relax?_by_rule_twoWalks : ∃ w rides w',
    Workspace.AfterScans Sample.twoWalks.assemble (TransferPolicy.flat 5) Sample.toTheThird
      (Engine.new Sample.twoWalks.assemble (TransferPolicy.flat 5)).workspace w ∧
    w.sources? = some rides ∧ w.Sources rides ∧
    w.relax? Sample.twoWalks.assemble (TransferPolicy.flat 5) Sample.toTheThird = some w' ∧
    Workspace.WalksByRule Sample.twoWalks.assemble (TransferPolicy.flat 5) Sample.toTheThird w w' ∧
    (rides, (w'.labels.toList.drop w.labels.size).map fun l => (l.previous, l.routeStop, l.cost)) =
      ([(1, 2), (3, 3)], [(some 2, 4, 45), (some 3, 4, 35)]) := by
  have hbuild : Sample.twoWalks.build = .ok Sample.twoWalks.assemble :=
    Sample.build_eq_ok (by decide +kernel)
  have hrun : ((Workspace.ofTimetable Sample.twoWalks.assemble).begin?
      Sample.twoWalks.assemble Sample.toTheThird).bind (fun v =>
        (v.openRound? Sample.twoWalks.assemble).bind fun v₁ =>
          (v₁.scanRoutes? Sample.twoWalks.assemble Sample.toTheThird.parameters).bind fun w =>
            w.sources?.bind fun rides =>
              (w.relax? Sample.twoWalks.assemble (TransferPolicy.flat 5) Sample.toTheThird).map
                fun w' => (rides, (w'.labels.toList.drop w.labels.size).map
                  fun l => (l.previous, l.routeStop, l.cost)))
      = some ([(1, 2), (3, 3)], [(some 2, 4, 45), (some 3, 4, 35)]) := by decide +kernel
  rcases Option.bind_eq_some_iff.mp hrun with ⟨v, hbegin, hrun⟩
  rcases Option.bind_eq_some_iff.mp hrun with ⟨v₁, hopen, hrun⟩
  rcases Option.bind_eq_some_iff.mp hrun with ⟨w, hscanned, hrun⟩
  rcases Option.bind_eq_some_iff.mp hrun with ⟨rides, hrides, hrun⟩
  rcases Option.map_eq_some_iff.mp hrun with ⟨w', hrelax, hview⟩
  have hm : Workspace.AfterScans Sample.twoWalks.assemble (TransferPolicy.flat 5)
      Sample.toTheThird
      (Engine.new Sample.twoWalks.assemble (TransferPolicy.flat 5)).workspace w :=
    ⟨0, v, v₁, Workspace.BeforeRound.first hbegin, hopen, hscanned⟩
  have hcharges : ∀ x : Walk ℚ, x.Open Sample.twoWalks.assemble (TransferPolicy.flat 5)
      Sample.toTheThird w → 0 ≤ x.increment := by
    intro x hx
    rcases hx.priced with ⟨toMode, -, hprice⟩
    rw [← Option.some.inj hprice]
    decide
  rcases relax?_by_rule hbuild (TransferPolicy.Standard.flat 5) InService.new rfl hm hcharges with
    ⟨rides', w₁, hrides', hstart, hrelax', hrule, -⟩
  rw [hrides, Option.some.injEq] at hrides'
  rw [hrelax, Option.some.injEq] at hrelax'
  subst hrides' hrelax'
  exact ⟨w, rides, w', hm, hrides, hstart, hrelax, hrule, hview⟩

end InService

end Engine

end Journey
