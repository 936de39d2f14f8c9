import Journey.Proofs.Search.Walking

/-!
# Rounds

What every round of a search leaves behind.

Between two rounds a search has an invariant of its own, `Settled`: every ride
stored so far has been walked on from, and every label that was not improved by
the last round has been ridden on from. A round keeps this and finds the rides
of the labels it started from. A search that ends early has improved nothing in
its last round, and so has ridden on from every label it holds; more rounds
would find nothing that is not covered.

What it means to have ridden on from a label is measured by a ceiling, which
says for a vehicle and a route-stop what an arrival may cost to count. Scans let
earlier vehicles prevail, so a ceiling has to allow at least what these rides
cost. How a theory of journeys chooses its ceiling decides what it can prove:
where cost is time, the ceiling is the cost of arriving with the vehicle, and
where any arrival will do, it is `⊤`.

## Main definitions

* `Ceiling`: What an arrival may cost to count.
* `Workspace.RidesMade`: The rides from a workspace are covered in another one.
* `Workspace.Settled`: What holds between two rounds.

## Theorems

* `Workspace.Settled.of_begin?`: It holds before the first round.
* `Workspace.Settled.round`: A round keeps it and makes the rides.
* `Workspace.Settled.ridesMade_of_finished`: When nothing was improved, the
  rides are made already.
* `Workspace.Settled.rounds`: What follows for all rounds together.
-/

namespace Journey

variable {K : Type} [Field K] [LinearOrder K]

/-- What an arrival with a vehicle at a route-stop may cost to count, given what
    is known about all labels. -/
structure Ceiling (t : Timetable K) (p : Parameters K) (known : Label K → Prop)
    (κ : Nat → Nat → WithTop K) : Prop where
  /-- A ride on the next vehicle counts, and so does a label from which that
      vehicle could be boarded. -/
  brings : ∀ l d j c, known l → t.nextTrip? l.routeStop l.time = some (some d) →
    l.Brings t p d j c → (c : WithTop K) ≤ κ d j
  /-- A later vehicle may cost more. -/
  later : ∀ d' d j, t.Serves d' j → t.Serves d j → d' ≤ d → κ d' j ≤ κ d j
  /-- So may the next vehicle after an arrival by vehicle. -/
  onward : ∀ h d i j a, t.Serves h i → t.arrival? h i = some a →
    t.nextTrip? i a = some (some d) → t.Ahead i j → κ h j ≤ κ d j

namespace Workspace

variable {t : Timetable K} {q : SearchQuery K} {price : K} {known : Label K → Prop}
  {κ : Nat → Nat → WithTop K} {start w w' : Workspace K} {n : Nat}

/-- The rides from the labels of the first workspace are covered in the
    second. -/
def RidesMade (t : Timetable K) (κ : Nat → Nat → WithTop K) (w w' : Workspace K) : Prop :=
  ∀ i id l d j, w.Holds i id l → t.nextTrip? i l.time = some (some d) → t.Ahead i j →
    w'.Covered j (κ d j)

/-- What holds between two rounds of a search that began in a clean workspace,
    after a number of rounds. -/
structure Settled (t : Timetable K) (q : SearchQuery K) (price : K) (κ : Nat → Nat → WithTop K)
    (start : Workspace K) (n : Nat) (w : Workspace K) : Prop where
  run : Run t (TransferPolicy.flat price) q start w
  marked : w.Marked t
  /-- The access candidates are covered. -/
  access : ∀ c ∈ q.access, ∀ i, t.stopOf? i = some c.stop → w.Covered i c.cost
  /-- Every ride has been walked on from. -/
  walked : ∀ (id : Nat) (l : Label K), w.labels[id]? = some l → l.isRide = true →
    w.Walked t q.parameters price l
  /-- Every label has been ridden on from, unless it is new. -/
  closed : ∀ i id l d j, w.Holds i id l → i ∉ w.improved.toList →
    t.nextTrip? i l.time = some (some d) → t.Ahead i j → w.Covered j (κ d j)
  /-- There are no more transfers than rounds, and one less before a ride. -/
  transfers : ∀ (id : Nat) (l : Label K), w.labels[id]? = some l →
    l.transfers ≤ n ∧ (l.isRide = true → l.transfers < n)

/-- Between two workspaces, only the ways to the destination have changed, and
    none has become dearer. -/
structure Tells (w w' : Workspace K) : Prop where
  labels : w'.labels = w.labels
  best : w'.best = w.best
  improved : w'.improved = w.improved
  leaves : ∀ i c, w.Leaves i c → w'.Leaves i c

theorem Tells.refl (w : Workspace K) : Tells w w := ⟨rfl, rfl, rfl, fun _ _ h => h⟩

theorem Tells.trans {w₁ w₂ : Workspace K} (h : Tells w w₁) (h' : Tells w₁ w₂) : Tells w w₂ :=
  ⟨h'.labels.trans h.labels, h'.best.trans h.best, h'.improved.trans h.improved,
    fun i c hc => h'.leaves i c (h.leaves i c hc)⟩

-- An egress candidate that is offered is written down, or there is a way that
-- is no dearer.
theorem tells_of_offerEgress? {e : Egress K} {i : Nat} (h : w.offerEgress? e i = some w') :
    Tells w w' ∧ w'.Leaves i e.cost := by
  rcases offerEgress?_eq_some h with ⟨rfl, e', he', hle⟩ | ⟨table, dests, ht, -, hlt, rfl⟩
  · exact ⟨Tells.refl w', e', he', le_of_not_gt hle⟩
  · have hget := (write?_eq_some ht).2.2
    refine ⟨⟨rfl, rfl, rfl, ?_⟩, e, by rw [hget, if_pos rfl], le_refl _⟩
    rintro j c ⟨e', he', hle⟩
    by_cases hij : i = j
    · subst hij
      exact ⟨e, by rw [hget, if_pos rfl], le_trans (le_of_lt (hlt e' he')) hle⟩
    · exact ⟨e', by rw [hget, if_neg hij]; exact he', hle⟩

-- Offering the egress candidates changes nothing but the ways to the
-- destination, and finds one for every candidate.
theorem tells_of_setEgress? (hw : t.WellFormed) (h : w.setEgress? t q.egress = some w') :
    Tells w w' ∧ ∀ c ∈ q.egress, ∀ i, t.stopOf? i = some c.stop → w'.Leaves i c.cost := by
  have hloop := Loop.foldlM_collect Tells
    (fun (x : Candidate K × Nat) u => ∀ i, t.stopOf? i = some x.1.stop → u.Leaves i x.1.cost)
    (Tells.refl w) (fun _ _ => Tells.trans) (fun x u u' _ hu' hG i hi => hu'.leaves i _ (hG i hi))
    ?_ h
  · refine ⟨hloop.1, fun c hc i hi => ?_⟩
    rcases List.getElem?_of_mem hc with ⟨k, hk⟩
    exact hloop.2 (c, k) (List.mem_zipIdx_iff_getElem?.mpr hk) i hi
  · rintro ⟨c, k⟩ - u u' - hpass
    rcases Option.bind_eq_some_iff.mp hpass with ⟨routeStops, hrs, hinner⟩
    have hmem := hw.mem_routeStopsAt?_iff hrs
    have hcover := Loop.foldlM_collect Tells (fun i u => u.Leaves i c.cost) (Tells.refl u)
      (fun _ _ => Tells.trans) (fun i v v' _ hv' hi => hv'.leaves i _ hi)
      (fun i _ v v' _ hv' => tells_of_offerEgress? hv') hinner
    exact ⟨hcover.1, fun i hi => hcover.2 i ((hmem i).mpr hi)⟩

/-- What holds before the first round. All labels come from access
    candidates. -/
theorem Settled.of_begin? (hw : t.WellFormed) (hf : w.Fits t) (h : w.begin? t q = some w') :
    Settled t q price κ w.reset 0 w' ∧
      (∀ (id : Nat) (l : Label K), w'.labels[id]? = some l → ∃ k, l.step = .access k) ∧
      ∀ i id l, w'.Holds i id l → i ∈ w'.improved.toList := by
  rcases begin?_eq_some h with ⟨w₁, hegress, haccess⟩
  have hclean := hf.clean_reset
  rcases tells_of_setEgress? hw hegress with ⟨⟨hlabels, hbest, himproved, -⟩, -⟩
  have hrun₁ : Run t (TransferPolicy.flat price) q w.reset w₁ :=
    run_of_egress hw hf.reset (Loop.passes_of_foldlM _ hegress)
  have hcover : Advances t (TransferPolicy.flat price) q w₁ w' ∧ _ :=
    covered_of_setAccess? hw (hrun₁.fits hf.reset) haccess
  rcases hcover with ⟨⟨hrun₂, himproves⟩, hcovered⟩
  have hrun := hrun₁.trans hrun₂
  have hnoride : ∀ (id : Nat) (l : Label K), w'.labels[id]? = some l → l.isRide = false := by
    intro id l hl
    rcases himproves.labels id l hl with hl | hl
    · rw [hlabels, hclean.labels] at hl
      exact absurd hl (by simp)
    · exact hl
  have hstep : ∀ (id : Nat) (l : Label K), w'.labels[id]? = some l →
      (∃ k, l.step = .access k) ∧ l.transfers = 0 := by
    intro id l hl
    have hride := hnoride id l hl
    cases hrun.legal hclean.legal id l hl with
    | access k c step previous candidate stop time cost transfers =>
        exact ⟨⟨k, step⟩, transfers⟩
    | ride id' p trip b v e step =>
        unfold Label.isRide at hride
        rw [step] at hride
        exact absurd hride Bool.noConfusion
    | transfer id' p f d inc fm tm step previous predecessor ride =>
        -- There is no ride to walk from.
        rw [hnoride id' p (label_of_extract predecessor).2] at ride
        exact absurd ride Bool.noConfusion
  have hnew : ∀ i id l, w'.Holds i id l → i ∈ w'.improved.toList := by
    intro i id l hl
    rcases himproves.holds i id l hl with hl | hi
    · have hb := hl.1
      rw [hbest] at hb
      exact absurd hb (hclean.best i id)
    · exact hi
  refine ⟨?_, fun id l hl => (hstep id l hl).1, hnew⟩
  refine
    { run := hrun
      marked := himproves.marked fun i hi => ?_
      access := hcovered
      walked := fun id l hl hride => ?_
      closed := fun i id l d j hl hi => ?_
      transfers := fun id l hl => ?_ }
  · rw [himproved, hclean.improved] at hi
    exact absurd hi List.not_mem_nil
  · rw [hnoride id l hl] at hride
    exact absurd hride Bool.noConfusion
  · exact absurd (hnew i id l hl) hi
  · refine ⟨Nat.le_of_eq (hstep id l hl).2, fun hride => ?_⟩
    rw [hnoride id l hl] at hride
    exact absurd hride Bool.noConfusion

namespace Settled

variable {w₁ w₂ : Workspace K}

-- What a scan covers instead of a ride counts as the ride.
theorem covered_of_sweeps (hκ : Ceiling t q.parameters known κ) (hf : w.Fits t)
    (hknown : ∀ (id : Nat) (l : Label K), w.labels[id]? = some l → known l)
    {i j id d : Nat} {l : Label K} (hij : t.Ahead i j) (hl : w.Holds i id l)
    (hd : t.nextTrip? i l.time = some (some d)) (h : Sweeps t q.parameters w w' i j) :
    w'.Covered j (κ d j) := by
  rcases h id l d hl hd with ⟨k, id', l', d', c, hk, hd', hprev, hkj, hc, hcov⟩
  have hserves : t.Serves d' j := by
    rcases hkj with rfl | hkj
    · exact (Timetable.nextTrip?_some hd').1
    · exact (Timetable.nextTrip?_some hd').1.ahead hkj
  have hle : (c : WithTop K) ≤ κ d' j := by
    refine hκ.brings l' d' j c (hknown id' l' hk.2) ?_ hc
    rw [hf.holds_routeStop hk]
    exact hd'
  exact hcov.mono (le_trans hle (hκ.later d' d j hserves
    ((Timetable.nextTrip?_some hd).1.ahead hij) hprev.trip_le))

-- The scans of a round make the rides of the labels that were there when it
-- was opened: those of improved route-stops now, and the others before.
theorem ridesMade_of_swept (h : Settled t q price κ start n w) (hw : t.WellFormed)
    (hf : w.Fits t) (hκ : Ceiling t q.parameters known κ)
    (hknown : ∀ (id : Nat) (l : Label K), w.labels[id]? = some l → known l)
    (hopen : w.openRound? t = some w₁) (hswept : Swept t q w₁ w₁.touched.toList w₂) :
    RidesMade t κ w₁ w₂ := by
  intro i id l d j hl hd hij
  have hquiet := (quiet_openRound? hopen).1
  -- A label is new or has been ridden on from.
  by_cases hi : i ∈ w.improved.toList
  · refine covered_of_sweeps hκ (hquiet.fits hf) (fun id l hl => hknown id l ?_) hij hl hd
      (h.marked.sweeps hw hf hopen hswept hi hij)
    rw [← hquiet.labels]
    exact hl
  · have hrun : Run t (TransferPolicy.flat price) q w w₂ :=
      (Run.single (Event.quiet hquiet)).trans (hswept.run _)
    exact hrun.covered hf (h.closed i id l d j ((hquiet.holds_iff i id l).mp hl) hi hd hij)

-- After the scans, every label held has been ridden on from. A ride that is
-- new is continued by the ride of the label it was boarded from.
theorem covered_of_swept (hmade : RidesMade t κ w₁ w₂) (hf : w₁.Fits t)
    (hκ : Ceiling t q.parameters known κ) {routes : List Nat} (hswept : Swept t q w₁ routes w₂) :
    RidesMade t κ w₂ w₂ := by
  intro i id l d j hl hd hij
  rcases (hswept.run fun _ _ => none).holds_cases hf hl with hold | hid
  · exact hmade i id l d j hold hd hij
  · -- A new label is a ride on a vehicle that could be boarded before.
    rcases hswept.labels id l hl.2 with hold | ⟨⟨-, -, -, k, id', l', d', hk, hd', hki, harr, -⟩, -⟩
    · exact absurd (Array.getElem?_eq_some_iff.mp hold).1 (Nat.not_lt.mpr hid)
    · rw [hswept.fits.holds_routeStop hl] at hki harr
      have hserves := (Timetable.nextTrip?_some hd').1.ahead hki
      exact (hmade k id' l' d' j hk hd' (hki.trans hij)).mono
        (hκ.onward d' d i j l.time hserves harr hd hij)

-- A ride has the transfers of the label it was boarded from.
theorem transfers_of_swept (h : Settled t q price κ start n w) (hopen : w.openRound? t = some w₁)
    {routes : List Nat} (hswept : Swept t q w₁ routes w₂) (id : Nat) (l : Label K)
    (hl : w₂.labels[id]? = some l) : l.transfers ≤ n := by
  have hquiet := (quiet_openRound? hopen).1
  rcases hswept.labels id l hl with hold | ⟨⟨-, -, -, k, id', l', d', hk, -, -, -, heq⟩, -⟩
  · rw [hquiet.labels] at hold
    exact (h.transfers id l hold).1
  · have hk' := hk.2
    rw [hquiet.labels] at hk'
    rw [heq]
    exact (h.transfers id' l' hk').1

-- A walk has one transfer more than the ride before it.
theorem transfers_of_walks {w₃ : Workspace K} (hlegal : w₃.Legal t (TransferPolicy.flat price) q)
    (himproves : Improves t w₂ w₃)
    (h : ∀ (id : Nat) (l : Label K), w₂.labels[id]? = some l → l.transfers ≤ n) (id : Nat)
    (l : Label K) (hl : w₃.labels[id]? = some l) :
    l.transfers ≤ n + 1 ∧ (l.isRide = true → l.transfers < n + 1) := by
  rcases himproves.labels id l hl with hold | hnoride
  · have hle := h id l hold
    exact ⟨Nat.le_succ_of_le hle, fun _ => Nat.lt_succ_of_le hle⟩
  · refine ⟨?_, fun hride => absurd hride (by rw [hnoride]; exact Bool.noConfusion)⟩
    cases hlegal id l hl with
    | access k c step previous candidate stop time cost transfers => omega
    | ride id' p trip b v e step =>
        unfold Label.isRide at hnoride
        rw [step] at hnoride
        exact absurd hnoride Bool.noConfusion
    | transfer id' p f d inc fm tm step previous predecessor ride path takes left entered price
        time cost transfers =>
        rcases himproves.labels id' p (label_of_extract predecessor).2 with hp | hp
        · have hle := h id' p hp
          omega
        · rw [hp] at ride
          exact absurd ride Bool.noConfusion

variable [IsStrictOrderedRing K]

/-- A round keeps the invariant and makes the rides of the labels it started
    from. -/
theorem round (h : Settled t q price κ start n w) (hw : t.WellFormed) (hstart : start.Fits t)
    (hclean : start.Clean) (hcost : ∀ f ∈ t.footpaths, 0 ≤ f.cost q.parameters price)
    (hκ : Ceiling t q.parameters known κ)
    (hknown : ∀ u, Run t (TransferPolicy.flat price) q start u →
      ∀ (id : Nat) (l : Label K), u.labels[id]? = some l → known l)
    (hround : w.round? t (TransferPolicy.flat price) q = some w') :
    Settled t q price κ start (n + 1) w' ∧ RidesMade t κ w w' := by
  rcases round?_eq_some hround with ⟨w₁, w₂, w₃, hopen, hscan, hrelax, rfl⟩
  have hf := h.run.fits hstart
  rcases quiet_openRound? hopen with ⟨hquiet, hreached, himproved, -⟩
  have hf₁ := hquiet.fits hf
  have hswept := swept_of_scanRoutes? hw hf₁ hscan
  have hscanned : Run t (TransferPolicy.flat price) q w₁ w₂ ∧ w₂.ByVehicle :=
    run_of_scanning hw hf₁ (byVehicle_of_openRound? hopen) (Loop.passes_of_foldlM _ hscan)
  rcases walked_of_relax? hw hcost hswept.fits hscanned.2 hrelax with
    ⟨⟨hrun₃, himproves⟩, hwalked⟩
  have himproves : Improves t w₂ w₃.closeRound :=
    ⟨himproves.marked, himproves.improved, himproves.holds, himproves.labels⟩
  -- The runs from each of the workspaces to the end of the round.
  have hclose : Run t (TransferPolicy.flat price) q w₃ w₃.closeRound :=
    Run.single (Event.quiet (quiet_closeRound w₃))
  have hrun₂ := hrun₃.trans hclose
  have hrun : Run t (TransferPolicy.flat price) q w w₃.closeRound :=
    ((Run.single (Event.quiet hquiet)).trans hscanned.1).trans hrun₂
  have hmade := h.ridesMade_of_swept hw hf hκ (hknown w h.run) hopen hswept
  refine
    ⟨{  run := h.run.trans hrun
        marked := ?_
        access := ?_
        walked := ?_
        closed := ?_
        transfers := ?_ }, ?_⟩
  · -- Nothing was improved before the walks.
    have hmarked : w₂.Marked t := fun i hi => by
      rw [hswept.improved, himproved] at hi
      exact absurd hi List.not_mem_nil
    exact himproves.marked hmarked
  · exact fun c hc i hi => hrun.covered hf (h.access c hc i hi)
  · intro id l hl hride f i hpath
    -- A ride was there before the round, or a scan stored it and it was walked on
    -- from.
    rcases himproves.labels id l hl with hl | hnoride
    · rcases hswept.labels id l hl with hl | ⟨⟨hheld, hreach, -⟩, -⟩
      · rw [hquiet.labels] at hl
        exact hrun.covered hf (h.walked id l hl hride f i hpath)
      · exact hclose.covered (hrun₃.fits hswept.fits) (hwalked _ hreach id l hheld f i hpath)
    · rw [hnoride] at hride
      exact absurd hride Bool.noConfusion
  · intro i id l d j hl hi hd hij
    -- A label that is not new was held after the scans.
    rcases himproves.holds i id l hl with hl | hi'
    · exact hrun₂.covered hswept.fits
        (covered_of_swept hmade hf₁ hκ hswept i id l d j hl hd hij)
    · exact absurd hi' hi
  · exact transfers_of_walks ((h.run.trans hrun).legal hclean.legal) himproves
      (h.transfers_of_swept hopen hswept)
  · intro i id l d j hl hd hij
    exact hrun₂.covered hswept.fits
      (hmade i id l d j ((hquiet.holds_iff i id l).mpr hl) hd hij)

omit [IsStrictOrderedRing K] in
/-- When a round has improved nothing, the rides are made already. -/
theorem ridesMade_of_finished (h : Settled t q price κ start n w) (hdone : w.improved.isEmpty) :
    RidesMade t κ w w := by
  intro i id l d j hl hd hij
  refine h.closed i id l d j hl (fun hi => ?_) hd hij
  have hnil := (IndexSet.isEmpty_iff _).mp hdone
  rw [hnil] at hi
  exact absurd hi List.not_mem_nil

/-- What rounds achieve together. `J n` is what is to be known after `n` rounds
    and grows with the rides that are made. A search that ends early knows what
    it would know after all rounds, because it has made the rides of every label
    it holds. -/
theorem rounds (hw : t.WellFormed) (hstart : start.Fits t) (hclean : start.Clean)
    (hcost : ∀ f ∈ t.footpaths, 0 ≤ f.cost q.parameters price)
    (hκ : Ceiling t q.parameters known κ)
    (hknown : ∀ u, Run t (TransferPolicy.flat price) q start u →
      ∀ (id : Nat) (l : Label K), u.labels[id]? = some l → known l)
    (J : Nat → Workspace K → Prop)
    (hJ : ∀ n m u u', Settled t q price κ start n u → Settled t q price κ start m u' →
      Run t (TransferPolicy.flat price) q u u' → RidesMade t κ u u' → J n u → J (n + 1) u')
    (budget : Nat) : ∀ {n : Nat} {w : Workspace K}, Settled t q price κ start n w → J n w →
      w.rounds? t (TransferPolicy.flat price) q budget = some w' →
      (∃ m, m ≤ n + budget ∧ Settled t q price κ start m w') ∧ J (n + budget) w' := by
  induction budget with
  | zero =>
      intro n w h hn hrounds
      rw [← Option.some.inj hrounds]
      exact ⟨⟨n, Nat.le_refl _, h⟩, hn⟩
  | succ budget ih =>
      intro n w h hn hrounds
      unfold rounds? at hrounds
      rcases Option.bind_eq_some_iff.mp hrounds with ⟨w₁, hround, hrounds⟩
      rcases h.round hw hstart hclean hcost hκ hknown hround with ⟨h₁, hmade⟩
      have hrun : Run t (TransferPolicy.flat price) q w w₁ :=
        (InRound.closed hround).run hw (h.run.fits hstart)
      have hn₁ := hJ n (n + 1) w w₁ h h₁ hrun hmade hn
      split at hrounds
      · rename_i hdone
        rw [← Option.some.inj hrounds]
        refine ⟨⟨n + 1, by omega, h₁⟩, ?_⟩
        -- Each round left out would have made rides that are made already.
        have hmore : ∀ k, J (n + 1 + k) w₁ := by
          intro k
          induction k with
          | zero => exact hn₁
          | succ k ihk =>
              have hle : Settled t q price κ start (n + 1 + k) w₁ :=
                { h₁ with transfers := fun id l hl =>
                    ⟨by have := (h₁.transfers id l hl).1; omega,
                      fun hride => by have := (h₁.transfers id l hl).2 hride; omega⟩ }
              exact hJ (n + 1 + k) (n + 1) w₁ w₁ hle h₁ (Run.refl w₁)
                (h₁.ridesMade_of_finished hdone) ihk
        rw [show n + (budget + 1) = n + 1 + budget by omega]
        exact hmore budget
      · rcases ih h₁ hn₁ hrounds with ⟨⟨m, hle, hm⟩, hJm⟩
        rw [show n + (budget + 1) = n + 1 + budget by omega]
        exact ⟨⟨m, by omega, hm⟩, hJm⟩

end Settled

end Workspace

end Journey
