import Mathlib.Algebra.BigOperators.Group.List.Basic
import Mathlib.Data.List.SplitBy
import Journey.Proofs.Exact
import Journey.Proofs.Loop
import Journey.Proofs.Search.Traces
import Journey.Search.TransferPolicy

/-!
# Runs of One Mode

How the rides of a journey are divided when its transfers are priced.

With a table of mode changes, a transfer is priced by the run of rides of one mode
that it leaves. The policy finds the start of that run by walking back over
predecessors, and never looks at an earlier run, because what the label there has
paid is all that has to be known of it. `modeRuns?` says from the whole trace of a
label what the runs are: the rides are divided wherever the mode changes, and every
transfer belongs to the run of the ride that it leaves.

Adding a label to a trace changes nothing but the last run. A ride of its mode goes
on with it, a ride of another mode starts a new one, and a transfer is one more exit.
`Running` is what these three steps keep, and `OnRun` adds that the policy finds the
start of the run and counts the exits right.

## Main definitions

* `ModeRun`: Rides of one mode in a row, as far as their transfers' prices depend on
  them.
* `Label.modeRuns?`: The runs of a trace.
* `Label.Running`: The rides of a trace end with a run.
* `Label.OnRun`: What a policy finds out about the run that a label is on.

## Theorems

* `Label.Running.transfer`, `Label.Running.ride`, `Label.Running.change`,
  `Label.Running.start`: What the next label makes of the runs.
* `Label.OnRun.transfer`, `Label.OnRun.ride`, `Label.OnRun.change`, `Label.OnRun.start`:
  What it makes of what the policy finds out.
-/

namespace Journey

/-- Rides of one mode in a row, as far as the prices of their transfers depend on
    them. -/
structure ModeRun (α : Type) where
  mode : Mode
  /-- The label that the first ride was boarded from. -/
  boarding : Label α
  /-- The transfers that leave the rides, with the modes that they lead to. -/
  exits : List (Label α × Mode)
deriving DecidableEq, Repr

namespace Label

section Definitions

variable {α : Type}

/-- The rides of a trace, divided wherever the mode changes. -/
def ridesByMode (t : Timetable α) (trace : List (Nat × Label α)) : List (List (Nat × Label α)) :=
  (trace.filter fun x => x.2.isRide).splitBy fun x y =>
    t.modeOf? x.2.routeStop == t.modeOf? y.2.routeStop

/-- Whether a label is a transfer that leaves one of the rides. -/
def leaves (rides : List (Nat × Label α)) (l : Label α) : Bool :=
  l.isTransfer && rides.any fun ride => l.previous == some ride.1

/-- The transfers of a trace that leave one of the rides, with the modes that they
    lead to. -/
def exits? (t : Timetable α) (trace rides : List (Nat × Label α)) :
    Option (List (Label α × Mode)) :=
  (trace.filter fun x => x.2.leaves rides).mapM fun x => do
    return (x.2, ← t.modeOf? x.2.routeStop)

/-- What prices depend on in a run. The rides of the run are among those of the
    trace. -/
def modeRun? (t : Timetable α) (trace rides : List (Nat × Label α)) : Option (ModeRun α) := do
  let first ← rides.head?
  let mode ← t.modeOf? first.2.routeStop
  let boarding ← trace.lookup (← first.2.previous)
  return ⟨mode, boarding, ← exits? t trace rides⟩

/-- The runs of rides of one mode in a trace. -/
def modeRuns? (t : Timetable α) (trace : List (Nat × Label α)) : Option (List (ModeRun α)) :=
  (ridesByMode t trace).mapM (modeRun? t trace)

end Definitions

section Division

variable {β : Type} {R : β → β → Bool} {xs g : List β} {earlier : List (List β)} {x y : β}

-- What belongs to the last part makes it longer.
theorem splitBy_concat_of_rel (h : xs.splitBy R = earlier ++ [g]) (hy : g.getLast? = some y)
    (hrel : R y x = true) : (xs ++ [x]).splitBy R = earlier ++ [g ++ [x]] := by
  rw [List.splitBy_eq_iff] at h ⊢
  rcases h with ⟨rfl, hnil, hchain, hapart⟩
  have hg : g ≠ [] := fun hg => hnil (hg ▸ List.mem_append_right _ List.mem_cons_self)
  refine ⟨by simp only [List.flatten_append, List.flatten_singleton, List.append_assoc],
    ?_, fun m hm => ?_, ?_⟩
  · intro hmem
    rcases List.mem_append.mp hmem with hmem | hmem
    · exact hnil (List.mem_append_left _ hmem)
    · exact List.append_ne_nil_of_left_ne_nil hg [x] (List.mem_singleton.mp hmem).symm
  · rcases List.mem_append.mp hm with hm | hm
    · exact hchain m (List.mem_append_left _ hm)
    · rw [List.mem_singleton.mp hm]
      refine List.isChain_append.mpr ⟨hchain g (List.mem_append_right _ List.mem_cons_self),
        List.isChain_singleton x, fun a ha b hb => ?_⟩
      rw [hy, Option.mem_some_iff] at ha
      rw [List.head?_cons, Option.mem_some_iff] at hb
      rw [← ha, ← hb]
      exact hrel
  · -- The part starts where it did.
    rw [List.isChain_append] at hapart ⊢
    refine ⟨hapart.1, List.isChain_singleton _, fun a ha b hb => ?_⟩
    rw [List.head?_cons, Option.mem_some_iff] at hb
    subst hb
    rcases hapart.2.2 a ha g rfl with ⟨ha', hg', hr⟩
    exact ⟨ha', List.append_ne_nil_of_left_ne_nil hg [x], by rwa [List.head_append_of_ne_nil]⟩

-- What does not belong to the last part is a part of its own.
theorem splitBy_concat_of_not_rel (h : ∀ y ∈ xs.getLast?, R y x = false) :
    (xs ++ [x]).splitBy R = xs.splitBy R ++ [[x]] :=
  (List.splitBy_append_cons [] h).trans
    (congrArg _ (List.splitBy_of_isChain (List.cons_ne_nil x []) (List.isChain_singleton x)))

theorem getLast?_of_splitBy (h : xs.splitBy R = earlier ++ [g]) (hg : g.getLast? = some y) :
    xs.getLast? = some y := by
  rw [← List.flatten_splitBy R xs, h, List.flatten_append, List.flatten_singleton,
    List.getLast?_append, hg, Option.some_or]

end Division

section Steps

variable {α : Type} {t : Timetable α} {trace rides : List (Nat × Label α)} {id id' : Nat}
  {l m y b : Label α} {runs : List (ModeRun α)} {r : ModeRun α} {mode : Mode}

theorem exits?_concat_of_not_leaves (h : l.leaves rides = false) :
    exits? t (trace ++ [(id, l)]) rides = exits? t trace rides := by
  unfold exits?
  rw [List.filter_append, List.filter_cons_of_neg (by rw [h]; exact Bool.false_ne_true),
    List.filter_nil, List.append_nil]

theorem exits?_concat_of_leaves {found : List (Label α × Mode)}
    (h : exits? t trace rides = some found) (hleaves : l.leaves rides = true)
    (hmode : t.modeOf? l.routeStop = some mode) :
    exits? t (trace ++ [(id, l)]) rides = some (found ++ [(l, mode)]) := by
  have hself : [(id, l)].filter (fun x => x.2.leaves rides) = [(id, l)] :=
    List.filter_eq_self.mpr fun x hx => by rw [List.mem_singleton.mp hx]; exact hleaves
  unfold exits? at h ⊢
  rw [List.filter_append, hself, List.mapM_append, h]
  simp only [List.mapM_cons, List.mapM_nil, hmode, Option.bind_eq_bind, Option.bind_some,
    Option.pure_def]

-- A ride that no label of the trace extends does not have exits.
theorem exits?_concat_ride (hnew : ∀ x ∈ trace, x.2.previous ≠ some id) :
    exits? t trace (rides ++ [(id, l)]) = exits? t trace rides := by
  have hsame : ∀ x ∈ trace, x.2.leaves (rides ++ [(id, l)]) = x.2.leaves rides := by
    intro x hx
    unfold leaves
    rw [List.any_append, List.any_cons, List.any_nil, Bool.or_false,
      beq_false_of_ne (hnew x hx), Bool.or_false]
  unfold exits?
  rw [List.filter_congr hsame]

theorem modeRun?_eq_some_iff : modeRun? t trace rides = some r ↔ ∃ first previous,
    rides.head? = some first ∧ t.modeOf? first.2.routeStop = some r.mode ∧
      first.2.previous = some previous ∧ trace.lookup previous = some r.boarding ∧
      exits? t trace rides = some r.exits := by
  unfold modeRun?
  simp only [Option.bind_eq_bind, Option.pure_def, Option.bind_eq_some_iff, Option.some.injEq]
  constructor
  · rintro ⟨first, hfirst, mode, hmode, previous, hprevious, boarding, hboarding, found, hfound,
      rfl⟩
    exact ⟨first, previous, hfirst, hmode, hprevious, hboarding, hfound⟩
  · rintro ⟨first, previous, hfirst, hmode, hprevious, hboarding, hfound⟩
    exact ⟨first, hfirst, r.mode, hmode, previous, hprevious, r.boarding, hboarding, r.exits,
      hfound, rfl⟩

theorem lookup_concat {previous : Nat} (h : trace.lookup previous = some b) :
    (trace ++ [(id, l)]).lookup previous = some b := by
  rw [List.lookup_append, h, Option.some_or]

theorem modeRun?_concat_of_not_leaves (h : modeRun? t trace rides = some r)
    (hleaves : l.leaves rides = false) : modeRun? t (trace ++ [(id, l)]) rides = some r := by
  rw [modeRun?_eq_some_iff] at h ⊢
  rcases h with ⟨first, previous, hfirst, hmode, hprevious, hboarding, hexits⟩
  exact ⟨first, previous, hfirst, hmode, hprevious, lookup_concat hboarding,
    (exits?_concat_of_not_leaves hleaves).trans hexits⟩

theorem modeRun?_concat_of_leaves (h : modeRun? t trace rides = some r)
    (hleaves : l.leaves rides = true) (hmode : t.modeOf? l.routeStop = some mode) :
    modeRun? t (trace ++ [(id, l)]) rides = some { r with exits := r.exits ++ [(l, mode)] } := by
  rw [modeRun?_eq_some_iff] at h ⊢
  rcases h with ⟨first, previous, hfirst, hfirstMode, hprevious, hboarding, hexits⟩
  exact ⟨first, previous, hfirst, hfirstMode, hprevious, lookup_concat hboarding,
    exits?_concat_of_leaves hexits hleaves hmode⟩

theorem isTransfer_of_isRide (h : l.isRide = true) : l.isTransfer = false := by
  unfold isRide Step.isRide at h
  unfold isTransfer Step.isTransfer
  cases hstep : l.step with
  | access k => rfl
  | ride trip boardingTime => rfl
  | transfer duration cost =>
      rw [hstep] at h
      exact absurd h Bool.false_ne_true

theorem leaves_of_isRide (h : l.isRide = true) : l.leaves rides = false := by
  rw [leaves, isTransfer_of_isRide h, Bool.false_and]

theorem leaves_iff (htransfer : l.isTransfer = true) (hprevious : l.previous = some id) :
    l.leaves rides = true ↔ ∃ ride ∈ rides, ride.1 = id := by
  unfold leaves
  rw [htransfer, Bool.true_and, List.any_eq_true]
  refine exists_congr fun ride => and_congr_right fun _ => ?_
  rw [beq_iff_eq, hprevious, Option.some.injEq, eq_comm]

-- A ride alone is a run without exits, because nothing has left it yet.
theorem modeRun?_singleton (hride : l.isRide = true) (hmode : t.modeOf? l.routeStop = some mode)
    (hprevious : l.previous = some id') (hboarding : trace.lookup id' = some b)
    (hnew : ∀ x ∈ trace, x.2.previous ≠ some id) :
    modeRun? t (trace ++ [(id, l)]) [(id, l)] = some ⟨mode, b, []⟩ := by
  have hnone : exits? t trace [] = some [] := by
    unfold exits? leaves
    simp only [List.any_nil, Bool.and_false, List.filter_false, List.mapM_nil, Option.pure_def]
  refine modeRun?_eq_some_iff.mpr ⟨(id, l), id', rfl, hmode, hprevious, lookup_concat hboarding, ?_⟩
  rw [exits?_concat_of_not_leaves (leaves_of_isRide hride)]
  have hnew : exits? t trace ([] ++ [(id, l)]) = exits? t trace [] := exits?_concat_ride hnew
  exact hnew.trans hnone

/-- The rides of a trace end with the ride at a position, and with a run after
    others. -/
structure Running (t : Timetable α) (trace : List (Nat × Label α)) (id : Nat) (y : Label α)
    (runs : List (ModeRun α)) (r : ModeRun α) : Prop where
  rides : ∃ earlier last, ridesByMode t trace = earlier ++ [last] ∧ last.getLast? = some (id, y) ∧
    earlier.mapM (modeRun? t trace) = some runs ∧ modeRun? t trace last = some r
  mode : t.modeOf? y.routeStop = some r.mode

theorem ridesByMode_concat_of_isTransfer (h : l.isTransfer = true) :
    ridesByMode t (trace ++ [(id, l)]) = ridesByMode t trace := by
  have hride : l.isRide ≠ true := fun hride =>
    Bool.false_ne_true ((isTransfer_of_isRide hride).symm.trans h)
  have hnone : [(id, l)].filter (fun x => x.2.isRide) = [] :=
    List.filter_eq_nil_iff.mpr fun x hx => by rw [List.mem_singleton.mp hx]; exact hride
  unfold ridesByMode
  rw [List.filter_append, hnone, List.append_nil]

-- The rides of a longer trace.
theorem filter_concat_of_isRide (h : l.isRide = true) :
    (trace ++ [(id, l)]).filter (fun x => x.2.isRide)
      = trace.filter (fun x => x.2.isRide) ++ [(id, l)] := by
  have hself : [(id, l)].filter (fun x => x.2.isRide) = [(id, l)] :=
    List.filter_eq_self.mpr fun x hx => by rw [List.mem_singleton.mp hx]; exact h
  rw [List.filter_append, hself]

-- The rides of the last run come after those of the runs before it.
theorem lt_of_ridesByMode {earlier : List (List (Nat × Label α))} {last : List (Nat × Label α)}
    (h : ridesByMode t trace = earlier ++ [last])
    (hordered : trace.Pairwise fun x x' => x.1 < x'.1) :
    ∀ g ∈ earlier, ∀ x ∈ g, ∀ x' ∈ last, x.1 < x'.1 := by
  have hflatten := List.flatten_splitBy (fun x y : Nat × Label α =>
    t.modeOf? x.2.routeStop == t.modeOf? y.2.routeStop) (trace.filter fun x => x.2.isRide)
  have hsorted := hordered.sublist (List.filter_sublist (p := fun x => x.2.isRide))
  unfold ridesByMode at h
  rw [← hflatten, h, List.flatten_append, List.flatten_singleton, List.pairwise_append] at hsorted
  exact fun g hg x hx x' hx' => hsorted.2.2 x (List.mem_flatten_of_mem hg hx) x' hx'

namespace Running

theorem modeRuns?_eq (h : Running t trace id y runs r) :
    modeRuns? t trace = some (runs ++ [r]) := by
  rcases h.rides with ⟨earlier, last, hrides, -, hearlier, hlast⟩
  unfold modeRuns?
  rw [hrides, List.mapM_append, hearlier]
  simp only [List.mapM_cons, List.mapM_nil, hlast, Option.bind_eq_bind, Option.bind_some,
    Option.pure_def]

/-- A transfer from the last ride is an exit of the last run. -/
theorem transfer (h : Running t trace id y runs r)
    (hordered : trace.Pairwise fun x x' => x.1 < x'.1) (htransfer : l.isTransfer = true)
    (hprevious : l.previous = some id) (hmode : t.modeOf? l.routeStop = some mode) :
    Running t (trace ++ [(id', l)]) id y runs { r with exits := r.exits ++ [(l, mode)] } := by
  rcases h.rides with ⟨earlier, last, hrides, hy, hearlier, hlast⟩
  have hmem := List.mem_of_getLast? hy
  have hleaves : l.leaves last = true := (leaves_iff htransfer hprevious).mpr ⟨(id, y), hmem, rfl⟩
  -- Other runs do not have the ride that is left.
  have hstays : ∀ g ∈ earlier, l.leaves g = false := by
    intro g hg
    rw [Bool.eq_false_iff, Ne, leaves_iff htransfer hprevious]
    rintro ⟨ride, hride, hid⟩
    have hlt := lt_of_ridesByMode hrides hordered g hg ride hride (id, y) hmem
    exact Nat.ne_of_lt hlt hid
  refine ⟨⟨earlier, last, (ridesByMode_concat_of_isTransfer htransfer).trans hrides, hy, ?_,
    modeRun?_concat_of_leaves hlast hleaves hmode⟩, h.mode⟩
  exact Loop.mapM_mono (fun g hg r hr => modeRun?_concat_of_not_leaves hr (hstays g hg)) hearlier

/-- A ride of the mode of the last run goes on with it. -/
theorem ride (h : Running t trace id y runs r) (hride : l.isRide = true)
    (hmode : t.modeOf? l.routeStop = some r.mode) (hnew : ∀ x ∈ trace, x.2.previous ≠ some id') :
    Running t (trace ++ [(id', l)]) id' l runs r := by
  rcases h.rides with ⟨earlier, last, hrides, hy, hearlier, hlast⟩
  have hsame : (t.modeOf? y.routeStop == t.modeOf? l.routeStop) = true := by
    rw [h.mode, hmode, beq_self_eq_true]
  refine ⟨⟨earlier, last ++ [(id', l)], ?_, List.getLast?_concat, ?_, ?_⟩, hmode⟩
  · unfold ridesByMode
    rw [filter_concat_of_isRide hride]
    exact splitBy_concat_of_rel hrides hy hsame
  · exact Loop.mapM_mono (fun g _ r hr => modeRun?_concat_of_not_leaves hr (leaves_of_isRide hride))
      hearlier
  · rw [modeRun?_eq_some_iff] at hlast ⊢
    rcases hlast with ⟨first, previous, hfirst, hfirstMode, hprevious, hboarding, hexits⟩
    refine ⟨first, previous, ?_, hfirstMode, hprevious, lookup_concat hboarding, ?_⟩
    · rw [List.head?_append, hfirst, Option.some_or]
    · rw [exits?_concat_of_not_leaves (leaves_of_isRide hride), exits?_concat_ride hnew, hexits]

/-- A ride of another mode starts a run. -/
theorem change (h : Running t trace id y runs r) (hride : l.isRide = true)
    (hmode : t.modeOf? l.routeStop = some mode) (hne : mode ≠ r.mode) {n : Nat}
    (hprevious : l.previous = some n) (hboarding : trace.lookup n = some b)
    (hnew : ∀ x ∈ trace, x.2.previous ≠ some id') :
    Running t (trace ++ [(id', l)]) id' l (runs ++ [r]) ⟨mode, b, []⟩ := by
  rcases h.rides with ⟨earlier, last, hrides, hy, hearlier, hlast⟩
  have hlastRide := getLast?_of_splitBy hrides hy
  have hstays : ∀ g ∈ earlier ++ [last], l.leaves g = false := fun g _ => leaves_of_isRide hride
  refine ⟨⟨earlier ++ [last], [(id', l)], ?_, rfl, ?_,
    modeRun?_singleton hride hmode hprevious hboarding hnew⟩, hmode⟩
  · unfold ridesByMode at hrides ⊢
    rw [filter_concat_of_isRide hride, ← hrides]
    refine splitBy_concat_of_not_rel fun x hx => ?_
    rw [hlastRide, Option.mem_some_iff] at hx
    rw [← hx, h.mode, hmode]
    exact beq_false_of_ne fun heq => hne (Option.some.inj heq).symm
  · refine Loop.mapM_mono (fun g hg r hr => modeRun?_concat_of_not_leaves hr (hstays g hg)) ?_
    rw [← hrides]
    exact h.modeRuns?_eq

/-- The first ride starts the first run. -/
theorem start (hrides : trace.filter (fun x => x.2.isRide) = []) (hride : l.isRide = true)
    (hmode : t.modeOf? l.routeStop = some mode) {n : Nat} (hprevious : l.previous = some n)
    (hboarding : trace.lookup n = some b) (hnew : ∀ x ∈ trace, x.2.previous ≠ some id') :
    Running t (trace ++ [(id', l)]) id' l [] ⟨mode, b, []⟩ := by
  refine ⟨⟨[], [(id', l)], ?_, rfl, rfl,
    modeRun?_singleton hride hmode hprevious hboarding hnew⟩, hmode⟩
  unfold ridesByMode
  rw [filter_concat_of_isRide hride, hrides]
  exact List.splitBy_of_isChain (List.cons_ne_nil _ []) (List.isChain_singleton _)

theorem ride_mem (h : Running t trace id y runs r) : (id, y) ∈ trace := by
  rcases h.rides with ⟨earlier, last, hrides, hy, -, -⟩
  exact List.mem_of_mem_filter (List.mem_of_getLast? (getLast?_of_splitBy hrides hy))

theorem boarding_mem (h : Running t trace id y runs r) : ∃ n, (n, r.boarding) ∈ trace := by
  rcases h.rides with ⟨earlier, last, -, -, -, hlast⟩
  rcases modeRun?_eq_some_iff.mp hlast with ⟨first, n, -, -, -, hboarding, -⟩
  rcases List.lookup_eq_some_iff.mp hboarding with ⟨before, after, rfl, -⟩
  exact ⟨n, List.mem_append_right _ List.mem_cons_self⟩

theorem exit_mem (h : Running t trace id y runs r) : ∀ x ∈ r.exits, ∃ n, (n, x.1) ∈ trace := by
  rcases h.rides with ⟨earlier, last, -, -, -, hlast⟩
  rcases modeRun?_eq_some_iff.mp hlast with ⟨first, n, -, -, -, -, hexits⟩
  intro x hx
  rcases (Loop.mem_of_mapM hexits x).mp hx with ⟨⟨k, l⟩, hl, hmode⟩
  rcases Option.bind_eq_some_iff.mp hmode with ⟨mode, -, hpair⟩
  rw [Option.pure_def, Option.some.injEq] at hpair
  exact ⟨k, hpair ▸ List.mem_of_mem_filter hl⟩

end Running

end Steps

section Finding

variable {α : Type} {t : Timetable α} {labels labels' : Array (Label α)}
  {trace : List (Nat × Label α)} {id id' n : Nat} {l m y b : Label α} {runs : List (ModeRun α)}
  {r : ModeRun α} {mode : Mode}

theorem rideBefore?_of_isRide (h : l.isRide = true) : rideBefore? labels l = some (some l) := by
  unfold isRide Step.isRide at h
  unfold rideBefore?
  cases hstep : l.step with
  | access k => rw [hstep] at h; exact absurd h Bool.false_ne_true
  | ride trip boardingTime => rfl
  | transfer duration cost => rw [hstep] at h; exact absurd h Bool.false_ne_true

theorem rideBefore?_of_isTransfer (h : l.isTransfer = true) (hprevious : l.previous = some n)
    (hm : labels[n]? = some m) : rideBefore? labels l = some (some m) := by
  unfold isTransfer Step.isTransfer at h
  unfold rideBefore?
  cases hstep : l.step with
  | access k => rw [hstep] at h; exact absurd h Bool.false_ne_true
  | ride trip boardingTime => rw [hstep] at h; exact absurd h Bool.false_ne_true
  | transfer duration cost => simp only [hprevious, hm, Option.map_some]

theorem rideBefore?_mono
    (hlabels : ∀ (i : Nat) (m : Label α), labels[i]? = some m → labels'[i]? = some m)
    {found : Option (Label α)} (h : rideBefore? labels l = some found) :
    rideBefore? labels' l = some found := by
  unfold rideBefore? at h ⊢
  cases hstep : l.step with
  | access k => rw [hstep] at h; exact h
  | ride trip boardingTime => rw [hstep] at h; exact h
  | transfer duration cost =>
      rw [hstep] at h
      cases hprevious : l.previous with
      | none => rw [hprevious] at h; exact h
      | some n =>
          rw [hprevious] at h
          rcases Option.map_eq_some_iff.mp h with ⟨m, hm, hfound⟩
          exact Option.map_eq_some_iff.mpr ⟨m, hlabels n m hm, hfound⟩

/-- Where a run started does not change when more labels are stored. -/
theorem runStartWithin?_mono
    (hlabels : ∀ (i : Nat) (m : Label α), labels[i]? = some m → labels'[i]? = some m) (n : Nat) :
    ∀ {l : Label α}, runStartWithin? t labels mode n l = some b →
      runStartWithin? t labels' mode n l = some b := by
  induction n with
  | zero => exact fun h => h
  | succ n ih =>
      intro l h
      unfold runStartWithin? at h ⊢
      cases hprevious : l.previous with
      | none => rw [hprevious] at h; exact h
      | some id =>
          simp only [hprevious, Option.bind_eq_bind] at h ⊢
          rcases Option.bind_eq_some_iff.mp h with ⟨m, hm, h⟩
          rcases Option.bind_eq_some_iff.mp h with ⟨before, hbefore, h⟩
          rw [hlabels id m hm, Option.bind_some, rideBefore?_mono hlabels hbefore, Option.bind_some]
          cases before with
          | none => exact h
          | some y =>
              by_cases hride : y.isRide = true
              · simp only [hride, if_true] at h ⊢
                rcases Option.bind_eq_some_iff.mp h with ⟨mode', hmode, h⟩
                rw [hmode, Option.bind_some]
                split at h
                · rename_i hsame
                  rw [if_pos hsame]
                  exact ih h
                · rename_i hother
                  rw [if_neg hother]
                  exact h
              · simp only [hride, Bool.false_eq_true, if_false] at h ⊢
                exact h

/-- What a policy finds out about the run that a label is on: where it started and
    how many transfers have left it. -/
structure OnRun (t : Timetable α) (labels : Array (Label α)) (trace : List (Nat × Label α))
    (l : Label α) (id : Nat) (y : Label α) (runs : List (ModeRun α)) (r : ModeRun α) : Prop
    extends Running t trace id y runs r where
  found : ∀ n, id < n → runStartWithin? t labels r.mode n y = some r.boarding
  count : l.transfers = r.boarding.transfers + r.exits.length
  /-- The last transfer leads to where the label is, as far as modes are concerned. -/
  onward : ∀ x ∈ r.exits.getLast?, t.modeOf? l.routeStop = some x.2

namespace OnRun

theorem mono (h : OnRun t labels trace l id y runs r)
    (hlabels : ∀ (i : Nat) (m : Label α), labels[i]? = some m → labels'[i]? = some m) :
    OnRun t labels' trace l id y runs r :=
  { h with found := fun n hn => runStartWithin?_mono hlabels n (h.found n hn) }

theorem runStart?_eq (h : OnRun t labels trace l id l runs r) (hl : labels[id]? = some l)
    (hride : l.isRide = true) : runStart? t labels id = some r.boarding := by
  unfold runStart?
  simp only [hl, hride, h.mode, Option.bind_eq_bind, Option.bind_some, if_true]
  exact h.found _ (Array.getElem?_eq_some_iff.mp hl).1

-- A walk leaves the run of the ride that it starts from.
theorem transfer (h : OnRun t labels trace y id y runs r)
    (hordered : trace.Pairwise fun x x' => x.1 < x'.1) (htransfer : l.isTransfer = true)
    (hprevious : l.previous = some id) (hmode : t.modeOf? l.routeStop = some mode)
    (htransfers : l.transfers = y.transfers + 1) :
    OnRun t labels (trace ++ [(id', l)]) l id y runs
      { r with exits := r.exits ++ [(l, mode)] } where
  toRunning := h.toRunning.transfer hordered htransfer hprevious hmode
  found := h.found
  count := by
    rw [htransfers, h.count, List.length_append, List.length_singleton, Nat.add_assoc]
  onward := fun x hx => by
    rw [List.getLast?_concat, Option.mem_some_iff] at hx
    rw [← hx]
    exact hmode

-- A ride of the same mode goes on with the run.
theorem ride (h : OnRun t labels trace m id y runs r)
    (hbefore : rideBefore? labels m = some (some y)) (hy : y.isRide = true) (hlt : id < id')
    (hride : l.isRide = true) (hprevious : l.previous = some n) (hm : labels[n]? = some m)
    (hmode : t.modeOf? l.routeStop = some r.mode)
    (hsame : t.modeOf? m.routeStop = t.modeOf? l.routeStop) (htransfers : l.transfers = m.transfers)
    (hnew : ∀ x ∈ trace, x.2.previous ≠ some id') :
    OnRun t labels (trace ++ [(id', l)]) l id' l runs r where
  toRunning := h.toRunning.ride hride hmode hnew
  found := fun k hk => by
    rcases Nat.exists_eq_add_one_of_ne_zero (Nat.ne_zero_of_lt hk) with ⟨k, rfl⟩
    unfold runStartWithin?
    simp only [hprevious, hm, hbefore, hy, h.mode, Option.bind_eq_bind, Option.bind_some, if_true]
    exact h.found k (by omega)
  count := htransfers.trans h.count
  onward := fun x hx => by
    rw [← hsame]
    exact h.onward x hx

-- A ride of another mode starts a run.
theorem change (h : OnRun t labels trace m id y runs r)
    (hbefore : rideBefore? labels m = some (some y)) (hy : y.isRide = true)
    (hride : l.isRide = true) (hprevious : l.previous = some n) (hm : labels[n]? = some m)
    (hboarding : trace.lookup n = some m) (hmode : t.modeOf? l.routeStop = some mode)
    (hne : mode ≠ r.mode) (htransfers : l.transfers = m.transfers)
    (hnew : ∀ x ∈ trace, x.2.previous ≠ some id') :
    OnRun t labels (trace ++ [(id', l)]) l id' l (runs ++ [r]) ⟨mode, m, []⟩ where
  toRunning := h.toRunning.change hride hmode hne hprevious hboarding hnew
  found := fun k hk => by
    rcases Nat.exists_eq_add_one_of_ne_zero (Nat.ne_zero_of_lt hk) with ⟨k, rfl⟩
    unfold runStartWithin?
    simp only [hprevious, hm, hbefore, hy, h.mode, Option.bind_eq_bind, Option.bind_some, if_true,
      Option.pure_def]
    exact if_neg fun heq => hne heq.symm
  count := htransfers
  onward := fun x hx => absurd hx (Option.not_mem_none x)

-- The first ride starts the first run.
theorem start (hrides : trace.filter (fun x => x.2.isRide) = [])
    (hbefore : rideBefore? labels m = some none) (hride : l.isRide = true)
    (hprevious : l.previous = some n) (hm : labels[n]? = some m)
    (hboarding : trace.lookup n = some m) (hmode : t.modeOf? l.routeStop = some mode)
    (htransfers : l.transfers = m.transfers) (hnew : ∀ x ∈ trace, x.2.previous ≠ some id') :
    OnRun t labels (trace ++ [(id', l)]) l id' l [] ⟨mode, m, []⟩ where
  toRunning := Running.start hrides hride hmode hprevious hboarding hnew
  found := fun k hk => by
    rcases Nat.exists_eq_add_one_of_ne_zero (Nat.ne_zero_of_lt hk) with ⟨k, rfl⟩
    unfold runStartWithin?
    simp only [hprevious, hm, hbefore, Option.bind_eq_bind, Option.bind_some, Option.pure_def]
  count := htransfers
  onward := fun x hx => absurd hx (Option.not_mem_none x)

end OnRun

end Finding

end Label

end Journey
