import Journey.Proofs.Sample
import Journey.Proofs.Search.ModeRuns
import Journey.Proofs.Search.Twins
import Journey.Proofs.Timetable.Assembly

/-!
# Longest Runs

The walk back over a journey stops where the longest run of rides of one mode began.

`runStart?` asks at every step whether there is a ride before the boarding, and whether
that ride has the mode of the last one. What it finds can be said without the walk. A
ride follows another one if it was boarded where the other was left, or from a walk that
came from there; no ride follows two. Lists of rides of one mode in which each follows
the next are therefore prefixes of one another if they have the same head, and one of
them is the longest. The start is what the earliest ride of that list was boarded from,
and if this ride follows yet another, then the mode changed there.

Labels may be stored in any way in which predecessors come first. Nothing else about
searches is needed: rides may be boarded from rides, walks may follow walks, and journeys
may begin with anything. The timetable has to know the modes of the rides, since a
route-stop that does not exist has none.

## Main definitions

* `Label.Follows`: A ride goes on where another one ended.
* `Label.LongestRun`: The longest run of rides of one mode that ends with a ride.
* `Label.Begins`: The mode changes before a ride.
* `Label.StartsFrom`: What the earliest ride of a run was boarded from.

## Theorems

* `Label.Follows.unique`: No ride follows two.
* `Label.LongestRun.cons`: A longest run is extended by the ride that follows it.
* `Label.runStartWithin?_of_follows`, `Label.runStartWithin?_of_begins`: One step of the
  walk back, and its end.
* `Label.Ordered.runStart?_longest`: The start of the longest run is found.
-/

namespace Journey

namespace Label

section Definitions

variable {α : Type}

/-- A ride was boarded from the label `k`, or from a walk that comes from it. -/
inductive BoardedFrom (labels : Array (Label α)) (ride : Label α) (k : Nat) : Prop where
  | directly (previous : ride.previous = some k)
  | onFoot {n : Nat} {walk : Label α} (previous : ride.previous = some n)
      (label : labels[n]? = some walk) (transfer : walk.isTransfer = true)
      (origin : walk.previous = some k)

/-- The ride `id` goes on where the ride `k` ended. -/
def Follows (labels : Array (Label α)) (id k : Nat) : Prop :=
  ∃ l m, labels[id]? = some l ∧ l.isRide = true ∧ labels[k]? = some m ∧ m.isRide = true ∧
    BoardedFrom labels l k

/-- Rides of one mode, the last one first, each of which follows the next. -/
structure OfOneMode (t : Timetable α) (labels : Array (Label α)) (mode : Mode)
    (rides : List Nat) : Prop where
  ride : ∀ id ∈ rides, ∃ l, labels[id]? = some l ∧ l.isRide = true ∧
    t.modeOf? l.routeStop = some mode
  chain : rides.IsChain (Follows labels)

/-- The longest run of rides of one mode that ends with the given ride. The other ones are
    parts of it. -/
structure LongestRun (t : Timetable α) (labels : Array (Label α)) (mode : Mode) (id : Nat)
    (rides : List Nat) : Prop extends OfOneMode t labels mode rides where
  head : rides.head? = some id
  longest : ∀ other, OfOneMode t labels mode other → other.head? = some id → other <+: rides

/-- A ride begins a run of a mode: the one that it follows, if there is one, has another
    mode. -/
def Begins (t : Timetable α) (labels : Array (Label α)) (mode : Mode) (id : Nat) : Prop :=
  ∀ k earlier, Follows labels id k → labels[k]? = some earlier →
    t.modeOf? earlier.routeStop ≠ some mode

/-- The label that a ride was boarded from, or the ride itself if it has no predecessor. -/
def boarding? (labels : Array (Label α)) (ride : Label α) : Option (Label α) :=
  match ride.previous with
  | none => some ride
  | some id => labels[id]?

/-- The rides of a run start with the ride `first`, which was boarded from the given
    label, and no earlier. -/
structure StartsFrom (t : Timetable α) (labels : Array (Label α)) (mode : Mode)
    (rides : List Nat) (first : Nat) (start : Label α) : Prop where
  last : rides.getLast? = some first
  boarding : ∃ ride, labels[first]? = some ride ∧ boarding? labels ride = some start
  begins : Begins t labels mode first

/-- The timetable knows the mode of every ride. -/
def ModesKnown (t : Timetable α) (labels : Array (Label α)) : Prop :=
  ∀ (id : Nat) (l : Label α), labels[id]? = some l → l.isRide = true →
    ∃ mode, t.modeOf? l.routeStop = some mode

end Definitions

variable {α : Type} {t : Timetable α} {labels : Array (Label α)} {mode : Mode} {id k : Nat}
  {l m : Label α} {rides : List Nat} {start : Label α}

/-- A timetable that was built knows the modes of rides to its route-stops. -/
theorem modesKnown_of_lt (ht : t.WellFormed)
    (h : ∀ (id : Nat) (l : Label α), labels[id]? = some l → l.routeStop < t.routeStops.size) :
    ModesKnown t labels :=
  fun id l hl _ => ht.exists_mode (h id l hl)

section Following

-- What a ride was boarded from is a ride or a walk, but not both.
theorem BoardedFrom.eq_of_isRide {n : Nat} {ride : Label α} (h : BoardedFrom labels ride k)
    (hm : labels[n]? = some m) (hride : m.isRide = true) (hprevious : ride.previous = some n) :
    k = n := by
  cases h with
  | directly previous => exact Option.some.inj (previous.symm.trans hprevious)
  | onFoot previous label transfer =>
      rw [Option.some.inj (previous.symm.trans hprevious), hm, Option.some.injEq] at label
      rw [← label, isTransfer_of_isRide hride] at transfer
      exact absurd transfer Bool.false_ne_true

/-- No ride follows two. -/
theorem Follows.unique (h : Follows labels id k) {k' : Nat} (h' : Follows labels id k') :
    k' = k := by
  rcases h with ⟨l, m, hl, -, hm, hride, hboarded⟩
  rcases h' with ⟨l', m', hl', -, hm', hride', hboarded'⟩
  rw [hl, Option.some.injEq] at hl'
  subst hl'
  cases hboarded with
  | directly previous => exact hboarded'.eq_of_isRide hm hride previous
  | onFoot previous label transfer origin =>
      cases hboarded' with
      | directly previous' =>
          exact ((BoardedFrom.onFoot previous label transfer origin).eq_of_isRide hm' hride'
            previous').symm
      | onFoot previous' label' transfer' origin' =>
          rw [Option.some.inj (previous'.symm.trans previous), label, Option.some.injEq] at label'
          exact Option.some.inj (origin'.symm.trans (label' ▸ origin))

theorem Follows.earlier (h : Follows labels id k) (hm : labels[k]? = some m) :
    m.isRide = true := by
  rcases h with ⟨-, m', -, -, hm', hride, -⟩
  rw [hm, Option.some.injEq] at hm'
  exact hm' ▸ hride

theorem Follows.lt (h : Follows labels id k) (hlabels : Ordered labels) : k < id := by
  rcases h with ⟨l, m, hl, -, -, -, hboarded⟩
  cases hboarded with
  | directly previous => exact hlabels id l hl k previous
  | @onFoot n walk previous label transfer origin =>
      exact (hlabels n walk label k origin).trans (hlabels id l hl n previous)

end Following

section Lists

/-- A ride that begins a run is a run of its own. -/
theorem LongestRun.single (hl : labels[id]? = some l) (hride : l.isRide = true)
    (hmode : t.modeOf? l.routeStop = some mode) (hbegins : Begins t labels mode id) :
    LongestRun t labels mode id [id] where
  ride := fun n hn => ⟨l, by rw [List.mem_singleton.mp hn, hl], hride, hmode⟩
  chain := List.isChain_singleton id
  head := rfl
  longest := by
    intro other hother hhead
    rcases List.head?_eq_some_iff.mp hhead with ⟨earlier, rfl⟩
    cases earlier with
    | nil => exact List.prefix_rfl
    | cons k earlier =>
        rcases hother.ride k (List.mem_cons_of_mem id List.mem_cons_self) with ⟨m, hm, -, hmode'⟩
        exact absurd hmode' (hbegins k m (List.isChain_cons_cons.mp hother.chain).1 hm)

/-- A longest run is extended by the ride that follows it, if that has its mode. -/
theorem LongestRun.cons (h : LongestRun t labels mode k rides) (hl : labels[id]? = some l)
    (hride : l.isRide = true) (hmode : t.modeOf? l.routeStop = some mode)
    (hfollows : Follows labels id k) : LongestRun t labels mode id (id :: rides) where
  ride := by
    intro n hn
    rcases List.mem_cons.mp hn with rfl | hn
    · exact ⟨l, hl, hride, hmode⟩
    · exact h.ride n hn
  chain := by
    refine List.isChain_cons.mpr ⟨fun n hn => ?_, h.chain⟩
    rw [h.head, Option.mem_some_iff] at hn
    exact hn ▸ hfollows
  head := rfl
  longest := by
    intro other hother hhead
    rcases List.head?_eq_some_iff.mp hhead with ⟨earlier, rfl⟩
    refine List.cons_prefix_cons.mpr ⟨rfl, ?_⟩
    cases earlier with
    | nil => exact List.nil_prefix
    | cons k' earlier =>
        have hchain := List.isChain_cons_cons.mp hother.chain
        refine h.longest _ ⟨fun n hn => hother.ride n (List.mem_cons_of_mem id hn), hchain.2⟩ ?_
        rw [List.head?_cons, hfollows.unique hchain.1]

theorem StartsFrom.cons {first : Nat} (h : StartsFrom t labels mode rides first start) (id : Nat) :
    StartsFrom t labels mode (id :: rides) first start where
  last := by rw [List.getLast?_cons, h.last, Option.getD_some]
  boarding := h.boarding
  begins := h.begins

end Lists

section Walking

/-- The walk back goes on with the ride that a ride follows, if that has the mode. -/
theorem runStartWithin?_of_follows (hfollows : Follows labels id k) (hl : labels[id]? = some l)
    (hm : labels[k]? = some m) (hmode : t.modeOf? m.routeStop = some mode) (length : Nat) :
    runStartWithin? t labels mode (length + 1) l = runStartWithin? t labels mode length m := by
  rcases hfollows with ⟨l', m', hl', -, hm', hride, hboarded⟩
  rw [hl, Option.some.injEq] at hl'
  rw [hm, Option.some.injEq] at hm'
  subst hl' hm'
  have hbefore : ∃ n boarding, l.previous = some n ∧ labels[n]? = some boarding ∧
      rideBefore? labels boarding = some (some m) := by
    cases hboarded with
    | directly previous => exact ⟨k, m, previous, hm, rideBefore?_of_isRide hride⟩
    | @onFoot n walk previous label transfer origin =>
        exact ⟨n, walk, previous, label, rideBefore?_of_isTransfer transfer origin hm⟩
  rcases hbefore with ⟨n, boarding, hprevious, hboarding, hbefore⟩
  simp only [runStartWithin?, hprevious, hboarding, hbefore, hride, hmode, Option.bind_eq_bind,
    Option.bind_some, if_true]

-- A ride before the boarding, if there is one, is the one that is followed.
theorem rideBefore?_follows (hlabels : Ordered labels) (hl : labels[id]? = some l)
    (hride : l.isRide = true) {n : Nat} {boarding : Label α} (hprevious : l.previous = some n)
    (hboarding : labels[n]? = some boarding) :
    ∃ before, rideBefore? labels boarding = some before ∧
      ∀ m ∈ before, m.isRide = true → ∃ k, labels[k]? = some m ∧ Follows labels id k := by
  unfold rideBefore?
  cases hstep : boarding.step with
  | access k => exact ⟨none, rfl, fun m hm => absurd hm (Option.not_mem_none m)⟩
  | ride trip boardingTime =>
      refine ⟨some boarding, rfl, fun m hm hearlier => ?_⟩
      rw [← Option.mem_some_iff.mp hm] at hearlier ⊢
      exact ⟨n, hboarding, l, boarding, hl, hride, hboarding, hearlier, .directly hprevious⟩
  | transfer duration cost =>
      cases horigin : boarding.previous with
      | none => exact ⟨none, rfl, fun m hm => absurd hm (Option.not_mem_none m)⟩
      | some k =>
          have hk := (hlabels n boarding hboarding k horigin).trans
            (Array.getElem?_eq_some_iff.mp hboarding).1
          have hlabel := Array.getElem?_eq_getElem hk
          refine ⟨some labels[k], by simp only [hlabel, Option.map_some], fun m hm hearlier => ?_⟩
          rw [← Option.mem_some_iff.mp hm] at hearlier ⊢
          exact ⟨k, hlabel, l, labels[k], hl, hride, hlabel, hearlier,
            .onFoot hprevious hboarding (by rw [isTransfer, hstep, Step.isTransfer]) horigin⟩

/-- The walk back ends with what a ride was boarded from if the ride begins a run of the
    mode. -/
theorem runStartWithin?_of_begins (hlabels : Ordered labels) (hmodes : ModesKnown t labels)
    (hl : labels[id]? = some l) (hride : l.isRide = true) (hbegins : Begins t labels mode id) :
    ∃ start, boarding? labels l = some start ∧
      ∀ length, runStartWithin? t labels mode (length + 1) l = some start := by
  unfold boarding? runStartWithin?
  cases hprevious : l.previous with
  | none => exact ⟨l, rfl, fun _ => rfl⟩
  | some n =>
      have hn := (hlabels id l hl n hprevious).trans (Array.getElem?_eq_some_iff.mp hl).1
      have hboarding := Array.getElem?_eq_getElem hn
      refine ⟨labels[n], hboarding, fun length => ?_⟩
      rcases rideBefore?_follows hlabels hl hride hprevious hboarding with
        ⟨before, hbefore, hfollows⟩
      simp only [hboarding, hbefore, Option.bind_eq_bind, Option.bind_some]
      cases before with
      | none => rfl
      | some m =>
          by_cases hearlier : m.isRide = true
          · rcases hfollows m rfl hearlier with ⟨k, hm, hk⟩
            rcases hmodes k m hm hearlier with ⟨mode', hmode'⟩
            have hne : mode' ≠ mode := fun heq => hbegins k m hk hm (heq ▸ hmode')
            simp only [hearlier, hmode', Option.bind_some, if_true, if_neg hne, Option.pure_def]
          · simp only [if_neg hearlier, Option.pure_def]

/-- The start of the longest run of a ride is found by looking at as many rides as there
    may be before it. -/
theorem Ordered.runStartWithin?_longest (hlabels : Ordered labels) (hmodes : ModesKnown t labels)
    (hl : labels[id]? = some l) (hride : l.isRide = true)
    (hmode : t.modeOf? l.routeStop = some mode) :
    ∃ rides first start, LongestRun t labels mode id rides ∧
      StartsFrom t labels mode rides first start ∧
      ∀ length, id < length → runStartWithin? t labels mode length l = some start := by
  induction id using Nat.strongRecOn generalizing l with
  | _ id ih =>
      by_cases hearlier : ∃ k m, Follows labels id k ∧ labels[k]? = some m ∧
          t.modeOf? m.routeStop = some mode
      · rcases hearlier with ⟨k, m, hfollows, hm, hmode'⟩
        -- The ride that is followed was stored before, so its longest run is known.
        have hlt := hfollows.lt hlabels
        rcases ih k hlt hm (hfollows.earlier hm) hmode' with
          ⟨rides, first, start, hrun, hstart, hwalk⟩
        refine ⟨id :: rides, first, start, hrun.cons hl hride hmode hfollows, hstart.cons id, ?_⟩
        intro length hlength
        rcases Nat.exists_eq_add_one_of_ne_zero (Nat.ne_zero_of_lt hlength) with ⟨length, rfl⟩
        rw [runStartWithin?_of_follows hfollows hl hm hmode']
        exact hwalk length (by omega)
      · have hbegins : Begins t labels mode id :=
          fun k m hfollows hm hmode' => hearlier ⟨k, m, hfollows, hm, hmode'⟩
        rcases runStartWithin?_of_begins hlabels hmodes hl hride hbegins with
          ⟨start, hstart, hwalk⟩
        refine ⟨[id], id, start, LongestRun.single hl hride hmode hbegins,
          ⟨rfl, ⟨l, hl, hstart⟩, hbegins⟩, fun length hlength => ?_⟩
        rcases Nat.exists_eq_add_one_of_ne_zero (Nat.ne_zero_of_lt hlength) with ⟨length, rfl⟩
        exact hwalk length

theorem runStart?_of_not_isRide (t : Timetable α) (hl : labels[id]? = some l)
    (hride : l.isRide = false) : runStart? t labels id = some l := by
  unfold runStart?
  simp only [hl, hride, Option.bind_eq_bind, Option.bind_some, Bool.false_eq_true, if_false,
    Option.pure_def]

/-- The walk back from a ride looks at no more rides than there are labels, which are enough. -/
theorem Ordered.runStart?_of_isRide (hlabels : Ordered labels) (hmodes : ModesKnown t labels)
    (hl : labels[id]? = some l) (hride : l.isRide = true) :
    ∃ mode rides first start, t.modeOf? l.routeStop = some mode ∧
      LongestRun t labels mode id rides ∧ StartsFrom t labels mode rides first start ∧
      runStart? t labels id = some start ∧
      ∀ length, id < length → runStartWithin? t labels mode length l = some start := by
  rcases hmodes id l hl hride with ⟨mode, hmode⟩
  rcases hlabels.runStartWithin?_longest hmodes hl hride hmode with
    ⟨rides, first, start, hrun, hstart, hwalk⟩
  refine ⟨mode, rides, first, start, hmode, hrun, hstart, ?_, hwalk⟩
  unfold runStart?
  simp only [hl, hride, hmode, Option.bind_eq_bind, Option.bind_some, if_true]
  exact hwalk labels.size (Array.getElem?_eq_some_iff.mp hl).1

/-- The start of the run of a label is the label itself if it is no ride. For a ride, it is
    what the earliest ride of the longest run was boarded from, and looking at more rides
    makes no difference. -/
theorem Ordered.runStart?_longest (hlabels : Ordered labels) (hmodes : ModesKnown t labels)
    (hl : labels[id]? = some l) :
    (l.isRide = false → runStart? t labels id = some l) ∧
    (l.isRide = true → ∃ mode rides first start, t.modeOf? l.routeStop = some mode ∧
      LongestRun t labels mode id rides ∧ StartsFrom t labels mode rides first start ∧
      runStart? t labels id = some start ∧
      ∀ length, id < length → runStartWithin? t labels mode length l = some start) :=
  ⟨runStart?_of_not_isRide t hl, hlabels.runStart?_of_isRide hmodes hl⟩

end Walking

end Label

namespace Sample

/-- A bus line and a train line. -/
def busAndTrain : Draft ℚ :=
  network ["A", "B", "C", "D", "E"]
    [line "one" [("A", 0), ("B", 10), ("C", 20)] [0],
      { line "two" [("D", 0), ("E", 10)] [0] with mode := ⟨"train"⟩ }] []

/-- A label that says how a route-stop was reached and nothing else. -/
def reached (previous : Option Nat) (routeStop : Nat) (step : Step ℚ) : Label ℚ :=
  { previous, routeStop, step, time := 0, cost := 0, transferCost := 0, transfers := 0 }

/-- After a train and a walk, three buses: the second one is boarded where the first was
    left, and a walk leads to the third. -/
def trainThenBuses : Array (Label ℚ) :=
  #[reached none 3 (.access 0), reached (some 0) 4 (.ride 1 0), reached (some 1) 0 (.transfer 0 0),
    reached (some 2) 1 (.ride 0 0), reached (some 3) 2 (.ride 0 0),
    reached (some 4) 0 (.transfer 0 0), reached (some 5) 1 (.ride 0 0)]

end Sample

/-- The run of the last bus begins with the walk from the train. -/
theorem Label.Ordered.runStart?_longest_trainThenBuses : ∃ mode rides first start,
    Sample.busAndTrain.assemble.modeOf? 1 = some mode ∧
    LongestRun Sample.busAndTrain.assemble Sample.trainThenBuses mode 6 rides ∧
    StartsFrom Sample.busAndTrain.assemble Sample.trainThenBuses mode rides first start ∧
    runStart? Sample.busAndTrain.assemble Sample.trainThenBuses 6 = some start ∧
    Sample.trainThenBuses[2]? = some start := by
  have hprevious : ∀ id : Fin Sample.trainThenBuses.size,
      ∀ id' ∈ Sample.trainThenBuses[id].previous, id' < id := by decide
  have hexists : ∀ id : Fin Sample.trainThenBuses.size,
      Sample.trainThenBuses[id].routeStop < Sample.busAndTrain.assemble.routeStops.size := by
    decide +kernel
  have hbuild : Sample.busAndTrain.build = .ok Sample.busAndTrain.assemble :=
    Sample.build_eq_ok (by decide +kernel)
  have hlabels : Ordered Sample.trainThenBuses := by
    intro id l hl id' hid'
    rcases Array.getElem?_eq_some_iff.mp hl with ⟨hid, rfl⟩
    exact hprevious ⟨id, hid⟩ id' hid'
  have hmodes : ModesKnown Sample.busAndTrain.assemble Sample.trainThenBuses := by
    refine modesKnown_of_lt (Draft.wellFormed_of_build hbuild) fun id l hl => ?_
    rcases Array.getElem?_eq_some_iff.mp hl with ⟨hid, rfl⟩
    exact hexists ⟨id, hid⟩
  have hwalk : runStart? Sample.busAndTrain.assemble Sample.trainThenBuses 6
      = Sample.trainThenBuses[2]? := by decide +kernel
  have hlast : Sample.trainThenBuses[6]? = some (Sample.reached (some 5) 1 (.ride 0 0)) := rfl
  rcases (Ordered.runStart?_longest hlabels hmodes hlast).2 rfl with
    ⟨mode, rides, first, start, hbus, hrun, hstart, hfound, -⟩
  exact ⟨mode, rides, first, start, hbus, hrun, hstart, hfound, hwalk.symm.trans hfound⟩

end Journey
