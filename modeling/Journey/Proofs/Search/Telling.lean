import Journey.Proofs.Search.Moments

/-!
# Tellings

What an itinerary says about the labels it was made from.

Reconstruction goes through the chain of the winning label and adds one leg, or
none, for every label on it. `Told` is the same as a relation between a label and
what has been told when the label is reached. It is built up one step after the
other, and every step has at hand what made the label legal, so whatever is said
of the legs of an itinerary can be proved by induction on it.

This is the way from an itinerary back to the search. That there is an itinerary
is a matter of its own.

## Main definitions

* `Workspace.Told`: What is told when a label is reached.

## Theorems

* `Workspace.Legal.told_of_chainWithin?`: A chain that was told is a telling.
* `Workspace.held_of_winner?`: The winner is a label held at a destination.
* `Workspace.itinerary?_eq_some`: An itinerary has the legs of the winner.
* `Workspace.Legal.told_of_itinerary?`: An itinerary tells the winner and then
  the way on from there.
* `Engine.InService.told`: The same of what a search answers.
-/

namespace Journey

variable {α : Type} [Scalar α]

omit [Scalar α] in
/-- A route-stop lies at a stop. -/
def Timetable.LiesAt (t : Timetable α) (i : Nat) (stop : Stop α) : Prop :=
  ∃ s, t.stopOf? i = some s ∧ t.stops[s]? = some stop

namespace Progress

variable [Planar α] {t : Timetable α} {q : SearchQuery α} {labels : Array (Label α)}

theorem extendAll?_cons_eq_some {l : Label α} {rest : List (Label α)} {p p' : Progress α}
    (h : p.extendAll? t q labels (l :: rest) = some (some p')) :
    ∃ p₁, p.extend? t q labels l = some (some p₁) ∧
      p₁.extendAll? t q labels rest = some (some p') := by
  rw [extendAll?] at h
  rcases Option.bind_eq_some_iff.mp h with ⟨told, htold, h⟩
  cases told with
  | none => exact absurd h (by simp)
  | some p₁ => exact ⟨p₁, htold, h⟩

-- The last of several labels is told when the others have been.
theorem extendAll?_concat_eq_some {xs : List (Label α)} {l : Label α} :
    ∀ {p p' : Progress α}, p.extendAll? t q labels (xs ++ [l]) = some (some p') →
      ∃ p₁, p.extendAll? t q labels xs = some (some p₁) ∧
        p₁.extend? t q labels l = some (some p') := by
  induction xs with
  | nil =>
      intro p p' h
      rcases extendAll?_cons_eq_some h with ⟨p₁, hp₁, h⟩
      exact ⟨p, rfl, hp₁.trans h⟩
  | cons x xs ih =>
      intro p p' h
      rcases extendAll?_cons_eq_some h with ⟨p₁, hp₁, h⟩
      rcases ih h with ⟨p₂, hp₂, hlast⟩
      refine ⟨p₂, ?_, hlast⟩
      rw [extendAll?, hp₁]
      exact hp₂

end Progress

namespace Arrival

theorem better_cases (best : Option (Arrival α)) (a : Arrival α) :
    better best a = a ∨ best = some (better best a) := by
  cases best with
  | none => exact Or.inl rfl
  | some b =>
      unfold better
      simp only
      split
      · exact Or.inl rfl
      · exact Or.inr rfl

end Arrival

namespace Workspace

/-- What is told when a label is reached. -/
inductive Told [Planar α] (t : Timetable α) (q : SearchQuery α) :
    Label α → Progress α → Prop where
  /-- The way from the facility comes first. -/
  | access {l : Label α} {k : Nat} {c : Candidate α} {stop : Stop α} (step : l.step = .access k)
      (candidate : q.access[k]? = some c) (time : l.time = q.departureTime + c.time)
      (cost : l.cost = c.cost) (transfers : l.transfers = 0) (lies : t.LiesAt l.routeStop stop) :
      Told t q l ((Progress.start q.departureTime).addAccess l stop c)
  /-- A ride starts where the label before it lies. -/
  | ride {m l : Label α} {p : Progress α} {trip : Nat} {boardingTime vehicleArrival enter : α}
      {origin target : Stop α} {route : Route} {row : Trip α} (before : Told t q m p)
      (step : l.step = .ride trip boardingTime)
      (next : t.nextTrip? m.routeStop m.time = some (some trip))
      (boarding : t.departure? trip m.routeStop = some boardingTime)
      (vehicle : t.arrival? trip m.routeStop = some vehicleArrival)
      (enters : enter = Scalar.larger m.time vehicleArrival)
      (ahead : t.Ahead m.routeStop l.routeStop) (time : t.arrival? trip l.routeStop = some l.time)
      (cost : l.cost = m.cost + (enter - m.time) * q.parameters.waitingCost
        + (l.time - enter) * q.parameters.inVehicleCost)
      (transfers : l.transfers = m.transfers) (lies : t.LiesAt m.routeStop origin)
      (lies' : t.LiesAt l.routeStop target) (hroute : t.routeOf? l.routeStop = some route)
      (hrow : t.trips[trip]? = some row) :
      Told t q l (p.addRide m l origin target route row boardingTime)
  /-- A walk leads from a ride to another stop. -/
  | walk {m l : Label α} {p : Progress α} {f : Footpath α} {duration cost : α} {s s' : Nat}
      {origin target : Stop α} (before : Told t q m p) (hride : m.isRide = true)
      (step : l.step = .transfer duration cost)
      (takes : duration = Scalar.larger f.duration q.parameters.minTransferTime)
      (time : l.time = m.time + duration) (hcost : l.cost = m.cost + cost)
      (transfers : l.transfers = m.transfers + 1) (left : t.stopOf? m.routeStop = some s)
      (entered : t.stopOf? l.routeStop = some s') (elsewhere : s ≠ s') :
      Told t q l (p.addWalk l origin target duration cost)
  /-- A change at one stop follows a ride and leaves no leg. -/
  | change {m l : Label α} {p : Progress α} {f : Footpath α} {duration cost : α} {s : Nat}
      (before : Told t q m p) (hride : m.isRide = true) (step : l.step = .transfer duration cost)
      (takes : duration = Scalar.larger f.duration q.parameters.minTransferTime)
      (time : l.time = m.time + duration) (hcost : l.cost = m.cost + cost)
      (transfers : l.transfers = m.transfers + 1) (left : t.stopOf? m.routeStop = some s)
      (entered : t.stopOf? l.routeStop = some s) : Told t q l (p.addChange l cost)

variable {t : Timetable α} {policy : TransferPolicy α} {q : SearchQuery α} {w : Workspace α}

section Chains

variable [Planar α]

-- Telling one more label. The first label of a chain must be an access
-- candidate, and every other one extends the label told before it.
theorem told_of_extend? {earlier : Array (Label α)} {l : Label α} {p p' : Progress α}
    (legal : l.IsLegal t policy q earlier)
    (hearlier : ∀ (id : Nat) (m : Label α), earlier[id]? = some m → w.labels[id]? = some m)
    (hfirst : l.previous = none → p = Progress.start q.departureTime)
    (hbefore : ∀ id m, l.previous = some id → w.labels[id]? = some m → Told t q m p)
    (h : p.extend? t q w.labels l = some (some p')) : Told t q l p' := by
  unfold Progress.extend? at h
  rcases Option.bind_eq_some_iff.mp h with ⟨s, hs, h⟩
  cases legal with
  | access k c step previous candidate stop time cost transfers =>
      simp only [step, previous, candidate, Option.bind_eq_bind, Option.bind_some, Option.pure_def,
        Option.bind_eq_some_iff, Option.some.injEq] at h
      rcases h with ⟨row, hrow, rfl⟩
      rw [hfirst previous]
      exact Told.access step candidate time cost transfers ⟨s, hs, hrow⟩
  | ride id m trip boardingTime vehicleArrival enter step previous predecessor ahead next boarding
      vehicle enters time cost transfers =>
      have hm := hearlier id m predecessor
      simp only [step, previous, hm, Option.bind_eq_bind, Option.bind_some, Option.pure_def,
        Option.bind_eq_some_iff, Option.some.injEq] at h
      rcases h with ⟨s₀, hs₀, route, hroute, origin, horigin, target, htarget, row, hrow, rfl⟩
      exact Told.ride (hbefore id m previous hm) step next boarding vehicle enters ahead
        time cost transfers ⟨s₀, hs₀, horigin⟩ ⟨s, hs, htarget⟩ hroute hrow
  | transfer id m f duration increment fromMode toMode step previous predecessor ride path takes
      left entered price time cost transfers =>
      have hm := hearlier id m predecessor
      have hbefore := hbefore id m previous hm
      simp only [step, previous, hm, Option.bind_eq_bind, Option.bind_some,
        Option.bind_eq_some_iff] at h
      rcases h with ⟨s₀, hs₀, h⟩
      -- A walk to the stop it starts from is told as a change.
      split at h
      · rename_i hsame
        rw [Option.pure_def, Option.some.injEq, Option.some.injEq] at h
        subst h hsame
        exact Told.change hbefore ride step takes time cost transfers hs₀ hs
      · rename_i hne
        simp only [Option.pure_def, Option.bind_eq_some_iff, Option.some.injEq] at h
        rcases h with ⟨origin, -, target, -, rfl⟩
        exact Told.walk hbefore ride step takes time cost transfers hs₀ hs hne

/-- A chain that was told from its oldest label to its newest is a telling. -/
theorem Legal.told_of_chainWithin? (h : w.Legal t policy q) (n : Nat) :
    ∀ {id : Nat} {chain : List (Nat × Label α)} {p : Progress α},
      Label.chainWithin? w.labels n id = some chain →
      (Progress.start q.departureTime).extendAll? t q w.labels (chain.reverse.map Prod.snd)
        = some (some p) →
      ∃ l, w.labels[id]? = some l ∧ Told t q l p := by
  induction n with
  | zero => exact fun hchain => absurd hchain (by simp [Label.chainWithin?])
  | succ n ih =>
      intro id chain p hchain htold
      unfold Label.chainWithin? at hchain
      rcases Option.bind_eq_some_iff.mp hchain with ⟨l, hl, hchain⟩
      have hlegal := h id l hl
      have hearlier := fun id' m (hm : (w.labels.extract 0 id)[id']? = some m) =>
        (label_of_extract hm).2
      refine ⟨l, hl, ?_⟩
      cases hprevious : l.previous with
      | none =>
          rw [hprevious, Option.pure_def, Option.some.injEq] at hchain
          subst hchain
          rcases Progress.extendAll?_cons_eq_some htold with ⟨p₁, hfirst, hrest⟩
          -- Nothing is told after the only label.
          have hsame : p₁ = p := Option.some.inj (Option.some.inj hrest)
          rw [hsame] at hfirst
          exact told_of_extend? hlegal hearlier (fun _ => rfl)
            (fun id' m hid' => absurd hid' (by simp [hprevious])) hfirst
      | some id' =>
          simp only [hprevious, Option.bind_eq_bind, Option.pure_def, Option.bind_eq_some_iff,
            Option.some.injEq] at hchain
          rcases hchain with ⟨rest, hrest, rfl⟩
          rw [List.reverse_cons, List.map_append] at htold
          rcases Progress.extendAll?_concat_eq_some htold with ⟨p₁, hp₁, hlast⟩
          rcases ih hrest hp₁ with ⟨m, hm, htold'⟩
          refine told_of_extend? hlegal hearlier (fun hc => absurd hc (by simp [hprevious])) ?_
            hlast
          intro id'' m' hid'' hm'
          rw [hprevious, Option.some.injEq] at hid''
          subst hid''
          rw [hm, Option.some.injEq] at hm'
          exact hm' ▸ htold'

end Chains

-- The way to the destination that ends at a route-stop.
theorem arrivalAt?_eq_some {i : Nat} {a : Arrival α} (h : w.arrivalAt? i = some (some a)) :
    ∃ e, w.Holds i a.id a.label ∧ w.egress[i]? = some (some e) ∧
      a.totalCost = a.label.cost + e.cost ∧ a.candidate = e.candidate := by
  unfold arrivalAt? at h
  rcases Option.bind_eq_some_iff.mp h with ⟨held, hb, h⟩
  rcases Option.bind_eq_some_iff.mp h with ⟨egress, he, h⟩
  cases held with
  | none => exact absurd h (by simp)
  | some id =>
      cases egress with
      | none => exact absurd h (by simp)
      | some e =>
          rcases Option.bind_eq_some_iff.mp h with ⟨l, hl, h⟩
          rw [Option.pure_def, Option.some.injEq, Option.some.injEq] at h
          subst h
          exact ⟨e, ⟨hb, hl⟩, he, rfl, rfl⟩

/-- The winner is a label held at a destination, with the way on from there. -/
theorem held_of_winner? {a : Arrival α} (h : w.winner? = some (some a)) :
    ∃ i e, w.Holds i a.id a.label ∧ w.egress[i]? = some (some e) ∧
      a.totalCost = a.label.cost + e.cost ∧ a.candidate = e.candidate := by
  have hfound : ∀ b ∈ some a, ∃ i, w.arrivalAt? i = some (some b) := by
    refine Loop.foldlM_invariant (fun _ (best : Option (Arrival α)) =>
      ∀ b ∈ best, ∃ i, w.arrivalAt? i = some (some b)) w.destinationList ?_ none (some a)
      (fun b hb => absurd hb (Option.not_mem_none b)) h
    intro done i rest best best' _ hbest hstep
    rcases Option.bind_eq_some_iff.mp hstep with ⟨arrival, hat, hstep⟩
    cases arrival with
    | none =>
        rw [Option.pure_def, Option.some.injEq] at hstep
        exact hstep ▸ hbest
    | some b =>
        rw [Option.pure_def, Option.some.injEq] at hstep
        subst hstep
        intro b' hb'
        rw [Option.mem_def, Option.some.injEq] at hb'
        -- The better one is the one found here or the one that was best before.
        rcases Arrival.better_cases best b with hone | hone
        · exact ⟨i, by rw [hat, ← hb', hone]⟩
        · exact hbest b' (by rw [← hb']; exact hone)
  rcases hfound a rfl with ⟨i, hat⟩
  exact ⟨i, arrivalAt?_eq_some hat⟩

/-- An itinerary has the legs of the winner and says what its label does. -/
theorem itinerary?_eq_some [Planar α] {it : Itinerary α}
    (h : w.itinerary? t q = some (some it)) :
    ∃ a, w.winner? = some (some a) ∧ w.legs? t q a = some (some it.legs) ∧
      it.totalCost = a.totalCost ∧ it.transferCost = a.label.transferCost ∧
      it.transfers = a.label.transfers := by
  unfold itinerary? at h
  rcases Option.bind_eq_some_iff.mp h with ⟨winner, hwinner, h⟩
  cases winner with
  | none => exact absurd h (by simp)
  | some a =>
      rcases Option.bind_eq_some_iff.mp h with ⟨legs, hlegs, h⟩
      cases legs with
      | none => exact absurd h (by simp)
      | some legs =>
          -- Legs that do not fit together would not have become an itinerary.
          rw [Option.pure_def, Option.some.injEq] at h
          unfold Itinerary.assemble at h
          split at h
          · exact absurd h (by simp [Except.toOption])
          · rw [← Option.some.inj h]
            exact ⟨a, hwinner, hlegs, rfl, rfl, rfl⟩

/-- An itinerary tells the label that won, and then the way on from there. -/
theorem Legal.told_of_itinerary? [Planar α] (h : w.Legal t policy q) (hf : w.Fits t)
    (he : w.EgressTold t q) {it : Itinerary α} (hit : w.itinerary? t q = some (some it)) :
    ∃ a p c stop, w.winner? = some (some a) ∧ w.labels[a.id]? = some a.label ∧
      Told t q a.label p ∧ q.egress[a.candidate]? = some c ∧ t.LiesAt a.label.routeStop stop ∧
      a.totalCost = a.label.cost + c.cost ∧
      it = ⟨p.addEgress stop c, a.totalCost, a.label.transferCost, a.label.transfers⟩ := by
  rcases itinerary?_eq_some hit with ⟨a, hwinner, hlegs, htotal, hprice, htransfers⟩
  unfold legs? at hlegs
  rcases Option.bind_eq_some_iff.mp hlegs with ⟨chain, hchain, hlegs⟩
  rcases Option.bind_eq_some_iff.mp hlegs with ⟨told, htold, hlegs⟩
  cases told with
  | none => exact absurd hlegs (by simp)
  | some p =>
      simp only [Option.bind_eq_bind, Option.pure_def, Option.bind_eq_some_iff,
        Option.some.injEq] at hlegs
      rcases hlegs with ⟨c, hc, stop, hstop, hlegs⟩
      rcases held_of_winner? hwinner with ⟨i, e, hheld, hegress, hsum, hcandidate⟩
      rcases he i e hegress with ⟨c', hc', hi, hcost⟩
      rw [← hcandidate, hc, Option.some.injEq] at hc'
      subst hc'
      rw [← hf.holds_routeStop hheld] at hi
      rcases h.told_of_chainWithin? _ hchain htold with ⟨l, hl, hp⟩
      rw [hheld.2, Option.some.injEq] at hl
      subst hl
      refine ⟨a, p, c, stop, hwinner, hheld.2, hp, hc, ⟨c.stop, hi, hstop⟩, by rw [hsum, hcost], ?_⟩
      rw [hlegs, ← htotal, ← hprice, ← htransfers]

end Workspace

/-- What a search answers tells the label that won. -/
theorem Engine.InService.told [Planar α] {t : Timetable α} {policy : TransferPolicy α}
    {e e' : Engine α} {q : SearchQuery α} {it : Itinerary α} (h : InService t policy e)
    (hw : t.WellFormed) (hsearch : e.search? q = some (e', some it)) :
    ∃ a p c stop, e'.workspace.winner? = some (some a) ∧
      e'.workspace.labels[a.id]? = some a.label ∧ Workspace.Told t q a.label p ∧
      q.egress[a.candidate]? = some c ∧ t.LiesAt a.label.routeStop stop ∧
      a.totalCost = a.label.cost + c.cost ∧
      it = ⟨p.addEgress stop c, a.totalCost, a.label.transferCost, a.label.transfers⟩ := by
  rcases h.fits hw with ⟨ht, hp, hf⟩
  rcases search?_eq_some hsearch with ⟨hexplore, hit, -, -⟩
  rw [ht, hp] at hexplore
  rw [ht] at hit
  have hrun := (Workspace.moment_of_explore? hexplore).run hw hf
  exact (hrun.legal hf.clean_reset.legal).told_of_itinerary? (hrun.fits hf.reset)
    (hrun.egressTold hf.clean_reset.egressTold) hit

end Journey
