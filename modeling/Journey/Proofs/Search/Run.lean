import Mathlib.Logic.Relation
import Journey.Proofs.Search.Storing
import Journey.Proofs.Search.Legality

/-!
# Runs of a Search

What a search does to its workspace, one event after the other.

The loops of a search are nested, but there are only three things that ever
happen to what it knows: a legal label is offered, an egress candidate is
offered, or something is noted that says which route-stops to look at next.
`Event` lists them, and a `Run` is any sequence of events. An invariant of
events holds at every moment of a search, whatever the order of the loops, so
the invariants that do not depend on that order are proved here.

## Main definitions

* `Workspace.Quiet`: Only notes change.
* `Workspace.Event`: One thing that happens to a workspace.
* `Workspace.Effect`: What is left of an event.
* `Workspace.Run`: Any number of events.
* `Workspace.Legal`: Every label is legal with respect to those before it.
* `Workspace.EgressTold`: The ways to the destination are egress candidates.

## Theorems

* `Workspace.Run.fits`, `Workspace.Run.legal`, `Workspace.Run.egressTold`: What
  every event keeps.
* `Workspace.Run.labels_mono`: Labels are never changed.
* `Workspace.Run.holds_cases`: Route-stops only ever get newer labels.
* `Workspace.Legal.induction`: From the oldest label to the newest.
-/

namespace Journey

namespace Workspace

variable {α : Type}

/-- Only notes change, and the workspace still fits. -/
structure Quiet (t : Timetable α) (w w' : Workspace α) : Prop where
  labels : w'.labels = w.labels
  best : w'.best = w.best
  egress : w'.egress = w.egress
  bound : w'.bound = w.bound
  fits : w.Fits t → w'.Fits t

theorem Quiet.refl (t : Timetable α) (w : Workspace α) : Quiet t w w :=
  ⟨rfl, rfl, rfl, rfl, fun hf => hf⟩

theorem Quiet.holds_iff {t : Timetable α} {w w' : Workspace α} (h : Quiet t w w') (i id : Nat)
    (l : Label α) : w'.Holds i id l ↔ w.Holds i id l := by
  unfold Holds
  rw [h.best, h.labels]

variable [Scalar α] {t : Timetable α} {policy : TransferPolicy α} {q : SearchQuery α}
  {w w' : Workspace α}

/-- One thing that happens to a workspace. -/
inductive Event (t : Timetable α) (policy : TransferPolicy α) (q : SearchQuery α)
    (w : Workspace α) : Workspace α → Prop where
  /-- A legal label is offered. -/
  | offer {l : Label α} {w' : Workspace α} (legal : l.IsLegal t policy q w.labels)
      (h : Offered t w l w') : Event t policy q w w'
  /-- An egress candidate is offered to a route-stop at its stop. -/
  | egress {k i : Nat} {c : Candidate α} {w' : Workspace α} (candidate : q.egress[k]? = some c)
      (stop : t.stopOf? i = some c.stop) (h : w.offerEgress? ⟨c.cost, k⟩ i = some w') :
      Event t policy q w w'
  /-- Something is noted. -/
  | quiet {w' : Workspace α} (h : Quiet t w w') : Event t policy q w w'

/-- Any number of events. -/
def Run (t : Timetable α) (policy : TransferPolicy α) (q : SearchQuery α) :
    Workspace α → Workspace α → Prop :=
  Relation.ReflTransGen (Event t policy q)

/-- Every label is legal with respect to those stored before it. -/
def Legal (t : Timetable α) (policy : TransferPolicy α) (q : SearchQuery α)
    (w : Workspace α) : Prop :=
  ∀ (id : Nat) (l : Label α), w.labels[id]? = some l →
    l.IsLegal t policy q (w.labels.extract 0 id)

/-- The ways to the destination are what egress candidates offer. -/
def EgressTold (t : Timetable α) (q : SearchQuery α) (w : Workspace α) : Prop :=
  ∀ (i : Nat) (e : Egress α), w.egress[i]? = some (some e) →
    ∃ c, q.egress[e.candidate]? = some c ∧ t.stopOf? i = some c.stop ∧ e.cost = c.cost

-- Offering an egress candidate writes it down or leaves one that is not
-- dearer.
theorem offerEgress?_eq_some {e : Egress α} {i : Nat} (h : w.offerEgress? e i = some w') :
    (w' = w ∧ ∃ current, w.egress[i]? = some (some current) ∧ ¬ e.cost < current.cost) ∨
      ∃ table destinations, write? w.egress i (some e) = some table ∧
        w.destinations.mark i = some destinations ∧
        (∀ current, w.egress[i]? = some (some current) → e.cost < current.cost) ∧
        w' = { w with egress := table, destinations } := by
  unfold offerEgress? at h
  rcases Option.bind_eq_some_iff.mp h with ⟨current, hc, h⟩
  split at h
  · rename_i hall
    rcases Option.bind_eq_some_iff.mp h with ⟨table, ht, h⟩
    rcases Option.bind_eq_some_iff.mp h with ⟨destinations, hd, h⟩
    rw [Option.pure_def, Option.some.injEq] at h
    refine Or.inr ⟨table, destinations, ht, hd, fun e' he' => ?_, h.symm⟩
    rw [hc, Option.some.injEq] at he'
    subst he'
    simpa only [Option.all_some, decide_eq_true_eq] using hall
  · rename_i hall
    rw [Option.pure_def, Option.some.injEq] at h
    cases current with
    | none => exact absurd rfl hall
    | some e' =>
        refine Or.inl ⟨h.symm, e', hc, ?_⟩
        simpa only [Option.all_some, decide_eq_true_eq] using hall

omit [Scalar α] in
theorem Fits.writeEgress (hf : w.Fits t) {e : Egress α} {i : Nat}
    {table : Array (Option (Egress α))} {destinations : IndexSet}
    (ht : write? w.egress i (some e) = some table)
    (hd : w.destinations.mark i = some destinations) :
    ({ w with egress := table, destinations } : Workspace α).Fits t := by
  rcases write?_eq_some ht with ⟨-, hsize, hget⟩
  rcases hf.destinations_over.mark hd with ⟨-, hover, hmem⟩
  refine { hf with
    egress_size := hsize.trans hf.egress_size
    destinations_over := hover
    mem_destinations := ?_ }
  intro j e' hj
  rw [hget] at hj
  by_cases hij : i = j
  · exact (hmem j).mpr (Or.inl hij.symm)
  · rw [if_neg hij] at hj
    exact (hmem j).mpr (Or.inr (hf.mem_destinations j e' hj))

theorem Fits.offerEgress (hf : w.Fits t) {e : Egress α} {i : Nat}
    (h : w.offerEgress? e i = some w') : w'.Fits t := by
  rcases offerEgress?_eq_some h with ⟨rfl, -⟩ | ⟨table, destinations, ht, hd, -, rfl⟩
  · exact hf
  · exact hf.writeEgress ht hd

theorem Fits.offerEgress?_exists (hf : w.Fits t) (e : Egress α) {i : Nat}
    (hi : i < t.routeStops.size) : ∃ w', w.offerEgress? e i = some w' := by
  rcases hf.egress_exists hi with ⟨current, hc⟩
  rcases write?_exists (hf.egress_size ▸ hi) (some e) with ⟨table, ht⟩
  rcases hf.destinations_over.mark_exists hi with ⟨destinations, hd⟩
  unfold offerEgress?
  simp only [Option.bind_eq_bind, hc, ht, hd, Option.bind_some, Option.pure_def]
  split <;> exact ⟨_, rfl⟩

/-- What is left of an event when it is over. Offers that were turned down leave
    nothing. -/
inductive Effect (t : Timetable α) (policy : TransferPolicy α) (q : SearchQuery α)
    (w : Workspace α) : Workspace α → Prop where
  | quiet {w' : Workspace α} (h : Quiet t w w') : Effect t policy q w w'
  /-- A legal label is the best one of its route-stop. -/
  | stored {l : Label α} {w' : Workspace α} (legal : l.IsLegal t policy q w.labels)
      (h : Stored t w l w') (beaten : ∀ id held, w.Holds l.routeStop id held →
        held.isBeatenBy l.cost l.transfers = true) : Effect t policy q w w'
  /-- An egress candidate is the way on from a route-stop at its stop. -/
  | egress {k i : Nat} {c : Candidate α} {table : Array (Option (Egress α))}
      {destinations : IndexSet} (candidate : q.egress[k]? = some c)
      (stop : t.stopOf? i = some c.stop)
      (written : write? w.egress i (some ⟨c.cost, k⟩) = some table)
      (marked : w.destinations.mark i = some destinations)
      (cheaper : ∀ current, w.egress[i]? = some (some current) → c.cost < current.cost) :
      Effect t policy q w { w with egress := table, destinations }

namespace Event

-- Invariants of events are proved by the cases of their effects.
theorem effect (h : Event t policy q w w') : Effect t policy q w w' := by
  cases h with
  | offer legal h =>
      cases h with
      | exceeded h => exact Effect.quiet (Quiet.refl t w)
      | kept h hkept => exact Effect.quiet (Quiet.refl t w)
      | stored h hbeaten => exact Effect.stored legal h hbeaten
  | egress candidate stop h =>
      rcases offerEgress?_eq_some h with ⟨rfl, -⟩ | ⟨table, destinations, ht, hd, hlt, rfl⟩
      · exact Effect.quiet (Quiet.refl t w')
      · exact Effect.egress candidate stop ht hd hlt
  | quiet h => exact Effect.quiet h

theorem fits (h : Event t policy q w w') (hf : w.Fits t) : w'.Fits t := by
  cases h.effect with
  | quiet h => exact h.fits hf
  | stored legal h => exact h.fits
  | egress candidate stop written marked => exact hf.writeEgress written marked

/-- Nothing happens to a label once it is stored. -/
theorem labels_mono (h : Event t policy q w w') {id : Nat} {l : Label α}
    (hl : w.labels[id]? = some l) : w'.labels[id]? = some l := by
  cases h.effect with
  | quiet h => rw [h.labels, hl]
  | stored legal h => exact h.labels_mono hl
  | egress => exact hl

theorem labels_size (h : Event t policy q w w') : w.labels.size ≤ w'.labels.size := by
  cases h.effect with
  | quiet h => exact Nat.le_of_eq (by rw [h.labels])
  | stored legal h =>
      rw [h.labels, Array.size_push]
      exact Nat.le_succ _
  | egress => exact Nat.le_refl _

/-- A route-stop holds what it held, or the label that was stored last. -/
theorem holds_cases (h : Event t policy q w w') (hf : w.Fits t) {i id : Nat} {l : Label α}
    (hl : w'.Holds i id l) : w.Holds i id l ∨ w.labels.size ≤ id := by
  cases h.effect with
  | quiet h => exact Or.inl ((h.holds_iff i id l).mp hl)
  | stored legal h =>
      rcases h.holds_cases hf hl with ⟨-, hid, -⟩ | ⟨-, hl⟩
      · exact Or.inr (Nat.le_of_eq hid.symm)
      · exact Or.inl hl
  | egress => exact Or.inl hl

/-- Only an offer adds a label, and it adds a legal one. -/
theorem legal (h : Event t policy q w w') (hw : w.Legal t policy q) : w'.Legal t policy q := by
  cases h.effect with
  | quiet h =>
      intro id l hl
      rw [h.labels] at hl ⊢
      exact hw id l hl
  | stored legal h =>
      intro id l hl
      rw [h.labels]
      rcases h.label_cases hl with ⟨rfl, rfl⟩ | hl
      · -- What came before the new label are all the labels there were.
        rw [Array.extract_push, if_pos (Nat.le_refl _), Array.extract_size]
        exact legal
      · have hlt := (Array.getElem?_eq_some_iff.mp hl).1
        rw [Array.extract_push, if_pos (Nat.le_of_lt hlt)]
        exact hw id l hl
  | egress => exact hw

theorem egressTold (h : Event t policy q w w') (hw : w.EgressTold t q) : w'.EgressTold t q := by
  cases h.effect with
  | quiet h =>
      intro i e he
      rw [h.egress] at he
      exact hw i e he
  | stored legal h =>
      intro i e he
      rw [h.egress] at he
      exact hw i e he
  | egress candidate stop written =>
      intro i e he
      rw [(write?_eq_some written).2.2] at he
      split at he
      · rename_i hi
        rw [Option.some.injEq, Option.some.injEq] at he
        subst he hi
        exact ⟨_, candidate, stop, rfl⟩
      · exact hw i e he

end Event

namespace Run

theorem refl (w : Workspace α) : Run t policy q w w := Relation.ReflTransGen.refl

theorem trans {w₁ w₂ w₃ : Workspace α} (h : Run t policy q w₁ w₂) (h' : Run t policy q w₂ w₃) :
    Run t policy q w₁ w₃ :=
  Relation.ReflTransGen.trans h h'

theorem single (h : Event t policy q w w') : Run t policy q w w' :=
  Relation.ReflTransGen.single h

-- What every event keeps, every run keeps.
theorem invariant (P : Workspace α → Prop)
    (hstep : ∀ w w', Event t policy q w w' → P w → P w') (h : Run t policy q w w') (h0 : P w) :
    P w' := by
  induction h with
  | refl => exact h0
  | tail _ hevent ih => exact hstep _ _ hevent ih

theorem fits (h : Run t policy q w w') (hf : w.Fits t) : w'.Fits t :=
  h.invariant (Fits t) (fun _ _ hevent => hevent.fits) hf

theorem legal (h : Run t policy q w w') (hw : w.Legal t policy q) : w'.Legal t policy q :=
  h.invariant (Legal t policy q) (fun _ _ hevent => hevent.legal) hw

theorem egressTold (h : Run t policy q w w') (hw : w.EgressTold t q) : w'.EgressTold t q :=
  h.invariant (EgressTold t q) (fun _ _ hevent => hevent.egressTold) hw

theorem labels_mono (h : Run t policy q w w') {id : Nat} {l : Label α}
    (hl : w.labels[id]? = some l) : w'.labels[id]? = some l :=
  h.invariant (fun w => w.labels[id]? = some l) (fun _ _ hevent => hevent.labels_mono) hl

/-- A route-stop holds what it held, or a label that was stored since. -/
theorem holds_cases (h : Run t policy q w w') (hf : w.Fits t) {i id : Nat} {l : Label α}
    (hl : w'.Holds i id l) : w.Holds i id l ∨ w.labels.size ≤ id := by
  have hinv := h.invariant (fun u => u.Fits t ∧ w.labels.size ≤ u.labels.size ∧
    ∀ i id l, u.Holds i id l → w.Holds i id l ∨ w.labels.size ≤ id) ?_
    ⟨hf, Nat.le_refl _, fun _ _ _ hl => Or.inl hl⟩
  · exact hinv.2.2 i id l hl
  · rintro u u' hevent ⟨hfu, hsize, hholds⟩
    -- Labels stored after the run began have positions beyond those there were.
    refine ⟨hevent.fits hfu, Nat.le_trans hsize hevent.labels_size, fun i id l hl => ?_⟩
    rcases hevent.holds_cases hfu hl with hl | hid
    · exact hholds i id l hl
    · exact Or.inr (Nat.le_trans hsize hid)

end Run

omit [Scalar α] in
-- What was stored earlier is still where it was.
theorem label_of_extract {labels : Array (Label α)} {n id : Nat} {l : Label α}
    (h : (labels.extract 0 n)[id]? = some l) : id < n ∧ labels[id]? = some l := by
  rw [Array.getElem?_extract] at h
  split at h
  · rename_i hlt
    rw [Nat.zero_add] at h
    exact ⟨by omega, h⟩
  · exact absurd h (by simp only [reduceCtorEq, not_false_eq_true])

/-- Legal labels can be reasoned about from the oldest to the newest. -/
theorem Legal.induction (hw : w.Legal t policy q) (P : Nat → Label α → Prop)
    (step : ∀ id l, w.labels[id]? = some l → l.IsLegal t policy q (w.labels.extract 0 id) →
      (∀ id' l', (w.labels.extract 0 id)[id']? = some l' → P id' l') → P id l) :
    ∀ id l, w.labels[id]? = some l → P id l := by
  intro id
  induction id using Nat.strongRecOn with
  | _ id ih =>
      intro l hl
      -- What came before is older, so the induction is on the position.
      refine step id l hl (hw id l hl) fun id' l' hl' => ?_
      rcases label_of_extract hl' with ⟨hlt, hl'⟩
      exact ih id' hlt l' hl'

theorem Clean.legal (h : w.Clean) : w.Legal t policy q := by
  intro id l hl
  rw [h.labels] at hl
  exact absurd hl (by simp)

omit [Scalar α] in
theorem Clean.egressTold (h : w.Clean) : w.EgressTold t q :=
  fun i e he => absurd he (h.egress i e)

end Workspace

end Journey
