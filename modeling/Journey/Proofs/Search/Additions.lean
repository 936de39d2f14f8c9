import Journey.Proofs.Search.Moments

/-!
# What the Loops Add

The loops of a search store labels, note where they are, and do nothing else.

`Run` says this of a whole search, and for that the labels have to be legal and the tables
have to fit. What a loop leaves alone can be said with less, from the text of the loops.
There are two ways to store a label: an arrival that is no ride is noted as improved, and
an arrival by vehicle as reached. Access and walks only ever do the first, and scans only
ever do the second, after they have taken their start. So what the first leaves alone the
walks of a round leave alone, however many there are, and what the second leaves alone the
scans do.

## Main definitions

* `Workspace.Improvements`: Labels are stored and their route-stops noted as improved.
* `Workspace.Landings`: Labels are stored and their route-stops noted as reached.

## Theorems

* `Workspace.improvements_of_setAccess?`, `Workspace.improvements_of_relax?`: What access
  and walks do.
* `Workspace.landings_of_scanRoute?`: What the scan of a route does after it has taken its
  start.
-/

namespace Journey

namespace Workspace

variable {α : Type} [Scalar α] {t : Timetable α} {policy : TransferPolicy α} {q : SearchQuery α}
  {w w' : Workspace α} {l : Label α}

/-- A label is stored, and its route-stop is noted as improved. -/
def Improvement (t : Timetable α) (w w' : Workspace α) : Prop :=
  ∃ l w₁, w.store? l = some w₁ ∧ w₁.markImproved? t l.routeStop = some w'

/-- Any number of improvements. -/
def Improvements (t : Timetable α) : Workspace α → Workspace α → Prop :=
  Relation.ReflTransGen (Improvement t)

/-- A label is stored, and its route-stop is noted as reached. -/
def Landing (w w' : Workspace α) : Prop :=
  ∃ l w₁, w.store? l = some w₁ ∧ w₁.markReached? l.routeStop = some w'

/-- Any number of landings. -/
def Landings : Workspace α → Workspace α → Prop := Relation.ReflTransGen Landing

omit [Scalar α] in
-- A loop does what its passes do, any number of times.
theorem reflTransGen_of_foldlM {β : Type} {R : Workspace α → Workspace α → Prop}
    {f : Workspace α → β → Option (Workspace α)} {xs : List β}
    (hstep : ∀ u x u', f u x = some u' → Relation.ReflTransGen R u u')
    (h : xs.foldlM f w = some w') : Relation.ReflTransGen R w w' :=
  Loop.foldlM_invariant (fun _ u => Relation.ReflTransGen R w u) xs
    (fun _ x _ u u' _ hu hx => hu.trans (hstep u x u' hx)) w w' .refl h

section Access

theorem improvements_of_offerAccess? (h : w.offerAccess? t l = some w') : Improvements t w w' := by
  unfold offerAccess? at h
  rcases Option.bind_eq_some_iff.mp h with ⟨improves, -, h⟩
  split at h
  · rcases Option.bind_eq_some_iff.mp h with ⟨w₁, hstore, hmark⟩
    exact .single ⟨l, w₁, hstore, hmark⟩
  · exact Option.some.inj h ▸ .refl

theorem improvements_of_offerAccessAt? {time : α} {c : Candidate α × Nat}
    (h : offerAccessAt? t time w c = some w') : Improvements t w w' := by
  rcases Option.bind_eq_some_iff.mp h with ⟨routeStops, -, h⟩
  exact reflTransGen_of_foldlM (fun _ _ _ h => improvements_of_offerAccess? h) h

/-- Offering the access candidates improves route-stops. -/
theorem improvements_of_setAccess? {time : α} {access : List (Candidate α)}
    (h : w.setAccess? t time access = some w') : Improvements t w w' :=
  reflTransGen_of_foldlM (fun _ _ _ h => improvements_of_offerAccessAt? h)
    (setAccess?_eq w t time access ▸ h)

end Access

section Walks

theorem improvements_of_offerWalk? (h : w.offerWalk? t l = some w') : Improvements t w w' := by
  unfold offerWalk? at h
  split at h
  · exact Option.some.inj h ▸ .refl
  · rcases Option.bind_eq_some_iff.mp h with ⟨improves, -, h⟩
    split at h
    · rcases Option.bind_eq_some_iff.mp h with ⟨w₁, hstore, hmark⟩
      exact .single ⟨l, w₁, hstore, hmark⟩
    · exact Option.some.inj h ▸ .refl

theorem improvements_of_walkTo? {d : Departing α} {duration : α} {i : Nat}
    (h : walkTo? t policy q d duration w i = some w') : Improvements t w w' := by
  rcases Option.bind_eq_some_iff.mp h with ⟨l, -, h⟩
  exact improvements_of_offerWalk? h

theorem improvements_of_relaxFootpath? {d : Departing α} {f : Footpath α}
    (h : relaxFootpath? t policy q d w f = some w') : Improvements t w w' := by
  rcases Option.bind_eq_some_iff.mp h with ⟨targets, -, h⟩
  exact reflTransGen_of_foldlM (f := walkTo? t policy q d _)
    (fun _ _ _ h => improvements_of_walkTo? h) h

theorem improvements_of_relaxFrom? {source : Nat × Nat}
    (h : relaxFrom? t policy q w source = some w') : Improvements t w w' := by
  rcases relaxFrom?_eq_some h with ⟨l, -, ⟨-, rfl⟩ | ⟨-, mode, stop, footpaths, -, -, -, hloop⟩⟩
  · exact .refl
  · exact reflTransGen_of_foldlM (fun _ _ _ h => improvements_of_relaxFootpath? h) hloop

/-- The walks of a round improve route-stops. Then what they started from is put away. -/
theorem improvements_of_relax? (h : w.relax? t policy q = some w') :
    ∃ w₁ sources, Improvements t w w₁ ∧ w' = w₁.putAway sources := by
  rcases relax?_eq_some h with ⟨sources, w₁, -, hloop, hputAway⟩
  exact ⟨w₁, sources, reflTransGen_of_foldlM (fun _ _ _ h => improvements_of_relaxFrom? h) hloop,
    hputAway⟩

end Walks

section Scans

variable {p : Parameters α}

theorem landings_of_alight? {b : Boarding α} {i : Nat} (h : w.alight? t p b i = some w') :
    Landings w w' := by
  unfold alight? at h
  rcases Option.bind_eq_some_iff.mp h with ⟨arrivalTime, -, h⟩
  simp only at h
  split at h
  · exact Option.some.inj h ▸ .refl
  · rcases Option.bind_eq_some_iff.mp h with ⟨improves, -, h⟩
    split at h
    · rcases Option.bind_eq_some_iff.mp h with ⟨boardingTime, -, h⟩
      rcases Option.bind_eq_some_iff.mp h with ⟨w₁, hstore, hmark⟩
      exact .single ⟨_, w₁, hstore, hmark⟩
    · exact Option.some.inj h ▸ .refl

theorem landings_of_scanStop? {s s' : Workspace α × Option (Boarding α)} {i : Nat}
    (h : scanStop? t p s i = some s') : Landings s.1 s'.1 := by
  unfold scanStop? at h
  rcases Option.bind_eq_some_iff.mp h with ⟨boards, -, h⟩
  cases boards with
  | some b => exact Option.some.inj h ▸ .refl
  | none =>
      cases hheld : s.2 with
      | none =>
          rw [hheld] at h
          exact Option.some.inj h ▸ .refl
      | some b =>
          rw [hheld] at h
          rcases Option.bind_eq_some_iff.mp h with ⟨w₁, halight, h⟩
          exact Option.some.inj h ▸ landings_of_alight? halight

/-- The scan of a route takes its start and reaches route-stops. -/
theorem landings_of_scanRoute? {r : Nat} (h : scanRoute? t p w r = some w') :
    ∃ row w₁ first, t.routes[r]? = some row ∧ w.takeScanStart? r row = some (w₁, first) ∧
      Landings w₁ w' := by
  rcases scanRoute?_eq_some h with ⟨row, w₁, first, held, hrow, htake, hloop⟩
  refine ⟨row, w₁, first, hrow, htake, ?_⟩
  refine Loop.foldlM_invariant (fun _ (s : Workspace α × Option (Boarding α)) => Landings w₁ s.1) _
    ?_ (w₁, none) (w', held) .refl hloop
  intro done i rest s s' _ hs hstop
  exact hs.trans (landings_of_scanStop? hstop)

end Scans

end Workspace

end Journey
