import Journey.Proofs.Sample
import Journey.Proofs.Search.Telling
import Journey.Proofs.Search.Walking

/-!
# The Limit of Transfers

How many transfers an itinerary makes.

A round rides from the labels there are and then walks from its rides, so after
one round more than transfers allowed, no ride has more transfers than allowed.
The walks of that last round have one more, and they are held like any other
label. Where such a walk ends at a destination, the itinerary exceeds the limit
by one transfer, after which it takes no further ride.

Nothing here depends on what anything costs, so all of it holds in any
arithmetic.

## Main definitions

* `Workspace.Limited`: No label has more than a number of transfers.

## Theorems

* `Workspace.Run.limited`: Events other than walks keep the limit.
* `Workspace.Limited.round`: A round raises the limit by one, but not for rides.
* `Workspace.Limited.rounds`: The limit after a number of rounds.
* `Engine.InService.transfers_le_succ`: No itinerary exceeds the limit by more
  than one transfer, and only one that ends with a walk exceeds it.
-/

namespace Journey

variable {α : Type} [Scalar α]

theorem Departing.isRide_walk? {t : Timetable α} {policy : TransferPolicy α} {q : SearchQuery α}
    {d : Departing α} {labels : Array (Label α)} {duration : α} {i : Nat} {l : Label α}
    (h : d.walk? t policy q labels duration i = some l) : l.isRide = false := by
  unfold walk? at h
  rcases Option.bind_eq_some_iff.mp h with ⟨toMode, -, h⟩
  rcases Option.bind_eq_some_iff.mp h with ⟨increment, -, h⟩
  rw [Option.pure_def, Option.some.injEq] at h
  rw [← h]
  rfl

namespace Workspace

variable {t : Timetable α} {policy : TransferPolicy α} {q : SearchQuery α} {w w' : Workspace α}

omit [Scalar α] in
-- A loop each pass of which only improves does not do more.
theorem improves_of_foldlM {β : Type} {f : Workspace α → β → Option (Workspace α)} {xs : List β}
    (hf : w.Fits t)
    (hstep : ∀ x u u', u.Fits t → f u x = some u' → u'.Fits t ∧ Improves t u u')
    (h : xs.foldlM f w = some w') : w'.Fits t ∧ Improves t w w' := by
  refine Loop.foldlM_invariant (fun _ u => u.Fits t ∧ Improves t w u) xs ?_ w w'
    ⟨hf, Improves.refl w⟩ h
  intro done x rest u u' _ hu hu'
  rcases hstep x u u' hu.1 hu' with ⟨hf', himproves⟩
  exact ⟨hf', hu.2.trans himproves⟩

theorem walkTo?_improves {d : Departing α} {duration : α} {i : Nat} (hf : w.Fits t)
    (h : walkTo? t policy q d duration w i = some w') : w'.Fits t ∧ Improves t w w' := by
  rcases Option.bind_eq_some_iff.mp h with ⟨l, hwalk, hoffer⟩
  have hride := Departing.isRide_walk? hwalk
  have hoffered := hf.offerWalk?_eq_some hride hoffer
  refine ⟨?_, hoffered.improves hf hride⟩
  cases hoffered with
  | exceeded => exact hf
  | kept => exact hf
  | stored hs => exact hs.fits

/-- The walks of a round store no ride. -/
theorem relax?_improves (hf : w.Fits t) (h : w.relax? t policy q = some w') : Improves t w w' := by
  rcases relax?_eq_some h with ⟨sources, w₁, -, hloop, rfl⟩
  refine Improves.putAway (improves_of_foldlM hf (fun source u u' hu hpass => ?_) hloop).2 sources
  -- From one source there is a loop over footpaths, and one over their ends inside.
  rcases relaxFrom?_eq_some hpass with
    ⟨l, -, ⟨-, rfl⟩ | ⟨-, mode, stop, footpaths, -, -, -, hpass⟩⟩
  · exact ⟨hu, Improves.refl u'⟩
  · refine improves_of_foldlM hu (fun f v v' hv hpath => ?_) hpass
    rcases Option.bind_eq_some_iff.mp hpath with ⟨targets, -, hpath⟩
    exact improves_of_foldlM hv (fun i x x' hx hwalk => walkTo?_improves hx hwalk) hpath

/-- No label has more than `n` transfers. -/
def Limited (n : Nat) (w : Workspace α) : Prop :=
  ∀ (id : Nat) (l : Label α), w.labels[id]? = some l → l.transfers ≤ n

omit [Scalar α] in
theorem Limited.quiet {n : Nat} (h : w.Limited n) (hquiet : Quiet t w w') : w'.Limited n := by
  intro id l hl
  rw [hquiet.labels] at hl
  exact h id l hl

omit [Scalar α] in
theorem Clean.limited (h : w.Clean) (n : Nat) : w.Limited n := by
  intro id l hl
  rw [h.labels] at hl
  exact absurd hl (by simp)

/-- Events other than walks keep the limit. Where the policy answers nothing,
    there are no others. -/
theorem Run.limited {n : Nat} (h : Run t (fun _ _ => none) q w w') (hw : w.Limited n) :
    w'.Limited n := by
  refine h.invariant (Limited n) (fun u u' hevent hu => ?_) hw
  cases hevent.effect with
  | quiet hquiet => exact hu.quiet hquiet
  | stored legal hs =>
      intro id l' hl'
      rcases hs.label_cases hl' with ⟨-, rfl⟩ | hl'
      · cases legal with
        | access k c step previous candidate stop time cost transfers =>
            rw [transfers]
            exact Nat.zero_le n
        | ride id' p trip boardingTime vehicleArrival enter step previous predecessor ahead next
            boarding vehicle enters time cost transfers =>
            rw [transfers]
            exact hu id' p predecessor
        | transfer id' p f duration increment fromMode toMode step previous predecessor ride path
            takes left entered price =>
            exact absurd price (by simp)
      · exact hu id l' hl'
  | egress => exact hu

-- The walks of a round make one transfer more than the rides they start from,
-- which were there before.
theorem Limited.relax {n : Nat} (hw : w.Limited n) (hf : w.Fits t)
    (hlegal : w'.Legal t policy q) (h : w.relax? t policy q = some w') :
    ∀ (id : Nat) (l : Label α), w'.labels[id]? = some l →
      l.transfers ≤ n + 1 ∧ (l.isTransfer = false → l.transfers ≤ n) := by
  have himproves := relax?_improves hf h
  intro id l hl
  rcases himproves.labels id l hl with hold | hride
  · exact ⟨Nat.le_succ_of_le (hw id l hold), fun _ => hw id l hold⟩
  · cases hlegal id l hl with
    | access k c step previous candidate stop time cost transfers =>
        rw [transfers]
        exact ⟨Nat.zero_le _, fun _ => Nat.zero_le n⟩
    | ride id' p trip boardingTime vehicleArrival enter step =>
        exact absurd hride (by simp [Label.isRide, Step.isRide, step])
    | transfer id' p f duration increment fromMode toMode step previous predecessor ride path
        takes left entered price time cost transfers =>
        rcases himproves.labels id' p (label_of_extract predecessor).2 with hp | hnoride
        · rw [transfers]
          exact ⟨Nat.succ_le_succ (hw id' p hp),
            fun hc => absurd hc (by simp [Label.isTransfer, Step.isTransfer, step])⟩
        · exact absurd ride (by simp [hnoride])

/-- A round raises the limit by one, but not for rides. -/
theorem Limited.round {n : Nat} (hw : w.Limited n) (ht : t.WellFormed) (hf : w.Fits t)
    (hlegal : w'.Legal t policy q) (h : w.round? t policy q = some w') :
    ∀ (id : Nat) (l : Label α), w'.labels[id]? = some l →
      l.transfers ≤ n + 1 ∧ (l.isTransfer = false → l.transfers ≤ n) := by
  rcases round?_eq_some h with ⟨w₁, w₂, w₃, hopen, hscan, hrelax, rfl⟩
  have hquiet := (quiet_openRound? hopen).1
  have hf₁ := hquiet.fits hf
  have hrun : Run t (fun _ _ => none) q w₁ w₂ :=
    (run_of_scanning ht hf₁ (byVehicle_of_openRound? hopen) (Loop.passes_of_foldlM _ hscan)).1
  -- Writing down how much a round improved leaves the labels as they are.
  have hlegal₃ : w₃.Legal t policy q := hlegal
  have hbound := (hrun.limited (hw.quiet hquiet)).relax (hrun.fits hf₁) hlegal₃ hrelax
  exact hbound

/-- After a number of rounds the limit has risen by as much, for rides by one
    less. -/
theorem Limited.rounds (ht : t.WellFormed) (budget : Nat) :
    ∀ {n : Nat} {w : Workspace α}, w.Limited n → w.Fits t → w.Legal t policy q →
      w.rounds? t policy q (budget + 1) = some w' →
      ∀ (id : Nat) (l : Label α), w'.labels[id]? = some l →
        l.transfers ≤ n + budget + 1 ∧ (l.isTransfer = false → l.transfers ≤ n + budget) := by
  induction budget with
  | zero =>
      intro n w hw hf hlegal h
      unfold rounds? at h
      rcases Option.bind_eq_some_iff.mp h with ⟨w₁, hround, h⟩
      have hrun := (InRound.closed hround).run ht hf
      have hone := hw.round ht hf (hrun.legal hlegal) hround
      rw [rounds?, Option.pure_def, ite_self, Option.some.injEq] at h
      exact h ▸ hone
  | succ budget ih =>
      intro n w hw hf hlegal h
      unfold rounds? at h
      rcases Option.bind_eq_some_iff.mp h with ⟨w₁, hround, h⟩
      have hrun := (InRound.closed hround).run ht hf
      have hone := hw.round ht hf (hrun.legal hlegal) hround
      split at h
      · -- The search ends early.
        rw [← Option.some.inj h]
        intro id l hl
        rcases hone id l hl with ⟨hle, hride⟩
        exact ⟨by omega, fun hno => Nat.le_add_right_of_le (hride hno)⟩
      · intro id l hl
        rcases ih (n := n + 1) (fun id l hl => (hone id l hl).1) (hrun.fits hf) (hrun.legal hlegal)
          h id l hl with ⟨hle, hride⟩
        exact ⟨by omega, fun hno => Nat.le_trans (hride hno) (by omega)⟩

/-- The transfers of the labels of a search. -/
theorem limited_of_explore? (ht : t.WellFormed) (hf : w.Fits t)
    (h : w.explore? t policy q = some w') (id : Nat) (l : Label α)
    (hl : w'.labels[id]? = some l) :
    l.transfers ≤ q.maxTransfers + 1 ∧ (l.isTransfer = false → l.transfers ≤ q.maxTransfers) := by
  rcases explore?_eq_some h with ⟨w₁, w₂, hbegin, hrounds, rfl⟩
  have hrun : Run t policy q w.reset w₁ := run_of_begin? ht hf hbegin
  have hnone : Run t (fun _ _ => none) q w.reset w₁ := run_of_begin? ht hf hbegin
  have hbound := (hnone.limited (hf.clean_reset.limited 0)).rounds ht q.maxTransfers
    (hrun.fits hf.reset) (hrun.legal hf.clean_reset.legal) hrounds id l hl
  rwa [Nat.zero_add] at hbound

end Workspace

namespace Engine

variable [Planar α] [MarkerTree α] {t : Timetable α} {policy : TransferPolicy α} {e e' : Engine α}
  {q : SearchQuery α} {it : Itinerary α}

/-- No itinerary makes more than one transfer more than allowed, and only one
    whose last label is a walk makes that many. -/
theorem InService.transfers_le_succ {d : Draft α} (hd : d.build = .ok t)
    (h : InService t policy e) (hsearch : e.search? q = some (e', some it)) :
    ∃ a, e'.workspace.winner? = some (some a) ∧ it.transfers = a.label.transfers ∧
      it.transfers ≤ q.maxTransfers + 1 ∧
      (a.label.isTransfer = false → it.transfers ≤ q.maxTransfers) := by
  have hw := Draft.wellFormed_of_build hd
  rcases h.told hw hsearch with ⟨a, p, c, stop, hwinner, hlabel, -, -, -, -, rfl⟩
  rcases h.fits hw with ⟨ht, hp, hf⟩
  have hexplore := (search?_eq_some hsearch).1
  rw [ht, hp] at hexplore
  exact ⟨a, hwinner, rfl, Workspace.limited_of_explore? hw hf hexplore a.id a.label hlabel⟩

end Engine

namespace Sample

/-- Two lines, and a footpath from the end of the first one to the beginning of
    the second. -/
def shortcut : Draft ℚ :=
  network ["A", "B", "C", "D"]
    [line "one" [("A", 0), ("B", 10)] [0], line "two" [("C", 0), ("D", 10)] [100]] [("B", "C", 5)]

/-- From the beginning of the first line to that of the second, without a
    transfer. -/
def withoutTransfer : SearchQuery ℚ := query [candidate 0 0] [candidate 2 0] 0

theorem build_shortcut : shortcut.build = .ok shortcut.assemble :=
  build_eq_ok (by decide +kernel)

-- The walk from the first line is the only way there.
theorem search?_shortcut : ∃ e' it,
    (Engine.new shortcut.assemble (TransferPolicy.flat 0)).search? withoutTransfer
      = some (e', some it) ∧ it.transfers = 1 := by
  have hanswer : ((Engine.new shortcut.assemble (TransferPolicy.flat 0)).search?
      withoutTransfer).map (fun r => r.2.map (·.transfers)) = some (some 1) := by decide +kernel
  rcases Option.map_eq_some_iff.mp hanswer with ⟨⟨e', found⟩, hsearch, hfound⟩
  rcases Option.map_eq_some_iff.mp hfound with ⟨it, rfl, htransfers⟩
  exact ⟨e', it, hsearch, htransfers⟩

end Sample

namespace Engine

open Sample

/-- An itinerary may make a transfer although none is allowed. -/
theorem InService.transfer_beyond_limit : ∃ e' it,
    shortcut.build = .ok shortcut.assemble ∧
      (Engine.new shortcut.assemble (TransferPolicy.flat 0)).search? withoutTransfer
        = some (e', some it) ∧ withoutTransfer.maxTransfers < it.transfers := by
  rcases search?_shortcut with ⟨e', it, hsearch, htransfers⟩
  refine ⟨e', it, build_shortcut, hsearch, ?_⟩
  rw [htransfers]
  decide

/-- There the label that won is a walk, and has one transfer more than
    allowed. -/
theorem InService.transfers_le_succ_shortcut : ∃ e' it a,
    (Engine.new shortcut.assemble (TransferPolicy.flat 0)).search? withoutTransfer
      = some (e', some it) ∧ it.transfers = 1 ∧ e'.workspace.winner? = some (some a) ∧
      it.transfers = a.label.transfers ∧ it.transfers ≤ withoutTransfer.maxTransfers + 1 ∧
      (a.label.isTransfer = false → it.transfers ≤ withoutTransfer.maxTransfers) := by
  rcases search?_shortcut with ⟨e', it, hsearch, htransfers⟩
  rcases InService.transfers_le_succ build_shortcut InService.new hsearch with ⟨a, ha⟩
  exact ⟨e', it, a, hsearch, htransfers, ha⟩

end Engine

end Journey
