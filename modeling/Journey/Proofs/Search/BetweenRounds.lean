import Journey.Proofs.Search.Moments

/-!
# Between Rounds

The states of a search at the seams of its rounds.

`Moment` names all states of a search. What a round does is said about some of them only:
those in which a round begins, those in which the scan of a route begins, and the one
after the last scan, from which the walks of the round start. They are followed here by
running the rounds, so that nothing has to be known about a search but that it got there.

## Main definitions

* `Workspace.BeforeRound`: A round begins.
* `Workspace.BeforeScan`: The scan of a route begins.
* `Workspace.AfterScans`: The routes of a round have been scanned.

## Theorems

* `Workspace.BeforeRound.moment`, `Workspace.BeforeScan.moment`,
  `Workspace.AfterScans.moment`: All of them are moments of the search.
-/

namespace Journey

namespace Workspace

variable {α : Type} [Scalar α] {t : Timetable α} {policy : TransferPolicy α} {q : SearchQuery α}
  {w u : Workspace α}

/-- A round of a search that starts in a workspace begins, with the number of the round
    counted from zero. After the first one a round begins only where the one before has
    improved something, and there are no more than one for each transfer allowed and one
    more. -/
inductive BeforeRound (t : Timetable α) (policy : TransferPolicy α) (q : SearchQuery α)
    (w : Workspace α) : Nat → Workspace α → Prop where
  | first {u : Workspace α} (begun : w.begin? t q = some u) : BeforeRound t policy q w 0 u
  | next {n : Nat} {u u' : Workspace α} (before : BeforeRound t policy q w n u)
      (round : u.round? t policy q = some u') (improved : u'.improved.isEmpty = false)
      (allowed : n < q.maxTransfers) : BeforeRound t policy q w (n + 1) u'

/-- The scan of a route begins in a round. -/
def BeforeScan (t : Timetable α) (policy : TransferPolicy α) (q : SearchQuery α)
    (w : Workspace α) (r : Nat) (u : Workspace α) : Prop :=
  ∃ n v v₁ done rest, BeforeRound t policy q w n v ∧ v.openRound? t = some v₁ ∧
    v₁.touched.toList = done ++ r :: rest ∧ done.foldlM (scanRoute? t q.parameters) v₁ = some u

/-- The routes of a round have been scanned, and the walks begin. -/
def AfterScans (t : Timetable α) (policy : TransferPolicy α) (q : SearchQuery α)
    (w u : Workspace α) : Prop :=
  ∃ n v v₁, BeforeRound t policy q w n v ∧ v.openRound? t = some v₁ ∧
    v₁.scanRoutes? t q.parameters = some u

/-- What is found during the rounds from one on is found during all rounds. -/
theorem BeforeRound.inRounds {n : Nat} (h : BeforeRound t policy q w n u) :
    ∃ w₁, w.begin? t q = some w₁ ∧ n ≤ q.maxTransfers ∧
      ∀ u', InRounds t policy q (q.maxTransfers + 1 - n) u u' →
        InRounds t policy q (q.maxTransfers + 1) w₁ u' := by
  induction h with
  | first begun => exact ⟨_, begun, Nat.zero_le _, fun _ h => h⟩
  | @next n u u₁ _ round improved allowed ih =>
      rcases ih with ⟨w₁, begun, -, hrounds⟩
      refine ⟨w₁, begun, allowed, fun u' h => hrounds u' ?_⟩
      rw [show q.maxTransfers + 1 - n = q.maxTransfers + 1 - (n + 1) + 1 by omega]
      exact InRounds.later round improved h

-- What is found during a round that begins is a moment of the search.
theorem BeforeRound.moment_of_inRound {n : Nat} (h : BeforeRound t policy q w n u)
    {u' : Workspace α} (hin : InRound t policy q u u') : Moment t policy q w u' := by
  rcases h.inRounds with ⟨w₁, begun, hn, hrounds⟩
  refine Moment.rounds begun (hrounds u' ?_)
  rw [show q.maxTransfers + 1 - n = q.maxTransfers - n + 1 by omega]
  exact InRounds.within hin

theorem BeforeRound.moment {n : Nat} (h : BeforeRound t policy q w n u) :
    Moment t policy q w u := by
  rcases h.inRounds with ⟨w₁, begun, -, hrounds⟩
  exact Moment.rounds begun (hrounds u (InRounds.here _ u))

theorem BeforeScan.moment {r : Nat} (h : BeforeScan t policy q w r u) :
    Moment t policy q w u := by
  rcases h with ⟨n, v, v₁, done, rest, hbefore, hopen, htouched, hdone⟩
  exact hbefore.moment_of_inRound
    (InRound.scanning hopen (htouched ▸ Loop.passes_append _ (r :: rest) hdone))

theorem AfterScans.moment (h : AfterScans t policy q w u) : Moment t policy q w u := by
  rcases h with ⟨n, v, v₁, hbefore, hopen, hscanned⟩
  exact hbefore.moment_of_inRound
    (InRound.scanning hopen (Loop.passes_of_foldlM _ hscanned))

end Workspace

end Journey
