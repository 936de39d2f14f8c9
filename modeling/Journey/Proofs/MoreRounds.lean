import Journey.Proofs.DistinctStops
import Journey.Proofs.Search.Answer
import Journey.Proofs.Search.RoundCounts
import Journey.Proofs.WholeTrips

/-!
# More Rounds Never Hurt

What a search loses by a lower limit of transfers, and that it gains nothing.

Two searches that differ in the limit make the same rounds until the one with the
lower limit is cut off, and from then on the other one only adds events. An event never
makes the label of a route-stop worse, because it is only replaced by one that beats it,
and never makes a way to the destination dearer. So whatever the shorter search holds in
the end, the longer one holds something as good. Nothing is assumed about the transfer
policy, which sees the labels of the additional rounds only after the others were
priced.

## Main definitions

* `Engine.GoesOn`: What a longer search has compared with a shorter one.

## Theorems

* `Workspace.Run.holds_asGoodAs`, `Workspace.Run.arrives_le`: What is held later is as
  good.
* `TransferPolicy.Answers.allowing`: A policy that answers does so under any limit.
* `Engine.InService.more_rounds`: A search with a higher limit is no worse.
-/

namespace Journey

namespace Workspace

variable {K : Type} [Field K] [LinearOrder K] {t : Timetable K} {policy : TransferPolicy K}
  {q : SearchQuery K} {w w' : Workspace K} {i : Nat}

theorem Run.keepsBest (h : Run t policy q w w') (hw : w.KeepsBest) : w'.KeepsBest :=
  h.invariant KeepsBest (fun _ _ hevent => hevent.keepsBest) hw

/-- What a route-stop holds later is as good. -/
theorem Run.holds_asGoodAs (h : Run t policy q w w') (hf : w.Fits t) (hkeeps : w.KeepsBest)
    {id : Nat} {l : Label K} (hl : w.Holds i id l) :
    ∃ id' l', w'.Holds i id' l' ∧ l'.AsGoodAs l := by
  rcases h.keepsBest hkeeps id l (h.labels_mono hl.2) with ⟨id', l', hl', hgood⟩
  rw [hf.holds_routeStop hl] at hl'
  exact ⟨id', l', hl', hgood⟩

variable [IsStrictOrderedRing K]

/-- So is the way to the destination from there. -/
theorem Run.arrives_le (h : Run t policy q w w') (hf : w.Fits t) (hkeeps : w.KeepsBest)
    {a : Arrival K} (ha : w.Arrives i a) : ∃ a', w'.Arrives i a' ∧ a'.totalCost ≤ a.totalCost := by
  rcases ha with ⟨hl, e, he, hcost, -⟩
  rcases h.holds_asGoodAs hf hkeeps hl with ⟨id', l', hl', hgood⟩
  rcases h.leaves ⟨e, he, le_refl e.cost⟩ with ⟨e', he', hle⟩
  refine ⟨⟨l'.cost + e'.cost, id', l', e'.candidate⟩, ⟨hl', e', he', rfl, rfl⟩, ?_⟩
  rw [hcost]
  rcases hgood with hlt | ⟨heq, -⟩
  · exact add_le_add (le_of_lt hlt) hle
  · exact add_le_add (le_of_eq heq) hle

end Workspace

section Limits

variable {α : Type} [Scalar α] {t : Timetable α} {policy : TransferPolicy α} {q : SearchQuery α}

-- No step of a journey depends on the limit of transfers.
theorem Label.IsLegal.of_allowing {n : Nat} {labels : Array (Label α)} {l : Label α}
    (h : l.IsLegal t policy (q.allowing n) labels) : l.IsLegal t policy q labels := by
  cases h with
  | access k c step previous candidate stop time cost transfers transferCost =>
      exact Label.IsLegal.access k c step previous candidate stop time cost transfers transferCost
  | ride n m trip b v e step previous predecessor ahead next boarding vehicle enters time cost
      transfers transferCost =>
      exact Label.IsLegal.ride n m trip b v e step previous predecessor ahead next boarding vehicle
        enters time cost transfers transferCost
  | transfer n m f d inc fm tm step previous predecessor ride path takes left entered price time
      cost transfers transferCost =>
      exact Label.IsLegal.transfer n m f d inc fm tm step previous predecessor ride path takes left
        entered price time cost transfers transferCost

/-- A policy that answers does so under any limit of transfers. -/
theorem TransferPolicy.Answers.allowing (h : policy.Answers t q) (n : Nat) :
    policy.Answers t (q.allowing n) :=
  fun w d toMode duration hlegal hd hride hmode =>
    h w d toMode duration (fun id l hl => (hlegal id l hl).of_allowing) hd hride hmode

end Limits

namespace Engine

variable {K : Type} [Field K] [LinearOrder K] [Planar K]

/-- What a search with a higher limit of transfers has compared with one with a lower
    limit. -/
structure GoesOn (e₁ : Engine K) (found₁ : Option (Itinerary K)) (e₂ : Engine K)
    (found₂ : Option (Itinerary K)) : Prop where
  /-- It begins with the same rounds. -/
  rounds : e₁.statistics.improvedPerRound <+: e₂.statistics.improvedPerRound
  /-- No label is lost or replaced by a worse one. -/
  labels : ∀ i l, e₁.labelAt? i = some (some l) →
    ∃ l', e₂.labelAt? i = some (some l') ∧ l'.AsGoodAs l
  /-- No itinerary is lost or replaced by a dearer one. -/
  itinerary : ∀ it, found₁ = some it → ∃ it', found₂ = some it' ∧ it'.totalCost ≤ it.totalCost
  /-- Nothing is found after a round that improved nothing. -/
  finished : e₁.statistics.roundCapHit = false → e₂ = e₁ ∧ found₂ = found₁

variable [IsStrictOrderedRing K] {t : Timetable K} {policy : TransferPolicy K} {q : SearchQuery K}
  {e e₁ e₂ : Engine K} {found₁ found₂ : Option (Itinerary K)}

theorem Answered.goesOn {m n : Nat} (h₁ : Answered t policy e (q.allowing m) e₁ found₁)
    (h₂ : Answered t policy e (q.allowing n) e₂ found₂) (hw : t.WellFormed) (hmn : m ≤ n) :
    GoesOn e₁ found₁ e₂ found₂ := by
  have hclean := h₁.fits.clean_reset
  have hrun₁ := (Workspace.moment_of_explore? h₁.explored).run hw h₁.fits
  have hf₁ := hrun₁.fits h₁.fits.reset
  have hkeeps₁ := hrun₁.keepsBest hclean.keepsBest
  rcases (Workspace.explore?_extend hmn h₁.explored h₂.explored).2 with ⟨v, v', hv, hv', hrest⟩
  -- The rounds that only the longer search makes begin where the shorter one ended.
  have hfv : v.Fits t := { hv ▸ hf₁ with }
  have hrun : Workspace.Run t policy q e₁.workspace e₂.workspace := by
    rw [hv, hv']
    have hbefore : Workspace.Run t policy q v.conclude v :=
      Workspace.Run.single (Workspace.Event.quiet ⟨rfl, rfl, rfl, rfl, fun hf => { hf with }⟩)
    have hmore : Workspace.Run t policy q v v' := by
      rcases hrest with rfl | hrounds
      · exact Workspace.Run.refl v'
      · exact (Workspace.inRounds_of_rounds? hrounds).run hw hfv
    exact (hbefore.trans hmore).trans
      (Workspace.Run.single (Workspace.Event.quiet (Workspace.quiet_conclude v')))
  refine
    { rounds := ?_
      labels := fun i l hl => ?_
      itinerary := fun it hit => ?_
      finished := search?_extend hmn h₁.search h₂.search }
  · unfold statistics
    rw [hv, hv']
    rcases hrest with rfl | hrounds
    · exact List.prefix_refl _
    · have hprefix := Workspace.improvedPerRound_prefix hrounds
      exact hprefix
  · rcases Workspace.labelAt?_eq_some_some_iff.mp hl with ⟨id, hheld⟩
    rcases hrun.holds_asGoodAs hf₁ hkeeps₁ hheld with ⟨id', l', hheld', hgood⟩
    exact ⟨l', Workspace.labelAt?_eq_some_some_iff.mpr ⟨id', hheld'⟩, hgood⟩
  · rcases h₁.arrives it hit with ⟨i, a, ha, hcost⟩
    rcases hrun.arrives_le hf₁ hkeeps₁ ha with ⟨a', ha', hle⟩
    cases hfound : found₂ with
    | none => exact absurd ha' (h₂.none_iff.mp hfound i a')
    | some it' =>
        exact ⟨it', rfl, le_trans (h₂.least it' hfound i a' ha') (hcost.symm ▸ hle)⟩

/-- A search with a higher limit of transfers begins with the same rounds, and then has
    no label and no itinerary that is worse. If it was not the limit that ended the
    shorter search, both are the same. The statistics of both account for their
    rounds. -/
theorem InService.more_rounds [MarkerTree K] {d : Draft K} (hd : d.build = .ok t)
    (he : InService t policy e) (hpolicy : policy.Answers t q) (hin : q.Within t)
    (hmin : 0 ≤ q.parameters.minTransferTime) (haccess : ∀ c ∈ q.access, 0 ≤ c.time)
    (hegress : ∀ c ∈ q.egress, 0 ≤ c.time) {m n : Nat} (hmn : m ≤ n) :
    ∃ e₁ found₁ e₂ found₂, e.search? (q.allowing m) = some (e₁, found₁) ∧
      e.search? (q.allowing n) = some (e₂, found₂) ∧ GoesOn e₁ found₁ e₂ found₂ ∧
      e₁.statistics.Accounts m ∧ e₂.statistics.Accounts n := by
  have hw := Draft.wellFormed_of_build hd
  have hanswer : ∀ k, ∃ e' found, Answered t policy e (q.allowing k) e' found := fun k =>
    he.answered_forward hw (hpolicy.allowing k) hin
      (SearchQuery.forward_of_build hd hmin haccess hegress)
  rcases hanswer m with ⟨e₁, found₁, h₁⟩
  rcases hanswer n with ⟨e₂, found₂, h₂⟩
  exact ⟨e₁, found₁, e₂, found₂, h₁.search, h₂.search, h₁.goesOn h₂ hw hmn,
    (Workspace.statistics_of_explore? h₁.explored).1,
    (Workspace.statistics_of_explore? h₂.explored).1⟩

end Engine

namespace Sample

/-- A slow line to a stop, and a quick way there with a change of vehicles. -/
def slowOrChange : Draft ℚ :=
  network ["A", "B", "C", "E"]
    [line "slow" [("A", 0), ("E", 100)] [0], line "one" [("A", 0), ("B", 10)] [0],
      line "two" [("C", 0), ("E", 10)] [50]] [("B", "C", 0)]

def toTheEnd : SearchQuery ℚ := query [candidate 0 0] [candidate 3 0] 0

theorem build_slowOrChange : slowOrChange.build = .ok slowOrChange.assemble :=
  build_eq_ok (by decide +kernel)

end Sample

namespace Engine

open Sample

/-- Without a transfer only the slow line leads to the stop. With two, the quick way is
    found in the second round, and the third one improves nothing. -/
theorem InService.more_rounds_slowOrChange : ∃ e₁ found₁ e₂ found₂,
    (Engine.new slowOrChange.assemble (TransferPolicy.flat 0)).search? (toTheEnd.allowing 0)
      = some (e₁, found₁) ∧
    (Engine.new slowOrChange.assemble (TransferPolicy.flat 0)).search? (toTheEnd.allowing 2)
      = some (e₂, found₂) ∧
    (found₁.map (·.totalCost) = some 100 ∧ found₂.map (·.totalCost) = some 60) ∧
    (e₁.statistics.improvedPerRound = [2] ∧ e₂.statistics.improvedPerRound = [2, 1, 0]) ∧
    GoesOn e₁ found₁ e₂ found₂ ∧ e₁.statistics.Accounts 0 ∧ e₂.statistics.Accounts 2 := by
  rcases InService.more_rounds (q := toTheEnd) build_slowOrChange InService.new
    (TransferPolicy.flat_answers 0) ⟨by decide +kernel, by decide +kernel⟩ (le_refl 0)
    (by decide +kernel) (by decide +kernel) (Nat.zero_le 2) with
    ⟨e₁, found₁, e₂, found₂, h₁, h₂, hrest⟩
  have hrun₁ : ((Engine.new slowOrChange.assemble (TransferPolicy.flat 0)).search?
      (toTheEnd.allowing 0)).map (fun r => (r.2.map (·.totalCost),
        r.1.statistics.improvedPerRound)) = some (some 100, [2]) := by decide +kernel
  have hrun₂ : ((Engine.new slowOrChange.assemble (TransferPolicy.flat 0)).search?
      (toTheEnd.allowing 2)).map (fun r => (r.2.map (·.totalCost),
        r.1.statistics.improvedPerRound)) = some (some 60, [2, 1, 0]) := by decide +kernel
  rw [h₁, Option.map_some, Option.some.injEq, Prod.mk.injEq] at hrun₁
  rw [h₂, Option.map_some, Option.some.injEq, Prod.mk.injEq] at hrun₂
  exact ⟨e₁, found₁, e₂, found₂, h₁, h₂, ⟨hrun₁.1, hrun₂.1⟩, ⟨hrun₁.2, hrun₂.2⟩, hrest⟩

end Engine

end Journey
