import Journey.Proofs.MoreRounds
import Journey.Proofs.Search.Moves

/-!
# Convergence

A search ends by itself, whatever limit of transfers it has.

Nothing in a round forces an end: labels of earlier rounds are ridden on from again in
later ones, so neither the transfers nor the chains have to grow with the rounds. What
comes to an end are the labels. A journey comes to a route-stop once at most, so it
consists of no more moves than there are route-stops, and there are finitely many such
journeys. No two labels of a search have the same moves, because they would be twins,
and of two labels at a route-stop the later one is better. So there is a number of
labels that no run of a query exceeds. Every round that improves something stores a
label, and a search that is allowed more transfers than that is not cut off.

## Main definitions

* `Workspace.Outdoes`: Of two labels at a route-stop the later one is better.

## Theorems

* `TransferPolicy.BuiltIn.byChain`: The policies cannot tell twins apart.
* `Workspace.Event.outdoes`: Labels keep getting better.
* `Workspace.moves_injective`: No two labels have the same moves.
* `Workspace.exists_size_le`: A query has a greatest number of labels.
* `Engine.InService.converges`: From some limit on all searches are the same, and end
  with a round that improved nothing.
-/

namespace Journey

variable {K : Type} [Field K] [LinearOrder K]

/-- The policies that a search comes with cannot tell twins apart. -/
theorem TransferPolicy.BuiltIn.byChain {modes : List Mode} {policy : TransferPolicy K}
    (h : policy.BuiltIn modes) : policy.ByChain :=
  h.standard.byChain

namespace Workspace

variable {t : Timetable K} {policy : TransferPolicy K} {q : SearchQuery K} {w w' : Workspace K}

/-- Of two labels at a route-stop the one stored later is better. -/
def Outdoes (w : Workspace K) : Prop :=
  ∀ (id id' : Nat) (l l' : Label K), w.labels[id]? = some l → w.labels[id']? = some l' →
    id < id' → l'.routeStop = l.routeStop →
      l'.cost < l.cost ∨ l'.cost = l.cost ∧ l'.transfers < l.transfers

theorem Clean.outdoes (h : w.Clean) : w.Outdoes := by
  intro id id' l l' hl
  rw [h.labels] at hl
  exact absurd hl (by simp)

/-- Labels keep getting better, because a new one beats the best one so far. -/
theorem Event.outdoes (h : Event t policy q w w') (hkeeps : w.KeepsBest) (hw : w.Outdoes) :
    w'.Outdoes := by
  intro id id' l l' hl hl' hlt hstop
  cases h.effect with
  | quiet h =>
      rw [h.labels] at hl hl'
      exact hw id id' l l' hl hl' hlt hstop
  | @stored stored _ legal h beaten =>
      have hsize := (Array.getElem?_eq_some_iff.mp hl').1
      rw [h.labels, Array.size_push] at hsize
      rcases h.label_cases hl with ⟨rfl, -⟩ | hold
      · -- Nothing was stored after the label that was stored last.
        omega
      · rcases h.label_cases hl' with ⟨-, rfl⟩ | hold'
        · rcases hkeeps id l hold with ⟨n, held, hheld, hgood⟩
          exact Label.better_of_isBeatenBy (beaten n held (hstop ▸ hheld)) hgood
        · exact hw id id' l l' hold hold' hlt hstop
  | egress => exact hw id id' l l' hl hl' hlt hstop

theorem Run.outdoes (h : Run t policy q w w') (hclean : w.Clean) : w'.Outdoes := by
  have hinv := h.invariant (fun u => u.KeepsBest ∧ u.Outdoes) ?_ ⟨hclean.keepsBest, hclean.outdoes⟩
  · exact hinv.2
  · rintro u u' hevent ⟨hkeeps, houtdoes⟩
    exact ⟨hevent.keepsBest hkeeps, hevent.outdoes hkeeps houtdoes⟩

/-- The moves of the journey to a label. -/
def movesOf (w : Workspace K) (id : Nat) : List (Nat × Move K) :=
  ((Label.chain? w.labels id).getD []).map (·.2.move)

omit [Field K] [LinearOrder K] in
theorem movesOf_eq {trace : List (Nat × Label K)} {id : Nat} {l : Label K}
    (h : Label.Traced w.labels trace id l) : w.movesOf id = (trace.map (·.2.move)).reverse := by
  unfold movesOf
  rw [h.chain?_eq, Option.getD_some, List.map_reverse]

/-- No two labels have the same moves. They would be as good as each other, and at the
    same route-stop. -/
theorem moves_injective (hlegal : w.Legal t policy q) (houtdoes : w.Outdoes)
    (hpolicy : policy.ByChain) {id id' : Nat} (hid : id < w.labels.size)
    (hid' : id' < w.labels.size) (h : w.movesOf id = w.movesOf id') : id = id' := by
  have hdistinct : ∀ {n n' : Nat}, n < w.labels.size → n' < w.labels.size →
      w.movesOf n = w.movesOf n' → ¬ n < n' := by
    intro n n' hn hn' hmoves hlt
    have hl := Array.getElem?_eq_getElem hn
    have hl' := Array.getElem?_eq_getElem hn'
    rcases hlegal.exists_traced n _ hl with ⟨trace, htrace⟩
    rcases hlegal.exists_traced n' _ hl' with ⟨trace', htrace'⟩
    rw [movesOf_eq htrace, movesOf_eq htrace', List.reverse_inj] at hmoves
    have htwins := hlegal.twins_of_moves_eq hlegal hpolicy htrace htrace' hmoves.symm
    rcases houtdoes n n' _ _ hl hl' hlt htwins.routeStop_eq with hless | ⟨-, hfewer⟩
    · exact absurd htwins.cost_eq (ne_of_lt hless)
    · exact absurd htwins.transfers_eq (Nat.ne_of_lt hfewer)
  rcases Nat.lt_trichotomy id id' with hlt | heq | hlt
  · exact absurd hlt (hdistinct hid hid' h)
  · exact heq
  · exact absurd hlt (hdistinct hid' hid h.symm)

-- A journey that does not return has no more moves than there are route-stops.
theorem movesOf_mem (hlegal : w.Legal t policy q) (hnever : w.NeverReturns) {id : Nat}
    (hid : id < w.labels.size) :
    (w.movesOf id).length ≤ t.routeStops.size ∧ ∀ x ∈ w.movesOf id, x ∈ t.moves q := by
  rcases hnever id _ (Array.getElem?_eq_getElem hid) with ⟨trace, htrace, hnodup⟩
  have hlegal' : ∀ x ∈ trace, x.2.IsLegal t policy q (w.labels.extract 0 x.1) :=
    fun x hx => hlegal x.1 x.2 (htrace.label_of_mem x hx)
  rw [movesOf_eq htrace, List.length_reverse, List.length_map]
  constructor
  · have hsubset : trace.map (·.2.routeStop) ⊆ List.range t.routeStops.size := by
      intro i hi
      rcases List.mem_map.mp hi with ⟨x, hx, rfl⟩
      exact List.mem_range.mpr (hlegal' x hx).routeStop_lt
    have hle := (List.subperm_of_subset hnodup hsubset).length_le
    rwa [List.length_map, List.length_range] at hle
  · intro x hx
    rcases List.mem_map.mp (List.mem_reverse.mp hx) with ⟨y, hy, rfl⟩
    exact (hlegal' y hy).move_mem

variable [IsStrictOrderedRing K]

/-- There is a number of labels that no run of a query exceeds. -/
theorem exists_size_le (hq : q.Growing t policy) :
    ∃ most, ∀ w w' : Workspace K, w.Clean → Run t policy q w w' → w'.labels.size ≤ most := by
  have hfinite := t.finite_moveLists q t.routeStops.size
  refine ⟨hfinite.toFinset.card, fun w w' hclean hrun => ?_⟩
  have hlegal := hrun.legal hclean.legal
  have hcard : (Finset.range w'.labels.size).card ≤ hfinite.toFinset.card := by
    refine Finset.card_le_card_of_injOn w'.movesOf (fun id hid => ?_) (fun id hid id' hid' h => ?_)
    · rw [Finset.mem_coe, Set.Finite.mem_toFinset]
      exact movesOf_mem hlegal (hrun.neverReturns hq hclean)
        (Finset.mem_range.mp (Finset.mem_coe.mp hid))
    · exact moves_injective hlegal (hrun.outdoes hclean) hq.policy.byChain
        (Finset.mem_range.mp (Finset.mem_coe.mp hid))
        (Finset.mem_range.mp (Finset.mem_coe.mp hid')) h
  rwa [Finset.card_range] at hcard

end Workspace

namespace Engine

variable [IsStrictOrderedRing K] [Planar K] [MarkerTree K] {t : Timetable K}
  {policy : TransferPolicy K} {q : SearchQuery K} {e : Engine K}

/-- From some limit of transfers on all searches are the same, with the same labels and
    the same itinerary. They end because a round improved nothing. -/
theorem InService.converges {d : Draft K} (hd : d.build = .ok t) (he : InService t policy e)
    (hpolicy : policy.BuiltIn t.modes) (hvalid : q.parameters.validate = .ok ())
    (hin : q.Within t) (haccess : ∀ c ∈ q.access, 0 ≤ c.time)
    (hegress : ∀ c ∈ q.egress, 0 ≤ c.time) :
    ∃ enough e' found,
      (∀ n, enough ≤ n → e.search? (q.allowing n) = some (e', found)) ∧
      e'.statistics.roundCapHit = false ∧ e'.statistics.improvedPerRound.getLast? = some 0 := by
  have hw := Draft.wellFormed_of_build hd
  have hanswer : ∀ n, ∃ e' found, Answered t policy e (q.allowing n) e' found := fun n =>
    he.answered_forward hw (hpolicy.answers hw _) hin
      (SearchQuery.forward_of_build hd (Parameters.validate_ok hvalid).2.2.2 haccess hegress)
  rcases Workspace.exists_size_le ⟨hw, Draft.chronological_of_build hd, hpolicy, hvalid, haccess⟩
    with ⟨most, hmost⟩
  rcases hanswer most with ⟨e', found, h⟩
  -- A search that is cut off would have stored more labels than there can be.
  have hfinished : e'.statistics.roundCapHit = false := by
    cases hcut : e'.statistics.roundCapHit with
    | false => rfl
    | true =>
        have hmore := Workspace.size_of_explore? h.explored hcut
        have hle := hmost _ _ h.fits.clean_reset
          (Workspace.run_of_explore?_allowing hw h.fits h.explored)
        exact absurd hmore (Nat.not_lt_of_ge hle)
  refine ⟨most, e', found, fun n hn => ?_, hfinished, ?_⟩
  · rcases hanswer n with ⟨e₂, found₂, h₂⟩
    rcases search?_extend hn h.search h₂.search hfinished with ⟨rfl, rfl⟩
    exact h₂.search
  · have haccounts := (Workspace.statistics_of_explore? h.explored).1
    cases hlast : e'.statistics.improvedPerRound.getLast? with
    | none =>
        have hlength := haccounts.length_eq
        have hpos := haccounts.rounds_pos
        have hempty : e'.workspace.statistics.improvedPerRound = [] :=
          List.getLast?_eq_none_iff.mp hlast
        rw [hempty, List.length_nil] at hlength
        omega
    | some n =>
        have hzero : ¬ 0 < n := fun hpos => by
          have hcut := haccounts.capHit_iff.mpr ⟨n, hlast, hpos⟩
          exact absurd (hcut.symm.trans hfinished) Bool.noConfusion
        rw [Nat.eq_zero_of_not_pos hzero]

open Sample in
/-- The search for the quick way has converged when two transfers are allowed, and the
    third round is the last one under any higher limit. -/
theorem InService.converges_slowOrChange : ∃ enough e' found,
    (∀ n, enough ≤ n →
      (Engine.new slowOrChange.assemble (TransferPolicy.flat 0)).search? (toTheEnd.allowing n)
        = some (e', found)) ∧
    (e'.statistics.roundCapHit = false ∧
      e'.statistics.improvedPerRound.getLast? = some 0) ∧
    found.map (·.totalCost) = some 60 ∧ e'.statistics.improvedPerRound = [2, 1, 0] := by
  rcases InService.converges (q := toTheEnd) build_slowOrChange InService.new
    (TransferPolicy.BuiltIn.flat (le_refl 0)) (by decide +kernel)
    ⟨by decide +kernel, by decide +kernel⟩ (by decide +kernel) (by decide +kernel) with
    ⟨enough, e', found, hsame, hends⟩
  have hrun : ((Engine.new slowOrChange.assemble (TransferPolicy.flat 0)).search?
      (toTheEnd.allowing 2)).map (fun r => (r.2.map (·.totalCost),
        r.1.statistics.improvedPerRound, r.1.statistics.roundCapHit))
      = some (some 60, [2, 1, 0], false) := by decide +kernel
  rcases Option.map_eq_some_iff.mp hrun with ⟨⟨e₂, found₂⟩, h₂, hview⟩
  simp only [Prod.mk.injEq] at hview
  rcases hview with ⟨hcost, hrounds, hfinished⟩
  have hlarge := hsame (max enough 2) (le_max_left enough 2)
  rcases search?_extend (le_max_right enough 2) h₂ hlarge hfinished with ⟨rfl, rfl⟩
  exact ⟨enough, e', found, hsame, hends, hcost, hrounds⟩

end Engine

end Journey
