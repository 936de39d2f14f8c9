import Journey.Proofs.Search.Reconstruction
import Journey.Proofs.Search.Settled
import Journey.Proofs.Search.Totality

/-!
# Answers

From what a search knows in the end to what it answers.

A theory of journeys proves that route-stops are covered. This layer says what
that is worth: a destination that is covered when the search ends bounds the
cost of the itinerary, because either it holds a label or the bound names a way
to the destination that is no dearer. In the other direction nothing is
promised, and so an itinerary is always backed by a label that is held.

`Settled.of_explore?` is `Settled.rounds` for a whole query, from the clean
workspace to the answer.

## Main definitions

* `Engine.Answered`: What an answer has to do with the labels held.

## Theorems

* `Workspace.Covered.arrives`: A covered destination bounds the cost.
* `Workspace.ends_of_explore?`: What holds when a search ends.
* `Workspace.Settled.of_explore?`: What all rounds of a query achieve.
* `Engine.InService.answered_forward`: Every query within the timetable is
  answered.
-/

namespace Journey

variable {K : Type} [Field K] [LinearOrder K] [IsStrictOrderedRing K] {t : Timetable K}
  {q : SearchQuery K} {price : K}

omit [IsStrictOrderedRing K] in
-- In a built timetable only the candidates of a query can take negative
-- time, and the walks if the minimal transfer time is negative.
theorem SearchQuery.forward_of_build [Planar K] [MarkerTree K] {d : Draft K} (hd : d.build = .ok t)
    (hmin : 0 ≤ q.parameters.minTransferTime) (haccess : ∀ c ∈ q.access, 0 ≤ c.time)
    (hegress : ∀ c ∈ q.egress, 0 ≤ c.time) : q.Forward t where
  chronological := Draft.chronological_of_build hd
  walks := fun f _ => by
    rw [Scalar.larger_eq_max]
    exact le_max_of_le_right hmin
  access := haccess
  egress := hegress

-- If no vector has a negative length, the minimal transfer time does not matter.
theorem SearchQuery.timely_of_build [Planar K] [MarkerTree K]
    (hlength : ∀ x y : K, 0 ≤ Planar.hypotenuse x y) {d : Draft K} (hd : d.build = .ok t)
    (haccess : ∀ c ∈ q.access, 0 ≤ c.time) (hegress : ∀ c ∈ q.egress, 0 ≤ c.time) :
    q.Timely t where
  chronological := Draft.chronological_of_build hd
  footpaths := Draft.footpath_duration_nonneg hlength hd
  access := haccess
  egress := hegress

namespace Workspace

variable {w w' : Workspace K}

/-- If a destination is covered, there is a way to the destination that costs no
    more than going on from there. -/
theorem Covered.arrives {i : Nat} {c : WithTop K} (h : w.Covered i c) (hb : w.BoundTold) {x : K}
    (hx : w.Leaves i x) (hnonneg : 0 ≤ x) :
    ∃ i' a, w.Arrives i' a ∧ (a.totalCost : WithTop K) ≤ c + x := by
  rcases h with ⟨b, hbound, hle⟩ | ⟨id, l, hl, hle⟩
  · -- The bound is the cost of a way that is held.
    rcases hb b hbound with ⟨i', id, l, e, hl, he, hcost⟩
    refine ⟨i', ⟨l.cost + e.cost, id, l, e.candidate⟩, ⟨hl, e, he, rfl, rfl⟩, ?_⟩
    calc ((l.cost + e.cost : K) : WithTop K) ≤ b := WithTop.coe_le_coe.mpr hcost
      _ ≤ c := hle
      _ ≤ c + x := le_add_of_nonneg_right (WithTop.coe_nonneg.mpr hnonneg)
  · rcases hx with ⟨e, he, hex⟩
    refine ⟨i, ⟨l.cost + e.cost, id, l, e.candidate⟩, ⟨hl, e, he, rfl, rfl⟩, ?_⟩
    rw [WithTop.coe_add]
    exact add_le_add hle (WithTop.coe_le_coe.mpr hex)

/-- When a search ends, the bound is told and every egress candidate offers a way
    to the destination. -/
theorem ends_of_explore? {policy : TransferPolicy K} (hw : t.WellFormed) (hf : w.Fits t)
    (h : w.explore? t policy q = some w') :
    w'.BoundTold ∧ ∀ c ∈ q.egress, ∀ i, t.stopOf? i = some c.stop → w'.Leaves i c.cost := by
  refine ⟨((moment_of_explore? h).run hw hf).boundTold hf.reset hf.clean_reset.boundTold, ?_⟩
  intro c hc i hi
  rcases explore?_eq_some h with ⟨w₁, w₂, hbegin, hrounds, rfl⟩
  rcases begin?_eq_some hbegin with ⟨w₀, hegress, haccess⟩
  have hleaves := (tells_of_setEgress? hw hegress).2 c hc i hi
  have hrun₀ : Run t policy q w.reset w₀ :=
    run_of_egress hw hf.reset (Loop.passes_of_foldlM _ hegress)
  have hrun₁ : Run t policy q w₀ w₁ :=
    run_of_access hw (hrun₀.fits hf.reset) (Loop.passes_of_foldlM _ haccess)
  have hf₁ := (hrun₀.trans hrun₁).fits hf.reset
  have hrun₂ : Run t policy q w₁ w₂ := (inRounds_of_rounds? hrounds).run hw hf₁
  exact ((hrun₁.trans hrun₂).trans (Run.single (Event.quiet (quiet_conclude w₂)))).leaves hleaves

/-- What a whole query achieves, if `J` is known of the access candidates and
    grows with the rounds. Completing the statistics must not matter to it. -/
theorem Settled.of_explore? {known : Label K → Prop} {κ : Nat → Nat → WithTop K}
    (hw : t.WellFormed) (hf : w.Fits t) (hcost : ∀ f ∈ t.footpaths, 0 ≤ f.cost q.parameters price)
    (hκ : Ceiling t q.parameters known κ)
    (hknown : ∀ u, Run t (TransferPolicy.flat price) q w.reset u →
      ∀ (id : Nat) (l : Label K), u.labels[id]? = some l → known l)
    (J : Nat → Workspace K → Prop) (hJ0 : ∀ u, Settled t q price κ w.reset 0 u → J 0 u)
    (hJ : ∀ n m u u', Settled t q price κ w.reset n u → Settled t q price κ w.reset m u' →
      Run t (TransferPolicy.flat price) q u u' → RidesMade t κ u u' → J n u → J (n + 1) u')
    (hconclude : ∀ n u, J n u → J n u.conclude)
    (h : w.explore? t (TransferPolicy.flat price) q = some w') :
    (∃ m, m ≤ q.maxTransfers + 1 ∧ Settled t q price κ w.reset m w') ∧
      J (q.maxTransfers + 1) w' := by
  rcases explore?_eq_some h with ⟨w₁, w₂, hbegin, hrounds, rfl⟩
  have hclean := hf.clean_reset
  have hsettled : Settled t q price κ w.reset 0 w₁ := (Settled.of_begin? hw hf hbegin).1
  rcases Settled.rounds hw hf.reset hclean hcost hκ hknown J hJ (q.maxTransfers + 1) hsettled
    (hJ0 w₁ hsettled) hrounds with ⟨⟨m, hm, hend⟩, hJend⟩
  rw [Nat.zero_add] at hm hJend
  have hlast : Run t (TransferPolicy.flat price) q w₂ w₂.conclude :=
    Run.single (Event.quiet (quiet_conclude w₂))
  exact ⟨⟨m, hm, { hend with run := hend.run.trans hlast }⟩, hconclude _ w₂ hJend⟩

end Workspace

namespace Engine

variable [Planar K] {policy : TransferPolicy K} {e e' : Engine K} {found : Option (Itinerary K)}

/-- What a query finds in the workspace that answering it leaves behind: nothing
    exactly if no way to the destination is held, and else the cheapest one. -/
structure Answered (t : Timetable K) (policy : TransferPolicy K) (e : Engine K)
    (q : SearchQuery K) (e' : Engine K) (found : Option (Itinerary K)) : Prop where
  search : e.search? q = some (e', found)
  fits : e.workspace.Fits t
  explored : e.workspace.explore? t policy q = some e'.workspace
  none_iff : found = none ↔ ∀ i a, ¬ e'.workspace.Arrives i a
  /-- An itinerary costs what a way to the destination does that is held, -/
  arrives : ∀ it, found = some it → ∃ i a, e'.workspace.Arrives i a ∧ it.totalCost = a.totalCost
  /-- and no other one is cheaper. -/
  least : ∀ it, found = some it → ∀ i a, e'.workspace.Arrives i a → it.totalCost ≤ a.totalCost

/-- An engine in service answers every query that stays within its timetable and
    on which no leg takes negative time. -/
theorem InService.answered_forward (he : InService t policy e) (hw : t.WellFormed)
    (hpolicy : policy.Answers t q) (hin : q.Within t) (hq : q.Forward t) :
    ∃ e' found, Answered t policy e q e' found := by
  rcases he.fits hw with ⟨ht, hp, hf⟩
  rcases hf.explore?_exists hw hpolicy hin with ⟨w', hexplore⟩
  have hrun := (Workspace.moment_of_explore? hexplore).run hw hf
  have hclean := hf.clean_reset
  have hspec := (hrun.legal hclean.legal).itinerary?_spec hw hq (hrun.fits hf.reset)
    (hrun.egressTold hclean.egressTold)
  have hsearch : ∀ found, w'.itinerary? t q = some found →
      e.search? q = some ({ e with workspace := w' }, found) := by
    intro found hfound
    unfold search?
    simp only [Option.bind_eq_bind, ht, hp, hexplore, Option.bind_some, hfound, Option.pure_def]
  rcases hspec with ⟨hnone, hno⟩ | ⟨i, a, it, hit, ha, hcost, hleast⟩
  · exact ⟨{ e with workspace := w' }, none,
      { search := hsearch none hnone
        fits := hf
        explored := hexplore
        none_iff := ⟨fun _ => hno, fun _ => rfl⟩
        arrives := fun it h => absurd h (by simp only [reduceCtorEq, not_false_eq_true])
        least := fun it h => absurd h (by simp only [reduceCtorEq, not_false_eq_true]) }⟩
  · refine ⟨{ e with workspace := w' }, some it,
      { search := hsearch (some it) hit
        fits := hf
        explored := hexplore
        none_iff := ⟨fun h => absurd h (by simp only [reduceCtorEq, not_false_eq_true]),
          fun h => absurd ha (h i a)⟩
        arrives := fun it' h => ?_
        least := fun it' h => ?_ }⟩
    · rw [← Option.some.inj h]
      exact ⟨i, a, ha, hcost⟩
    · rw [← Option.some.inj h]
      exact hleast

theorem InService.answered (he : InService t policy e) (hw : t.WellFormed)
    (hpolicy : policy.Answers t q) (hin : q.Within t) (hq : q.Timely t) :
    ∃ e' found, Answered t policy e q e' found :=
  he.answered_forward hw hpolicy hin hq.forward

-- If a destination is covered in the end, there is an itinerary that costs no
-- more than going on from there.
theorem Answered.le_of_covered (h : Answered t policy e q e' found) (hb : e'.workspace.BoundTold)
    {i : Nat} {c : WithTop K} (hc : e'.workspace.Covered i c) {x : K}
    (hx : e'.workspace.Leaves i x) (hnonneg : 0 ≤ x) :
    ∃ it, found = some it ∧ (it.totalCost : WithTop K) ≤ c + x := by
  rcases hc.arrives hb hx hnonneg with ⟨i', a, ha, hle⟩
  cases hfound : found with
  | none => exact absurd ha (h.none_iff.mp hfound i' a)
  | some it => exact ⟨it, rfl, le_trans (WithTop.coe_le_coe.mpr (h.least it hfound i' a ha)) hle⟩

end Engine

end Journey
