import Mathlib.Data.List.Perm.Subperm
import Journey.Proofs.Growth
import Journey.Proofs.Sample

/-!
# No Route-Stop Twice

No journey comes to a route-stop that it has been at before.

Labels are replaced while chains still go through them, so nothing in the way labels
are stored keeps a chain from coming back to a route-stop. What keeps it is the price:
a route-stop always holds a label that is at least as good as every label that was
ever stored there, a new label has to be better than that, and a journey that comes
back has not become better on its way. Better is meant as the search means it, by
cost and then by transfers, so both have to grow along a chain.

## Main definitions

* `Label.AsGoodAs`: Cheaper, or of the same cost with no more transfers.
* `Workspace.KeepsBest`: Route-stops hold the best labels that were stored there.
* `Workspace.NeverReturns`: No journey comes to a route-stop twice.

## Theorems

* `Workspace.Event.keepsBest`: A label is only replaced by a better one.
* `Workspace.Event.neverReturns`: No event leads a journey back to a route-stop.
* `Engine.InService.distinct_routeStops`: So are those of the chain of any label of a
  search, which bounds its length and its transfers.
-/

namespace Journey

variable {K : Type} [Field K] [LinearOrder K]

namespace Label

/-- Cheaper, or of the same cost with no more transfers. -/
def AsGoodAs (m l : Label K) : Prop := m.cost < l.cost ∨ m.cost = l.cost ∧ m.transfers ≤ l.transfers

theorem AsGoodAs.refl (l : Label K) : l.AsGoodAs l := Or.inr ⟨rfl, Nat.le_refl _⟩

-- What beats a label is better than anything that the label is as good as.
theorem better_of_isBeatenBy {held l m : Label K} (h : held.isBeatenBy m.cost m.transfers = true)
    (hgood : held.AsGoodAs l) : m.cost < l.cost ∨ m.cost = l.cost ∧ m.transfers < l.transfers := by
  unfold isBeatenBy at h
  rw [Bool.or_eq_true, Bool.and_eq_true, decide_eq_true_eq, decide_eq_true_eq,
    Scalar.same_iff] at h
  rcases h with hlt | ⟨heq, hfewer⟩
  · rcases hgood with hgood | ⟨hgood, -⟩
    · exact Or.inl (lt_trans hlt hgood)
    · exact Or.inl (lt_of_lt_of_eq hlt hgood)
  · rcases hgood with hgood | ⟨hgood, hfew⟩
    · exact Or.inl (lt_of_eq_of_lt heq hgood)
    · exact Or.inr ⟨heq.trans hgood, Nat.lt_of_lt_of_le hfewer hfew⟩

theorem AsGoodAs.trans {l m n : Label K} (h : l.AsGoodAs m) (h' : m.AsGoodAs n) :
    l.AsGoodAs n := by
  rcases h with hlt | ⟨heq, hle⟩
  · rcases h' with hlt' | ⟨heq', -⟩
    · exact Or.inl (lt_trans hlt hlt')
    · exact Or.inl (heq' ▸ hlt)
  · rcases h' with hlt' | ⟨heq', hle'⟩
    · exact Or.inl (heq ▸ hlt')
    · exact Or.inr ⟨heq.trans heq', Nat.le_trans hle hle'⟩

theorem AsGoodAs.cost_le {l m : Label K} (h : l.AsGoodAs m) : l.cost ≤ m.cost := by
  rcases h with hlt | ⟨heq, -⟩
  · exact le_of_lt hlt
  · exact le_of_eq heq

-- Labels that are as good as each other agree in what the search compares.
theorem AsGoodAs.antisymm {l m : Label K} (h : l.AsGoodAs m) (h' : m.AsGoodAs l) :
    l.cost = m.cost ∧ l.transfers = m.transfers := by
  have heq := le_antisymm h.cost_le h'.cost_le
  refine ⟨heq, Nat.le_antisymm ?_ ?_⟩
  · exact (h.resolve_left fun hlt => hlt.ne heq).2
  · exact (h'.resolve_left fun hlt => hlt.ne heq.symm).2

/-- What does not beat a label is what it is as good as. -/
theorem not_isBeatenBy_iff (l m : Label K) :
    l.isBeatenBy m.cost m.transfers = false ↔ l.AsGoodAs m := by
  unfold isBeatenBy AsGoodAs
  rw [Bool.or_eq_false_iff, Bool.and_eq_false_imp, decide_eq_false_iff_not, not_lt,
    Scalar.same_iff, decide_eq_false_iff_not, Nat.not_lt, le_iff_lt_or_eq]
  constructor
  · rintro ⟨hlt | heq, hfewer⟩
    · exact Or.inl hlt
    · exact Or.inr ⟨heq, hfewer heq.symm⟩
  · rintro (hlt | ⟨heq, hfewer⟩)
    · exact ⟨Or.inl hlt, fun heq => absurd heq.symm hlt.ne⟩
    · exact ⟨Or.inr heq, fun _ => hfewer⟩

end Label

namespace Workspace

variable {t : Timetable K} {policy : TransferPolicy K} {q : SearchQuery K} {w w' : Workspace K}

/-- A route-stop holds a label that is as good as any that was stored there. -/
def KeepsBest (w : Workspace K) : Prop :=
  ∀ (id : Nat) (l : Label K), w.labels[id]? = some l →
    ∃ id' held, w.Holds l.routeStop id' held ∧ held.AsGoodAs l

theorem Clean.keepsBest (h : w.Clean) : w.KeepsBest := by
  intro id l hl
  rw [h.labels] at hl
  exact absurd hl (by simp)

/-- No journey comes to a route-stop twice. -/
def NeverReturns (w : Workspace K) : Prop :=
  ∀ (id : Nat) (l : Label K), w.labels[id]? = some l →
    ∃ trace, Label.Traced w.labels trace id l ∧ (trace.map (·.2.routeStop)).Nodup

omit [Field K] [LinearOrder K] in
theorem Clean.neverReturns (h : w.Clean) : w.NeverReturns := by
  intro id l hl
  rw [h.labels] at hl
  exact absurd hl (by simp)

/-- A label is only replaced by a better one. -/
theorem Event.keepsBest (h : Event t policy q w w') (hw : w.KeepsBest) : w'.KeepsBest := by
  cases h.effect with
  | quiet h =>
      intro id l hl
      rw [h.labels] at hl
      rcases hw id l hl with ⟨id', held, hheld, hgood⟩
      exact ⟨id', held, (h.holds_iff _ id' held).mpr hheld, hgood⟩
  | @stored stored _ legal h beaten =>
      intro id l hl
      rcases h.label_cases hl with ⟨-, rfl⟩ | hl
      · exact ⟨_, l, h.holds_self, Label.AsGoodAs.refl l⟩
      · rcases hw id l hl with ⟨id', held, hheld, hgood⟩
        by_cases hi : l.routeStop = stored.routeStop
        · rw [hi] at hheld ⊢
          refine ⟨_, stored, h.holds_self, ?_⟩
          exact (Label.better_of_isBeatenBy (beaten id' held hheld) hgood).imp_right
            fun hsame => ⟨hsame.1, Nat.le_of_lt hsame.2⟩
        · exact ⟨id', held, h.holds_of_ne hi hheld, hgood⟩
  | egress => exact hw

variable [IsStrictOrderedRing K]

/-- A new label is at a route-stop that its trace has not been at. -/
theorem Stored.routeStop_ne {l : Label K} (h : Stored t w l w') (hq : q.Growing t policy)
    (hlegal : w'.Legal t policy q) (hkeeps : w.KeepsBest)
    (hbeaten : ∀ id held, w.Holds l.routeStop id held → held.isBeatenBy l.cost l.transfers = true)
    {trace : List (Nat × Label K)} {n : Nat} {m : Label K}
    (htrace : Label.Traced w.labels trace n m) (hprevious : l.previous = some n) :
    ∀ x ∈ trace, x.2.routeStop ≠ l.routeStop := by
  intro x hx hsame
  rcases hkeeps x.1 x.2 (htrace.label_of_mem x hx) with ⟨id, held, hheld, hgood⟩
  have hbetter := Label.better_of_isBeatenBy (hbeaten id held (hsame ▸ hheld)) hgood
  have hself : w'.labels[w.labels.size]? = some l := by rw [h.labels, Array.getElem?_push_size]
  have hlonger := Label.Traced.extend (htrace.mono fun _ _ hl => h.labels_mono hl) hself hprevious
    (Array.getElem?_eq_some_iff.mp htrace.label).1
  -- A journey that comes back has not become better on its way.
  have hgrows := hlegal.grows hq hlonger x (List.mem_append_left _ hx)
  rcases hbetter with hlt | ⟨-, hfewer⟩
  · exact absurd hgrows.1 (not_le_of_gt hlt)
  · exact absurd hgrows.2.2 (Nat.not_le_of_gt hfewer)

/-- No event leads a journey back to a route-stop. -/
theorem Event.neverReturns (h : Event t policy q w w') (hq : q.Growing t policy)
    (hlegal : w.Legal t policy q) (hkeeps : w.KeepsBest) (hw : w.NeverReturns) :
    w'.NeverReturns := by
  have hlegal' := h.legal hlegal
  intro id l hl
  cases h.effect with
  | quiet h =>
      rw [h.labels] at hl ⊢
      exact hw id l hl
  | @stored stored _ legal h beaten =>
      rcases h.label_cases hl with ⟨rfl, rfl⟩ | hold
      · cases hprevious : l.previous with
        | none => exact ⟨_, Label.Traced.start hl hprevious, List.nodup_singleton _⟩
        | some n =>
            have hlt := legal.previous_lt hprevious
            rcases hw n _ (Array.getElem?_eq_getElem hlt) with ⟨trace, htrace, hnodup⟩
            refine ⟨_, Label.Traced.extend (htrace.mono fun _ _ hl => h.labels_mono hl) hl
              hprevious hlt, ?_⟩
            rw [List.map_append, List.nodup_append]
            refine ⟨hnodup, List.nodup_singleton _, fun i hi j hj => ?_⟩
            rcases List.mem_map.mp hi with ⟨x, hx, rfl⟩
            rw [List.map_singleton, List.mem_singleton] at hj
            rw [hj]
            exact h.routeStop_ne hq hlegal' hkeeps beaten htrace hprevious x hx
      · rcases hw id l hold with ⟨trace, htrace, hnodup⟩
        exact ⟨trace, htrace.mono fun _ _ hl => h.labels_mono hl, hnodup⟩
  | egress => exact hw id l hl

-- Whether a new label returns depends on what route-stops hold, so both are kept together.
theorem Run.neverReturns (h : Run t policy q w w') (hq : q.Growing t policy) (hclean : w.Clean) :
    w'.NeverReturns := by
  have hinv := h.invariant (fun u => u.Legal t policy q ∧ u.KeepsBest ∧ u.NeverReturns) ?_ ?_
  · exact hinv.2.2
  · rintro u u' hevent ⟨hlegal, hkeeps, hnever⟩
    exact ⟨hevent.legal hlegal, hevent.keepsBest hkeeps,
      hevent.neverReturns hq hlegal hkeeps hnever⟩
  · exact ⟨hclean.legal, hclean.keepsBest, hclean.neverReturns⟩

omit [IsStrictOrderedRing K] in
-- The first label of a trace is no transfer.
theorem Legal.transfers_lt (h : w.Legal t policy q) {trace : List (Nat × Label K)} {id : Nat}
    {l : Label K} (htrace : Label.Traced w.labels trace id l) : l.transfers < trace.length := by
  induction htrace with
  | @start id l label previous =>
      rcases (h id l label).of_previous_none previous with ⟨k, c, -, -, -, transfers, -⟩
      rw [transfers]
      exact Nat.zero_lt_one
  | @extend trace n id m l before label previous later ih =>
      rw [List.length_append, List.length_singleton]
      have hlegal := h id l label
      cases hlegal with
      | access k c step previous' =>
          exact absurd (previous'.symm.trans previous) (Option.some_ne_none n).symm
      | ride n' m' trip b v e step previous' predecessor ahead next boarding vehicle enters time
          cost transfers =>
          rcases Label.predecessor_unique (before.label_extract later) previous predecessor
            previous' with ⟨rfl, rfl⟩
          rw [transfers]
          omega
      | transfer n' m' f d inc fm tm step previous' predecessor ride path takes left entered price
          time cost transfers =>
          rcases Label.predecessor_unique (before.label_extract later) previous predecessor
            previous' with ⟨rfl, rfl⟩
          rw [transfers]
          omega

end Workspace

namespace Engine

variable [IsStrictOrderedRing K] [Planar K] [MarkerTree K] {t : Timetable K}
  {policy : TransferPolicy K} {q : SearchQuery K} {e : Engine K} {w : Workspace K}

/-- Under accepted parameters and a policy that comes with the search, the chain of
    every label of a search comes to every route-stop once at most, so it is no longer
    than there are route-stops, and has fewer transfers. -/
theorem InService.distinct_routeStops {d : Draft K} (hd : d.build = .ok t)
    (he : InService t policy e) (hpolicy : policy.BuiltIn t.modes)
    (hvalid : q.parameters.validate = .ok ()) (haccess : ∀ c ∈ q.access, 0 ≤ c.time)
    (hm : Workspace.Moment t policy q e.workspace w) {id : Nat} {l : Label K}
    (hl : w.labels[id]? = some l) :
    ∃ chain, Label.chain? w.labels id = some chain ∧ (chain.map (·.2.routeStop)).Nodup ∧
      chain.length ≤ t.routeStops.size ∧ l.transfers < t.routeStops.size := by
  have hw := Draft.wellFormed_of_build hd
  rcases he.fits hw with ⟨-, -, hf⟩
  have hrun := hm.run hw hf
  have hlegal := hrun.legal hf.clean_reset.legal
  rcases hrun.neverReturns ⟨hw, Draft.chronological_of_build hd, hpolicy, hvalid, haccess⟩
    hf.clean_reset id l hl with ⟨trace, htrace, hnodup⟩
  have hlength : trace.length ≤ t.routeStops.size := by
    have hsubset : trace.map (·.2.routeStop) ⊆ List.range t.routeStops.size := by
      intro i hi
      rcases List.mem_map.mp hi with ⟨x, hx, rfl⟩
      exact List.mem_range.mpr (hlegal x.1 x.2 (htrace.label_of_mem x hx)).routeStop_lt
    have hle := (List.subperm_of_subset hnodup hsubset).length_le
    rwa [List.length_map, List.length_range] at hle
  refine ⟨trace.reverse, htrace.chain?_eq, ?_, ?_, Nat.lt_of_lt_of_le (hlegal.transfers_lt htrace)
    hlength⟩
  · rw [List.map_reverse, List.nodup_reverse]
    exact hnodup
  · rw [List.length_reverse]
    exact hlength

open Sample in
/-- The last label of a trip over two lines has been at all four route-stops. -/
theorem InService.distinct_routeStops_changeover : ∃ w l chain,
    Workspace.Moment changeover.assemble (TransferPolicy.flat 0) trip
      (Engine.new changeover.assemble (TransferPolicy.flat 0)).workspace w ∧
    w.labels[3]? = some l ∧ Label.chain? w.labels 3 = some chain ∧
    chain.map (·.2.routeStop) = [3, 2, 1, 0] ∧ (chain.map (·.2.routeStop)).Nodup ∧
    chain.length ≤ changeover.assemble.routeStops.size ∧
    l.transfers < changeover.assemble.routeStops.size := by
  have hrun : ((Workspace.ofTimetable changeover.assemble).explore? changeover.assemble
      (TransferPolicy.flat 0) trip).bind (fun w => w.labels[3]?.bind fun l =>
        (Label.chain? w.labels 3).map fun chain => chain.map (·.2.routeStop))
      = some [3, 2, 1, 0] := by decide +kernel
  rcases Option.bind_eq_some_iff.mp hrun with ⟨w, hexplore, hchain⟩
  rcases Option.bind_eq_some_iff.mp hchain with ⟨l, hl, hchain⟩
  rcases Option.map_eq_some_iff.mp hchain with ⟨chain, hchain, hstops⟩
  have hm := Workspace.moment_of_explore? hexplore
  rcases InService.distinct_routeStops build_changeover InService.new
    (TransferPolicy.BuiltIn.flat (le_refl 0)) (by decide +kernel) (by decide +kernel) hm hl with
    ⟨chain', hchain', hnodup⟩
  rw [hchain, Option.some.injEq] at hchain'
  subst hchain'
  exact ⟨w, l, chain, hm, hl, hchain, hstops, hnodup⟩

end Engine

end Journey
