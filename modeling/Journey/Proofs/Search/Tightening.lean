import Journey.Proofs.Search.Additions
import Journey.Proofs.Search.Coverage

/-!
# The Bound from a Moment On

The bound of a search never becomes looser, from any of its moments to its end.

That a search ends with a bound says little about a label that was turned down on
the way, because it was turned down for the bound of that moment. What connects the
two is that storing a label is the only step that touches the bound, and it takes the
lesser of two costs. So the loops of a search, and what is left of them at a moment,
can only tighten it.

## Main definitions

* `Workspace.Tightens`: A bound is still there, or a tighter one.

## Theorems

* `Workspace.Run.tightens`: No run makes the bound looser.
* `Workspace.Moment.tightens`: The end of a search is at least as tightly bounded as
  any of its moments.
-/

namespace Journey

namespace Workspace

variable {K : Type} [Field K] [LinearOrder K] {t : Timetable K} {policy : TransferPolicy K}
  {q : SearchQuery K} {w w' w'' : Workspace K}

/-- A bound is still there, or a tighter one. -/
def Tightens (w w' : Workspace K) : Prop :=
  ∀ b, w.bound = some b → ∃ b', w'.bound = some b' ∧ b' ≤ b

theorem Tightens.refl (w : Workspace K) : w.Tightens w := fun b hb => ⟨b, hb, le_refl b⟩

theorem Tightens.trans (h : w.Tightens w') (h' : w'.Tightens w'') : w.Tightens w'' := by
  intro b hb
  rcases h b hb with ⟨b₁, hb₁, hle₁⟩
  rcases h' b₁ hb₁ with ⟨b₂, hb₂, hle₂⟩
  exact ⟨b₂, hb₂, le_trans hle₂ hle₁⟩

theorem Tightens.of_eq (h : w'.bound = w.bound) : w.Tightens w' :=
  fun b hb => ⟨b, h.trans hb, le_refl b⟩

/-- No event makes the bound looser. -/
theorem Event.tightens (h : Event t policy q w w') (hf : w.Fits t) : w.Tightens w' := by
  cases h.effect with
  | quiet h => exact Tightens.of_eq h.bound
  | stored legal h => exact fun b hb => h.bound_le hf hb
  | egress => exact Tightens.of_eq rfl

theorem Run.tightens (h : Run t policy q w w') (hf : w.Fits t) : w.Tightens w' :=
  (h.invariant (fun u => u.Fits t ∧ w.Tightens u)
    (fun _ _ hevent hu => ⟨hevent.fits hu.1, hu.2.trans (hevent.tightens hu.1)⟩)
    ⟨hf, Tightens.refl w⟩).2

-- The only step that touches the bound.
theorem tightens_of_store? {l : Label K} (h : w.store? l = some w') : w.Tightens w' := by
  rcases store?_eq_some h with ⟨best, labelled, egress, -, -, -, rfl⟩
  intro b hb
  cases egress with
  | none => exact ⟨b, hb, le_refl b⟩
  | some e =>
      rcases tightened_cases w.bound (l.cost + e.cost) with ⟨b', hb', -, -, hle⟩
      exact ⟨b', hb', hle b hb⟩

theorem tightens_of_improvements (h : Improvements t w w') : w.Tightens w' := by
  induction h with
  | refl => exact Tightens.refl w
  | tail _ hstep ih =>
      rcases hstep with ⟨l, w₁, hstore, hmark⟩
      rcases markImproved?_eq_some hmark with ⟨improved, rs, start, scanStart, -, -, -, -, rfl⟩
      exact ih.trans ((tightens_of_store? hstore).trans (Tightens.of_eq rfl))

theorem tightens_of_landings (h : Landings w w') : w.Tightens w' := by
  induction h with
  | refl => exact Tightens.refl w
  | tail _ hstep ih =>
      rcases hstep with ⟨l, w₁, hstore, hmark⟩
      rcases markReached?_eq_some hmark with ⟨reached, -, rfl⟩
      exact ih.trans ((tightens_of_store? hstore).trans (Tightens.of_eq rfl))

theorem tightens_of_offerEgress? {e : Egress K} {i : Nat} (h : w.offerEgress? e i = some w') :
    w.Tightens w' := by
  rcases offerEgress?_eq_some h with ⟨rfl, -⟩ | ⟨table, destinations, -, -, -, rfl⟩
  · exact Tightens.refl w'
  · exact Tightens.of_eq rfl

section Loops

variable {β : Type} {f : Workspace K → β → Option (Workspace K)}
  {inside : Workspace K → β → Workspace K → Prop} {xs : List β}

-- A loop whose passes tighten the bound.
theorem tightens_of_foldlM (hstep : ∀ u x u', f u x = some u' → u.Tightens u')
    (h : xs.foldlM f w = some w') : w.Tightens w' :=
  (Loop.Passes.here w xs : Loop.Passes f Loop.nothing w xs w).to_end h Tightens Tightens.refl
    (fun _ _ _ h h' => h.trans h') hstep (fun _ _ _ _ h => h.elim)

-- What is left of such a loop at one of its moments.
theorem tightens_of_passes (hstep : ∀ u x u', f u x = some u' → u.Tightens u')
    (hinside : ∀ u x u' u'', inside u x u' → f u x = some u'' → u'.Tightens u'')
    (h : Loop.Passes f inside w xs w') (hend : xs.foldlM f w = some w'') : w'.Tightens w'' :=
  h.to_end hend Tightens Tightens.refl (fun _ _ _ h h' => h.trans h') hstep hinside

end Loops

theorem InOfferEgress.tightens {c : Candidate K × Nat} (h : InOfferEgress t w c w')
    (hend : offerEgressAt? t w c = some w'') : w'.Tightens w'' := by
  rcases h with ⟨routeStops, hrs, h⟩
  unfold offerEgressAt? at hend
  simp only [Option.bind_eq_bind, hrs, Option.bind_some] at hend
  exact tightens_of_passes (fun _ _ _ h => tightens_of_offerEgress? h) (fun _ _ _ _ h => h.elim) h
    hend

theorem InOfferAccess.tightens {time : K} {c : Candidate K × Nat} (h : InOfferAccess t time w c w')
    (hend : offerAccessAt? t time w c = some w'') : w'.Tightens w'' := by
  rcases h with ⟨routeStops, hrs, h⟩
  unfold offerAccessAt? at hend
  simp only [Option.bind_eq_bind, hrs, Option.bind_some] at hend
  exact tightens_of_passes (fun _ _ _ h => tightens_of_improvements (improvements_of_offerAccess? h))
    (fun _ _ _ _ h => h.elim) h hend

theorem tightens_of_offerEgressAt? {c : Candidate K × Nat} (h : offerEgressAt? t w c = some w') :
    w.Tightens w' := by
  rcases Option.bind_eq_some_iff.mp h with ⟨routeStops, hrs, -⟩
  exact InOfferEgress.tightens ⟨routeStops, hrs, Loop.Passes.here w routeStops⟩ h

theorem InScanRoute.tightens {p : Parameters K} {r : Nat} (h : InScanRoute t p w r w')
    (hend : scanRoute? t p w r = some w'') : w'.Tightens w'' := by
  rcases h with ⟨row, w₁, first, held, hrow, htake, h⟩
  unfold scanRoute? at hend
  simp only [Option.bind_eq_bind, hrow, htake, Option.bind_some] at hend
  rcases Option.bind_eq_some_iff.mp hend with ⟨⟨w₂, held₂⟩, hloop, hend⟩
  rw [← Option.some.inj hend]
  exact h.to_end hloop (fun s s' => s.1.Tightens s'.1) (fun s => Tightens.refl s.1)
    (fun _ _ _ h h' => h.trans h')
    (fun _ _ _ h => tightens_of_landings (landings_of_scanStop? h)) (fun _ _ _ _ h => h.elim)

theorem tightens_of_scanRoute? {p : Parameters K} {r : Nat} (h : scanRoute? t p w r = some w') :
    w.Tightens w' := by
  rcases landings_of_scanRoute? h with ⟨row, w₁, first, -, htake, hlandings⟩
  rcases takeScanStart?_eq_some htake with ⟨start, scanStart, -, -, rfl, -⟩
  have htaken : w.Tightens { w with scanStart } := Tightens.of_eq rfl
  exact htaken.trans (tightens_of_landings hlandings)

theorem InRelaxFootpath.tightens {d : Departing K} {f : Footpath K}
    (h : InRelaxFootpath t policy q d w f w')
    (hend : relaxFootpath? t policy q d w f = some w'') : w'.Tightens w'' := by
  rcases h with ⟨targets, htargets, h⟩
  unfold relaxFootpath? at hend
  simp only [Option.bind_eq_bind, htargets, Option.bind_some] at hend
  exact tightens_of_passes (fun _ _ _ h => tightens_of_improvements (improvements_of_walkTo? h))
    (fun _ _ _ _ h => h.elim) h hend

theorem InRelaxFrom.tightens {source : Nat × Nat} (h : InRelaxFrom t policy q w source w')
    (hend : relaxFrom? t policy q w source = some w'') : w'.Tightens w'' := by
  rcases h with rfl | ⟨label, mode, stop, footpaths, hl, hexceeds, hmode, hstop, hfootpaths, h⟩
  · exact tightens_of_improvements (improvements_of_relaxFrom? hend)
  · unfold relaxFrom? at hend
    simp only [Option.bind_eq_bind, hl, hexceeds, hmode, hstop, hfootpaths, Option.bind_some,
      Bool.false_eq_true, if_false] at hend
    exact tightens_of_passes
      (fun _ _ _ h => tightens_of_improvements (improvements_of_relaxFootpath? h))
      (fun _ _ _ _ h h' => h.tightens h') h hend

theorem tightens_of_relax? (h : w.relax? t policy q = some w') : w.Tightens w' := by
  rcases improvements_of_relax? h with ⟨w₁, sources, himproves, rfl⟩
  exact (tightens_of_improvements himproves).trans (Tightens.of_eq rfl)

theorem tightens_of_round? (h : w.round? t policy q = some w') : w.Tightens w' := by
  rcases round?_eq_some h with ⟨w₁, w₂, w₃, hopen, hscan, hrelax, rfl⟩
  have hscanned : w₁.Tightens w₂ :=
    tightens_of_foldlM (fun _ _ _ h => tightens_of_scanRoute? h) hscan
  exact (Tightens.of_eq (quiet_openRound? hopen).1.bound).trans
    (hscanned.trans ((tightens_of_relax? hrelax).trans (Tightens.of_eq rfl)))

theorem InRound.tightens (h : InRound t policy q w w') (hend : w.round? t policy q = some w'') :
    w'.Tightens w'' := by
  rcases round?_eq_some hend with ⟨w₁, w₂, w₃, hopen, hscan, hrelax, rfl⟩
  have hclose : w₃.Tightens w₃.closeRound := Tightens.of_eq rfl
  cases h with
  | scanning opened h =>
      rw [hopen, Option.some.injEq] at opened
      subst opened
      have hscanned : w'.Tightens w₂ := tightens_of_passes (fun _ _ _ h => tightens_of_scanRoute? h)
        (fun _ _ _ _ h h' => h.tightens h') h hscan
      exact hscanned.trans ((tightens_of_relax? hrelax).trans hclose)
  | relaxing opened scanned hsources h =>
      rw [hopen, Option.some.injEq] at opened
      subst opened
      rw [hscan, Option.some.injEq] at scanned
      subst scanned
      rcases relax?_eq_some hrelax with ⟨sources, w₄, hsources', hloop, rfl⟩
      rw [hsources, Option.some.injEq] at hsources'
      subst hsources'
      have hrelaxed : w'.Tightens w₄ := tightens_of_passes
        (fun _ _ _ h => tightens_of_improvements (improvements_of_relaxFrom? h))
        (fun _ _ _ _ h h' => h.tightens h') h hloop
      exact (hrelaxed.trans (Tightens.of_eq rfl)).trans hclose
  | closed h =>
      rw [hend, Option.some.injEq] at h
      exact h ▸ Tightens.refl _

theorem tightens_of_rounds? {budget : Nat} :
    ∀ {w : Workspace K}, w.rounds? t policy q budget = some w' → w.Tightens w' := by
  induction budget with
  | zero => exact fun h => Tightens.of_eq (congrArg bound (Option.some.inj h).symm)
  | succ budget ih =>
      intro w h
      unfold rounds? at h
      rcases Option.bind_eq_some_iff.mp h with ⟨w₁, hround, h⟩
      refine (tightens_of_round? hround).trans ?_
      split at h
      · exact Tightens.of_eq (congrArg bound (Option.some.inj h).symm)
      · exact ih h

theorem InRounds.tightens {budget : Nat} (h : InRounds t policy q budget w w') :
    w.rounds? t policy q budget = some w'' → w'.Tightens w'' := by
  induction h with
  | here budget w => exact fun hend => tightens_of_rounds? hend
  | @within budget w w' h =>
      intro hend
      unfold rounds? at hend
      rcases Option.bind_eq_some_iff.mp hend with ⟨w₁, hround, hend⟩
      refine (h.tightens hround).trans ?_
      split at hend
      · exact Tightens.of_eq (congrArg bound (Option.some.inj hend).symm)
      · exact tightens_of_rounds? hend
  | @later budget w w₁ w' hround improved rest ih =>
      intro hend
      unfold rounds? at hend
      simp only [Option.bind_eq_bind, hround, Option.bind_some, improved, Bool.false_eq_true,
        if_false] at hend
      exact ih hend

/-- From any of its moments on a search can only tighten the bound. -/
theorem Moment.tightens (h : Moment t policy q w w')
    (hend : w.explore? t policy q = some w'') : w'.Tightens w'' := by
  rcases explore?_eq_some hend with ⟨w₁, w₂, hbegin, hrounds, rfl⟩
  have hrest : w₁.Tightens w₂.conclude := (tightens_of_rounds? hrounds).trans (Tightens.of_eq rfl)
  rcases begin?_eq_some hbegin with ⟨w₀, hegress, haccess⟩
  have hentered : w₀.Tightens w₁ := tightens_of_improvements (improvements_of_setAccess? haccess)
  cases h with
  | egress h =>
      have hleft : w'.Tightens w₀ := tightens_of_passes
        (fun _ _ _ h => tightens_of_offerEgressAt? h) (fun _ _ _ _ h h' => h.tightens h') h hegress
      exact hleft.trans (hentered.trans hrest)
  | access told h =>
      rw [hegress, Option.some.injEq] at told
      subst told
      have hleft : w'.Tightens w₁ := tightens_of_passes
        (fun _ _ _ h => tightens_of_improvements (improvements_of_offerAccessAt? h))
        (fun _ _ _ _ h h' => h.tightens h') h haccess
      exact hleft.trans hrest
  | rounds begun h =>
      rw [hbegin, Option.some.injEq] at begun
      subst begun
      exact (h.tightens hrounds).trans (Tightens.of_eq rfl)
  | concluded h =>
      rw [hend, Option.some.injEq] at h
      exact h ▸ Tightens.refl _

end Workspace

end Journey
