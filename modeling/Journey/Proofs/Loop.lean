import Mathlib.Data.List.Forall2

/-!
# Loops that May Fail

A loop of the search goes through a list and changes a state by a step that may
fail. All of them are `List.foldlM` over `Option`, so what holds of a loop is
proved here once, from what holds of one pass.

`foldlM_invariant` and `foldlM_exists` carry an invariant that may depend on the
elements gone through so far, the first for a loop that is known to have
finished and the second to show that it does. `Passes` describes a loop that
need not have finished: the states it can be found in before a pass, inside a
pass, and after the last one. What is inside a pass is a parameter, since a pass
of one loop is often a loop itself.

## Main definitions

* `Loop.Passes`: The states that a loop passes through.
* `Loop.nothing`: The passes of a loop that has no loop inside.

## Theorems

* `Loop.foldlM_invariant`: What every pass keeps holds at the end.
* `Loop.foldlM_exists`: A loop none of whose passes fails does not fail.
* `Loop.foldlM_collect`: A loop does what each of its passes does.
* `Loop.foldlM_flatten`: A loop of loops is one loop.
* `Loop.foldlM_follows`: Two loops stay together if their passes do.
* `Loop.mem_of_mapM`: What a loop that only looks things up has found.
* `Loop.Passes.invariant`: What every pass keeps holds at every moment.
* `Loop.Passes.to_end`: What every pass does, the rest of a loop does from any moment on.
* `Loop.passes_append`: The state after some passes is a state that a loop passes through.
* `Loop.passes_of_foldlM`: The end of a loop is a state it passes through.
-/

namespace Journey

namespace Loop

variable {σ β : Type}

theorem foldlM_cons_eq_some {f : σ → β → Option σ} {x : β} {xs : List β} {s s' : σ}
    (h : (x :: xs).foldlM f s = some s') : ∃ s₁, f s x = some s₁ ∧ xs.foldlM f s₁ = some s' := by
  rw [List.foldlM_cons] at h
  exact Option.bind_eq_some_iff.mp h

/-- The invariant of a finished loop, which may speak about the elements gone
    through. The list is split into those and the rest, so that the induction
    is on the rest. -/
theorem foldlM_invariant {f : σ → β → Option σ} (P : List β → σ → Prop) (xs : List β)
    (hstep : ∀ done x rest s s', xs = done ++ x :: rest → P done s → f s x = some s' →
      P (done ++ [x]) s') :
    ∀ s s', P [] s → xs.foldlM f s = some s' → P xs s' := by
  have hrest : ∀ rest done s s', xs = done ++ rest → P done s → rest.foldlM f s = some s' →
      P xs s' := by
    intro rest
    induction rest with
    | nil =>
        intro done s s' hxs hP h
        rw [List.append_nil] at hxs
        rw [List.foldlM_nil] at h
        rw [hxs, ← Option.some.inj h]
        exact hP
    | cons x rest ih =>
        intro done s s' hxs hP h
        rcases foldlM_cons_eq_some h with ⟨s₁, hx, hr⟩
        refine ih (done ++ [x]) s₁ s' ?_ (hstep done x rest s s₁ hxs hP hx) hr
        rw [hxs, List.append_assoc, List.singleton_append]
  intro s s' h0 h
  exact hrest xs [] s s' rfl h0 h

/-- A loop does not fail if the invariant keeps every pass from failing. -/
theorem foldlM_exists {f : σ → β → Option σ} (P : List β → σ → Prop) (xs : List β)
    (hstep : ∀ done x rest s, xs = done ++ x :: rest → P done s →
      ∃ s', f s x = some s' ∧ P (done ++ [x]) s') :
    ∀ s, P [] s → ∃ s', xs.foldlM f s = some s' ∧ P xs s' := by
  have hrest : ∀ rest done s, xs = done ++ rest → P done s →
      ∃ s', rest.foldlM f s = some s' ∧ P xs s' := by
    intro rest
    induction rest with
    | nil =>
        intro done s hxs hP
        rw [List.append_nil] at hxs
        exact ⟨s, rfl, by rw [hxs]; exact hP⟩
    | cons x rest ih =>
        intro done s hxs hP
        rcases hstep done x rest s hxs hP with ⟨s₁, hx, hP1⟩
        have hxs1 : xs = (done ++ [x]) ++ rest := by
          rw [hxs, List.append_assoc, List.singleton_append]
        rcases ih (done ++ [x]) s₁ hxs1 hP1 with ⟨s', hr, hP'⟩
        refine ⟨s', ?_, hP'⟩
        rw [List.foldlM_cons, hx]
        exact hr
  intro s h0
  exact hrest xs [] s rfl h0

/-- A loop that does something for every element does all of it, if nothing is
    undone by what `R` allows to happen later. -/
theorem foldlM_collect {f : σ → β → Option σ} (R : σ → σ → Prop) (G : β → σ → Prop) {s s' : σ}
    {xs : List β} (hrefl : R s s) (htrans : ∀ u u', R s u → R u u' → R s u')
    (hkeep : ∀ x u u', R s u → R u u' → G x u → G x u')
    (hstep : ∀ x ∈ xs, ∀ u u', R s u → f u x = some u' → R u u' ∧ G x u')
    (h : xs.foldlM f s = some s') : R s s' ∧ ∀ x ∈ xs, G x s' := by
  refine foldlM_invariant (fun done u => R s u ∧ ∀ x ∈ done, G x u) xs ?_ s s'
    ⟨hrefl, fun x hx => absurd hx List.not_mem_nil⟩ h
  rintro done x rest u u' rfl ⟨hu, hdone⟩ hx
  rcases hstep x (List.mem_append_right _ List.mem_cons_self) u u' hu hx with ⟨hR, hG⟩
  refine ⟨htrans u u' hu hR, fun y hy => ?_⟩
  rcases List.mem_append.mp hy with hy | hy
  · exact hkeep y u u' hu hR (hdone y hy)
  · rw [List.mem_singleton.mp hy]
    exact hG

/-- A loop whose passes are loops over what a look-up finds is one loop over all
    that is found, and no look-up has failed. -/
theorem foldlM_flatten {γ δ : Type} {g : γ → Option (List β)} {h : γ → β → δ}
    {f : σ → δ → Option σ} (xs : List γ) :
    ∀ {s s' : σ}, xs.foldlM (fun s x => (g x).bind fun ys => ys.foldlM (fun s y => f s (h x y)) s) s
        = some s' →
      (∀ x ∈ xs, ∃ ys, g x = some ys) ∧
        (xs.flatMap fun x => ((g x).getD []).map (h x)).foldlM f s = some s' := by
  induction xs with
  | nil => exact fun hs => ⟨fun x hx => absurd hx List.not_mem_nil, hs⟩
  | cons x xs ih =>
      intro s s' hs
      rcases foldlM_cons_eq_some hs with ⟨s₁, hx, hr⟩
      rcases Option.bind_eq_some_iff.mp hx with ⟨ys, hys, hx⟩
      rcases ih hr with ⟨hfound, hloop⟩
      refine ⟨fun x' hx' => ?_, ?_⟩
      · rcases List.mem_cons.mp hx' with rfl | hx'
        · exact ⟨ys, hys⟩
        · exact hfound x' hx'
      · rw [List.flatMap_cons, List.foldlM_append, hys, Option.getD_some, List.foldlM_map, hx]
        exact hloop

/-- Two loops stay together if their passes do, over lists that go together. -/
theorem foldlM_follows {σ' β' : Type} {f : σ → β → Option σ} {g : σ' → β' → Option σ'}
    (S : σ → σ' → Prop) {R : β → β' → Prop}
    (hstep : ∀ x y s s' u, R x y → S s s' → f s x = some u → ∃ u', g s' y = some u' ∧ S u u')
    {xs : List β} {ys : List β'} (hxs : List.Forall₂ R xs ys) :
    ∀ {s s' u}, S s s' → xs.foldlM f s = some u → ∃ u', ys.foldlM g s' = some u' ∧ S u u' := by
  induction hxs with
  | nil =>
      intro s s' u hS h
      rw [List.foldlM_nil] at h
      exact ⟨s', rfl, Option.some.inj h ▸ hS⟩
  | @cons x y xs ys hxy _ ih =>
      intro s s' u hS h
      rcases foldlM_cons_eq_some h with ⟨s₁, hx, hr⟩
      rcases hstep x y s s' s₁ hxy hS hx with ⟨s₁', hy, hS₁⟩
      rcases ih hS₁ hr with ⟨u', hu', hSu⟩
      refine ⟨u', ?_, hSu⟩
      rw [List.foldlM_cons, hy]
      exact hu'

-- In particular over the same list.
theorem foldlM_follows_self {σ' : Type} {f : σ → β → Option σ} {g : σ' → β → Option σ'}
    (S : σ → σ' → Prop)
    (hstep : ∀ x s s' u, S s s' → f s x = some u → ∃ u', g s' x = some u' ∧ S u u') {xs : List β}
    (s : σ) (s' : σ') {u : σ} (h0 : S s s') (h : xs.foldlM f s = some u) :
    ∃ u', xs.foldlM g s' = some u' ∧ S u u' := by
  refine foldlM_follows S (fun x y v v' v₁ (hxy : x = y) hv hx => ?_)
    (List.forall₂_same.mpr fun x _ => rfl) h0 h
  subst hxy
  exact hstep x v v' v₁ hv hx

/-- What two loops that only look things up have found goes together if what
    their passes find does. -/
theorem mapM_follows {γ γ' : Type} {f : β → Option γ} {g : β → Option γ'} {R : γ → γ' → Prop}
    (hstep : ∀ x y, f x = some y → ∃ y', g x = some y' ∧ R y y') (xs : List β) :
    ∀ {ys}, xs.mapM f = some ys → ∃ ys', xs.mapM g = some ys' ∧ List.Forall₂ R ys ys' := by
  induction xs with
  | nil =>
      intro ys h
      rw [List.mapM_nil] at h
      exact ⟨[], rfl, Option.some.inj h ▸ List.Forall₂.nil⟩
  | cons x xs ih =>
      intro ys h
      rw [List.mapM_cons] at h
      rcases Option.bind_eq_some_iff.mp h with ⟨y, hy, h⟩
      rcases Option.bind_eq_some_iff.mp h with ⟨rest, hrest, h⟩
      rcases hstep x y hy with ⟨y', hy', hR⟩
      rcases ih hrest with ⟨rest', hrest', hRs⟩
      refine ⟨y' :: rest', ?_, Option.some.inj h ▸ List.Forall₂.cons hR hRs⟩
      rw [List.mapM_cons, hy', hrest']
      rfl

theorem mapM_exists {γ : Type} {f : β → Option γ} {xs : List β}
    (h : ∀ x ∈ xs, ∃ y, f x = some y) : ∃ ys, xs.mapM f = some ys := by
  induction xs with
  | nil => exact ⟨[], rfl⟩
  | cons x xs ih =>
      rcases h x List.mem_cons_self with ⟨y, hy⟩
      rcases ih (fun x' hx' => h x' (List.mem_cons_of_mem _ hx')) with ⟨ys, hys⟩
      refine ⟨y :: ys, ?_⟩
      rw [List.mapM_cons, hy, hys]
      rfl

theorem mapM_mono {γ : Type} {f g : β → Option γ} {xs : List β}
    (h : ∀ x ∈ xs, ∀ y, f x = some y → g x = some y) :
    ∀ {ys : List γ}, xs.mapM f = some ys → xs.mapM g = some ys := by
  induction xs with
  | nil => exact fun hys => hys
  | cons x xs ih =>
      intro ys hys
      rw [List.mapM_cons] at hys
      rcases Option.bind_eq_some_iff.mp hys with ⟨y, hy, hys⟩
      rcases Option.bind_eq_some_iff.mp hys with ⟨rest, hrest, hys⟩
      rw [List.mapM_cons, h x List.mem_cons_self y hy,
        ih (fun x' hx' => h x' (List.mem_cons_of_mem _ hx')) hrest]
      exact hys

theorem mem_of_mapM {γ : Type} {f : β → Option γ} {xs : List β} :
    ∀ {ys : List γ}, xs.mapM f = some ys → ∀ y, y ∈ ys ↔ ∃ x ∈ xs, f x = some y := by
  induction xs with
  | nil =>
      intro ys h y
      rw [List.mapM_nil] at h
      rw [← Option.some.inj h]
      simp only [List.not_mem_nil, false_and, exists_false]
  | cons x xs ih =>
      intro ys h y
      rw [List.mapM_cons] at h
      rcases Option.bind_eq_some_iff.mp h with ⟨y₀, hy₀, h⟩
      rcases Option.bind_eq_some_iff.mp h with ⟨ys₀, hys₀, h⟩
      rw [← Option.some.inj h, List.mem_cons, ih hys₀ y]
      simp only [List.mem_cons, or_and_right, exists_or, exists_eq_left, hy₀, Option.some.injEq]
      rw [eq_comm]

/-- The states that a loop passes through, given those inside a pass. -/
inductive Passes (f : σ → β → Option σ) (inside : σ → β → σ → Prop) : σ → List β → σ → Prop where
  /-- Before the first of the remaining passes, or after the last one. -/
  | here (s : σ) (xs : List β) : Passes f inside s xs s
  /-- Inside the first of the remaining passes. -/
  | within {s s' : σ} {x : β} {xs : List β} (h : inside s x s') : Passes f inside s (x :: xs) s'
  /-- Later than the first of the remaining passes. -/
  | later {s s₁ s' : σ} {x : β} {xs : List β} (h : f s x = some s₁)
      (rest : Passes f inside s₁ xs s') : Passes f inside s (x :: xs) s'

/-- Nothing can be found inside a pass. -/
def nothing (_ : σ) (_ : β) (_ : σ) : Prop := False

/-- The state after some of its passes is one that a loop passes through. -/
theorem passes_append {f : σ → β → Option σ} (inside : σ → β → σ → Prop) {done : List β}
    (rest : List β) :
    ∀ {s s' : σ}, done.foldlM f s = some s' → Passes f inside s (done ++ rest) s' := by
  induction done with
  | nil =>
      intro s s' h
      rw [List.foldlM_nil] at h
      rw [← Option.some.inj h]
      exact Passes.here s rest
  | cons x done ih =>
      intro s s' h
      rcases foldlM_cons_eq_some h with ⟨s₁, hx, hr⟩
      exact Passes.later hx (ih hr)

theorem passes_of_foldlM {f : σ → β → Option σ} (inside : σ → β → σ → Prop) {xs : List β}
    {s s' : σ} (h : xs.foldlM f s = some s') : Passes f inside s xs s' := by
  have hpasses := passes_append inside [] h
  rwa [List.append_nil] at hpasses

/-- What holds at every moment of a loop, from an invariant of the states
    between passes. The list is split as in `foldlM_invariant`. -/
theorem Passes.invariant {f : σ → β → Option σ} {inside : σ → β → σ → Prop} {xs : List β}
    {s s' : σ} (h : Passes f inside s xs s') (P : List β → σ → Prop) (Q : σ → Prop)
    (hstep : ∀ done x rest u u', xs = done ++ x :: rest → P done u → f u x = some u' →
      P (done ++ [x]) u')
    (hinside : ∀ done x rest u u', xs = done ++ x :: rest → P done u → inside u x u' → Q u')
    (hPQ : ∀ done u, P done u → Q u) (h0 : P [] s) : Q s' := by
  have hrest : ∀ {rest : List β} {s s' : σ}, Passes f inside s rest s' → ∀ done,
      xs = done ++ rest → P done s → Q s' := by
    intro rest s s' h
    induction h with
    | here s rest => exact fun done _ hP => hPQ done s hP
    | @within s s' x rest h => exact fun done hxs hP => hinside done x rest s s' hxs hP h
    | @later s s₁ s' x rest h _ ih =>
        intro done hxs hP
        refine ih (done ++ [x]) ?_ (hstep done x rest s s₁ hxs hP h)
        rw [hxs, List.append_assoc, List.singleton_append]
  exact hrest h [] rfl h0

/-- What every pass and every rest of a pass does to the state, the rest of a loop
    does from any of its moments on. -/
theorem Passes.to_end {f : σ → β → Option σ} {inside : σ → β → σ → Prop} {xs : List β}
    {s s' s'' : σ} (h : Passes f inside s xs s') (hend : xs.foldlM f s = some s'')
    (R : σ → σ → Prop) (hrefl : ∀ u, R u u) (htrans : ∀ u v v', R u v → R v v' → R u v')
    (hstep : ∀ u x u', f u x = some u' → R u u')
    (hinside : ∀ u x u' u'', inside u x u' → f u x = some u'' → R u' u'') : R s' s'' := by
  have hrest : ∀ {xs : List β} {u u' : σ}, xs.foldlM f u = some u' → R u u' := by
    intro xs u u' h
    exact foldlM_invariant (fun _ v => R u v) xs
      (fun _ x _ v v' _ hv hx => htrans u v v' hv (hstep v x v' hx)) u u' (hrefl u) h
  induction h with
  | here s xs => exact hrest hend
  | within h =>
      rcases foldlM_cons_eq_some hend with ⟨s₁, hx, hend⟩
      exact htrans _ s₁ _ (hinside _ _ _ s₁ h hx) (hrest hend)
  | later h _ ih =>
      rcases foldlM_cons_eq_some hend with ⟨s₁, hx, hend⟩
      rw [h, Option.some.injEq] at hx
      exact ih (hx ▸ hend)

end Loop

end Journey
