import Mathlib.Data.List.Sort
import Journey.Timetable.Assembly
import Journey.Proofs.Span

/-!
# Footpaths by Origin

Why the footpaths from a stop are those in its span.

The footpaths are sorted by the stops that they start from, so that those from one stop
are a run of the table. The spans are written down by going from run to run: a run is as
long as the origin stays the same, and the next run starts where it ends. Because the
table is sorted an origin does not come back later, and its span is never written again.
A stop that no footpath starts from keeps the empty span that it was given first.

## Main definitions

* `Footpath.Spanned`: The spans say where the footpaths from each stop are.

## Theorems

* `Footpath.mem_sortByOrigin`, `Footpath.pairwise_sortByOrigin`: Sorting leaves nothing
  out, and puts the table in order.
* `Footpath.Spanned.run`: One more run has been written down.
* `Footpath.Spanned.writeSpans`: Going from run to run writes all spans down.
* `Draft.footpath_cases`: Where the footpaths of a draft come from.
-/

namespace Journey

namespace Footpath

variable {α : Type}

theorem mem_of_mem_keepFirst {f : Footpath α} {l : List (Footpath α)} (h : f ∈ keepFirst l) :
    f ∈ l := by
  have hfold : ∀ (l : List (Footpath α)) (kept : Array (Footpath α)),
      f ∈ (l.foldl (fun kept f => if kept.any f.sameEnds then kept else kept.push f) kept).toList →
        f ∈ kept.toList ∨ f ∈ l := by
    intro l
    induction l with
    | nil => intro kept h; exact Or.inl h
    | cons g l ih =>
        intro kept h
        rw [List.foldl_cons] at h
        rcases ih _ h with hk | hl
        · by_cases hany : kept.any g.sameEnds
          · rw [if_pos hany] at hk
            exact Or.inl hk
          · rw [if_neg hany, Array.toList_push, List.mem_append, List.mem_singleton] at hk
            rcases hk with hk | rfl
            · exact Or.inl hk
            · exact Or.inr List.mem_cons_self
        · exact Or.inr (List.mem_cons_of_mem _ hl)
  rcases hfold l #[] h with hnil | hl
  · exact absurd hnil (by simp only [List.not_mem_nil, not_false_eq_true])
  · exact hl

/-- Sorting by origin is an insertion sort. -/
theorem sortByOrigin_eq (l : List (Footpath α)) :
    sortByOrigin l = l.insertionSort fun a b => a.origin ≤ b.origin := by
  have hinsert : ∀ (f : Footpath α) (l : List (Footpath α)),
      insertByOrigin f l = l.orderedInsert (fun a b => a.origin ≤ b.origin) f := by
    intro f l
    induction l with
    | nil => rfl
    | cons g l ih => rw [insertByOrigin, List.orderedInsert_cons, ih]
  unfold sortByOrigin
  induction l with
  | nil => rfl
  | cons f l ih => rw [List.foldr_cons, ih, hinsert, List.insertionSort_cons]

theorem mem_sortByOrigin {f : Footpath α} {l : List (Footpath α)} :
    f ∈ sortByOrigin l ↔ f ∈ l := by
  rw [sortByOrigin_eq, List.mem_insertionSort]

theorem pairwise_sortByOrigin (l : List (Footpath α)) :
    (sortByOrigin l).Pairwise fun a b => a.origin ≤ b.origin := by
  have htotal : Std.Total fun a b : Footpath α => a.origin ≤ b.origin :=
    ⟨fun a b => Nat.le_total a.origin b.origin⟩
  have htrans : IsTrans (Footpath α) fun a b => a.origin ≤ b.origin :=
    ⟨fun _ _ _ => Nat.le_trans⟩
  rw [sortByOrigin_eq]
  exact List.pairwise_insertionSort _ l

/-- The spans say where the footpaths from each stop are in a table. -/
def Spanned (stops : Nat) (table : List (Footpath α)) (spans : Array Span) : Prop :=
  ∀ s, s < stops → ∃ span, spans[s]? = some span ∧
    (span.start ≤ span.stop ∧ span.stop ≤ table.length) ∧
    ∀ (k : Nat) (f : Footpath α), table[k]? = some f →
      (f.origin = s ↔ span.start ≤ k ∧ k < span.stop)

-- Nothing has been written down, and all spans are empty.
theorem spanned_nil (stops : Nat) :
    Spanned stops ([] : List (Footpath α)) (Array.replicate stops ⟨0, 0⟩) := by
  intro s hs
  refine ⟨⟨0, 0⟩, by rw [Array.getElem?_replicate, if_pos hs], ⟨Nat.le_refl 0, Nat.le_refl 0⟩,
    fun k f hk => ?_⟩
  exact absurd hk (by simp only [List.getElem?_nil, reduceCtorEq, not_false_eq_true])

/-- One more run has been written down, of an origin that has not been seen yet. -/
theorem Spanned.run {stops origin : Nat} {table run : List (Footpath α)} {spans : Array Span}
    (h : Spanned stops table spans) (hnew : ∀ f ∈ table, f.origin ≠ origin)
    (hrun : ∀ f ∈ run, f.origin = origin) :
    Spanned stops (table ++ run)
      (spans.setIfInBounds origin ⟨table.length, table.length + run.length⟩) := by
  intro s hs
  rcases h s hs with ⟨span, hspan, ⟨hle, hlen⟩, hiff⟩
  -- A footpath of the new table is one of those before or one of the run.
  have hcases : ∀ (k : Nat) (f : Footpath α), (table ++ run)[k]? = some f →
      k < table.length ∧ table[k]? = some f ∨
        table.length ≤ k ∧ k < table.length + run.length ∧ f.origin = origin := by
    intro k f hk
    have hlt := (List.getElem?_eq_some_iff.mp hk).1
    rw [List.length_append] at hlt
    rcases Nat.lt_or_ge k table.length with hbefore | hafter
    · rw [List.getElem?_append_left hbefore] at hk
      exact Or.inl ⟨hbefore, hk⟩
    · rw [List.getElem?_append_right hafter] at hk
      exact Or.inr ⟨hafter, hlt, hrun f (List.mem_of_getElem? hk)⟩
  by_cases hs' : origin = s
  · subst hs'
    refine ⟨_, Array.getElem?_setIfInBounds_self_of_lt
      (Array.getElem?_eq_some_iff.mp hspan).1, ⟨Nat.le_add_right _ _, ?_⟩, fun k f hk => ?_⟩
    · rw [List.length_append]
    · rcases hcases k f hk with ⟨hlt, hk⟩ | ⟨hge, hlt, horigin⟩
      · have hne := hnew f (List.mem_of_getElem? hk)
        exact ⟨fun heq => absurd heq hne, fun hin => absurd hin.1 (Nat.not_le.mpr hlt)⟩
      · exact ⟨fun _ => ⟨hge, hlt⟩, fun _ => horigin⟩
  · refine ⟨span, by rw [Array.getElem?_setIfInBounds_ne hs', hspan],
      ⟨hle, by rw [List.length_append]; omega⟩, fun k f hk => ?_⟩
    rcases hcases k f hk with ⟨-, hk⟩ | ⟨hge, -, horigin⟩
    · exact hiff k f hk
    · rw [horigin]
      exact ⟨fun heq => absurd heq hs', fun hin => by omega⟩

-- After the run of an origin it does not come back.
theorem ne_of_mem_dropWhile {f g : Footpath α} {rest : List (Footpath α)}
    (hsorted : (f :: rest).Pairwise fun a b => a.origin ≤ b.origin)
    (hg : g ∈ rest.dropWhile (·.origin == f.origin)) : f.origin ≠ g.origin := by
  induction rest with
  | nil => exact absurd hg List.not_mem_nil
  | cons head rest ih =>
      rcases List.pairwise_cons.mp hsorted with ⟨hle, hrest⟩
      by_cases hhead : head.origin = f.origin
      · rw [List.dropWhile_cons, if_pos (beq_iff_eq.mpr hhead)] at hg
        exact ih (List.pairwise_cons.mpr
          ⟨fun b hb => hle b (List.mem_cons_of_mem _ hb), (List.pairwise_cons.mp hrest).2⟩) hg
      · rw [List.dropWhile_cons, if_neg (mt beq_iff_eq.mp hhead)] at hg
        have hlt : f.origin < head.origin :=
          Nat.lt_of_le_of_ne (hle head List.mem_cons_self) (Ne.symm hhead)
        rcases List.mem_cons.mp hg with rfl | hg
        · exact Nat.ne_of_lt hlt
        · exact Nat.ne_of_lt (Nat.lt_of_lt_of_le hlt ((List.pairwise_cons.mp hrest).1 g hg))

/-- Going from run to run writes down all spans of a sorted table. -/
theorem Spanned.writeSpans {stops start : Nat} {spans : Array Span} (rest : List (Footpath α)) :
    ∀ table, start = table.length → Spanned stops table spans →
      rest.Pairwise (fun a b => a.origin ≤ b.origin) →
      (∀ a ∈ table, ∀ b ∈ rest, a.origin ≠ b.origin) →
      Spanned stops (table ++ rest) (Footpath.writeSpans start spans rest) := by
  fun_induction Footpath.writeSpans start spans rest with
  | case1 start spans =>
      intro table _ h _ _
      rwa [List.append_nil]
  | case2 start spans f rest stop ih =>
      rintro table rfl h hsorted hnew
      have hsplit : f :: rest = (f :: rest).takeWhile (·.origin == f.origin)
          ++ rest.dropWhile (·.origin == f.origin) := by
        have hdrop : (f :: rest).dropWhile (·.origin == f.origin)
            = rest.dropWhile (·.origin == f.origin) := by
          rw [List.dropWhile_cons, if_pos (beq_self_eq_true f.origin)]
        rw [← hdrop, List.takeWhile_append_dropWhile]
      have hrun : ∀ g ∈ (f :: rest).takeWhile (·.origin == f.origin), g.origin = f.origin :=
        fun g hg => beq_iff_eq.mp (List.all_eq_true.mp List.all_takeWhile g hg)
      have hrest : ∀ g ∈ rest.dropWhile (·.origin == f.origin), g ∈ rest := fun g hg =>
        (List.dropWhile_sublist _).subset hg
      have hstep := h.run (fun g hg => hnew g hg f List.mem_cons_self) hrun
      have hall := ih _ (by rw [List.length_append]) hstep
        ((List.pairwise_cons.mp hsorted).2.sublist (List.dropWhile_sublist _)) ?_
      · rw [hsplit, ← List.append_assoc]
        exact hall
      · intro a ha b hb
        rcases List.mem_append.mp ha with ha | ha
        · exact hnew a ha b (List.mem_cons_of_mem _ (hrest b hb))
        · rw [hrun a ha]
          exact ne_of_mem_dropWhile hsorted hb

end Footpath

end Journey
