import Mathlib.Data.List.Find
import Journey.Proofs.Timetable.Assembly

/-!
# The Footpaths that are Kept

What is left of a list of footpaths when it has been thinned out, sorted and cut into
spans.

Thinning out keeps a footpath if it is the first one with its ends. Seen from one stop,
this is the same before and after choosing the footpaths that start there, and among
these it erases repeated targets. Sorting by origin does not change the order of the
footpaths from one stop either, so the slice of the sorted table at the span of a stop
is what is kept of the footpaths from there, in their original order.

The recursion behind all of this goes from a list to what is left of its rest when the
footpaths with the ends of its first one are taken out, which is `keepFirst_cons`.

## Theorems

* `Footpath.keepFirst_cons`: The first footpath is kept and takes its doubles out.
* `Footpath.mem_keepFirst_iff`: What is kept is the first with its ends.
* `Footpath.pairwise_keepFirst`: No two that are kept have the same ends.
* `Footpath.filter_keepFirst`: Thinning out stop by stop.
* `Footpath.map_target_keepFirst`: The targets of what is kept from one stop.
* `Footpath.filter_sortByOrigin`: Sorting keeps the order at each origin.
* `Draft.footpathsFrom?_assemble`: The footpaths from a stop in an assembled timetable.
-/

namespace Journey

namespace Footpath

variable {α : Type}

theorem sameEnds_iff (f g : Footpath α) :
    f.sameEnds g = true ↔ f.origin = g.origin ∧ f.target = g.target := by
  unfold sameEnds
  rw [Bool.and_eq_true, beq_iff_eq, beq_iff_eq]

theorem sameEnds_self (f : Footpath α) : f.sameEnds f = true :=
  (sameEnds_iff f f).mpr ⟨rfl, rfl⟩

theorem sameEnds_comm (f g : Footpath α) : f.sameEnds g = g.sameEnds f := by
  unfold sameEnds
  rw [BEq.comm, BEq.comm (a := f.target)]

theorem sameEnds_of_common {f g h : Footpath α} (hf : f.sameEnds h = true)
    (hg : g.sameEnds h = true) : f.sameEnds g = true := by
  rw [sameEnds_iff] at hf hg ⊢
  exact ⟨hf.1.trans hg.1.symm, hf.2.trans hg.2.symm⟩

/-- Thinning out erases what repeats the ends of an earlier footpath. -/
theorem keepFirst_eq (l : List (Footpath α)) : keepFirst l = l.eraseDupsBy sameEnds := by
  have hloop : ∀ l (kept : Array (Footpath α)) (erased : List (Footpath α)),
      erased = kept.toList.reverse →
        (l.foldl (fun kept f => if kept.any f.sameEnds then kept else kept.push f) kept).toList
          = List.eraseDupsBy.loop sameEnds l erased := by
    intro l
    induction l with
    | nil =>
        rintro kept _ rfl
        exact kept.toList.reverse_reverse.symm
    | cons f l ih =>
        rintro kept _ rfl
        rw [List.foldl_cons, List.eraseDupsBy.loop, List.any_reverse, Array.any_toList]
        by_cases hany : kept.any f.sameEnds = true
        · rw [if_pos hany, hany]
          exact ih kept _ rfl
        · rw [if_neg hany, Bool.eq_false_iff.mpr hany]
          exact ih _ _ (by rw [Array.toList_push, List.reverse_append]; rfl)
  exact hloop l #[] [] rfl

/-- The first footpath is kept and takes out those with its ends. -/
theorem keepFirst_cons (f : Footpath α) (l : List (Footpath α)) :
    keepFirst (f :: l) = f :: keepFirst (l.filter fun g => !f.sameEnds g) := by
  rw [keepFirst_eq, List.eraseDupsBy_cons, keepFirst_eq]
  refine congrArg (fun l => f :: List.eraseDupsBy sameEnds l) (List.filter_congr fun g _ => ?_)
  rw [sameEnds_comm]
  cases f.sameEnds g <;> rfl

theorem keepFirst_nil : keepFirst ([] : List (Footpath α)) = [] := rfl

/-- Induction along what is left when the doubles of the first footpath are out. -/
theorem keepFirst_induction {motive : List (Footpath α) → Prop} (nil : motive [])
    (cons : ∀ f l, motive (l.filter fun g => !f.sameEnds g) → motive (f :: l))
    (l : List (Footpath α)) : motive l := by
  cases l with
  | nil => exact nil
  | cons f l => exact cons f l (keepFirst_induction nil cons _)
termination_by l.length
decreasing_by exact Nat.lt_succ_of_le (List.length_filter_le _ l)

/-- What is kept is the first footpath with its ends. -/
theorem mem_keepFirst_iff (f : Footpath α) (l : List (Footpath α)) :
    f ∈ keepFirst l ↔ l.find? f.sameEnds = some f := by
  induction l using keepFirst_induction with
  | nil => simp only [keepFirst_nil, List.not_mem_nil, List.find?_nil, reduceCtorEq]
  | cons g l ih =>
      rw [keepFirst_cons, List.mem_cons, List.find?_cons]
      cases hsame : f.sameEnds g with
      | true =>
          -- Nothing that is left has the ends of `g`, which are those of `f`.
          have hout : f ∉ keepFirst (l.filter fun h => !g.sameEnds h) := fun hf => by
            have hleft := (List.mem_filter.mp (mem_of_mem_keepFirst hf)).2
            rw [sameEnds_comm, hsame] at hleft
            exact absurd hleft (by decide)
          simp only [hout, or_false, Option.some.injEq, eq_comm]
      | false =>
          have hne : f ≠ g := by
            rintro rfl
            rw [sameEnds_self] at hsame
            exact absurd hsame (by decide)
          have hskip : ∀ h ∈ l, decide ((!g.sameEnds h) = true ∧ f.sameEnds h = true)
              = f.sameEnds h := by
            intro h _
            cases hf : f.sameEnds h with
            | false => exact decide_eq_false fun hboth => absurd hboth.2 (by decide)
            | true =>
                refine decide_eq_true ⟨?_, rfl⟩
                rw [Bool.not_eq_true', Bool.eq_false_iff]
                intro hg
                rw [sameEnds_of_common hf hg] at hsame
                exact absurd hsame (by decide)
          rw [ih, List.find?_filter, or_iff_right hne, List.find?_congr hskip]

/-- No two footpaths that are kept have the same ends. -/
theorem pairwise_keepFirst (l : List (Footpath α)) :
    (keepFirst l).Pairwise fun f g => f.sameEnds g = false := by
  induction l using keepFirst_induction with
  | nil => exact List.Pairwise.nil
  | cons f l ih =>
      rw [keepFirst_cons]
      refine List.Pairwise.cons (fun g hg => ?_) ih
      have hleft := (List.mem_filter.mp (mem_of_mem_keepFirst hg)).2
      rwa [Bool.not_eq_true'] at hleft

/-- Choosing the footpaths from a stop and thinning out can be exchanged. -/
theorem filter_keepFirst (s : Nat) (l : List (Footpath α)) :
    (keepFirst l).filter (·.origin == s) = keepFirst (l.filter (·.origin == s)) := by
  induction l using keepFirst_induction with
  | nil => rfl
  | cons f l ih =>
      rw [keepFirst_cons, List.filter_cons, ih, List.filter_cons, List.filter_comm]
      by_cases hs : (f.origin == s) = true
      · rw [if_pos hs, if_pos hs, keepFirst_cons]
      · rw [if_neg hs, if_neg hs]
        -- The doubles of a footpath from elsewhere do not start here.
        refine congrArg keepFirst (List.filter_eq_self.mpr fun g hg => ?_)
        rw [Bool.not_eq_true', Bool.eq_false_iff]
        intro hsame
        rw [beq_iff_eq] at hs
        have horigin := beq_iff_eq.mp (List.mem_filter.mp hg).2
        exact hs (((sameEnds_iff f g).mp hsame).1.trans horigin)

/-- Of footpaths from one stop, one is kept for each target, in the order in which the
    targets come first. -/
theorem map_target_keepFirst (s : Nat) (l : List (Footpath α)) (hl : ∀ f ∈ l, f.origin = s) :
    (keepFirst l).map (·.target) = (l.map (·.target)).eraseDups := by
  induction l using keepFirst_induction with
  | nil => rfl
  | cons f l ih =>
      rw [keepFirst_cons, List.map_cons, List.map_cons, List.eraseDups_cons, List.filter_map,
        ih fun g hg => hl g (List.mem_cons_of_mem _ (List.mem_filter.mp hg).1)]
      refine congrArg (fun l : List (Footpath α) => f.target :: (l.map (·.target)).eraseDups)
        (List.filter_congr fun g hg => ?_)
      have horigin : f.origin = g.origin :=
        (hl f List.mem_cons_self).trans (hl g (List.mem_cons_of_mem _ hg)).symm
      unfold sameEnds
      rw [horigin, beq_self_eq_true, Bool.true_and, BEq.comm]
      rfl

theorem filter_insertByOrigin (s : Nat) (f : Footpath α) (l : List (Footpath α)) :
    (insertByOrigin f l).filter (·.origin == s) = (f :: l).filter (·.origin == s) := by
  induction l with
  | nil => rfl
  | cons g l ih =>
      rw [insertByOrigin]
      by_cases hle : f.origin ≤ g.origin
      · rw [if_pos hle]
      · rw [if_neg hle, List.filter_cons, ih]
        -- What it is moved behind starts elsewhere if it starts here itself.
        by_cases hs : f.origin = s
        · have hg : ¬ (g.origin == s) = true := fun hg => hle (by rw [hs, beq_iff_eq.mp hg])
          rw [if_neg hg, List.filter_cons, List.filter_cons, List.filter_cons, if_neg hg]
        · have hf : ¬ (f.origin == s) = true := mt beq_iff_eq.mp hs
          rw [List.filter_cons, if_neg hf, List.filter_cons, if_neg hf, List.filter_cons]

/-- Sorting by origin keeps the order of the footpaths from one stop. -/
theorem filter_sortByOrigin (s : Nat) (l : List (Footpath α)) :
    (sortByOrigin l).filter (·.origin == s) = l.filter (·.origin == s) := by
  unfold sortByOrigin
  induction l with
  | nil => rfl
  | cons f l ih =>
      rw [List.foldr_cons, filter_insertByOrigin, List.filter_cons, List.filter_cons, ih]

end Footpath

namespace Draft

variable {α : Type} [Scalar α] [Planar α] [MarkerTree α]

/-- The footpaths from a stop are those that are kept of the ones that start there. -/
theorem footpathsFrom?_assemble (d : Draft α) {s : Nat} (hs : s < d.stops.size) :
    d.assemble.footpathsFrom? s = some (Footpath.keepFirst
      ((d.addedFootpaths ++ d.ownFootpaths ++ d.generatedFootpaths).filter (·.origin == s))) := by
  rcases d.spanned_assemble s hs with ⟨span, hspan, hle, hiff⟩
  have hslice := Span.slice?_eq_filter (·.origin == s) hle fun k f hk =>
    beq_iff_eq.trans (hiff k f hk)
  unfold Timetable.footpathsFrom?
  simp only [hspan, Option.bind_eq_bind, Option.bind_some]
  rw [Array.toArray_toList] at hslice
  rw [hslice, ← Footpath.filter_keepFirst]
  exact congrArg some (Footpath.filter_sortByOrigin s _)

end Draft

end Journey
