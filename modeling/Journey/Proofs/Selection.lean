import Mathlib.Data.List.Perm.Basic
import Mathlib.Tactic.SplitIfs
import Journey.Selection

/-!
# Rearranging by Selection

Selecting the least elements of a list loses none and makes up none.

However a list is split, and whichever pivots are chosen, elements only change places. So
what comes first and what is left over are together the whole list. How good the pivots
are has no part in this.

## Theorems

* `Selection.perm_split`: The parts of a list that is split.
* `Selection.perm_arrangeByMedians`, `Selection.perm_arrange`: Arranging a list.
* `Selection.perm_least`: The least elements and the others.
-/

namespace Journey

namespace Selection

variable {β : Type} {less : β → β → Bool}

section Places

variable {xs : List β} {x y : β} {i : Nat}

-- What is replaced by another element takes that element's place outside.
theorem perm_cons_set (h : xs[i]? = some x) : (x :: xs.set i y).Perm (y :: xs) := by
  induction xs generalizing i with
  | nil => exact absurd h (by simp)
  | cons a xs ih =>
      cases i with
      | zero =>
          rw [List.getElem?_cons_zero, Option.some.injEq] at h
          rw [h, List.set_cons_zero]
          exact List.Perm.swap y x xs
      | succ i =>
          rw [List.getElem?_cons_succ] at h
          rw [List.set_cons_succ]
          exact ((List.Perm.swap a x _).trans ((ih h).cons a)).trans (List.Perm.swap y a xs)

/-- An element changes places with the first one. -/
theorem perm_set_tail (h : xs[i]? = some x) (hy : xs.head? = some y) :
    (x :: (xs.set i y).tail).Perm xs := by
  rcases List.head?_eq_some_iff.mp hy with ⟨rest, rfl⟩
  cases i with
  | zero =>
      rw [List.getElem?_cons_zero, Option.some.injEq] at h
      rw [h, List.set_cons_zero, List.tail_cons]
  | succ i =>
      rw [List.getElem?_cons_succ] at h
      exact perm_cons_set h

/-- An element changes places with the last one. -/
theorem perm_set_dropLast (h : xs[i]? = some x) (hy : xs.getLast? = some y) :
    ((xs.set i y).dropLast ++ [x]).Perm xs := by
  rcases List.getLast?_eq_some_iff.mp hy with ⟨front, rfl⟩
  by_cases hi : i < front.length
  · rw [List.getElem?_append_left hi] at h
    rw [List.set_append_left i y hi, List.dropLast_concat]
    exact (List.perm_append_singleton x _).trans
      ((perm_cons_set h).trans (List.perm_append_singleton y front).symm)
  · have hlast : i = front.length := by
      have hlt := (List.getElem?_eq_some_iff.mp h).1
      rw [List.length_append, List.length_singleton] at hlt
      omega
    rw [hlast, List.getElem?_concat_length, Option.some.injEq] at h
    rw [hlast, List.set_append_right _ _ (Nat.le_refl _), Nat.sub_self, List.set_cons_zero,
      List.dropLast_concat, h]

theorem perm_rotateLeft (xs : List β) : xs.rotateLeft.Perm xs := by
  unfold List.rotateLeft
  dsimp only
  split
  · exact List.Perm.refl xs
  · exact List.perm_append_comm.trans (.of_eq (List.take_append_drop _ xs))

theorem perm_rotateRight (xs : List β) : xs.rotateRight.Perm xs := by
  unfold List.rotateRight
  dsimp only
  split
  · exact List.Perm.refl xs
  · exact List.perm_append_comm.trans (.of_eq (List.take_append_drop _ xs))

end Places

section Splitting

variable {xs low high : List β} {pivot : β} {position : Nat}

-- Whichever part an element joins, it is in one of them.
theorem perm_pass (isLess : β → Bool) (parts : List β × List β) (x : β) :
    ((pass isLess parts x).1 ++ (pass isLess parts x).2).Perm (x :: (parts.1 ++ parts.2)) := by
  rcases parts with ⟨low, high⟩
  unfold pass
  dsimp only
  split
  · rw [List.append_assoc]
    exact List.perm_middle.trans (((perm_rotateLeft high).append_left low).cons x)
  · exact List.perm_middle.trans (((perm_rotateLeft high).append_left low).cons x)

theorem perm_foldl_pass (isLess : β → Bool) (xs : List β) : ∀ parts : List β × List β,
    ((xs.foldl (pass isLess) parts).1 ++ (xs.foldl (pass isLess) parts).2).Perm
      (xs ++ (parts.1 ++ parts.2)) := by
  induction xs with
  | nil => exact fun _ => List.Perm.refl _
  | cons x xs ih =>
      intro parts
      exact (ih (pass isLess parts x)).trans
        (((perm_pass isLess parts x).append_left xs).trans List.perm_middle)

/-- The parts of a list that is split. -/
theorem perm_split (h : split less position xs = some (low, pivot, high)) :
    (low ++ pivot :: high).Perm xs := by
  unfold split at h
  rcases Option.bind_eq_some_iff.mp h with ⟨p, hpivot, h⟩
  rcases Option.bind_eq_some_iff.mp h with ⟨first, hfirst, h⟩
  have hparts := perm_foldl_pass (fun x => less x p) (xs.set position first).tail.rotateLeft
    ([], [])
  rw [List.append_nil, List.append_nil] at hparts
  dsimp only at h
  generalize List.foldl _ _ _ = parts at h hparts
  rcases parts with ⟨l, r⟩
  rw [Option.pure_def, Option.some.injEq, Prod.mk.injEq, Prod.mk.injEq] at h
  rcases h with ⟨rfl, rfl, rfl⟩
  calc (l.rotateRight ++ p :: r).Perm (p :: (l ++ r)) :=
        List.perm_middle.trans (((perm_rotateRight l).append_right r).cons p)
    _ |>.Perm (p :: (xs.set position first).tail) := (hparts.trans (perm_rotateLeft _)).cons p
    _ |>.Perm xs := perm_set_tail hpivot hfirst

-- Either part of a list that was split may be arranged further.
theorem perm_append_of_split (h : split less position xs = some (low, pivot, high))
    {low' high' : List β} (hlow : low'.Perm low) (hhigh : high'.Perm high) :
    (low' ++ pivot :: high').Perm xs :=
  (hlow.append (hhigh.cons pivot)).trans (perm_split h)

theorem perm_sorted (less : β → β → Bool) (xs : List β) : (sorted less xs).Perm xs :=
  List.mergeSort_perm xs _

theorem perm_leastFirst (less : β → β → Bool) (xs : List β) : (leastFirst less xs).Perm xs := by
  unfold leastFirst
  split
  · split
    · rename_i hget
      exact perm_set_tail hget rfl
    · exact List.Perm.refl _
  · exact List.Perm.refl _

theorem perm_greatestLast (less : β → β → Bool) (xs : List β) :
    (greatestLast less xs).Perm xs := by
  unfold greatestLast
  split
  · rename_i hlast
    split
    · rename_i hget
      exact perm_set_dropLast hget hlast
    · exact List.Perm.refl _
  · exact List.Perm.refl _

end Splitting

section Medians

theorem perm_swapIfInBounds (xs : Array β) (i j : Nat) : (xs.swapIfInBounds i j).Perm xs := by
  rw [Array.swapIfInBounds_def]
  split
  · split
    · exact Array.swap_perm _ _
    · exact Array.Perm.refl xs
  · exact Array.Perm.refl xs

theorem perm_gatherMedians (less : β → β → Bool) (xs : List β) :
    (gatherMedians less xs.toArray).toList.Perm xs := by
  have hgather : (gatherMedians less xs.toArray).Perm xs.toArray :=
    List.foldlRecOn (motive := fun ys => ys.Perm xs.toArray) _ (gatherMedian less)
      (Array.Perm.refl _) fun ys hys i _ => (perm_swapIfInBounds ys _ _).trans hys
  exact hgather.toList

/-- Arranging by medians. -/
theorem perm_arrangeByMedians (less : β → β → Bool) (depth : Nat) :
    ∀ (position : Nat) (xs : List β), (arrangeByMedians less depth position xs).Perm xs := by
  induction depth with
  | zero => exact fun _ xs => List.Perm.refl xs
  | succ depth ih =>
      intro position xs
      unfold arrangeByMedians
      dsimp only
      split
      · exact perm_sorted less xs
      split
      · exact perm_greatestLast less xs
      split
      · exact perm_leastFirst less xs
      have hgathered := perm_gatherMedians less xs
      generalize (gatherMedians less xs.toArray).toList = gathered at hgathered ⊢
      generalize medianStart xs.length = start
      generalize medianCount xs.length = count
      -- The medians change places with each other, and all others stay.
      have hready : (gathered.take start ++
          arrangeByMedians less depth (count / 2) ((gathered.drop start).take count) ++
          gathered.drop (start + count)).Perm xs := by
        have hparts : gathered.take start ++ ((gathered.drop start).take count ++
            gathered.drop (start + count)) = gathered := by
          rw [← List.drop_drop, List.take_append_drop, List.take_append_drop]
        rw [List.append_assoc]
        refine List.Perm.trans ?_ ((List.Perm.of_eq hparts).trans hgathered)
        exact ((ih _ _).append_right _).append_left _
      generalize gathered.take start ++ _ ++ _ = ready at hready ⊢
      split
      · exact hready
      · rename_i low pivot high hsplit
        refine List.Perm.trans ?_ hready
        split
        · exact perm_append_of_split hsplit (ih _ _) (List.Perm.refl high)
        split
        · exact perm_append_of_split hsplit (List.Perm.refl low) (ih _ _)
        · exact perm_split hsplit

end Medians

/-- Arranging a list around a position. -/
theorem perm_arrange (less : β → β → Bool) (splits : Nat) :
    ∀ (position : Nat) (bound : Option β) (xs : List β),
      (arrange less splits position bound xs).Perm xs := by
  induction splits with
  | zero => exact fun position _ xs => perm_arrangeByMedians less xs.length position xs
  | succ splits ih =>
      intro position bound xs
      unfold arrange
      dsimp only
      generalize middling less xs.toArray xs.length 0 (xs.length / 8) = candidate
      split_ifs
      · exact perm_sorted less xs
      · -- Elements that are equal to the pivot are split off with it.
        split
        · exact List.Perm.refl xs
        · rename_i low pivot high hsplit
          split
          · exact perm_split hsplit
          · exact perm_append_of_split hsplit (List.Perm.refl low) (ih _ _ _)
      · split
        · exact List.Perm.refl xs
        · rename_i low pivot high hsplit
          split
          · exact perm_append_of_split hsplit (List.Perm.refl low) (ih _ _ _)
          split
          · exact perm_append_of_split hsplit (ih _ _ _) (List.Perm.refl high)
          · exact perm_split hsplit

/-- The least elements and the others are the whole list. -/
theorem perm_least (less : β → β → Bool) (count : Nat) (xs : List β) :
    ((least less count xs).1 ++ (least less count xs).2).Perm xs := by
  unfold least
  dsimp only
  rw [List.splitAt_eq, List.take_append_drop]
  split
  · exact perm_greatestLast less xs
  · exact perm_arrange less splitLimit count none xs

/-- As many elements come first as were asked for. -/
theorem length_least (less : β → β → Bool) (count : Nat) (xs : List β) :
    (least less count xs).1.length = min count xs.length := by
  have hperm := (perm_least less count xs).length_eq
  unfold least at hperm ⊢
  dsimp only at hperm ⊢
  rw [List.splitAt_eq] at hperm ⊢
  rw [List.length_append, List.length_take, List.length_drop] at hperm
  rw [List.length_take]
  omega

end Selection

end Journey
