import Mathlib.Data.List.Basic
import Journey.Span

/-!
# Grouped Tables

Where the groups of a table are.

A grouped table is the concatenation of its groups, and the spans of the groups
follow from their sizes alone. So the group at a position is found by
counting the rows of the groups before it, and every row of the table is in the
span of exactly one group.

## Main definitions

* `Span.Tile`: Spans that lie end to end.
* `Span.offset`: How many rows are before a group.

## Theorems

* `Span.Tile.concat`: A span that begins where the last one ends can be added.
* `Span.Tile.existsUnique`: Every position is in exactly one of them.
* `Span.toList_split`: The positions of a span come one after the other.
* `Span.toList_append`: So do those of two spans that meet.
* `Span.slice?_map`: What goes along with a table is sliced as the table is.
* `Span.getElem?_slice?`: The rows of a slice are those of the table.
* `Span.mem_slice?_iff`: They are those at the positions of the span.
* `Span.slice?_eq_filter`: A slice of the rows that fulfil a condition.
* `Span.slice?_group`: Slicing the table where a group is gives the group.
* `Span.getElem?_flatten`: A row of the table is a row of its group.
* `Span.exists_group`: Every row is in the span of a group.
-/

namespace Journey

namespace Span

variable {β : Type}

/-- The spans lie end to end, from a first position on and before another one. -/
inductive Tile : Nat → List Span → Nat → Prop where
  | nil (n : Nat) : Tile n [] n
  | cons {start mid stop : Nat} {spans : List Span} (le : start ≤ mid)
      (rest : Tile mid spans stop) : Tile start (⟨start, mid⟩ :: spans) stop

/-- A span that begins where the last one ends can be added. -/
theorem Tile.concat {start mid stop : Nat} {spans : List Span} (h : Tile start spans mid)
    (hle : mid ≤ stop) : Tile start (spans ++ [⟨mid, stop⟩]) stop := by
  induction h with
  | nil n => exact Tile.cons hle (Tile.nil stop)
  | cons le _ ih => exact Tile.cons le (ih hle)

theorem Tile.le_start {start stop : Nat} {spans : List Span} (h : Tile start spans stop) :
    ∀ s ∈ spans, start ≤ s.start := by
  induction h with
  | nil n => exact fun s hs => absurd hs List.not_mem_nil
  | cons le _ ih =>
      intro s hs
      rcases List.mem_cons.mp hs with rfl | hs
      · exact Nat.le_refl _
      · exact Nat.le_trans le (ih s hs)

/-- Every position is in exactly one of the spans. -/
theorem Tile.existsUnique {start stop : Nat} {spans : List Span} (h : Tile start spans stop) :
    ∀ k, start ≤ k → k < stop →
      ∃! i : Nat, ∃ s, spans[i]? = some s ∧ s.start ≤ k ∧ k < s.stop := by
  induction h with
  | nil n => exact fun k hlo hhi => absurd hhi (Nat.not_lt.mpr hlo)
  | @cons start mid stop spans le rest ih =>
      intro k hlo hhi
      by_cases hk : k < mid
      · refine ⟨0, ⟨⟨start, mid⟩, rfl, hlo, hk⟩, ?_⟩
        -- All later spans start where this one has ended.
        rintro (_ | i) ⟨s, hs, hslo, -⟩
        · rfl
        · have hle := rest.le_start s (List.mem_of_getElem? hs)
          omega
      · rcases ih k (Nat.le_of_not_lt hk) hhi with ⟨i, hi, hunique⟩
        refine ⟨i + 1, hi, ?_⟩
        rintro (_ | j) ⟨s, hs, hslo, hshi⟩
        · rw [List.getElem?_cons_zero, Option.some.injEq] at hs
          subst hs
          exact absurd hshi hk
        · rw [hunique j ⟨s, hs, hslo, hshi⟩]

/-- The number of rows of the groups before a position. -/
def offset (groups : List (List β)) (k : Nat) : Nat := (groups.take k).flatten.length

theorem offset_cons_succ (g : List β) (groups : List (List β)) (k : Nat) :
    offset (g :: groups) (k + 1) = g.length + offset groups k := by
  simp only [offset, List.take_succ_cons, List.flatten_cons, List.length_append]

/-- The positions of a span come one after the other. -/
theorem toList_split {s : Span} {before rest : List Nat} {x : Nat}
    (h : s.toList = before ++ x :: rest) : x = s.start + before.length ∧ x < s.stop := by
  -- The position after those before is the one at hand.
  have hget : s.toList[before.length]? = some x := by
    rw [h, List.getElem?_append_right (Nat.le_refl _), Nat.sub_self, List.getElem?_cons_zero]
  unfold toList size at hget
  rcases List.getElem?_eq_some_iff.mp hget with ⟨hlt, hx⟩
  rw [List.length_range'] at hlt
  rw [List.getElem_range', Nat.one_mul] at hx
  omega

theorem length_toList (s : Span) : s.toList.length = s.stop - s.start := by
  unfold toList size
  exact List.length_range'

/-- The positions of a span come before those of the span that goes on from it. -/
theorem toList_append {a b c : Nat} (hab : a ≤ b) (hbc : b ≤ c) :
    (mk a b).toList ++ (mk b c).toList = (mk a c).toList := by
  have hrange := List.range'_append_1 (s := a) (m := b - a) (n := c - b)
  rw [Nat.add_sub_cancel' hab, show b - a + (c - b) = c - a by omega] at hrange
  exact hrange

theorem toList_cons {a b : Nat} (h : a < b) : (mk a b).toList = a :: (mk (a + 1) b).toList := by
  have hrange : List.range' a (b - (a + 1) + 1) = a :: List.range' (a + 1) (b - (a + 1)) :=
    List.range'_succ
  rw [show b - (a + 1) + 1 = b - a by omega] at hrange
  exact hrange

theorem slice?_exists {span : Span} {table : Array β}
    (h : span.start ≤ span.stop ∧ span.stop ≤ table.size) : ∃ l, span.slice? table = some l := by
  unfold slice?
  rw [if_pos h]
  exact ⟨_, rfl⟩

theorem length_slice? {span : Span} {table : Array β} {l : List β}
    (h : span.slice? table = some l) : l.length = span.stop - span.start := by
  unfold slice? at h
  by_cases hspan : span.start ≤ span.stop ∧ span.stop ≤ table.size
  · rw [if_pos hspan, Option.some.injEq] at h
    rw [← h, Array.length_toList, Array.size_extract, Nat.min_eq_left hspan.2]
  · rw [if_neg hspan] at h
    exact absurd h (by simp only [reduceCtorEq, not_false_eq_true])

/-- What goes along with a table is sliced as the table is. -/
theorem slice?_map {γ : Type} (span : Span) (table : Array β) (f : β → γ) :
    span.slice? (table.map f) = (span.slice? table).map (List.map f) := by
  unfold slice?
  rw [Array.size_map]
  split
  · rw [← Array.map_extract, Array.toList_map, Option.map_some]
  · rfl

/-- The rows of a slice are those of the table from the start of the span on. -/
theorem getElem?_slice? {span : Span} {table : Array β} {l : List β}
    (h : span.slice? table = some l) (k : Nat) (hk : k < l.length) :
    table[span.start + k]? = l[k]? ∧ span.start + k < span.stop := by
  have hlen := length_slice? h
  unfold slice? at h
  by_cases hspan : span.start ≤ span.stop ∧ span.stop ≤ table.size
  · rw [if_pos hspan, Option.some.injEq] at h
    refine ⟨?_, by omega⟩
    rw [← h, Array.getElem?_toList, Array.getElem?_extract, if_pos (by omega)]
  · rw [if_neg hspan] at h
    exact absurd h (by simp only [reduceCtorEq, not_false_eq_true])

theorem mem_slice?_iff {span : Span} {table : Array β} {l : List β}
    (h : span.slice? table = some l) (x : β) :
    x ∈ l ↔ ∃ k : Nat, (span.start ≤ k ∧ k < span.stop) ∧ table[k]? = some x := by
  have hlen := length_slice? h
  constructor
  · intro hx
    rcases List.getElem_of_mem hx with ⟨i, hi, rfl⟩
    rcases getElem?_slice? h i hi with ⟨hget, hlt⟩
    exact ⟨span.start + i, ⟨Nat.le_add_right _ _, hlt⟩,
      hget.trans (List.getElem?_eq_getElem hi)⟩
  · rintro ⟨k, ⟨hlo, hhi⟩, hk⟩
    have hget := (getElem?_slice? h (k - span.start) (by omega)).1
    rw [Nat.add_sub_cancel' hlo, hk] at hget
    exact List.mem_of_getElem? hget.symm

-- The table split at one of its groups.
/-- If a span is where the rows of a table fulfil a condition, its slice consists of
    these rows. -/
theorem slice?_eq_filter {span : Span} {table : List β} (p : β → Bool)
    (hspan : span.start ≤ span.stop ∧ span.stop ≤ table.length)
    (hp : ∀ (k : Nat) (x : β), table[k]? = some x →
      (p x = true ↔ span.start ≤ k ∧ k < span.stop)) :
    span.slice? table.toArray = some (table.filter p) := by
  have hget : ∀ k (hk : k < table.length),
      p table[k] = true ↔ span.start ≤ k ∧ k < span.stop := fun k hk =>
    hp k _ (List.getElem?_eq_getElem hk)
  -- The table is what is before the span, the slice and what is after it.
  have hsplit : table = table.take span.start ++
      ((table.drop span.start).take (span.stop - span.start) ++ table.drop span.stop) := by
    rw [show table.drop span.stop = (table.drop span.start).drop (span.stop - span.start) by
      rw [List.drop_drop, Nat.add_sub_cancel' hspan.1], List.take_append_drop,
      List.take_append_drop]
  have hbefore : (table.take span.start).filter p = [] := by
    refine List.filter_eq_nil_iff.mpr fun x hx => ?_
    rcases List.getElem_of_mem hx with ⟨k, hk, rfl⟩
    rw [List.length_take] at hk
    rw [List.getElem_take, hget]
    omega
  have hwithin : ((table.drop span.start).take (span.stop - span.start)).filter p
      = (table.drop span.start).take (span.stop - span.start) := by
    refine List.filter_eq_self.mpr fun x hx => ?_
    rcases List.getElem_of_mem hx with ⟨k, hk, rfl⟩
    rw [List.length_take, List.length_drop] at hk
    rw [List.getElem_take, List.getElem_drop, hget]
    omega
  have hafter : (table.drop span.stop).filter p = [] := by
    refine List.filter_eq_nil_iff.mpr fun x hx => ?_
    rcases List.getElem_of_mem hx with ⟨k, hk, rfl⟩
    rw [List.length_drop] at hk
    rw [List.getElem_drop, hget]
    omega
  unfold slice?
  rw [if_pos (by rwa [List.size_toArray]), List.extract_toArray, List.extract_eq_take_drop]
  refine congrArg some ?_
  rw [hsplit, List.filter_append, List.filter_append, hbefore, hwithin, hafter,
    List.nil_append, List.append_nil, ← hsplit]

theorem flatten_split (groups : List (List β)) (k : Nat) (g : List β) (h : groups[k]? = some g) :
    groups.flatten = (groups.take k).flatten ++ (g ++ (groups.drop (k + 1)).flatten) := by
  rcases List.getElem?_eq_some_iff.mp h with ⟨hk, hg⟩
  rw [← List.flatten_cons, ← List.flatten_append, ← hg, ← List.drop_eq_getElem_cons hk,
    List.take_append_drop]

theorem offset_add_length_le (groups : List (List β)) (k : Nat) (g : List β)
    (h : groups[k]? = some g) : offset groups k + g.length ≤ groups.flatten.length := by
  rw [flatten_split groups k g h, List.length_append, List.length_append, offset]
  omega

theorem getElem?_flatten (groups : List (List β)) (k : Nat) (g : List β)
    (h : groups[k]? = some g) (i : Nat) (hi : i < g.length) :
    groups.flatten[offset groups k + i]? = g[i]? := by
  rw [flatten_split groups k g h, offset, List.getElem?_append_right (Nat.le_add_right _ _),
    Nat.add_sub_cancel_left, List.getElem?_append_left hi]

/-- Slicing the table where a group is gives the group. -/
theorem slice?_group (groups : List (List β)) (k : Nat) (g : List β) (h : groups[k]? = some g) :
    slice? ⟨offset groups k, offset groups k + g.length⟩ groups.flatten.toArray = some g := by
  unfold slice?
  rw [if_pos ⟨Nat.le_add_right _ _, offset_add_length_le groups k g h⟩]
  simp only [List.extract_toArray, List.extract_eq_take_drop, Option.some.injEq,
    Nat.add_sub_cancel_left]
  rw [flatten_split groups k g h, offset, List.drop_left, List.take_left]

theorem exists_group (groups : List (List β)) :
    ∀ i, i < groups.flatten.length → ∃ k g, groups[k]? = some g ∧ offset groups k ≤ i ∧
      i < offset groups k + g.length := by
  induction groups with
  | nil => intro i hi; exact absurd hi (Nat.not_lt_zero i)
  | cons g groups ih =>
      intro i hi
      by_cases hg : i < g.length
      · refine ⟨0, g, rfl, Nat.zero_le i, ?_⟩
        simpa only [offset, List.take_zero, List.flatten_nil, List.length_nil, Nat.zero_add]
          using hg
      · -- The row lies in a later group, whose offset counts this one too.
        rw [List.flatten_cons, List.length_append] at hi
        rcases ih (i - g.length) (by omega) with ⟨k, g', hk, hlo, hhi⟩
        refine ⟨k + 1, g', hk, ?_, ?_⟩
        · rw [offset_cons_succ]; omega
        · rw [offset_cons_succ]; omega

end Span

end Journey
