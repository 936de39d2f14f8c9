import Mathlib.Data.List.Nodup
import Journey.IndexSet

/-!
# Index Sets as Sets

What the stamps of an index set have to do with its members.

An index set answers membership from its stamps and iteration from its list of
members, so everything rests on the two agreeing. `Valid` is that agreement: no
stamp is later than the generation, and an index carries the stamp of the
generation exactly when it is in the list. The first half is what makes
emptying free, since a generation that no stamp has reached has no members.

## Main definitions

* `IndexSet.Valid`: Stamps and members agree.
* `IndexSet.Over`: A valid set of a given capacity.

## Theorems

* `IndexSet.valid_ofCapacity`: A new set is valid.
* `IndexSet.Valid.clear`: Emptying keeps a set valid, also when the generations
  run out.
* `IndexSet.Valid.contains_iff`: Membership is being in the list.
* `IndexSet.Valid.insert_of_mem`, `IndexSet.Valid.insert_of_not_mem`: Inserting an
  index below the capacity succeeds and adds that index and no other.
* `IndexSet.insert_eq_none_iff`: Inserting fails exactly at and beyond the
  capacity.
* `IndexSet.Over.mark`: Inserting keeps the capacity.
* `IndexSet.Over.toList_mark`: Where an insertion puts its index.
* `eraseDups_concat`: What inserting at the end does to a list without repetitions.
-/

namespace Journey

theorem eraseDups_concat (l : List Nat) (a : Nat) :
    (l ++ [a]).eraseDups = if a ∈ l then l.eraseDups else l.eraseDups ++ [a] := by
  rw [List.eraseDups_append, List.removeAll]
  by_cases ha : a ∈ l
  · simp [ha]
  · simp [ha, List.eraseDups_cons]

namespace IndexSet

/-- The stamps of a set and its list of members agree. -/
structure Valid (s : IndexSet) : Prop where
  /-- No stamp is from a later generation. -/
  stamp_le : ∀ (i n : Nat), s.stamps[i]? = some n → n ≤ s.generation
  /-- The members are the indices with the stamp of the generation. -/
  mem_iff : ∀ i : Nat, i ∈ s.toList ↔ s.stamps[i]? = some s.generation
  /-- No index is listed twice. -/
  nodup : s.toList.Nodup

theorem valid_ofCapacity (n : Nat) : (ofCapacity n).Valid := by
  refine ⟨?_, ?_, List.nodup_nil⟩
  · intro i k h
    simp only [ofCapacity, Array.getElem?_replicate] at h ⊢
    by_cases hi : i < n
    · rw [if_pos hi] at h
      rw [← Option.some.inj h]
      exact Nat.zero_le 1
    · rw [if_neg hi] at h
      exact absurd h (by simp only [reduceCtorEq, not_false_eq_true])
  · intro i
    simp only [ofCapacity, toList, Array.getElem?_replicate, List.not_mem_nil, false_iff]
    by_cases hi : i < n
    · rw [if_pos hi]
      simp only [Option.some.injEq, Nat.zero_ne_one, not_false_eq_true]
    · rw [if_neg hi]
      simp only [reduceCtorEq, not_false_eq_true]

theorem capacity_ofCapacity (n : Nat) : (ofCapacity n).capacity = n := by
  simp only [ofCapacity, capacity, Array.size_replicate]

theorem toList_clear (s : IndexSet) : s.clear.toList = [] := by
  unfold clear
  by_cases h : s.generation = lastGeneration
  · rw [if_pos h]
    rfl
  · rw [if_neg h]
    rfl

theorem isEmpty_iff (s : IndexSet) : s.isEmpty = true ↔ s.toList = [] := by
  unfold isEmpty toList
  rw [Array.isEmpty_iff, Array.toList_eq_nil_iff]

theorem capacity_clear (s : IndexSet) : s.clear.capacity = s.capacity := by
  unfold clear capacity
  by_cases h : s.generation = lastGeneration
  · rw [if_pos h, Array.size_replicate]
  · rw [if_neg h]

theorem insert_eq_none_iff (s : IndexSet) (i : Nat) : s.insert i = none ↔ s.capacity ≤ i := by
  unfold insert capacity
  by_cases h : i < s.stamps.size
  · rw [dif_pos h]
    split <;> simp only [reduceCtorEq, Nat.not_le.mpr h]
  · rw [dif_neg h]
    simp only [Nat.le_of_not_lt h]

theorem mark_eq_none_iff (s : IndexSet) (i : Nat) : s.mark i = none ↔ s.capacity ≤ i := by
  unfold mark
  rw [Option.map_eq_none_iff, insert_eq_none_iff]

namespace Valid

variable {s : IndexSet}

/-- Emptying keeps a set valid. Ordinarily no stamp has reached the next
    generation; when the generations run out, all stamps go back to before the
    first one. -/
theorem clear (h : s.Valid) : s.clear.Valid := by
  by_cases hg : s.generation = lastGeneration
  · have heq : s.clear = ofCapacity s.stamps.size := by
      unfold IndexSet.clear
      rw [if_pos hg]
      rfl
    rw [heq]
    exact valid_ofCapacity _
  · have hgen : s.clear.generation = s.generation + 1 := by
      unfold IndexSet.clear
      rw [if_neg hg]
    have hst : s.clear.stamps = s.stamps := by
      unfold IndexSet.clear
      rw [if_neg hg]
    refine ⟨?_, ?_, by rw [toList_clear]; exact List.nodup_nil⟩
    · intro i n hn
      rw [hst] at hn
      rw [hgen]
      exact Nat.le_succ_of_le (h.stamp_le i n hn)
    · intro i
      rw [toList_clear, hst, hgen]
      simp only [List.not_mem_nil, false_iff]
      intro hc
      -- No stamp has reached the next generation yet.
      have hle := h.stamp_le i _ hc
      omega

theorem contains_iff (h : s.Valid) (i : Nat) : s.contains i = true ↔ i ∈ s.toList := by
  unfold contains
  rw [h.mem_iff i, beq_iff_eq]

theorem mem_lt (h : s.Valid) {i : Nat} (hi : i ∈ s.toList) : i < s.capacity := by
  rcases Array.getElem?_eq_some_iff.mp ((h.mem_iff i).mp hi) with ⟨hlt, -⟩
  exact hlt

/-- A member stays where it is. -/
theorem insert_of_mem (h : s.Valid) {i : Nat} (hi : i ∈ s.toList) :
    s.insert i = some (s, false) := by
  rcases Array.getElem?_eq_some_iff.mp ((h.mem_iff i).mp hi) with ⟨hlt, heq⟩
  unfold insert
  rw [dif_pos hlt, if_pos heq]

/-- Another index below the capacity becomes the last member. -/
theorem insert_of_not_mem (h : s.Valid) {i : Nat} (hlt : i < s.capacity) (hi : i ∉ s.toList) :
    ∃ s', s.insert i = some (s', true) ∧ s'.Valid ∧ s'.capacity = s.capacity ∧
      s'.toList = s.toList ++ [i] := by
  have hsize : i < s.stamps.size := hlt
  -- An index that is not listed does not have the stamp of the generation.
  have hstamp : s.stamps[i] ≠ s.generation := fun heq =>
    hi ((h.mem_iff i).mpr (by rw [Array.getElem?_eq_getElem hsize, heq]))
  have hlist : (s.members.push i).toList = s.toList ++ [i] := Array.toList_push
  unfold insert
  rw [dif_pos hsize, if_neg hstamp]
  refine ⟨_, rfl, ⟨?_, ?_, ?_⟩, Array.size_set hsize, hlist⟩
  · intro j n hj
    simp only [Array.getElem?_set] at hj
    by_cases hij : i = j
    · rw [if_pos hij] at hj
      exact Nat.le_of_eq (Option.some.inj hj).symm
    · rw [if_neg hij] at hj
      exact h.stamp_le j n hj
  · intro j
    simp only [toList, hlist, Array.getElem?_set]
    by_cases hij : i = j
    · rw [if_pos hij, hij]
      simp only [List.mem_append, List.mem_singleton, or_true]
    · rw [if_neg hij, List.mem_append, List.mem_singleton, ← h.mem_iff j]
      exact ⟨fun hj => hj.resolve_right (fun hc => hij hc.symm), Or.inl⟩
  · simp only [toList, hlist]
    exact List.Nodup.append h.nodup (List.nodup_singleton i) (List.disjoint_singleton.mpr hi)

/-- Inserting an index below the capacity succeeds. A member stays where it is,
    and another index becomes the last member. -/
theorem mark (h : s.Valid) {i : Nat} (hi : i < s.capacity) :
    ∃ s', s.mark i = some s' ∧ s'.Valid ∧ s'.capacity = s.capacity ∧
      s'.toList = if i ∈ s.toList then s.toList else s.toList ++ [i] := by
  unfold IndexSet.mark
  by_cases hmem : i ∈ s.toList
  · exact ⟨s, by rw [h.insert_of_mem hmem, Option.map_some], h, rfl, (if_pos hmem).symm⟩
  · rcases h.insert_of_not_mem hi hmem with ⟨s', hs', hv, hc, hlist⟩
    exact ⟨s', by rw [hs', Option.map_some], hv, hc, by rw [hlist, if_neg hmem]⟩

/-- What stands before a member in the list is another one. -/
theorem not_mem_before (h : s.Valid) {i : Nat} {before after : List Nat}
    (hs : s.toList = before ++ i :: after) : i ∉ before := by
  have hnodup := h.nodup
  rw [hs] at hnodup
  exact fun hi => List.disjoint_of_nodup_append hnodup hi List.mem_cons_self

end Valid

/-- A valid set over the indices below `n`. -/
structure Over (n : Nat) (s : IndexSet) : Prop where
  valid : s.Valid
  capacity_eq : s.capacity = n

theorem over_ofCapacity (n : Nat) : (ofCapacity n).Over n :=
  ⟨valid_ofCapacity n, capacity_ofCapacity n⟩

namespace Over

variable {n : Nat} {s : IndexSet}

theorem clear (h : s.Over n) : s.clear.Over n :=
  ⟨h.valid.clear, (capacity_clear s).trans h.capacity_eq⟩

theorem mem_lt (h : s.Over n) {i : Nat} (hi : i ∈ s.toList) : i < n := by
  rw [← h.capacity_eq]
  exact h.valid.mem_lt hi

theorem mark_exists (h : s.Over n) {i : Nat} (hi : i < n) : ∃ s', s.mark i = some s' := by
  rw [← h.capacity_eq] at hi
  rcases h.valid.mark hi with ⟨s', hs', -⟩
  exact ⟨s', hs'⟩

-- An insertion that succeeds is that of an index below the capacity.
theorem mark_cases (h : s.Over n) {i : Nat} {s' : IndexSet} (hs : s.mark i = some s') :
    i < n ∧ s'.Over n ∧ s'.toList = if i ∈ s.toList then s.toList else s.toList ++ [i] := by
  have hi : i < s.capacity := by
    by_contra hc
    rw [(mark_eq_none_iff s i).mpr (Nat.le_of_not_lt hc)] at hs
    exact absurd hs (by simp only [reduceCtorEq, not_false_eq_true])
  rcases h.valid.mark hi with ⟨s'', hs'', hv, hc, hlist⟩
  rw [hs'', Option.some.injEq] at hs
  subst hs
  exact ⟨h.capacity_eq ▸ hi, ⟨hv, hc.trans h.capacity_eq⟩, hlist⟩

/-- An insertion that succeeds adds its index, which is below the capacity, and
    no other. -/
theorem mark (h : s.Over n) {i : Nat} {s' : IndexSet} (hs : s.mark i = some s') :
    i < n ∧ s'.Over n ∧ ∀ j, j ∈ s'.toList ↔ j = i ∨ j ∈ s.toList := by
  rcases h.mark_cases hs with ⟨hi, hover, hlist⟩
  refine ⟨hi, hover, fun j => ?_⟩
  rw [hlist]
  split
  · rename_i hmem
    exact ⟨Or.inr, fun hj => hj.elim (fun heq => heq ▸ hmem) id⟩
  · rw [List.mem_append, List.mem_singleton, or_comm]

/-- A member stays where it is, and another index becomes the last member. -/
theorem toList_mark (h : s.Over n) {i : Nat} {s' : IndexSet} (hs : s.mark i = some s') :
    s'.toList = if i ∈ s.toList then s.toList else s.toList ++ [i] :=
  (h.mark_cases hs).2.2

end Over

end IndexSet

end Journey
