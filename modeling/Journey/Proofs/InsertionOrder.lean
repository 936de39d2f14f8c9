import Mathlib.Data.List.DropRight
import Journey.Proofs.IndexSet

/-!
# Insertion Order

An index set is the list of what was put into it since it was last emptied.

`Valid` says of one set that its stamps and its members agree. Here the calls that
made the set are taken into account, any number of them in any order. What the set
should contain can be read off the calls without a set: the insertions after the last
emptying count, those at or beyond the capacity do not, and of several insertions of one
index only the first one does. `Reflects` is that reading, together with what the set
answers to the next call.

One call keeps the agreement of the set with its calls (`Over.apply`), and all of them do
by induction from the last call on. Nothing is said about generations: that they run out
after four billion calls is a case of emptying like any other, for which validity is
enough.

## Main definitions

* `IndexSet.Call`: The calls on a set.
* `IndexSet.after`: What calls make of a set.
* `IndexSet.sinceClear`, `IndexSet.inserted`: What counts of the calls.
* `IndexSet.Reflects`: A set is what its calls have made of it.

## Theorems

* `IndexSet.Over.apply`: What one call does.
* `IndexSet.Over.after`: What any number of calls do.
* `IndexSet.reflects_after`: A set that was made empty reflects its calls.
-/

namespace Journey

namespace IndexSet

/-- A call on a set. -/
inductive Call where
  | insert (index : Nat)
  | contains (index : Nat)
  | clear
deriving DecidableEq, Repr

/-- What a call makes of a set. A set that refuses an index stays as it is. -/
def apply (s : IndexSet) : Call → IndexSet
  | .insert index => (s.mark index).getD s
  | .contains _ => s
  | .clear => s.clear

theorem apply_insert (s : IndexSet) (i : Nat) : s.apply (.insert i) = (s.mark i).getD s := rfl

/-- What calls make of a set, one after the other. -/
def after (s : IndexSet) (calls : List Call) : IndexSet := calls.foldl apply s

/-- The calls since the set was last emptied. -/
def sinceClear (calls : List Call) : List Call := calls.rtakeWhile (· ≠ .clear)

/-- The index that a call inserts into a set of the given capacity. -/
def Call.index? (capacity : Nat) : Call → Option Nat
  | .insert index => if index < capacity then some index else none
  | .contains _ | .clear => none

/-- The indices inserted since the set was last emptied, as often as they were inserted. -/
def inserted (capacity : Nat) (calls : List Call) : List Nat :=
  (sinceClear calls).filterMap (Call.index? capacity)

/-- A set over the indices below `n` is what the calls on it have made of it. -/
structure Reflects (n : Nat) (calls : List Call) (s : IndexSet) : Prop where
  capacity_eq : s.capacity = n
  /-- The members are in the order in which they were inserted first. -/
  toList_eq : s.toList = (inserted n calls).eraseDups
  nodup : s.toList.Nodup
  lt : ∀ i ∈ s.toList, i < n
  mem_iff : ∀ i, i ∈ s.toList ↔ i < n ∧ Call.insert i ∈ sinceClear calls
  /-- An index that does not exist is simply no member. -/
  contains_iff : ∀ i, s.contains i = true ↔ i ∈ s.toList
  insert_member : ∀ i ∈ s.toList, s.insert i = some (s, false)
  insert_new : ∀ i < n, i ∉ s.toList →
    ∃ s', s.insert i = some (s', true) ∧ s'.toList = s.toList ++ [i]
  insert_refused : ∀ i, n ≤ i → s.insert i = none ∧ s.apply (.insert i) = s

section Calls

variable (n : Nat) (calls : List Call)

theorem sinceClear_concat (c : Call) :
    sinceClear (calls ++ [c]) = if c = .clear then [] else sinceClear calls ++ [c] := by
  unfold sinceClear
  rw [List.rtakeWhile_concat]
  by_cases hc : c = .clear
  · rw [if_pos hc, if_neg (by simpa only [ne_eq, decide_not, Bool.not_eq_true',
      decide_eq_false_iff_not, not_not] using hc)]
  · rw [if_neg hc, if_pos (by simpa only [ne_eq, decide_eq_true_eq] using hc)]

theorem inserted_concat_clear : inserted n (calls ++ [.clear]) = [] := by
  unfold inserted
  rw [sinceClear_concat, if_pos rfl, List.filterMap_nil]

theorem inserted_concat {c : Call} (hc : c ≠ .clear) :
    inserted n (calls ++ [c]) = inserted n calls ++ (c.index? n).toList := by
  unfold inserted
  rw [sinceClear_concat, if_neg hc, List.filterMap_append]
  cases h : c.index? n with
  | none => rw [List.filterMap_cons_none h, List.filterMap_nil, Option.toList_none]
  | some i => rw [List.filterMap_cons_some h, List.filterMap_nil, Option.toList_some]

theorem mem_inserted_iff (i : Nat) :
    i ∈ inserted n calls ↔ i < n ∧ Call.insert i ∈ sinceClear calls := by
  unfold inserted
  rw [List.mem_filterMap]
  constructor
  · rintro ⟨c, hc, hi⟩
    cases c with
    | insert j =>
        rcases Option.ite_none_right_eq_some.mp hi with ⟨hj, heq⟩
        rw [Option.some.injEq] at heq
        exact ⟨heq ▸ hj, heq ▸ hc⟩
    | contains j => exact absurd hi (Option.not_mem_none i)
    | clear => exact absurd hi (Option.not_mem_none i)
  · exact fun ⟨hi, hc⟩ => ⟨Call.insert i, hc, if_pos hi⟩

end Calls

/-- The set without capacity is valid before its first generation, since it has no
    stamps. -/
theorem over_empty : empty.Over 0 := by
  refine ⟨⟨fun i n h => ?_, fun i => ?_, List.nodup_nil⟩, rfl⟩
  · exact absurd h (Option.not_mem_none n)
  · simp only [empty, toList, List.not_mem_nil, List.getElem?_toArray, List.getElem?_nil,
      reduceCtorEq]

namespace Over

variable {n : Nat} {s : IndexSet} {calls : List Call}

theorem insert_of_le (h : s.Over n) {i : Nat} (hi : n ≤ i) : s.insert i = none :=
  (insert_eq_none_iff s i).mpr (h.capacity_eq.trans_le hi)

theorem apply_of_le (h : s.Over n) {i : Nat} (hi : n ≤ i) : s.apply (.insert i) = s := by
  rw [apply_insert, IndexSet.mark, h.insert_of_le hi, Option.map_none, Option.getD_none]

/-- One call keeps a set the list of what its calls have inserted. -/
theorem apply (h : s.Over n) (hs : s.toList = (inserted n calls).eraseDups) (c : Call) :
    (s.apply c).Over n ∧ (s.apply c).toList = (inserted n (calls ++ [c])).eraseDups := by
  cases c with
  | clear =>
      rw [inserted_concat_clear]
      exact ⟨h.clear, toList_clear s⟩
  | contains i =>
      rw [inserted_concat n calls (fun hc => Call.noConfusion hc)]
      exact ⟨h, hs.trans (by rw [Call.index?, Option.toList_none, List.append_nil])⟩
  | insert i =>
      rw [inserted_concat n calls (fun hc => Call.noConfusion hc)]
      by_cases hi : i < n
      · rcases h.mark_exists hi with ⟨s', hs'⟩
        rw [apply_insert, hs', Option.getD_some, Call.index?, if_pos hi, Option.toList_some,
          eraseDups_concat, ← hs, h.toList_mark hs']
        refine ⟨(h.mark hs').2.1, ?_⟩
        -- The list that counts repetitions has the same members.
        have hmem : i ∈ inserted n calls ↔ i ∈ s.toList := by rw [hs, List.mem_eraseDups]
        simp only [hmem]
      · rw [h.apply_of_le (Nat.le_of_not_lt hi), Call.index?, if_neg hi, Option.toList_none,
          List.append_nil]
        exact ⟨h, hs⟩

/-- A set that was empty is the list of what its calls have inserted. -/
theorem after (h : s.Over n) (hs : s.toList = []) (calls : List Call) :
    (s.after calls).Over n ∧ (s.after calls).toList = (inserted n calls).eraseDups := by
  induction calls using List.reverseRecOn with
  | nil => exact ⟨h, hs⟩
  | append_singleton calls c ih =>
      unfold IndexSet.after
      rw [List.foldl_append, List.foldl_cons, List.foldl_nil]
      exact ih.1.apply ih.2 c

theorem reflects (h : s.Over n) (hs : s.toList = (inserted n calls).eraseDups) :
    s.Reflects n calls where
  capacity_eq := h.capacity_eq
  toList_eq := hs
  nodup := h.valid.nodup
  lt := fun i => h.mem_lt
  mem_iff := fun i => by rw [hs, List.mem_eraseDups, mem_inserted_iff]
  contains_iff := h.valid.contains_iff
  insert_member := fun i => h.valid.insert_of_mem
  insert_new := fun i hlt hi => by
    rcases h.valid.insert_of_not_mem (h.capacity_eq ▸ hlt) hi with ⟨s', hs', -, -, hlist⟩
    exact ⟨s', hs', hlist⟩
  insert_refused := fun i hi => ⟨h.insert_of_le hi, h.apply_of_le hi⟩

end Over

/-- Whatever calls are made on a new set, of any capacity or without one: its members are
    the indices inserted since it was last emptied, once each and in the order of their
    first insertion, and its answers to the next call agree with that. -/
theorem reflects_after (n : Nat) (calls : List Call) :
    ((ofCapacity n).after calls).Reflects n calls ∧ (empty.after calls).Reflects 0 calls := by
  have hnew := (over_ofCapacity n).after rfl calls
  have hempty := over_empty.after rfl calls
  exact ⟨hnew.1.reflects hnew.2, hempty.1.reflects hempty.2⟩

-- A repetition and an index beyond the capacity leave no trace, and neither does what was
-- inserted before the set was emptied.
example : ((ofCapacity 8).after
    [.insert 5, .clear, .insert 7, .insert 2, .insert 7, .insert 9, .contains 3]).toList
      = [7, 2] := by decide

end IndexSet

end Journey
