import Mathlib.Data.String.Basic
import Journey.Dictionary

/-!
# Sorted Dictionaries

What a dictionary holds once an entry was written.

An entry is put in front of the first key that is greater. That every key has one entry
only is due to the order: what is greater than the key that was written cannot be that key.
So what the values add up to changes by the value that was written and by the one that it
took the place of.

## Main definitions

* `Dictionary.Sorted`: The keys are in order.

## Theorems

* `Dictionary.Sorted.insert`: Writing keeps the order.
* `Dictionary.Sorted.total_insert`: What the values add up to then.
-/

namespace Journey

namespace Dictionary

variable {β : Type} {d : Dictionary β}

/-- The keys are in order, so no two are equal. -/
def Sorted (d : Dictionary β) : Prop := d.entries.Pairwise fun a b => a.1 < b.1

theorem sorted_empty : (empty : Dictionary β).Sorted := List.Pairwise.nil

theorem mem_of_get? {key : String} {value : β} (h : d.get? key = some value) :
    (key, value) ∈ d.entries := by
  rcases List.lookup_eq_some_iff.mp h with ⟨before, after, heq, -⟩
  rw [heq]
  exact List.mem_append_right _ List.mem_cons_self

theorem mem_insertEntry {key : String} {value : β} {entry : String × β}
    {entries : List (String × β)} (h : entry ∈ insertEntry key value entries) :
    entry = (key, value) ∨ entry ∈ entries := by
  induction entries with
  | nil => exact Or.inl (List.mem_singleton.mp h)
  | cons head rest ih =>
      unfold insertEntry at h
      split at h
      · exact List.mem_cons.mp h
      · split at h
        · exact (List.mem_cons.mp h).imp_right (List.mem_cons_of_mem _)
        · rcases List.mem_cons.mp h with heq | hrest
          · exact Or.inr (List.mem_cons.mpr (Or.inl heq))
          · exact (ih hrest).imp_right (List.mem_cons_of_mem _)

/-- Writing an entry keeps the order. -/
theorem Sorted.insert (h : d.Sorted) (key : String) (value : β) : (d.insert key value).Sorted := by
  rcases d with ⟨entries⟩
  unfold Sorted Dictionary.insert at *
  dsimp only at *
  induction entries with
  | nil => exact List.pairwise_singleton _ _
  | cons head rest ih =>
      rcases head with ⟨k, v⟩
      rcases List.pairwise_cons.mp h with ⟨hhead, hrest⟩
      unfold insertEntry
      split
      · rename_i hlt
        refine List.pairwise_cons.mpr ⟨fun entry hentry => ?_, h⟩
        rcases List.mem_cons.mp hentry with rfl | hentry
        · exact hlt
        · exact lt_trans hlt (hhead entry hentry)
      · rename_i hnot
        split
        · rename_i heq
          subst heq
          exact List.pairwise_cons.mpr ⟨hhead, hrest⟩
        · rename_i hne
          refine List.pairwise_cons.mpr ⟨fun entry hentry => ?_, ih hrest⟩
          rcases mem_insertEntry hentry with rfl | hentry
          · exact lt_of_le_of_ne (le_of_not_gt hnot) (Ne.symm hne)
          · exact hhead entry hentry

/-- What the values add up to, once an entry was written: its value counts, and what it took
    the place of does not any more. -/
theorem Sorted.total_insert (h : d.Sorted) (key : String) (value : β) (f : β → Nat) :
    (d.insert key value).total f + ((d.get? key).map f).getD 0 = d.total f + f value := by
  rcases d with ⟨entries⟩
  unfold Sorted Dictionary.insert get? total at *
  dsimp only at *
  induction entries with
  | nil => exact (Nat.zero_add (f value)).symm
  | cons head rest ih =>
      rcases head with ⟨k, v⟩
      rcases List.pairwise_cons.mp h with ⟨hhead, hrest⟩
      unfold insertEntry
      rw [List.lookup_cons]
      split
      · rename_i hlt
        -- All keys are greater, so none was replaced.
        have hnone : rest.lookup key = none := List.lookup_eq_none_iff.mpr fun entry hentry =>
          bne_iff_ne.mpr (lt_trans hlt (hhead entry hentry)).ne
        rw [beq_false_of_ne hlt.ne]
        simp only [hnone, List.foldr_cons, Option.map_none, Option.getD_none]
        omega
      · split
        · rename_i heq
          subst heq
          rw [beq_self_eq_true]
          simp only [List.foldr_cons, Option.map_some, Option.getD_some]
          omega
        · rename_i hne
          have htotal := ih hrest
          rw [beq_false_of_ne hne]
          simp only [List.foldr_cons]
          omega

theorem total_one (d : Dictionary β) : d.total (fun _ => 1) = d.size := by
  rcases d with ⟨entries⟩
  unfold total size
  induction entries with
  | nil => rfl
  | cons head rest ih => exact (congrArg (1 + ·) ih).trans (Nat.add_comm 1 _)

theorem Sorted.size_insert (h : d.Sorted) {key : String} (hnew : d.get? key = none) (value : β) :
    (d.insert key value).size = d.size + 1 := by
  have htotal := h.total_insert key value fun _ => 1
  rwa [hnew, total_one, total_one] at htotal

end Dictionary

end Journey
