/-!
# Dictionaries

Finite maps from texts, kept in the order of their keys, so that going through
one visits the keys in that order whatever order they were put in.

## Main definitions

* `Dictionary`: A finite map from texts.
* `Dictionary.insert`, `Dictionary.get?`: Writing and reading an entry.

## Theorems

* `Dictionary.get?_insert`: What is found once an entry was written.
-/

namespace Journey

/-- A finite map from texts, as its entries in the order of their keys. -/
structure Dictionary (β : Type) where
  entries : List (String × β)
deriving DecidableEq, Repr

namespace Dictionary

variable {β : Type}

/-- No entries. -/
def empty : Dictionary β := ⟨[]⟩

instance : Inhabited (Dictionary β) := ⟨empty⟩

/-- Write an entry into a sorted list, over one with the same key. -/
def insertEntry (key : String) (value : β) : List (String × β) → List (String × β)
  | [] => [(key, value)]
  | (k, v) :: rest =>
    if key < k then (key, value) :: (k, v) :: rest
    else if key = k then (key, value) :: rest
    else (k, v) :: insertEntry key value rest

/-- Write an entry, over one with the same key. -/
def insert (d : Dictionary β) (key : String) (value : β) : Dictionary β :=
  ⟨insertEntry key value d.entries⟩

/-- Write entries one after the other, so that the last one with a key stays. -/
def ofList (entries : List (String × β)) : Dictionary β :=
  entries.foldl (fun d entry => d.insert entry.1 entry.2) empty

/-- The value of a key. -/
def get? (d : Dictionary β) (key : String) : Option β := d.entries.lookup key

/-- The number of entries. -/
def size (d : Dictionary β) : Nat := d.entries.length

/-- What some number of every value adds up to. -/
def total (f : β → Nat) (d : Dictionary β) : Nat :=
  d.entries.foldr (fun entry n => f entry.2 + n) 0

/-- Whether a key has a value. -/
def contains (d : Dictionary β) (key : String) : Bool := (d.get? key).isSome

theorem lookup_insertEntry (key other : String) (value : β) (entries : List (String × β)) :
    (insertEntry key value entries).lookup other =
      if other = key then some value else entries.lookup other := by
  have hcons : ∀ (k : String) (v : β) (rest : List (String × β)),
      ((k, v) :: rest).lookup other = if other = k then some v else rest.lookup other := by
    intro k v rest
    rw [List.lookup_cons]
    by_cases h : other = k
    · rw [if_pos h, h, beq_self_eq_true]
    · rw [if_neg h, beq_false_of_ne h]
  induction entries with
  | nil => exact hcons key value []
  | cons entry rest ih =>
      rcases entry with ⟨k, v⟩
      unfold insertEntry
      split
      · exact hcons key value _
      · split
        · rename_i heq
          subst heq
          rw [hcons, hcons]
          split <;> rfl
        · rename_i hne
          rw [hcons, hcons, ih]
          by_cases hk : other = k
          · rw [if_pos hk, if_pos hk, if_neg fun h => hne (h.symm.trans hk)]
          · rw [if_neg hk, if_neg hk]

/-- What is found once an entry was written is its value, or what was there before. -/
theorem get?_insert (d : Dictionary β) (key other : String) (value : β) :
    (d.insert key value).get? other = if other = key then some value else d.get? other :=
  lookup_insertEntry key other value d.entries

end Dictionary

end Journey
