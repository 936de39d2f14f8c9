import Journey.Proofs.IndexSet
import Journey.Proofs.Timetable.WellFormed
import Journey.Search.Workspace

/-!
# Workspaces that Fit their Timetable

What is true of a workspace whatever its queries were.

A workspace is a set of tables that are only ever written one entry at a time,
so every guard that a look-up has is an obligation somewhere else. `Fits`
collects them: the tables have the sizes of the timetable, the best label of a
route-stop is a label of that route-stop, and the sets that say what to reset
name everything there is to reset. The last part is what lets a workspace be
reused: without it a query could meet the labels of the one before.

## Main definitions

* `Workspace.Fits`: The tables of a workspace agree with the timetable and with
  each other.
* `Workspace.Holds`: The best label of a route-stop.
* `Workspace.Clean`: Nothing is known.

## Theorems

* `Workspace.ofTimetable_fits`: A new workspace fits.
* `Workspace.Fits.best_cases`: A route-stop has no label or holds one.
* `Workspace.Fits.reset`, `Workspace.Fits.clean_reset`: Forgetting a query
  leaves nothing behind.
-/

namespace Journey

namespace Workspace

variable {α : Type}

section Tables

variable {β : Type}

theorem write?_exists {table : Array β} {i : Nat} (h : i < table.size) (v : β) :
    ∃ table', write? table i v = some table' := by
  unfold write?
  rw [dif_pos h]
  exact ⟨_, rfl⟩

theorem write?_eq_some {table table' : Array β} {i : Nat} {v : β}
    (h : write? table i v = some table') :
    i < table.size ∧ table'.size = table.size ∧
      ∀ j, table'[j]? = if i = j then some v else table[j]? := by
  unfold write? at h
  by_cases hi : i < table.size
  · rw [dif_pos hi, Option.some.injEq] at h
    subst h
    exact ⟨hi, Array.size_set hi, fun j => Array.getElem?_set hi⟩
  · rw [dif_neg hi] at h
    exact absurd h (by simp only [reduceCtorEq, not_false_eq_true])

-- Erasing goes through the members of a set, so an entry that is left is one
-- that was there and is not at a member.
theorem getElem?_erase (s : IndexSet) (i : Nat) (v : β) (table : Array (Option β)) :
    (erase table s)[i]? = some (some v) → table[i]? = some (some v) ∧ i ∉ s.toList := by
  unfold erase
  generalize s.toList = l
  induction l generalizing table with
  | nil => exact fun h => ⟨h, List.not_mem_nil⟩
  | cons k l ih =>
      intro h
      rcases ih _ h with ⟨hv, hl⟩
      rw [Array.getElem?_setIfInBounds] at hv
      by_cases hk : k = i
      · rw [if_pos hk] at hv
        split at hv <;> exact absurd hv (by simp)
      · rw [if_neg hk] at hv
        refine ⟨hv, fun hc => ?_⟩
        rcases List.mem_cons.mp hc with heq | hc
        · exact hk heq.symm
        · exact hl hc

theorem size_erase (s : IndexSet) (table : Array (Option β)) :
    (erase table s).size = table.size := by
  unfold erase
  generalize s.toList = l
  induction l generalizing table with
  | nil => rfl
  | cons k l ih => exact (ih _).trans Array.size_setIfInBounds

end Tables

/-- The tables of a workspace agree with the timetable and with each other. -/
structure Fits (t : Timetable α) (w : Workspace α) : Prop where
  best_size : w.best.size = t.routeStops.size
  egress_size : w.egress.size = t.routeStops.size
  scanStart_size : w.scanStart.size = t.routes.size
  labelled_over : w.labelled.Over t.routeStops.size
  destinations_over : w.destinations.Over t.routeStops.size
  improved_over : w.improved.Over t.routeStops.size
  reached_over : w.reached.Over t.routeStops.size
  touched_over : w.touched.Over t.routes.size
  /-- A route-stop with a best label will be reset. -/
  mem_labelled : ∀ i id : Nat, w.best[i]? = some (some id) → i ∈ w.labelled.toList
  /-- A route-stop with a way to the destination will be reset. -/
  mem_destinations : ∀ (i : Nat) (e : Egress α), w.egress[i]? = some (some e) →
    i ∈ w.destinations.toList
  /-- The best label of a route-stop is a label of that route-stop. -/
  exists_label : ∀ i id : Nat, w.best[i]? = some (some id) →
    ∃ l, w.labels[id]? = some l ∧ l.routeStop = i
  /-- Scans start on their route. -/
  scanStart_route : ∀ r s : Nat, w.scanStart[r]? = some (some s) →
    ∃ rs, t.routeStops[s]? = some rs ∧ rs.route = r

/-- The label at a position is the best one of a route-stop. -/
def Holds (w : Workspace α) (i id : Nat) (l : Label α) : Prop :=
  w.best[i]? = some (some id) ∧ w.labels[id]? = some l

/-- Nothing is known about any route-stop. -/
structure Clean (w : Workspace α) : Prop where
  labels : w.labels = #[]
  best : ∀ i id : Nat, w.best[i]? ≠ some (some id)
  egress : ∀ (i : Nat) (e : Egress α), w.egress[i]? ≠ some (some e)
  improved : w.improved.toList = []
  bound : w.bound = none

theorem Holds.unique {w : Workspace α} {i id id' : Nat} {l l' : Label α} (h : w.Holds i id l)
    (h' : w.Holds i id' l') : id = id' ∧ l = l' := by
  rcases h with ⟨hb, hl⟩
  rcases h' with ⟨hb', hl'⟩
  rw [hb, Option.some.injEq, Option.some.injEq] at hb'
  subst hb'
  rw [hl, Option.some.injEq] at hl'
  exact ⟨rfl, hl'⟩

theorem ofTimetable_fits (t : Timetable α) : (ofTimetable t).Fits t := by
  have hnone : ∀ {β : Type} (n i : Nat) (v : β),
      (Array.replicate n (none : Option β))[i]? ≠ some (some v) := by
    intro β n i v h
    rw [Array.getElem?_replicate] at h
    split at h <;> exact absurd h (by simp)
  unfold ofTimetable
  exact
    { best_size := Array.size_replicate
      egress_size := Array.size_replicate
      scanStart_size := Array.size_replicate
      labelled_over := IndexSet.over_ofCapacity _
      destinations_over := IndexSet.over_ofCapacity _
      improved_over := IndexSet.over_ofCapacity _
      reached_over := IndexSet.over_ofCapacity _
      touched_over := IndexSet.over_ofCapacity _
      mem_labelled := fun _ _ h => absurd h (hnone _ _ _)
      mem_destinations := fun _ _ h => absurd h (hnone _ _ _)
      exists_label := fun _ _ h => absurd h (hnone _ _ _)
      scanStart_route := fun _ _ h => absurd h (hnone _ _ _) }

namespace Fits

variable {t : Timetable α} {w : Workspace α}

theorem holds_routeStop (h : w.Fits t) {i id : Nat} {l : Label α} (hl : w.Holds i id l) :
    l.routeStop = i := by
  rcases h.exists_label i id hl.1 with ⟨l', hl', hi⟩
  rw [hl.2, Option.some.injEq] at hl'
  subst hl'
  exact hi

/-- A route-stop has no label or holds one. -/
theorem best_cases (h : w.Fits t) {i : Nat} (hi : i < t.routeStops.size) :
    w.best[i]? = some none ∨ ∃ id l, w.Holds i id l := by
  rw [← h.best_size] at hi
  rcases hb : w.best[i]? with - | best
  · exact absurd hi (Nat.not_lt.mpr (Array.getElem?_eq_none_iff.mp hb))
  · cases best with
    | none => exact Or.inl rfl
    | some id =>
        rcases h.exists_label i id hb with ⟨l, hl, -⟩
        exact Or.inr ⟨id, l, hb, hl⟩

theorem labelAt?_eq (h : w.Fits t) {i : Nat} (hi : i < t.routeStops.size) :
    (w.best[i]? = some none ∧ w.labelAt? i = some none) ∨
      ∃ id l, w.Holds i id l ∧ w.labelAt? i = some (some l) := by
  unfold labelAt?
  rcases h.best_cases hi with hb | ⟨id, l, hb, hl⟩
  · exact Or.inl ⟨hb, by simp only [hb, Option.bind_eq_bind, Option.bind_some, Option.pure_def]⟩
  · refine Or.inr ⟨id, l, ⟨hb, hl⟩, ?_⟩
    simp only [hb, hl, Option.bind_eq_bind, Option.bind_some, Option.pure_def]

theorem egress_exists (h : w.Fits t) {i : Nat} (hi : i < t.routeStops.size) :
    ∃ e, w.egress[i]? = some e :=
  ⟨_, Array.getElem?_eq_getElem (h.egress_size ▸ hi)⟩

/-- Forgetting a query keeps the sizes, and what is left of the tables is what
    no set names, which is nothing. -/
theorem clean_reset (h : w.Fits t) : w.reset.Clean where
  labels := rfl
  best := fun i id hb => by
    rcases getElem?_erase _ _ _ _ hb with ⟨hb, hnot⟩
    exact hnot (h.mem_labelled i id hb)
  egress := fun i e he => by
    rcases getElem?_erase _ _ _ _ he with ⟨he, hnot⟩
    exact hnot (h.mem_destinations i e he)
  improved := IndexSet.toList_clear _
  bound := rfl

theorem reset (h : w.Fits t) : w.reset.Fits t where
  best_size := (size_erase _ _).trans h.best_size
  egress_size := (size_erase _ _).trans h.egress_size
  scanStart_size := Array.size_replicate.trans h.scanStart_size
  labelled_over := h.labelled_over.clear
  destinations_over := h.destinations_over.clear
  improved_over := h.improved_over.clear
  reached_over := h.reached_over.clear
  touched_over := h.touched_over
  mem_labelled := fun i id hb => absurd hb (h.clean_reset.best i id)
  mem_destinations := fun i e he => absurd he (h.clean_reset.egress i e)
  exists_label := fun i id hb => absurd hb (h.clean_reset.best i id)
  scanStart_route := fun r s hs => by
    have hrep : (Array.replicate w.scanStart.size (none : Option Nat))[r]? = some (some s) := hs
    rw [Array.getElem?_replicate] at hrep
    split at hrep <;> exact absurd hrep (by simp)

end Fits

end Workspace

end Journey
