import Mathlib.Data.List.Nodup
import Journey.Proofs.Timetable.StopLookup

/-!
# Making a Draft

What is true of every draft that is made step by step.

A draft is not put together at once: stops, routes and footpaths are added one after
the other and in any order, and how footpaths are generated may be said at any time,
also more than once. Of all this only the stops are checked on the way, and a stop that
is refused leaves the draft as it is. So no two stops of a draft share an identifier and
all of them are somewhere, however it was made, and its routes are those that were added,
in that order.

## Main definitions

* `Edit`: One step in making a draft.
* `Draft.apply`, `Draft.ofEdits`: The draft after a step, and after many.
* `Draft.Distinct`: No two stops share an identifier.
* `Draft.Located`: Every stop is somewhere.

## Theorems

* `Draft.apply_refused`: A stop that is refused leaves the draft as it is.
* `Draft.Distinct.apply`, `Draft.distinct_ofEdits`: The stops stay distinct.
* `Draft.Located.apply`, `Draft.located_ofEdits`: The stops stay somewhere.
* `Draft.routes_ofEdits`: The routes are those that were added.
-/

namespace Journey

variable {α : Type}

/-- One step in making a draft. -/
inductive Edit (α : Type) where
  | addStop (stop : Stop α)
  | addRoute (plan : RoutePlan α)
  | addFootpath (footpath : PlannedFootpath α)
  /-- Whether every stop has a footpath to itself. -/
  | setIntraStop (enabled : Bool)
  /-- How footpaths are generated, in place of what was said before. -/
  | setFootpathRule (rule : FootpathRule α)

/-- The plan of the route that a step adds, if it does. -/
def Edit.plan? : Edit α → Option (RoutePlan α)
  | addRoute plan => some plan
  | addStop _ | addFootpath _ | setIntraStop _ | setFootpathRule _ => none

namespace Draft

variable [Scalar α]

/-- The draft after one more step. A stop that is refused leaves it as it is. -/
def apply (d : Draft α) : Edit α → Draft α
  | .addStop stop =>
    match d.addStop stop with
    | .ok (d, _) => d
    | .error _ => d
  | .addRoute plan => d.addRoute plan
  | .addFootpath footpath => d.addFootpath footpath
  | .setIntraStop enabled => { d with intraStop := enabled }
  | .setFootpathRule rule => { d with footpathRule := some rule }

/-- The draft that is made by some steps, one after the other. -/
def ofEdits (edits : List (Edit α)) : Draft α := edits.foldl apply empty

/-- No two stops share an identifier. -/
def Distinct {α : Type} (d : Draft α) : Prop := (d.stops.toList.map (·.id)).Nodup

/-- Every stop is somewhere. -/
def Located (d : Draft α) : Prop := ∀ stop ∈ d.stops, stop.position.isFinite

variable {d : Draft α} {stop : Stop α}

theorem apply_refused {defect : Defect α} (h : d.addStop stop = .error defect) :
    d.apply (.addStop stop) = d := by
  simp only [apply, h]

-- A stop that is not refused is new and somewhere, and becomes the last one.
theorem addStop_eq_ok {d' : Draft α} {index : Nat} (h : d.addStop stop = .ok (d', index)) :
    (d.hasStop stop.id = false ∧ stop.position.isFinite) ∧ index = d.stops.size ∧
      d' = d.pushStop stop := by
  unfold addStop at h
  split at h
  · exact absurd h (by simp only [reduceCtorEq, not_false_eq_true])
  · rename_i hnew
    split at h
    · exact absurd h (by simp only [reduceCtorEq, not_false_eq_true])
    · rename_i hfinite
      rw [Bool.not_eq_true', Bool.not_eq_false] at hfinite
      rw [Except.ok.injEq, Prod.mk.injEq] at h
      exact ⟨⟨Bool.eq_false_iff.mpr hnew, hfinite⟩, h.2.symm, h.1.symm⟩

-- A stop is refused or it is new and somewhere.
theorem apply_addStop_cases (d : Draft α) (stop : Stop α) :
    d.apply (.addStop stop) = d ∨
      (d.hasStop stop.id = false ∧ stop.position.isFinite) ∧
        d.apply (.addStop stop) = d.pushStop stop := by
  cases h : d.addStop stop with
  | error defect => exact Or.inl (apply_refused h)
  | ok r =>
      rcases addStop_eq_ok h with ⟨hnew, -, hd'⟩
      exact Or.inr ⟨hnew, by simp only [apply, h, hd']⟩

-- The other steps do not touch the stops.
theorem stops_apply_cases (d : Draft α) (edit : Edit α) :
    (d.apply edit).stops = d.stops ∨
      ∃ stop, (d.hasStop stop.id = false ∧ stop.position.isFinite) ∧
        (d.apply edit).stops = d.stops.push stop := by
  cases edit with
  | addStop stop =>
      rcases d.apply_addStop_cases stop with heq | ⟨hnew, heq⟩
      · exact Or.inl (by rw [heq])
      · exact Or.inr ⟨stop, hnew, by rw [heq]; rfl⟩
  | addRoute | addFootpath | setIntraStop | setFootpathRule => exact Or.inl rfl

/-- A step keeps the stops distinct. -/
theorem Distinct.apply (h : d.Distinct) (edit : Edit α) : (d.apply edit).Distinct := by
  unfold Distinct
  rcases stops_apply_cases d edit with heq | ⟨stop, ⟨hnew, -⟩, heq⟩
  · rw [heq]
    exact h
  · rw [heq, Array.toList_push, List.map_append, List.map_singleton, List.nodup_append]
    refine ⟨h, List.nodup_singleton _, fun id hid id' hid' hsame => ?_⟩
    -- Otherwise the draft had a stop with this identifier.
    rcases List.mem_map.mp hid with ⟨other, hother, rfl⟩
    rw [List.mem_singleton.mp hid'] at hsame
    have hhas : d.hasStop stop.id = true := by
      rw [hasStop_eq_any, Array.any_eq_true']
      exact ⟨other, Array.mem_toList_iff.mp hother, decide_eq_true hsame⟩
    exact absurd (hhas.symm.trans hnew) Bool.noConfusion

/-- However a draft is made, its stops are distinct. -/
theorem distinct_ofEdits (edits : List (Edit α)) : (ofEdits edits).Distinct :=
  List.foldlRecOn edits apply List.nodup_nil fun _ hd edit _ => hd.apply edit

/-- A step keeps the stops somewhere. -/
theorem Located.apply (h : d.Located) (edit : Edit α) : (d.apply edit).Located := by
  unfold Located
  rcases stops_apply_cases d edit with heq | ⟨stop, ⟨-, hfinite⟩, heq⟩
  · rw [heq]
    exact h
  · rw [heq]
    intro other hother
    rcases Array.mem_push.mp hother with hold | rfl
    · exact h other hold
    · exact hfinite

/-- However a draft is made, its stops are somewhere. -/
theorem located_ofEdits (edits : List (Edit α)) : (ofEdits edits).Located :=
  List.foldlRecOn edits apply (fun _ hc => absurd hc (Array.not_mem_empty _))
    fun _ hd edit _ => hd.apply edit

theorem routes_apply (d : Draft α) (edit : Edit α) :
    (d.apply edit).routes.toList = d.routes.toList ++ edit.plan?.toList := by
  cases edit with
  | addStop stop =>
      rcases d.apply_addStop_cases stop with heq | ⟨-, heq⟩ <;> rw [heq] <;>
        exact (List.append_nil _).symm
  | addRoute plan => exact Array.toList_push
  | addFootpath | setIntraStop | setFootpathRule => exact (List.append_nil _).symm

/-- The routes of a draft are those that were added, in that order. -/
theorem routes_ofEdits (edits : List (Edit α)) :
    (ofEdits edits).routes.toList = edits.filterMap Edit.plan? := by
  have hrun : ∀ (edits : List (Edit α)) (d : Draft α),
      (edits.foldl apply d).routes.toList = d.routes.toList ++ edits.filterMap Edit.plan? := by
    intro edits
    induction edits with
    | nil => exact fun d => (List.append_nil _).symm
    | cons edit rest ih =>
        intro d
        rw [List.foldl_cons, ih, routes_apply, List.append_assoc]
        cases h : edit.plan? <;> simp only [List.filterMap_cons, h, Option.toList_none,
          Option.toList_some, List.nil_append, List.singleton_append]
  exact (hrun edits empty).trans (List.nil_append _)

end Draft

end Journey
