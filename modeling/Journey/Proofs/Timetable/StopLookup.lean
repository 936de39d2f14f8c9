import Mathlib.Data.List.Induction
import Mathlib.Data.List.Nodup
import Journey.Timetable.Assembly

/-!
# Looking Up Stops

What the table of identifiers says about the stops.

Every stop is written into the table when it is added, under its identifier and with its
position, and nothing else is ever written there. So what the table finds is a stop with the
identifier that was asked for. If several stops shared one, it would be the last of them; but
no two stops of a draft do, and then looking a stop up is the same as going through all of
them.

## Theorems

* `Stop.isSome_get?_lookup`: The identifiers in the table are those of the stops.
* `Stop.getElem?_of_get?_lookup`: What is found has the identifier.
* `Stop.get?_lookup_eq_some_iff`: If no two stops share an identifier, the one that has it is
  found.
* `Draft.findStop?_assemble`: Looking a stop up is going through the stops.
-/

namespace Journey

variable {α : Type}

namespace Stop

/-- The identifiers in the table are those of the stops. -/
theorem isSome_get?_lookup (stops : List (Stop α)) (id : StopId) :
    ((lookup stops).get? id.text).isSome = stops.any (·.id = id) := by
  induction stops using List.reverseRecOn with
  | nil => rfl
  | append_singleton stops stop ih =>
      rw [lookup_concat, Dictionary.get?_insert, List.any_append, List.any_cons, List.any_nil,
        Bool.or_false, ← ih]
      by_cases h : stop.id = id
      · rw [if_pos (congrArg Identifier.text h.symm), decide_eq_true h, Bool.or_true,
          Option.isSome_some]
      · rw [if_neg fun heq => h (Identifier.text_inj.mp heq.symm), decide_eq_false h,
          Bool.or_false]

/-- What is found has the identifier. -/
theorem getElem?_of_get?_lookup {stops : List (Stop α)} {id : StopId} {i : Nat}
    (h : (lookup stops).get? id.text = some i) : ∃ stop, stops[i]? = some stop ∧ stop.id = id := by
  induction stops using List.reverseRecOn with
  | nil => exact absurd h.symm (Option.some_ne_none i)
  | append_singleton stops stop ih =>
      rw [lookup_concat, Dictionary.get?_insert] at h
      split at h
      · rename_i hid
        rw [← Option.some.inj h]
        exact ⟨stop, List.getElem?_concat_length, (Identifier.text_inj.mp hid).symm⟩
      · rcases ih h with ⟨other, hother, hid⟩
        exact ⟨other, List.getElem?_append_left (List.getElem?_eq_some_iff.mp hother).1 ▸ hother,
          hid⟩

/-- If no two stops share an identifier, the one that has it is found. -/
theorem get?_lookup_eq_some_iff {stops : List (Stop α)} (h : (stops.map (·.id)).Nodup)
    (id : StopId) (i : Nat) :
    (lookup stops).get? id.text = some i ↔ ∃ stop, stops[i]? = some stop ∧ stop.id = id := by
  refine ⟨getElem?_of_get?_lookup, ?_⟩
  rintro ⟨stop, hstop, rfl⟩
  have hsome : ((lookup stops).get? stop.id.text).isSome := by
    rw [isSome_get?_lookup, List.any_eq_true]
    exact ⟨stop, List.mem_of_getElem? hstop, decide_eq_true rfl⟩
  rcases Option.isSome_iff_exists.mp hsome with ⟨j, hj⟩
  rcases getElem?_of_get?_lookup hj with ⟨other, hother, hid⟩
  -- The stop that is found cannot be another one.
  have hids : (stops.map (·.id))[j]? = (stops.map (·.id))[i]? := by
    rw [List.getElem?_map, List.getElem?_map, hother, hstop, Option.map_some, Option.map_some, hid]
  have hlt : j < (stops.map (·.id)).length := by
    rw [List.length_map]
    exact (List.getElem?_eq_some_iff.mp hother).1
  rw [hj, (List.getElem?_inj hlt h).mp hids]

end Stop

namespace Draft

theorem hasStop_eq_any (d : Draft α) (id : StopId) : d.hasStop id = d.stops.any (·.id = id) := by
  unfold hasStop Dictionary.contains
  rw [d.stopLookup_eq, Stop.isSome_get?_lookup, Array.any_toList]

variable [Scalar α] [Planar α] [MarkerTree α]

/-- A stop that has been added is found at its position. -/
theorem findStop?_of_hasStop (d : Draft α) {id : StopId} (h : d.hasStop id = true) :
    d.assemble.findStop? id = some (d.stopIndex id) := by
  rcases Option.isSome_iff_exists.mp h with ⟨index, hget⟩
  refine Eq.trans hget ?_
  rw [stopIndex, hget, Option.getD_some]

theorem findStop?_eq_some_iff (d : Draft α) (h : (d.stops.toList.map (·.id)).Nodup)
    (id : StopId) (i : Nat) :
    d.assemble.findStop? id = some i ↔ ∃ stop, d.assemble.stops[i]? = some stop ∧ stop.id = id := by
  have hiff := Stop.get?_lookup_eq_some_iff h id i
  rw [← d.stopLookup_eq, Array.getElem?_toList] at hiff
  exact hiff

/-- If no two stops share an identifier, looking one up is going through the stops. -/
theorem findStop?_assemble (d : Draft α) (h : (d.stops.toList.map (·.id)).Nodup) (id : StopId) :
    d.assemble.findStop? id = d.assemble.stops.findIdx? (·.id = id) := by
  cases hfound : d.assemble.stops.findIdx? (·.id = id) with
  | none =>
      have hnone : d.hasStop id = false := by
        rw [d.hasStop_eq_any, ← Array.findIdx?_isSome]
        exact congrArg Option.isSome hfound
      exact Option.isNone_iff_eq_none.mp (Option.isSome_eq_false_iff.mp hnone)
  | some i =>
      rcases Array.findIdx?_eq_some_iff_getElem.mp hfound with ⟨hi, hid, -⟩
      exact (d.findStop?_eq_some_iff h id i).mpr
        ⟨_, Array.getElem?_eq_getElem hi, of_decide_eq_true hid⟩

end Draft

end Journey
