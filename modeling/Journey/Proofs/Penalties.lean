import Mathlib.Tactic.Linarith
import Journey.Parameters.ModeChange
import Journey.Proofs.Dictionary
import Journey.Proofs.Exact

/-!
# Transfer Penalties

What a transfer costs, as a function of the time travelled.

A table of mode changes is checked entry by entry before it is used, and so is a
penalty. What the search gets from these checks is little: an entry is about two
modes, so staying with a mode is never punished, and nothing that goes into a
price is negative. Then no price is negative, and prices do not fall as time
passes, because keeping a value between two bounds respects the order even if the
bounds have to be exchanged first.

## Main definitions

* `ModeChangeTable.Sound`: What the check of a table leaves.
* `TransferPenalty.Nonneg`: What the check of a penalty leaves.

## Theorems

* `ModeChangeTable.get?_insert`: What is found after a penalty was written.
* `ModeChangeTable.sound_of_ofEntries`: A table that was accepted is sound.
* `ModeChangeTable.Sound.penalty_self`: Staying with a mode is not punished.
* `Parameters.transferPenalty_nonneg`: A penalty that was accepted has no negative
  component.
* `TransferPenalty.Nonneg.costWithBase_mono`: Prices do not fall as time passes.
* `TransferPenalty.Nonneg.costWithBase_nonneg`: No price is negative.
-/

namespace Journey

variable {K : Type} [Field K] [LinearOrder K]

theorem Scalar.smaller_eq_min (a b : K) : smaller a b = min a b := by
  unfold smaller
  by_cases h : b ≤ a
  · rw [if_pos (Or.inl h), min_eq_right h]
  · rw [if_neg (by simp only [h, le_refl, not_true_eq_false, or_self, not_false_eq_true]),
      min_eq_left (le_of_not_ge h)]

namespace ModeChangeTable

/-- The penalties are for changes from one mode to another, and nothing is granted for
    one. -/
structure Sound (table : ModeChangeTable K) : Prop where
  changes : ∀ mode, table.get? mode mode = none
  nonneg : ∀ origin target penalty, table.get? origin target = some penalty → 0 ≤ penalty

variable {table table' : ModeChangeTable K} {modes : List Mode}

theorem of_entryDefect?_eq_none {e : ModeChangePenalty K}
    (h : table.entryDefect? modes e = none) : e.origin ≠ e.target ∧ 0 ≤ e.penalty := by
  unfold entryDefect? at h
  split at h
  · exact absurd h (Option.some_ne_none _)
  · split at h
    · exact absurd h (Option.some_ne_none _)
    · split at h
      · exact absurd h (Option.some_ne_none _)
      · rename_i hchange
        split at h
        · exact absurd h (Option.some_ne_none _)
        · rename_i hsign
          rw [Bool.not_eq_true', Bool.not_eq_false, Scalar.isNonnegative_iff] at hsign
          exact ⟨hchange, hsign⟩

omit [Field K] [LinearOrder K] in
/-- What is found after a penalty was written is that penalty, or what was there before. -/
theorem get?_insert (table : ModeChangeTable K) (e : ModeChangePenalty K) (origin target : Mode) :
    (table.insert e).get? origin target =
      if origin = e.origin ∧ target = e.target then some e.penalty
      else table.get? origin target := by
  unfold insert get?
  simp only [Dictionary.get?_insert, Identifier.text_inj]
  by_cases horigin : origin = e.origin
  · rw [if_pos horigin, Option.bind_some, Dictionary.get?_insert, horigin]
    simp only [Identifier.text_inj, true_and]
    cases table.rows.get? e.origin.text with
    | some row => rfl
    | none => rfl
  · rw [if_neg horigin, if_neg fun h => horigin h.1]

/-- A penalty that has no defect keeps a table sound. -/
theorem Sound.insert (h : table.Sound) {e : ModeChangePenalty K}
    (hdefect : table.entryDefect? modes e = none) : (table.insert e).Sound := by
  rcases of_entryDefect?_eq_none hdefect with ⟨hchange, hsign⟩
  refine ⟨fun mode => ?_, fun origin target penalty hget => ?_⟩
  · rw [get?_insert, if_neg fun heq => hchange (heq.1.symm.trans heq.2)]
    exact h.changes mode
  · rw [get?_insert] at hget
    split at hget
    · exact Option.some.inj hget ▸ hsign
    · exact h.nonneg origin target penalty hget

/-- Entries that have no defect keep a table sound. -/
theorem Sound.addEntries (h : table.Sound) (entries : List (ModeChangePenalty K)) :
    table.addEntries modes entries = .ok table' → table'.Sound := by
  induction entries generalizing table with
  | nil =>
      intro hadd
      rw [ModeChangeTable.addEntries, Except.ok.injEq] at hadd
      exact hadd ▸ h
  | cons e rest ih =>
      intro hadd
      rw [ModeChangeTable.addEntries] at hadd
      cases hdefect : table.entryDefect? modes e with
      | some defect =>
          rw [hdefect] at hadd
          exact absurd hadd (by simp only [reduceCtorEq, not_false_eq_true])
      | none =>
          rw [hdefect] at hadd
          exact ih (h.insert hdefect) hadd

/-- A table that was accepted is sound. -/
theorem sound_of_ofEntries {entries : List (ModeChangePenalty K)}
    (h : ofEntries entries modes = .ok table) : table.Sound :=
  Sound.addEntries ⟨fun _ => rfl, fun _ _ _ hget => absurd hget.symm (Option.some_ne_none _)⟩
    entries h

/-- Staying with a mode is not punished. -/
theorem Sound.penalty_self (h : table.Sound) (mode : Mode) : table.penalty mode mode = 0 := by
  unfold penalty
  rw [h.changes mode]
  rfl

theorem Sound.penalty_nonneg (h : table.Sound) (origin target : Mode) :
    0 ≤ table.penalty origin target := by
  unfold penalty
  cases hget : table.get? origin target with
  | none => exact le_refl 0
  | some penalty => exact h.nonneg origin target penalty hget

end ModeChangeTable

namespace TransferPenalty

/-- Nothing that goes into a price is negative. -/
structure Nonneg (p : TransferPenalty K) : Prop where
  base : 0 ≤ p.base
  perHour : 0 ≤ p.perHour
  minimum : ∀ a ∈ p.minimum, 0 ≤ a
  maximum : ∀ a ∈ p.maximum, 0 ≤ a

variable {p : TransferPenalty K}

theorem nonneg_of_defect?_eq_none (h : p.defect? = none) : p.Nonneg := by
  unfold defect? at h
  rw [List.findSome?_eq_none_iff] at h
  have hcomponent : ∀ name value, (name, value) ∈
      [("base", some p.base), ("per_hour", some p.perHour), ("min", p.minimum),
        ("max", p.maximum)] → ∀ a ∈ value, 0 ≤ a := by
    intro name value hmem a ha
    have hnone := Option.bind_eq_none_iff.mp (h (name, value) hmem) a ha
    by_contra hneg
    rw [if_neg (by rwa [Scalar.isNonnegative_iff])] at hnone
    exact absurd hnone (Option.some_ne_none _)
  exact ⟨hcomponent "base" _ (by simp) _ rfl, hcomponent "per_hour" _ (by simp) _ rfl,
    hcomponent "min" _ (by simp), hcomponent "max" _ (by simp)⟩

-- The bounds are exchanged if they are the wrong way round, but they are the same.
theorem Nonneg.upper (h : p.Nonneg) : ∀ a ∈ p.upper, 0 ≤ a := by
  intro a ha
  unfold TransferPenalty.upper at ha
  split at ha
  · rename_i lo hi hlo hhi
    rw [Option.mem_some_iff, Scalar.larger_eq_max] at ha
    rw [← ha]
    exact le_max_of_le_left (h.minimum lo hlo)
  · exact h.maximum a ha

theorem clamp_mono {cost cost' : K} (h : cost ≤ cost') : p.clamp cost ≤ p.clamp cost' := by
  unfold clamp
  cases p.upper with
  | none =>
      cases p.lower with
      | none => exact h
      | some lower =>
          simp only [Scalar.larger_eq_max]
          exact max_le_max_right lower h
  | some upper =>
      cases p.lower with
      | none =>
          simp only [Scalar.smaller_eq_min]
          exact min_le_min_right upper h
      | some lower =>
          simp only [Scalar.larger_eq_max, Scalar.smaller_eq_min]
          exact max_le_max_right lower (min_le_min_right upper h)

theorem Nonneg.clamp_nonneg (h : p.Nonneg) {cost : K} (hcost : 0 ≤ cost) : 0 ≤ p.clamp cost := by
  have hupper := h.upper
  unfold clamp
  cases p.lower with
  | none =>
      cases hbound : p.upper with
      | none => exact hcost
      | some upper =>
          simp only [Scalar.smaller_eq_min]
          exact le_min hcost (hupper upper hbound)
  | some lower =>
      cases hbound : p.upper with
      | none =>
          simp only [Scalar.larger_eq_max]
          exact le_max_of_le_left hcost
      | some upper =>
          simp only [Scalar.larger_eq_max, Scalar.smaller_eq_min]
          exact le_max_of_le_left (le_min hcost (hupper upper hbound))

variable [IsStrictOrderedRing K] {extra extra' elapsed elapsed' : K}

/-- Prices do not fall as time passes. -/
theorem Nonneg.costWithBase_mono (h : p.Nonneg) (hextra : extra ≤ extra')
    (helapsed : elapsed ≤ elapsed') :
    p.costWithBase extra elapsed ≤ p.costWithBase extra' elapsed' := by
  have hhour : (0 : K) ≤ Scalar.secondsPerHour := Nat.cast_nonneg 3600
  have hmul := div_le_div_of_nonneg_right (mul_le_mul_of_nonneg_left helapsed h.perHour) hhour
  unfold costWithBase
  refine clamp_mono ?_
  linarith

/-- No price is negative. -/
theorem Nonneg.costWithBase_nonneg (h : p.Nonneg) (hextra : 0 ≤ extra) (helapsed : 0 ≤ elapsed) :
    0 ≤ p.costWithBase extra elapsed := by
  have hhour : (0 : K) ≤ Scalar.secondsPerHour := Nat.cast_nonneg 3600
  have hmul := div_nonneg (mul_nonneg h.perHour helapsed) hhour
  have hbase := h.base
  unfold costWithBase
  refine h.clamp_nonneg ?_
  linarith

end TransferPenalty

/-- A penalty that was accepted has no negative component. -/
theorem Parameters.transferPenalty_nonneg {p : Parameters K} (h : p.validate = .ok ()) :
    p.transferPenalty.Nonneg := by
  rw [validate_eq_ok_iff] at h
  unfold defect? at h
  simp only [Option.or_eq_none_iff] at h
  exact TransferPenalty.nonneg_of_defect?_eq_none h.2.1

end Journey
