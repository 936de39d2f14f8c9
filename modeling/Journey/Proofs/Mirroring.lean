import Journey.Proofs.Measuring
import Journey.Proofs.WholeNumbers

/-!
# Mirroring in Floating Point

Why it is as far there as back, although distances are rounded.

Two places differ by the same amounts in either direction, but for the signs. Rounding looks
at the magnitude of a number and passes the sign on, and packing writes the two down apart
from each other. So the differences that a distance is made from are again the same but for
the signs, which the length of a vector does not depend on. All of this also holds of what
is infinite or no number: there is only one bit pattern that is not a number.

## Theorems

* `FloatingPoint.abs_normalize`: What is rounded is a magnitude.
* `FloatingPoint.abs_sub`: A difference and the one taken the other way round.
* `FloatingPoint.abs_unpack_pack`: Packing writes down the sign apart from the magnitude.
* `FloatingPoint.hypotenuse_eq`: The length of a vector depends on magnitudes.
-/

namespace Journey

namespace FloatingPoint

open Float.Model Float.Model.UnpackedFloat

section Results

variable {f g : UnpackedFloat}

theorem abs_roundWithAccuracy (s s' : Sign) (m : ℕ) (e : ℤ) (accuracy : Accuracy) :
    (roundWithAccuracy Format.binary64 s m e accuracy).abs =
      (roundWithAccuracy Format.binary64 s' m e accuracy).abs := by
  unfold roundWithAccuracy
  dsimp only
  split <;> rfl

theorem round_zero (s : Sign) (k : ℤ) : UnpackedFloat.round Format.binary64 s 0 k = .zero s := by
  have hshift : ∀ d : ℕ, (⟨0, false, false⟩ : ExtendedMantissa) >>> d = ⟨0, false, false⟩ := by
    intro d
    have hzeros := shiftRight_zeros d 0
    rwa [Nat.zero_mul] at hzeros
  unfold UnpackedFloat.round decreaseExponent roundWithAccuracy shiftToTargetExponent
    shiftToExponent ExtendedMantissa.ofMantissaAndAccuracy
  dsimp only
  rw [Nat.zero_shiftLeft, hshift, dif_pos]
  exact congrArg ExtendedMantissa.mantissa (hshift _)

theorem abs_normalize (m e : ℤ) :
    (UnpackedFloat.normalize Format.binary64 m e .positive).abs =
      (UnpackedFloat.round Format.binary64 .positive m.natAbs e).abs := by
  unfold UnpackedFloat.normalize
  rcases lt_trichotomy m 0 with hlt | rfl | hgt
  · rw [compare_lt_iff_lt.mpr hlt, show (-m).toNat = m.natAbs by omega]
    exact abs_roundWithAccuracy _ _ _ _ _
  · rw [Int.natAbs_zero, round_zero]
    rfl
  · rw [compare_gt_iff_gt.mpr hgt, show m.toNat = m.natAbs by omega]

/-- A difference is the same as the one taken the other way round, but for its sign. -/
theorem abs_sub (f g : UnpackedFloat) :
    (UnpackedFloat.sub Format.binary64 f g).abs = (UnpackedFloat.sub Format.binary64 g f).abs := by
  rcases f with s | _ | s | ⟨s, m, e, hm⟩ <;> rcases g with s' | _ | s' | ⟨s', n, k, hn⟩ <;>
    -- Only finite numbers are rounded. Of the others, the signs alone matter.
    try first | rfl | (cases s <;> cases s' <;> rfl)
  unfold UnpackedFloat.sub
  dsimp only
  rw [min_comm k e, ← neg_sub (s'.apply _), abs_normalize, abs_normalize, Int.natAbs_neg]

/-- Numbers are added in either order. -/
theorem add_swap (f g : UnpackedFloat) :
    UnpackedFloat.add Format.binary64 f g = UnpackedFloat.add Format.binary64 g f := by
  rcases f with s | _ | s | ⟨s, m, e, hm⟩ <;> rcases g with s' | _ | s' | ⟨s', n, k, hn⟩ <;>
    try first | rfl | (cases s <;> cases s' <;> rfl)
  unfold UnpackedFloat.add
  dsimp only
  rw [min_comm k e, add_comm (s'.apply _)]

end Results

section Packing

variable {f g : UnpackedFloat}

theorem abs_unpack_packComponents (s s' : Sign) (e : BitVec 11) (m : BitVec 52) :
    (UnpackedFloat.unpack Format.binary64 (packComponents Format.binary64 s e m)).abs =
      (UnpackedFloat.unpack Format.binary64 (packComponents Format.binary64 s' e m)).abs := by
  unfold UnpackedFloat.unpack
  simp only [unpackExponent_packComponents, unpackMantissa_packComponents,
    unpackSign_packComponents, Sign.ofBitVec_toBitVec]
  split
  · split <;> rfl
  · split
    · split <;> rfl
    · rfl

/-- Packing writes down the sign apart from the magnitude. -/
theorem abs_unpack_pack (h : f.abs = g.abs) :
    (Float.Model.pack f).unpack.abs = (Float.Model.pack g).unpack.abs := by
  change (UnpackedFloat.unpack Format.binary64 (UnpackedFloat.pack Format.binary64 f)).abs =
    (UnpackedFloat.unpack Format.binary64 (UnpackedFloat.pack Format.binary64 g)).abs
  rcases f with s | _ | s | ⟨s, m, e, hm⟩ <;> rcases g with s' | _ | s' | ⟨s', n, k, hn⟩ <;>
    cases h
  case infinity.infinity => exact abs_unpack_packComponents _ _ _ _
  case notANumber.notANumber => rfl
  case zero.zero => exact abs_unpack_packComponents _ _ _ _
  case finite.finite =>
    unfold UnpackedFloat.pack
    dsimp only
    split
    · exact abs_unpack_packComponents _ _ _ _
    · split <;> exact abs_unpack_packComponents _ _ _ _

end Packing

section Lengths

variable {x x' y y' : Float}

-- There is only one result that is not a number.
theorem add_eq_of_notANumber (h : x.toModel.unpack = .notANumber ∨ y.toModel.unpack = .notANumber) :
    x + y = .ofModel (Float.Model.pack .notANumber) := by
  have hadd : x + y = .ofModel (Float.Model.pack (UnpackedFloat.add Format.binary64
    x.toModel.unpack y.toModel.unpack)) := rfl
  rw [hadd]
  rcases h with h | h <;> rw [h]
  · rfl
  · cases x.toModel.unpack <;> rfl

/-- The length of a vector depends on the magnitudes of its components alone. -/
theorem hypotenuse_eq (hx : x.toModel.unpack.abs = x'.toModel.unpack.abs)
    (hy : y.toModel.unpack.abs = y'.toModel.unpack.abs) :
    Binary64.hypotenuse x y = Binary64.hypotenuse x' y' := by
  have hxabs : x.abs = x'.abs := congrArg (fun f => Float.ofModel (Float.Model.pack f)) hx
  have hyabs : y.abs = y'.abs := congrArg (fun f => Float.ofModel (Float.Model.pack f)) hy
  have hnan := @add_eq_of_notANumber x y
  have hnan' := @add_eq_of_notANumber x' y'
  unfold Binary64.hypotenuse
  simp only [Binary64.ofFloat_eq]
  generalize x.toModel.unpack = f at *
  generalize x'.toModel.unpack = f' at *
  generalize y.toModel.unpack = g at *
  generalize y'.toModel.unpack = g' at *
  cases f <;> cases f' <;> cases hx <;> cases g <;> cases g' <;> cases hy <;>
    first
    | exact hxabs
    | exact hyabs
    | exact (hnan (Or.inl rfl)).trans (hnan' (Or.inl rfl)).symm
    | exact (hnan (Or.inr rfl)).trans (hnan' (Or.inr rfl)).symm
    | rfl

end Lengths

/-- In floating point, too, it is as far there as back. -/
instance : Planar.Symmetric Float where
  add_comm := fun a b => congrArg (fun f => Float.ofModel (Float.Model.pack f))
    (add_swap a.toModel.unpack b.toModel.unpack)
  distance_comm := fun _ _ => hypotenuse_eq (abs_unpack_pack (abs_sub _ _))
    (abs_unpack_pack (abs_sub _ _))

end FloatingPoint

end Journey
