import Journey.Binary64
import Journey.Proofs.Rounding

/-!
# Whole Numbers in Floating Point

Which whole numbers floating point has exactly, and how they are read back.

A number of 64 bits is read in two ways in this library. `Binary64.ofFloat` takes its bits
apart as natural numbers, and calculations unpack them as bit vectors. The two agree
(`ofFloat_eq`), so what is known of packing and rounding says what a calculated number
is exactly.

A mantissa that ends in as many zeros as are cut off loses nothing when it is cut, and
there is nothing to round. So a whole number below 2 ^ 53 becomes the floating point number
with exactly that value. Conversely, a floating point number whose value is a whole number
is not changed by rounding to whole numbers.

## Main definitions

* `Binary64.ofUnpacked`: The reading of an unpacked number.
* `Binary64.value?`: The exact value of a number.

## Theorems

* `Binary64.ofFloat_eq`: Reading the bits is unpacking.
* `FloatingPoint.roundWithAccuracy_zeros`: Nothing is lost with zeros.
* `FloatingPoint.value?_ofNat`: Whole numbers below 2 ^ 53 are exact.
* `Binary64.exists_finite_of_value?`: What is whole is not negative.
* `Binary64.roundedMagnitude_eq`: Whole numbers are not changed by rounding.
-/

namespace Journey

open Float.Model Float.Model.UnpackedFloat

namespace Binary64

open FloatingPoint

/-- Whether a sign is that of negative numbers. -/
def isNegative : Sign → Bool
  | .negative => true
  | .positive => false

/-- The reading of an unpacked number. -/
def ofUnpacked : UnpackedFloat → Binary64
  | .infinity s => .infinite (isNegative s)
  | .notANumber => .notANumber
  | .zero s => .finite (isNegative s) 0 leastExponent
  | .finite s m e _ => .finite (isNegative s) m e

/-- The exact value of a number. -/
def value? : Binary64 → Option ℚ
  | .finite negative m e => some (if negative then -magnitude m e else magnitude m e)
  | .infinite _ | .notANumber => none

section Reading

variable (b : BitVec 64)

theorem toNat_unpackMantissa :
    (@unpackMantissa Format.binary64 b).toNat = b.toNat % 2 ^ 52 := by
  unfold unpackMantissa
  rw [BitVec.toNat_cast, BitVec.extractLsb_toNat]
  rfl

theorem toNat_unpackExponent :
    (@unpackExponent Format.binary64 b).toNat = b.toNat / 2 ^ 52 % 2 ^ 11 := by
  unfold unpackExponent
  rw [BitVec.toNat_cast, BitVec.extractLsb_toNat, Nat.shiftRight_eq_div_pow]
  rfl

theorem isNegative_unpackSign :
    isNegative (Sign.ofBitVec (@unpackSign Format.binary64 b)) = decide (2 ^ 63 ≤ b.toNat) := by
  have hsign : (@unpackSign Format.binary64 b).toNat = b.toNat / 2 ^ 63 % 2 := by
    unfold unpackSign
    rw [BitVec.toNat_cast, BitVec.extractLsb_toNat, Nat.shiftRight_eq_div_pow]
    rfl
  have hlt := b.isLt
  unfold Sign.ofBitVec
  by_cases hzero : @unpackSign Format.binary64 b = 0#1
  · rw [if_pos hzero]
    rw [hzero] at hsign
    change 0 = _ at hsign
    exact (decide_eq_false (by omega)).symm
  · rw [if_neg hzero]
    have hpos : (@unpackSign Format.binary64 b).toNat ≠ 0 :=
      fun hc => hzero (BitVec.eq_of_toNat_eq hc)
    exact (decide_eq_true (by omega)).symm

end Reading

/-- Reading the bits is unpacking. -/
theorem ofFloat_eq (x : Float) : ofFloat x = ofUnpacked x.toModel.unpack := by
  have hzero : @unpackMantissa Format.binary64 x.toBits.toBitVec = 0#52 ↔
      x.toBits.toNat % Nat.pow 2 52 = 0 := by
    rw [← BitVec.toNat_inj, toNat_unpackMantissa]
    rfl
  have hlargest : @unpackExponent Format.binary64 x.toBits.toBitVec = -1#11 ↔
      x.toBits.toNat / Nat.pow 2 52 % Nat.pow 2 11 = 2047 := by
    rw [← BitVec.toNat_inj, toNat_unpackExponent]
    rfl
  have hleast : @unpackExponent Format.binary64 x.toBits.toBitVec = 0#11 ↔
      x.toBits.toNat / Nat.pow 2 52 % Nat.pow 2 11 = 0 := by
    rw [← BitVec.toNat_inj, toNat_unpackExponent]
    rfl
  have hsign : decide (Nat.pow 2 63 ≤ x.toBits.toNat) =
      isNegative (Sign.ofBitVec (@unpackSign Format.binary64 x.toBits.toBitVec)) :=
    (isNegative_unpackSign x.toBits.toBitVec).symm
  change _ = ofUnpacked (UnpackedFloat.unpack Format.binary64 x.toBits.toBitVec)
  unfold ofFloat UnpackedFloat.unpack
  dsimp only
  rw [hsign]
  by_cases h : @unpackExponent Format.binary64 x.toBits.toBitVec = -1#11
  · rw [if_pos h, if_pos (hlargest.mp h)]
    by_cases hm : @unpackMantissa Format.binary64 x.toBits.toBitVec = 0#52
    · rw [if_pos hm, if_pos (hzero.mp hm)]
      rfl
    · rw [if_neg hm, if_neg (mt hzero.mpr hm)]
      rfl
  · rw [if_neg h, if_neg (mt hlargest.mpr h)]
    by_cases he : @unpackExponent Format.binary64 x.toBits.toBitVec = 0#11
    · rw [if_pos he, if_pos (hleast.mp he)]
      by_cases hm : @unpackMantissa Format.binary64 x.toBits.toBitVec = 0#52
      · rw [dif_pos hm, hzero.mp hm]
        rfl
      · rw [dif_neg hm, he]
        unfold ofUnpacked
        dsimp only
        rw [toNat_unpackMantissa]
        rfl
    · rw [if_neg he, if_neg (mt hleast.mpr he)]
      unfold ofUnpacked
      dsimp only
      rw [toNat_one_append, toNat_unpackMantissa, toNat_unpackExponent, Nat.add_comm]
      congr 1
      change ((x.toBits.toNat / 2 ^ 52 % 2 ^ 11 : ℕ) : ℤ) - 1 + -1074 =
        (x.toBits.toNat / 2 ^ 52 % 2 ^ 11 : ℕ) - (1023 + 52)
      omega

end Binary64

namespace FloatingPoint

section Exact

variable {m : ℕ} {e : ℤ} {s : Sign}

-- Halving a mantissa that ends in zeros leaves no rest.
theorem shiftRight_zeros (d : ℕ) : ∀ m : ℕ,
    (⟨m * 2 ^ d, false, false⟩ : ExtendedMantissa) >>> d = ⟨m, false, false⟩ := by
  induction d with
  | zero =>
      intro m
      rw [Nat.pow_zero, Nat.mul_one]
      rfl
  | succ d ih =>
      intro m
      have hstep : (⟨m * 2 ^ (d + 1), false, false⟩ : ExtendedMantissa) >>> (d + 1) =
          ((⟨m * 2 * 2 ^ d, false, false⟩ : ExtendedMantissa) >>> d).shiftRightOne := by
        rw [Nat.pow_succ, Nat.mul_comm (2 ^ d), ← Nat.mul_assoc]
        rfl
      rw [hstep, ih (m * 2)]
      unfold ExtendedMantissa.shiftRightOne
      simp only [Nat.mul_div_cancel _ Nat.two_pos, Nat.mul_mod_left, bne_self_eq_false,
        Bool.or_self]

theorem log2_zeros (hm : 0 < m) (d : ℕ) : (m * 2 ^ d).log2 = m.log2 + d := by
  induction d with
  | zero => rw [Nat.pow_zero, Nat.mul_one, Nat.add_zero]
  | succ d ih =>
      have hpos : m * 2 ^ d ≠ 0 := Nat.ne_of_gt (Nat.mul_pos hm (Nat.two_pow_pos d))
      rw [Nat.pow_succ, ← Nat.mul_assoc, Nat.mul_comm, Nat.log2_two_mul hpos, ih, Nat.add_assoc]

/-- The exponent of what is canonical is where it would be cut. -/
theorem Canonical.target_eq (h : Canonical m e) (hm : 0 < m) (d : ℕ) :
    target (m * 2 ^ d) (e - d) = e := by
  have hhigh := (Nat.log2_lt (Nat.ne_of_gt hm)).mpr h.lt
  have hleast := h.least
  unfold target
  rw [log2_zeros hm]
  rcases hleast.eq_or_lt with heq | hlt
  · omega
  · have hlow := (Nat.le_log2 (Nat.ne_of_gt hm)).mpr (h.full hlt)
    omega

theorem shiftToTargetExponent_zeros (h : Canonical m e) (hm : 0 < m) (d : ℕ) :
    shiftToTargetExponent Format.binary64 (m * 2 ^ d) (e - d) .exact =
      (⟨m, false, false⟩, e) := by
  unfold shiftToTargetExponent shiftToExponent
  dsimp only
  rw [targetExponent_eq, h.target_eq hm, show (e - (e - d)).toNat = d by omega]
  refine Prod.ext (shiftRight_zeros d m) ?_
  dsimp only
  omega

/-- Nothing is lost when zeros are cut off. -/
theorem roundWithAccuracy_zeros (h : Canonical m e) (hm : 0 < m) (d : ℕ) :
    roundWithAccuracy Format.binary64 s (m * 2 ^ d) (e - d) .exact = .finite s m e hm := by
  have hagain := shiftToTargetExponent_zeros h hm 0
  rw [Nat.pow_zero, Nat.mul_one, Int.natCast_zero, Int.sub_zero] at hagain
  have hround : (⟨m, false, false⟩ : ExtendedMantissa).roundedMantissa = m := rfl
  unfold roundWithAccuracy
  simp only [shiftToTargetExponent_zeros h hm d, hround, hagain]
  rw [dif_neg (Nat.ne_of_gt hm)]

end Exact

section Whole

variable {n : ℕ}

/-- A whole number is canonical after a shift, unless it is too long. -/
theorem canonical_whole (hn : 0 < n) (hlt : n < 2 ^ 53) :
    Canonical (n * 2 ^ (52 - n.log2)) (-(52 - n.log2 : ℕ)) := by
  have hlog : n.log2 < 53 := (Nat.log2_lt (Nat.ne_of_gt hn)).mpr hlt
  refine ⟨?_, by omega, fun _ => ?_⟩
  · calc n * 2 ^ (52 - n.log2) < 2 ^ (n.log2 + 1) * 2 ^ (52 - n.log2) :=
          Nat.mul_lt_mul_of_pos_right Nat.lt_log2_self (Nat.two_pow_pos _)
      _ = 2 ^ 53 := by rw [← Nat.pow_add, show n.log2 + 1 + (52 - n.log2) = 53 by omega]
  · calc 2 ^ 52 = 2 ^ n.log2 * 2 ^ (52 - n.log2) := by
          rw [← Nat.pow_add, show n.log2 + (52 - n.log2) = 52 by omega]
      _ ≤ n * 2 ^ (52 - n.log2) :=
          Nat.mul_le_mul_right _ (Nat.log2_self_le (Nat.ne_of_gt hn))

theorem magnitude_whole (n c : ℕ) : magnitude (n * 2 ^ c) (-(c : ℤ)) = n := by
  rw [← magnitude_shift, neg_add_cancel]
  unfold magnitude
  rw [zpow_zero, mul_one]

theorem ofNat_eq_finite (hn : 0 < n) (hlt : n < 2 ^ 53) (hm : 0 < n * 2 ^ (52 - n.log2)) :
    UnpackedFloat.ofNat Format.binary64 n =
      .finite .positive (n * 2 ^ (52 - n.log2)) (-(52 - n.log2 : ℕ)) hm := by
  have hlog : n.log2 < 53 := (Nat.log2_lt (Nat.ne_of_gt hn)).mpr hlt
  have hround : UnpackedFloat.ofNat Format.binary64 n =
      UnpackedFloat.round Format.binary64 .positive n 0 := by
    change (match compare (n : ℤ) 0 with
      | .lt => _
      | .eq => _
      | .gt => UnpackedFloat.round Format.binary64 .positive (n : ℤ).toNat 0) = _
    rw [show compare (n : ℤ) 0 = .gt from Int.compare_eq_gt.mpr (by omega), Int.toNat_natCast]
  have hshift : (0 - target n 0).toNat = 52 - n.log2 := by
    unfold target
    omega
  have hexact := roundWithAccuracy_zeros (s := .positive) (canonical_whole hn hlt) hm 0
  rw [Nat.pow_zero, Nat.mul_one, Int.natCast_zero, Int.sub_zero] at hexact
  rw [hround]
  unfold UnpackedFloat.round decreaseExponent
  dsimp only
  rw [targetExponent_eq, hshift, Nat.shiftLeft_eq, Int.zero_sub]
  exact hexact

/-- Whole numbers are made by multiplying with one. -/
theorem unpack_ofNat (hn : 0 < n) (hlt : n < 2 ^ 53) (hm : 0 < n * 2 ^ (52 - n.log2)) :
    (Float.ofNat n).toModel.unpack =
      .finite .positive (n * 2 ^ (52 - n.log2)) (-(52 - n.log2 : ℕ)) hm := by
  have hcanonical := canonical_whole hn hlt
  have hone : Float.exactlyRepresentablePowersOfTen[0].toModel.unpack =
      .finite .positive (2 ^ 52) (-52) (Nat.two_pow_pos 52) := rfl
  have hword : n.toUInt64.toNat = n := Nat.mod_eq_of_lt (hlt.trans (by decide))
  have hfloat : Float.ofNat n = n.toUInt64.toFloat * Float.exactlyRepresentablePowersOfTen[0] :=
    dif_pos ⟨hlt, Nat.zero_le 22⟩
  have hfirst : n.toUInt64.toFloat.toModel.unpack =
      .finite .positive (n * 2 ^ (52 - n.log2)) (-(52 - n.log2 : ℕ)) hm := by
    change (Float.Model.pack (UnpackedFloat.ofNat Format.binary64 n.toUInt64.toNat)).unpack = _
    rw [hword, ofNat_eq_finite hn hlt hm]
    exact hcanonical.repack_of_lt (by omega)
  rw [hfloat]
  change (Float.Model.pack (UnpackedFloat.mul Format.binary64 n.toUInt64.toFloat.toModel.unpack
    Float.exactlyRepresentablePowersOfTen[0].toModel.unpack)).unpack = _
  rw [hfirst, hone]
  change (Float.Model.pack (roundWithAccuracy Format.binary64 .positive
    (n * 2 ^ (52 - n.log2) * 2 ^ 52) (-(52 - n.log2 : ℕ) - (52 : ℕ)) .exact)).unpack = _
  rw [roundWithAccuracy_zeros hcanonical hm 52]
  exact hcanonical.repack_of_lt (by omega)

/-- Whole numbers below 2 ^ 53 are exact. -/
theorem value?_ofNat (hlt : n < 2 ^ 53) :
    (Binary64.ofFloat (Float.ofNat n)).value? = some (n : ℚ) := by
  rw [Binary64.ofFloat_eq]
  rcases Nat.eq_zero_or_pos n with rfl | hn
  · change some (((0 : ℕ) : ℚ) * 2 ^ Binary64.leastExponent) = _
    rw [Nat.cast_zero, zero_mul]
  · rw [unpack_ofNat hn hlt (Nat.mul_pos hn (Nat.two_pow_pos _))]
    exact congrArg some (magnitude_whole n (52 - n.log2))

end Whole

end FloatingPoint

namespace Binary64

open FloatingPoint

/-- A number whose value is a whole one is not negative, except for a negative zero. -/
theorem exists_finite_of_value? {b : Binary64} {n : ℕ} (h : b.value? = some (n : ℚ)) :
    ∃ negative m e, b = .finite negative m e ∧ magnitude m e = n ∧ (negative = true → m = 0) := by
  cases b with
  | infinite _ => cases h
  | notANumber => cases h
  | finite negative m e =>
      have hvalue := Option.some.inj h
      cases negative with
      | false => exact ⟨false, m, e, rfl, hvalue, fun hc => absurd hc Bool.false_ne_true⟩
      | true =>
          change -magnitude m e = n at hvalue
          have hn : (0 : ℚ) ≤ n := Nat.cast_nonneg n
          have hm : m = 0 := by
            by_contra hc
            have hpos : 0 < magnitude m e := magnitude_pos_iff.mpr (Nat.pos_of_ne_zero hc)
            linarith
          have hzero : magnitude m e = 0 := by
            unfold magnitude
            rw [hm, Nat.cast_zero, zero_mul]
          refine ⟨true, m, e, rfl, ?_, fun _ => hm⟩
          linarith

/-- Whole numbers are not changed by rounding. -/
theorem roundedMagnitude_eq {m n : ℕ} {e : ℤ} (h : magnitude m e = n) :
    roundedMagnitude m e = n := by
  unfold roundedMagnitude
  by_cases he : 0 ≤ e
  · rw [if_pos he]
    obtain ⟨c, rfl⟩ := Int.le.dest he
    rw [magnitude_shift] at h
    unfold magnitude at h
    rw [zpow_zero, mul_one, Nat.cast_inj] at h
    rw [Int.zero_add, Int.toNat_natCast]
    exact h
  · rw [if_neg he]
    obtain ⟨c, hc⟩ := Int.le.dest (Int.le_of_not_le he)
    rw [← magnitude_whole n c, show -(c : ℤ) = e by omega] at h
    have hm : m = n * 2 ^ c := le_antisymm (magnitude_le_iff.mp h.le) (magnitude_le_iff.mp h.ge)
    have hhalf : 2 * (n * 2 ^ c) + 2 ^ c = 2 ^ c + 2 ^ (c + 1) * n := by ring
    have hless : 2 ^ c < 2 ^ (c + 1) := Nat.pow_lt_pow_right Nat.one_lt_two (Nat.lt_succ_self c)
    rw [show (-e).toNat = c by omega, hm]
    change (2 * (n * 2 ^ c) + 2 ^ c) / 2 ^ (c + 1) = n
    rw [hhalf, Nat.add_mul_div_left _ _ (Nat.two_pow_pos _), Nat.div_eq_of_lt hless, Nat.zero_add]

end Binary64

end Journey
