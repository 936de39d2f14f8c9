import Journey.Proofs.FloatingPoint
import Journey.Proofs.Measuring

/-!
# Rounding in Floating Point

How small the root of a number, or its square, can become by rounding.

A finite number is a mantissa of 53 bits and a power of two, or a shorter mantissa if the
power is the least one. What is calculated has a longer mantissa. It is cut at the power
where 53 bits are left, and then possibly raised by one. So rounding never makes anything
less than a finite number that it was not less than before: `rank_le_round` says so, and
nothing else about rounding is needed here.

A root is the rounded one of a mantissa of more than a hundred bits, and it can be too
small. But of two numbers of 53 bits, either the square of the one is no less than the
other, and remains so when it is rounded, or the one is no more than the root of the other,
and remains so when that is rounded. So what is more than a rounded root has a rounded
square that is large enough.

## Main definitions

* `FloatingPoint.Canonical`: The mantissa and exponent of a finite number.
* `FloatingPoint.magnitude`: What number that is.
* `FloatingPoint.kept`: What is left of a mantissa when it is cut.

## Theorems

* `FloatingPoint.canonical_of_unpack`, `FloatingPoint.Canonical.repack`: Finite numbers are
  canonical, and what is canonical can be packed.
* `FloatingPoint.rank_le_round`: Rounding keeps above any number.
* `FloatingPoint.rank_le_mul_self_or_rank_le_sqrt`: Squares and roots.
-/

namespace Journey

namespace FloatingPoint

open Float.Model Float.Model.UnpackedFloat

/-- The mantissa and exponent of a finite number. A mantissa is only shorter than 53 bits if
    the exponent is the least one. -/
structure Canonical (m : ℕ) (e : ℤ) : Prop where
  lt : m < 2 ^ 53
  least : -1074 ≤ e
  full : -1074 < e → 2 ^ 52 ≤ m

/-- The number with a mantissa and an exponent. -/
def magnitude (m : ℕ) (e : ℤ) : ℚ := m * 2 ^ e

/-- The exponent at which 53 bits are left of a mantissa, or the least one. -/
def target (n : ℕ) (k : ℤ) : ℤ := max (n.log2 + k - 52) (-1074)

/-- What is left of a mantissa when it is cut. -/
def kept (n : ℕ) (k : ℤ) : ℕ := n / 2 ^ (target n k - k).toNat

section Magnitudes

variable {m n : ℕ} {e k : ℤ}

theorem magnitude_shift (m : ℕ) (k : ℤ) (d : ℕ) :
    magnitude m (k + d) = magnitude (m * 2 ^ d) k := by
  unfold magnitude
  rw [zpow_add₀ two_ne_zero, zpow_natCast, Nat.cast_mul, Nat.cast_pow, Nat.cast_two, mul_assoc,
    mul_comm ((2 : ℚ) ^ k)]

theorem magnitude_le_iff : magnitude m k ≤ magnitude n k ↔ m ≤ n := by
  unfold magnitude
  rw [mul_le_mul_iff_left₀ (zpow_pos two_pos k), Nat.cast_le]

theorem magnitude_pos_iff : 0 < magnitude m e ↔ 0 < m := by
  unfold magnitude
  rw [mul_pos_iff_of_pos_right (zpow_pos two_pos e), Nat.cast_pos]

theorem canonical_kept (hn : 0 < n) (hk : k ≤ target n k) :
    Canonical (kept n k) (target n k) := by
  have hlow := Nat.log2_self_le (Nat.ne_of_gt hn)
  have hhigh := @Nat.lt_log2_self n
  obtain ⟨d, hd⟩ := Int.le.dest hk
  unfold kept
  rw [show (target n k - k).toNat = d by omega]
  refine ⟨?_, le_max_right _ _, fun hlt => ?_⟩
  · rw [Nat.div_lt_iff_lt_mul (Nat.two_pow_pos d), ← Nat.pow_add]
    refine hhigh.trans_le (Nat.pow_le_pow_right Nat.two_pos ?_)
    unfold target at hd
    omega
  · rw [Nat.le_div_iff_mul_le (Nat.two_pow_pos d), ← Nat.pow_add]
    refine (Nat.pow_le_pow_right Nat.two_pos ?_).trans hlow
    unfold target at hd hlt
    omega

theorem kept_of_target_eq (h : target n k = k) : kept n k = n := by
  unfold kept
  rw [h, sub_self, Int.toNat_zero, Nat.pow_zero, Nat.div_one]

theorem kept_pos (hn : 0 < n) (hk : k ≤ target n k) (hleast : -1074 ≤ k) : 0 < kept n k := by
  rcases hk.lt_or_eq with hlt | heq
  · exact (Nat.two_pow_pos 52).trans_le ((canonical_kept hn hk).full (by omega))
  · rw [kept_of_target_eq heq.symm]
    exact hn

/-- A number that is not more than what is cut is not more than what is left. -/
theorem lt_or_le_kept (hm : Canonical m e) (hk : k ≤ target n k)
    (h : magnitude m e ≤ magnitude n k) : e < target n k ∨ e = target n k ∧ m ≤ kept n k := by
  have hhigh := @Nat.lt_log2_self n
  obtain ⟨d, hd⟩ := Int.le.dest hk
  rcases lt_trichotomy e (target n k) with hlt | heq | hgt
  · exact Or.inl hlt
  · refine Or.inr ⟨heq, ?_⟩
    unfold kept
    rw [show (target n k - k).toNat = d by omega, Nat.le_div_iff_mul_le (Nat.two_pow_pos d)]
    rw [heq, ← hd, magnitude_shift, magnitude_le_iff] at h
    exact h
  · -- A full mantissa at a greater exponent would be more.
    obtain ⟨c, hc⟩ := Int.le.dest (hk.trans hgt.le)
    rw [← hc, magnitude_shift, magnitude_le_iff] at h
    unfold target at hgt
    have hmore : 2 ^ (n.log2 + 1) ≤ m * 2 ^ c := by
      calc 2 ^ (n.log2 + 1) ≤ 2 ^ (52 + c) := Nat.pow_le_pow_right Nat.two_pos (by omega)
        _ = 2 ^ 52 * 2 ^ c := Nat.pow_add _ _ _
        _ ≤ m * 2 ^ c := Nat.mul_le_mul_right _ (hm.full (by omega))
    omega

end Magnitudes

section Cutting

variable {n : ℕ} {k : ℤ}

theorem targetExponent_eq (n : ℕ) (k : ℤ) :
    Format.binary64.targetExponent (totalExponent n k) = target n k := by
  unfold Format.targetExponent totalExponent target
  change max ((n.log2 : ℤ) + 1 + k - 53) (-1074) = _
  congr 1
  omega

theorem shiftRight_mantissa (em : ExtendedMantissa) (d : ℕ) :
    (em >>> d).mantissa = em.mantissa / 2 ^ d := by
  induction d with
  | zero => exact (Nat.div_one _).symm
  | succ d ih =>
      change (em >>> d).mantissa / 2 = _
      rw [ih, Nat.div_div_eq_div_mul, Nat.pow_succ]

theorem ofMantissaAndAccuracy_mantissa (accuracy : Accuracy) :
    (ExtendedMantissa.ofMantissaAndAccuracy n accuracy).mantissa = n := by
  rcases accuracy with _ | _ | _ | _ <;> rfl

theorem le_roundedMantissa (em : ExtendedMantissa) : em.mantissa ≤ em.roundedMantissa := by
  rcases em with ⟨m, _ | _, _ | _⟩
  · exact Nat.le_refl m
  · exact Nat.le_refl m
  · exact Nat.le_add_right m (m % 2)
  · exact Nat.le_succ m

theorem shiftToTargetExponent_eq (hk : k ≤ target n k) (accuracy : Accuracy) :
    (shiftToTargetExponent Format.binary64 n k accuracy).1.mantissa = kept n k ∧
      (shiftToTargetExponent Format.binary64 n k accuracy).2 = target n k := by
  unfold shiftToTargetExponent shiftToExponent
  dsimp only
  rw [targetExponent_eq, shiftRight_mantissa, ofMantissaAndAccuracy_mantissa]
  exact ⟨rfl, by omega⟩

/-- Rounding leaves no less than cutting. -/
theorem roundWithAccuracy_eq {s : Sign} (hn : 0 < n) (hk : k ≤ target n k) (hkept : 0 < kept n k)
    (accuracy : Accuracy) : ∃ m e hm,
      roundWithAccuracy Format.binary64 s n k accuracy = .finite s m e hm ∧ Canonical m e ∧
        (target n k < e ∨ target n k = e ∧ kept n k ≤ m) := by
  rcases shiftToTargetExponent_eq hk accuracy with ⟨hmantissa, hexponent⟩
  unfold roundWithAccuracy
  generalize shiftToTargetExponent Format.binary64 n k accuracy = first at hmantissa hexponent
  rcases first with ⟨em, q⟩
  dsimp only at hmantissa hexponent ⊢
  subst hexponent
  have hle := le_roundedMantissa em
  rw [hmantissa] at hle
  generalize em.roundedMantissa = r at hle
  have hcut := canonical_kept hn hk
  have hr : 0 < r := hkept.trans_le hle
  -- One bit may have been added, and then the mantissa is cut again.
  have hq : target n k ≤ target r (target n k) := by
    by_cases hleast : -1074 < target n k
    · have hlog := (Nat.le_log2 (Nat.ne_of_gt hr)).mpr ((hcut.full hleast).trans hle)
      exact le_max_of_le_left (by omega)
    · exact (not_lt.mp hleast).trans (le_max_right _ _)
  rcases shiftToTargetExponent_eq hq .exact with ⟨hmantissa', hexponent'⟩
  have hpos := kept_pos hr hq hcut.least
  rw [dif_neg (by omega)]
  simp only [hmantissa', hexponent']
  refine ⟨_, _, hpos, rfl, canonical_kept hr hq, ?_⟩
  rcases hq.lt_or_eq with hlt | heq
  · exact Or.inl hlt
  · refine Or.inr ⟨heq, ?_⟩
    rw [kept_of_target_eq heq.symm]
    exact hle

end Cutting

section Packing

variable {m n : ℕ} {e k : ℤ} {s : Sign} {hm : 0 < m}

theorem toNat_one_append (v : BitVec 52) : (1#1 ++ v).toNat = 2 ^ 52 + v.toNat := by
  rw [BitVec.toNat_append, ← Nat.shiftLeft_add_eq_or_of_lt v.isLt]
  rfl

/-- Finite numbers are canonical. -/
theorem canonical_of_unpack {v : Float.Model} (h : v.unpack = .finite s m e hm) :
    Canonical m e := by
  change UnpackedFloat.unpack Format.binary64 v.toBits.toBitVec = _ at h
  unfold UnpackedFloat.unpack at h
  have hmantissa := (@unpackMantissa Format.binary64 v.toBits.toBitVec).isLt
  change _ < 2 ^ 52 at hmantissa
  dsimp only at h
  split at h
  · split at h <;> cases h
  · split at h
    · rename_i hzero
      split at h
      · cases h
      · cases h
        rw [hzero]
        exact ⟨hmantissa.trans (by decide), by decide, fun hlt => absurd hlt (by decide)⟩
    · rename_i hzero
      cases h
      have hpos : (@unpackExponent Format.binary64 v.toBits.toBitVec).toNat ≠ 0 :=
        fun hc => hzero (BitVec.eq_of_toNat_eq hc)
      rw [toNat_one_append]
      refine ⟨by omega, ?_, fun _ => by omega⟩
      change -1074 ≤ (_ : ℤ) - (1023 + 52)
      omega

theorem unpack_full (hfull : 2 ^ 52 ≤ m) (hlt : m < 2 ^ 53) (hleast : -1074 ≤ e) (hmost : e < 972) :
    UnpackedFloat.unpack Format.binary64 (packComponents Format.binary64 s
      (BitVec.ofNat 11 (e + 1075).toNat) (BitVec.ofNat 52 m)) = .finite s m e hm := by
  have hexponent : (BitVec.ofNat 11 (e + 1075).toNat).toNat = (e + 1075).toNat := by
    rw [BitVec.toNat_ofNat]
    omega
  have hlargest : BitVec.ofNat 11 (e + 1075).toNat ≠ -1#11 := fun hc => by
    have hval := hexponent.symm.trans (congrArg BitVec.toNat hc)
    change _ = 2047 at hval
    omega
  have hzero : BitVec.ofNat 11 (e + 1075).toNat ≠ 0#11 := fun hc => by
    have hval := hexponent.symm.trans (congrArg BitVec.toNat hc)
    change _ = 0 at hval
    omega
  unfold UnpackedFloat.unpack
  simp only [unpackExponent_packComponents, unpackMantissa_packComponents,
    unpackSign_packComponents, Sign.ofBitVec_toBitVec, if_neg hlargest, if_neg hzero, hexponent,
    toNat_one_append]
  congr 1
  · rw [BitVec.toNat_ofNat]
    omega
  · change ((e + 1075).toNat : ℤ) - (1023 + 52) = e
    omega

theorem unpack_short (h : m < 2 ^ 52) :
    UnpackedFloat.unpack Format.binary64 (packComponents Format.binary64 s 0#11 (BitVec.ofNat 52 m))
      = .finite s m (-1074) hm := by
  have hmantissa : (BitVec.ofNat 52 m).toNat = m := by
    rw [BitVec.toNat_ofNat]
    exact Nat.mod_eq_of_lt h
  have hzero : BitVec.ofNat 52 m ≠ 0#52 := fun hc => by
    have hval := hmantissa.symm.trans (congrArg BitVec.toNat hc)
    change m = 0 at hval
    omega
  unfold UnpackedFloat.unpack
  simp only [unpackExponent_packComponents, unpackMantissa_packComponents,
    unpackSign_packComponents, Sign.ofBitVec_toBitVec]
  rw [if_neg (by decide), if_pos trivial, dif_neg hzero]
  simp only [hmantissa]
  rfl

/-- What is canonical and not too large can be packed. -/
theorem Canonical.repack_of_lt (h : Canonical m e) (hmost : e < 972) :
    (Float.Model.pack (.finite s m e hm)).unpack = .finite s m e hm := by
  change UnpackedFloat.unpack Format.binary64 (UnpackedFloat.pack Format.binary64 _) = _
  rcases h with ⟨hlt, hleast, hfull⟩
  have hbiased : (e + Format.binary64.exponentBias +
      Format.binary64.mantissaBitsWithoutImplicit).toNat = (e + 1075).toNat := by
    change (e + 1023 + 52).toNat = _
    omega
  have hlog : m.log2 + 1 = Format.binary64.mantissaBits ↔ 2 ^ 52 ≤ m := by
    have hshort := (Nat.log2_lt (Nat.ne_of_gt hm)).mpr hlt
    rw [← Nat.le_log2 (Nat.ne_of_gt hm)]
    change m.log2 + 1 = 53 ↔ _
    omega
  have hexponent : ¬ 2 ^ Format.binary64.exponentBits ≤ (e + 1075).toNat + 1 := by
    change ¬ 2048 ≤ _
    omega
  unfold UnpackedFloat.pack
  dsimp only
  rw [hbiased, if_neg hexponent]
  by_cases hm' : 2 ^ 52 ≤ m
  · rw [if_pos (hlog.mpr hm')]
    exact unpack_full hm' hlt hleast hmost
  · rw [if_neg (fun hc => hm' (hlog.mp hc))]
    obtain rfl : e = -1074 := by omega
    exact unpack_short (Nat.lt_of_not_le hm')

/-- What is too large becomes infinite. -/
theorem unpack_pack_of_ge (hmost : 972 ≤ e) :
    (Float.Model.pack (.finite s m e hm)).unpack = .infinity s := by
  have hexponent : 2 ^ Format.binary64.exponentBits ≤ (e + Format.binary64.exponentBias +
      Format.binary64.mantissaBitsWithoutImplicit).toNat + 1 := by
    change 2048 ≤ (e + 1023 + 52).toNat + 1
    omega
  change UnpackedFloat.unpack Format.binary64 (UnpackedFloat.pack Format.binary64 _) = _
  unfold UnpackedFloat.pack
  dsimp only
  rw [if_pos hexponent]
  cases s <;> rfl

/-- What is canonical can be packed, unless it is too large. -/
theorem Canonical.repack (h : Canonical m e) :
    (Float.Model.pack (.finite s m e hm)).unpack = .finite s m e hm ∨
      (Float.Model.pack (.finite s m e hm)).unpack = .infinity s :=
  (lt_or_ge e 972).imp h.repack_of_lt unpack_pack_of_ge

/-- Rounding keeps above any number. -/
theorem rank_le_round (h : Canonical m e) (hk : k ≤ target n k)
    (hle : magnitude m e ≤ magnitude n k) (accuracy : Accuracy) :
    ∃ x ∈ rank (.finite .positive m e hm), ∃ y ∈ rank (Float.Model.pack
      (roundWithAccuracy Format.binary64 .positive n k accuracy)).unpack, x ≤ y := by
  have hn : 0 < n := magnitude_pos_iff.mp ((magnitude_pos_iff.mpr hm).trans_le hle)
  have hlex := lt_or_le_kept h hk hle
  have hkept : 0 < kept n k := by
    rcases hlex with hlt | ⟨-, hle⟩
    · exact (Nat.two_pow_pos 52).trans_le ((canonical_kept hn hk).full (h.least.trans_lt hlt))
    · exact hm.trans_le hle
  rcases roundWithAccuracy_eq (s := .positive) hn hk hkept accuracy with
    ⟨m', e', hm', heq, hcanonical, hlex'⟩
  rw [heq]
  rcases @hcanonical.repack _ _ .positive hm' with hfinite | hinfinite
  · rw [hfinite]
    refine ⟨_, rfl, _, rfl, ?_⟩
    rw [Prod.Lex.toLex_le_toLex]
    refine Or.inr ⟨rfl, ?_⟩
    rw [Prod.Lex.toLex_le_toLex]
    dsimp only
    omega
  · rw [hinfinite]
    exact (Nonneg.finite m e hm).rank_le Nonneg.infinity Bool.false_ne_true

end Packing

section Roots

variable {m n : ℕ} {e k : ℤ} {hm : 0 < m} {hn : 0 < n}

/-- The mantissa of a square is long enough. -/
theorem Canonical.le_target_mul_self (h : Canonical m e) (hm : 0 < m) :
    e + e ≤ target (m * m) (e + e) := by
  rcases h.least.eq_or_lt with heq | hlt
  · exact le_max_of_le_right (by omega)
  · have hlog : 104 ≤ (m * m).log2 :=
      (Nat.le_log2 (Nat.ne_of_gt (Nat.mul_pos hm hm))).mpr
        (Nat.mul_le_mul (h.full hlt) (h.full hlt) : 2 ^ 52 * 2 ^ 52 ≤ m * m)
    exact le_max_of_le_left (by omega)

theorem rank_le_mul_self (hx : Canonical n k) (hr : Canonical m e)
    (h : magnitude n k ≤ magnitude (m * m) (e + e)) :
    ∃ x ∈ rank (.finite .positive n k hn), ∃ y ∈ rank (Float.Model.pack (UnpackedFloat.mul
      Format.binary64 (.finite .positive m e hm) (.finite .positive m e hm))).unpack, x ≤ y := by
  exact rank_le_round hx (hr.le_target_mul_self hm) h .exact

/-- The root is taken of a mantissa that is long enough. -/
theorem sqrtCore_spec (hn : 0 < n) (hx : Canonical n k) : ∃ d : ℕ,
    (sqrtCore Format.binary64 n k).1 = Nat.sqrt (n * 2 ^ d) ∧
      k = (sqrtCore Format.binary64 n k).2.1 + (sqrtCore Format.binary64 n k).2.1 + d ∧
      2 ^ 104 ≤ n * 2 ^ d := by
  have hlow := Nat.log2_self_le (Nat.ne_of_gt hn)
  have hlog : n.log2 < 53 := (Nat.log2_lt (Nat.ne_of_gt hn)).mpr hx.lt
  have hleast := hx.least
  have hexponent : (sqrtCore Format.binary64 n k).2.1 = ((n.log2 : ℤ) + 2 + k) / 2 - 53 := by
    change min (k / 2) (max (((n.log2 : ℤ) + 1 + k + 1) / 2 - 53) (-1074)) = _
    omega
  have hroot : (sqrtCore Format.binary64 n k).1 =
      Nat.sqrt (n * 2 ^ (k - 2 * (sqrtCore Format.binary64 n k).2.1).toNat) := by
    rw [← Nat.shiftLeft_eq]
    rfl
  rw [hexponent] at hroot ⊢
  refine ⟨_, hroot, by omega, ?_⟩
  calc 2 ^ 104 ≤ 2 ^ (n.log2 + (k - 2 * (((n.log2 : ℤ) + 2 + k) / 2 - 53)).toNat) :=
        Nat.pow_le_pow_right Nat.two_pos (by omega)
    _ ≤ n * 2 ^ (k - 2 * (((n.log2 : ℤ) + 2 + k) / 2 - 53)).toNat := by
        rw [Nat.pow_add]
        exact Nat.mul_le_mul_right _ hlow

theorem rank_le_sqrt (hx : Canonical n k) (hr : Canonical m e)
    (h : magnitude (m * m) (e + e) ≤ magnitude n k) :
    ∃ x ∈ rank (.finite .positive m e hm), ∃ y ∈ rank (Float.Model.pack (UnpackedFloat.sqrt
      Format.binary64 (.finite .positive n k hn))).unpack, x ≤ y := by
  rcases sqrtCore_spec hn hx with ⟨d, hcore, hd, hlow⟩
  change ∃ x ∈ _, ∃ y ∈ rank (Float.Model.pack (roundWithAccuracy Format.binary64 .positive
    (sqrtCore Format.binary64 n k).1 (sqrtCore Format.binary64 n k).2.1
    (sqrtCore Format.binary64 n k).2.2)).unpack, x ≤ y
  rw [hcore]
  generalize (sqrtCore Format.binary64 n k).2.1 = q at hd ⊢
  have hroot : 2 ^ 52 ≤ Nat.sqrt (n * 2 ^ d) := Nat.le_sqrt.mpr hlow
  refine rank_le_round hr ?_ ?_ _
  · have hlog := (Nat.le_log2 (Nat.ne_of_gt ((Nat.two_pow_pos 52).trans_le hroot))).mpr hroot
    exact le_max_of_le_left (by omega)
  -- The whole part of the root has 53 bits, so a number at a lesser exponent is less.
  · rcases lt_or_ge e q with hlt | hge
    · obtain ⟨c, hc⟩ := Int.le.dest hlt.le
      rw [← hc, magnitude_shift, magnitude_le_iff]
      have hone : 2 ^ 1 ≤ 2 ^ c := Nat.pow_le_pow_right Nat.two_pos (by omega)
      calc m ≤ 2 ^ 52 * 2 ^ 1 := hr.lt.le
        _ ≤ Nat.sqrt (n * 2 ^ d) * 2 ^ c := Nat.mul_le_mul hroot hone
    · obtain ⟨c, rfl⟩ := Int.le.dest hge
      rw [magnitude_shift, magnitude_le_iff, Nat.le_sqrt]
      have he : q + c + (q + c) = q + q + (c + c : ℕ) := by
        push_cast
        ring
      rw [he, hd, magnitude_shift, magnitude_shift, magnitude_le_iff] at h
      calc m * 2 ^ c * (m * 2 ^ c) = m * m * 2 ^ (c + c) := by ring
        _ ≤ n * 2 ^ d := h

/-- The square of one number is no less than another one, or the one is no more than the root
    of the other. -/
theorem rank_le_mul_self_or_rank_le_sqrt {f g : UnpackedFloat} (hf : Nonneg f) (hg : Nonneg g)
    (hf' : ∀ s m e hm, f = .finite s m e hm → Canonical m e)
    (hg' : ∀ s m e hm, g = .finite s m e hm → Canonical m e) :
    (∃ x ∈ rank f, ∃ y ∈ rank (Float.Model.pack
      (UnpackedFloat.mul Format.binary64 g g)).unpack, x ≤ y) ∨
    ∃ x ∈ rank g, ∃ y ∈ rank (Float.Model.pack
      (UnpackedFloat.sqrt Format.binary64 f)).unpack, x ≤ y := by
  cases hf with
  | infinity => exact Or.inr (hg.rank_le Nonneg.infinity Bool.false_ne_true)
  | zero s =>
      rcases hg.exists_signed with ⟨s', hs'⟩
      exact Or.inl (hs'.mul_self.repack.nonneg.rank_zero_le s)
  | finite n k hn =>
      have hx := Nonneg.finite n k hn
      cases hg with
      | infinity => exact Or.inl (hx.rank_le Nonneg.infinity Bool.false_ne_true)
      | zero s => exact Or.inr (hx.sqrt.repack.rank_zero_le s)
      | finite m e hm =>
          rcases le_total (magnitude n k) (magnitude (m * m) (e + e)) with h | h
          · exact Or.inl (rank_le_mul_self (hf' _ _ _ _ rfl) (hg' _ _ _ _ rfl) h)
          · exact Or.inr (rank_le_sqrt (hf' _ _ _ _ rfl) (hg' _ _ _ _ rfl) h)

end Roots

/-- What is not negative can be compared in floating point. -/
instance : Scalar.Ordered Float where
  le_trans := fun _ _ _ => le_trans
  le_of_lt := fun _ _ => le_of_lt
  le_or_lt := fun _ _ => le_or_lt
  le_of_not_isFinite := by
    intro a b ha hb hfinite
    exact le_iff.mpr ((nonneg_iff.mp ha).rank_le (nonneg_iff.mp hb) hfinite)
  add_nonneg := by
    intro a b ha hb
    exact nonneg_iff.mpr ((nonneg_iff.mp ha).add (nonneg_iff.mp hb)).repack
  sub_mul_self_nonneg := by
    intro a b ha hb
    rcases signed_sub ha hb with ⟨s, hs⟩
    exact nonneg_iff.mpr hs.repack.mul_self.repack.nonneg

/-- Roots in floating point keep to the order. -/
instance : Planar.Ordered Float where
  squareRoot_nonneg := fun _ => sqrt_nonneg
  le_mul_self := by
    intro a r ha hlt
    have hr : 0 ≤ r := le_trans (sqrt_nonneg ha) (le_of_lt hlt)
    rcases rank_le_mul_self_or_rank_le_sqrt (nonneg_iff.mp ha) (nonneg_iff.mp hr)
      (fun _ _ _ _ => canonical_of_unpack) (fun _ _ _ _ => canonical_of_unpack) with hle | hle
    · exact le_iff.mpr hle
    · exact absurd (le_iff.mpr hle) (not_le_of_lt hlt)

end FloatingPoint

end Journey
