import Journey.Proofs.Mirroring

/-!
# Rounding and Order

Why rounding does not change the order of numbers.

A mantissa that is too long is divided by a power of two, to the nearest whole number, and
halves go to the even one. What is more is divided to no less. If of two numbers the larger one
is cut at a greater exponent, it keeps a full mantissa, and that is no less than what the
smaller one can be rounded up to. So rounding may make two numbers equal, but it never turns
them round: `rounding_mono` says so of any two mantissas and exponents.

Every finite number has a value. A sum, a difference or a square is what the one of the values
is rounded to, apart from its sign, and this is the only way in which calculations are looked
at here. What is infinite is more than anything else. So sums of what is not negative, and
squares of differences, keep to the order in floating point, as they do in exact arithmetic.

## Main definitions

* `FloatingPoint.rounded`: What is left of a mantissa when it is rounded.
* `FloatingPoint.rounding`: The number that a mantissa and an exponent are rounded to.
* `FloatingPoint.Valued`: Finite numbers and their values.

## Theorems

* `Binary64.halvings_mono`, `Binary64.halvings_shift`: Dividing to the nearest.
* `FloatingPoint.roundedMantissa_shiftRight`: Rounding is dividing to the nearest.
* `FloatingPoint.rounding_mono`: What is more is rounded to no less.
* `FloatingPoint.exists_add`, `FloatingPoint.exists_sub`, `FloatingPoint.exists_mul_self`:
  Calculating is rounding the values.
* `FloatingPoint.add_mono`, `FloatingPoint.sub_mul_self_mono`: Sums and squares of differences.
-/

namespace Journey

namespace Binary64

variable {m n : ℕ}

theorem halvings_eq (n d : ℕ) : halvings n d =
    if 2 ^ d < 2 * (n % 2 ^ d) ∨ (2 * (n % 2 ^ d) = 2 ^ d ∧ n / 2 ^ d % 2 = 1) then n / 2 ^ d + 1
    else n / 2 ^ d := rfl

theorem div_le_halvings (n d : ℕ) : n / 2 ^ d ≤ halvings n d := by
  rw [halvings_eq]
  split
  · exact Nat.le_succ _
  · exact Nat.le_refl _

theorem halvings_le (n d : ℕ) : halvings n d ≤ n / 2 ^ d + 1 := by
  rw [halvings_eq]
  split
  · exact Nat.le_refl _
  · exact Nat.le_succ _

theorem halvings_zero (n : ℕ) : halvings n 0 = n := by
  rw [halvings_eq, Nat.pow_zero, Nat.mod_one, Nat.div_one, if_neg (by omega)]

/-- What is more is divided to no less. -/
theorem halvings_mono (h : m ≤ n) (d : ℕ) : halvings m d ≤ halvings n d := by
  rcases (Nat.div_le_div_right h : m / 2 ^ d ≤ n / 2 ^ d).lt_or_eq with hlt | heq
  · exact (halvings_le m d).trans ((Nat.succ_le_of_lt hlt).trans (div_le_halvings n d))
  · have hm := Nat.div_add_mod m (2 ^ d)
    have hn := Nat.div_add_mod n (2 ^ d)
    rw [halvings_eq, halvings_eq]
    rw [← heq] at hn ⊢
    generalize 2 ^ d * (m / 2 ^ d) = whole at hm hn
    split <;> split <;> omega

/-- What is multiplied first has to be divided further. -/
theorem halvings_shift (n c d : ℕ) : halvings (n * 2 ^ c) (d + c) = halvings n d := by
  have hpos := Nat.two_pow_pos c
  rw [halvings_eq, halvings_eq, Nat.pow_add, Nat.mul_div_mul_right _ _ hpos,
    Nat.mul_mod_mul_right, ← Nat.mul_assoc]
  simp only [Nat.mul_lt_mul_right hpos, Nat.mul_left_inj hpos.ne']

end Binary64

namespace FloatingPoint

open Float.Model Float.Model.UnpackedFloat Binary64

section Bits

-- The last bit that is cut off, and whether there was any before it.
theorem shiftRight_bits (n d : ℕ) : ExtendedMantissa.ofMantissaAndAccuracy n .exact >>> (d + 1) =
    ⟨n / 2 ^ (d + 1), n / 2 ^ d % 2 != 0, n % 2 ^ d != 0⟩ := by
  induction d with
  | zero =>
      change (⟨n / 2, n % 2 != 0, false || false⟩ : ExtendedMantissa) = _
      rw [Nat.pow_zero, Nat.mod_one, Nat.div_one]
      rfl
  | succ d ih =>
      change (ExtendedMantissa.ofMantissaAndAccuracy n .exact >>> (d + 1)).shiftRightOne = _
      have hbits : (n / 2 ^ d % 2 != 0 || n % 2 ^ d != 0) = (n % 2 ^ (d + 1) != 0) := by
        rw [Nat.mod_pow_succ, Bool.eq_iff_iff]
        simp only [Bool.or_eq_true, bne_iff_ne, ne_eq, Nat.add_eq_zero_iff, Nat.mul_eq_zero,
          Nat.pow_eq_zero, OfNat.ofNat_ne_zero, false_and, false_or]
        omega
      rw [ih]
      unfold ExtendedMantissa.shiftRightOne
      dsimp only
      rw [hbits, Nat.div_div_eq_div_mul, ← Nat.pow_succ]

/-- Rounding is dividing by a power of two. -/
theorem roundedMantissa_shiftRight (n d : ℕ) :
    (ExtendedMantissa.ofMantissaAndAccuracy n .exact >>> d).roundedMantissa = halvings n d := by
  cases d with
  | zero => exact (halvings_zero n).symm
  | succ d =>
      have hrest := Nat.mod_lt n (Nat.two_pow_pos d)
      have hsucc := Nat.pow_succ 2 d
      rw [shiftRight_bits, halvings_eq, Nat.mod_pow_succ]
      rcases Nat.mod_two_eq_zero_or_one (n / 2 ^ d) with hbit | hbit
      · -- Less than half is cut off.
        rw [hbit, if_neg (by omega)]
        by_cases hzero : n % 2 ^ d = 0
        · rw [hzero]
          rfl
        · rw [bne_iff_ne.mpr hzero]
          rfl
      · rw [hbit]
        by_cases hzero : n % 2 ^ d = 0
        · rw [hzero]
          change n / 2 ^ (d + 1) + n / 2 ^ (d + 1) % 2 = _
          split <;> omega
        · rw [bne_iff_ne.mpr hzero, if_pos (by omega)]
          rfl

end Bits

/-- What is left of a mantissa when it is rounded. -/
def rounded (n : ℕ) (k : ℤ) : ℕ := halvings n (target n k - k).toNat

section Order

variable {m n n' : ℕ} {e k k' : ℤ}

theorem target_mono (hn : 0 < n) (h : magnitude n k ≤ magnitude n' k') :
    target n k ≤ target n' k' := by
  have hn' : 0 < n' := magnitude_pos_iff.mp ((magnitude_pos_iff.mpr hn).trans_le h)
  -- The one has no more bits before the point than the other.
  have hlow : (2 : ℚ) ^ (n.log2 + k) ≤ magnitude n k := by
    unfold magnitude
    rw [zpow_add₀ two_ne_zero, zpow_natCast, mul_le_mul_iff_left₀ (zpow_pos two_pos k)]
    exact_mod_cast Nat.log2_self_le hn.ne'
  have hhigh : magnitude n' k' < (2 : ℚ) ^ ((n'.log2 + 1 : ℕ) + k') := by
    unfold magnitude
    rw [zpow_add₀ two_ne_zero, zpow_natCast, mul_lt_mul_iff_left₀ (zpow_pos two_pos k')]
    exact_mod_cast Nat.lt_log2_self
  have hlt := (zpow_lt_zpow_iff_right₀ one_lt_two).mp ((hlow.trans h).trans_lt hhigh)
  unfold target
  omega

theorem kept_le_rounded (n : ℕ) (k : ℤ) : kept n k ≤ rounded n k := div_le_halvings n _

theorem rounded_le (hn : 0 < n) (hk : k ≤ target n k) : rounded n k ≤ 2 ^ 53 :=
  (halvings_le n _).trans (canonical_kept hn hk).lt

-- Two mantissas at a common exponent.
theorem rounded_eq_halvings {j : ℤ} (hj : j ≤ k) (hk : k ≤ target n k) :
    rounded n k = halvings (n * 2 ^ (k - j).toNat) (target n k - j).toNat := by
  unfold rounded
  rw [show (target n k - j).toNat = (target n k - k).toNat + (k - j).toNat by omega,
    halvings_shift]

/-- A mantissa that is full is no less than any other at a lesser exponent, even one that has
    been rounded up. -/
theorem magnitude_le_of_lt (hm : m ≤ 2 ^ 53) (hn : 2 ^ 52 ≤ n) (h : e < k) :
    magnitude m e ≤ magnitude n k := by
  obtain ⟨c, rfl⟩ := Int.le.dest h.le
  rw [magnitude_shift, magnitude_le_iff]
  calc m ≤ 2 ^ 52 * 2 ^ 1 := hm
    _ ≤ n * 2 ^ c := Nat.mul_le_mul hn (Nat.pow_le_pow_right Nat.two_pos (by omega))

/-- What is more is rounded to no less. -/
theorem magnitude_rounded_mono (hn : 0 < n) (hk : k ≤ target n k) (hk' : k' ≤ target n' k')
    (h : magnitude n k ≤ magnitude n' k') :
    magnitude (rounded n k) (target n k) ≤ magnitude (rounded n' k') (target n' k') := by
  have hn' : 0 < n' := magnitude_pos_iff.mp ((magnitude_pos_iff.mpr hn).trans_le h)
  rcases (target_mono hn h).lt_or_eq with hlt | heq
  · have hfull := (canonical_kept hn' hk').full ((le_max_right _ _).trans_lt hlt)
    exact magnitude_le_of_lt (rounded_le hn hk) (hfull.trans (kept_le_rounded n' k')) hlt
  · rw [heq, magnitude_le_iff, rounded_eq_halvings (min_le_left k k') hk,
      rounded_eq_halvings (min_le_right k k') hk', heq]
    refine halvings_mono ?_ _
    rwa [← magnitude_le_iff (k := min k k'), ← magnitude_shift, ← magnitude_shift,
      show min k k' + (k - min k k').toNat = k by omega,
      show min k k' + (k' - min k k').toNat = k' by omega]

/-- Canonical numbers are in the order of their exponents and then of their mantissas. -/
theorem Canonical.magnitude_le_iff (hm : Canonical m e) (hn : Canonical n k) (hpos : 0 < n) :
    magnitude m e ≤ magnitude n k ↔ e < k ∨ e = k ∧ m ≤ n := by
  have htarget := hn.target_eq hpos 0
  rw [Nat.pow_zero, Nat.mul_one, Int.natCast_zero, Int.sub_zero] at htarget
  constructor
  · intro h
    have hlex := lt_or_le_kept hm htarget.ge h
    rwa [kept_of_target_eq htarget, htarget] at hlex
  · rintro (hlt | ⟨rfl, hle⟩)
    · exact magnitude_le_of_lt hm.lt.le (hn.full (hm.least.trans_lt hlt)) hlt
    · exact FloatingPoint.magnitude_le_iff.mpr hle

end Order

section Results

variable {m n n' : ℕ} {e k k' : ℤ} {s : Sign} {hm : 0 < m} {hn : 0 < n}

-- Only one more bit can have been added, and then the mantissa is a power of two.
theorem magnitude_kept_rounded (hn : 0 < n) (hk : k ≤ target n k) (hpos : 0 < rounded n k) :
    target n k ≤ target (rounded n k) (target n k) ∧
      magnitude (kept (rounded n k) (target n k)) (target (rounded n k) (target n k)) =
        magnitude (rounded n k) (target n k) := by
  have hcut := canonical_kept hn hk
  have hle := rounded_le hn hk
  have hkept := kept_le_rounded n k
  generalize rounded n k = r at hpos hle hkept ⊢
  have hq : target n k ≤ target r (target n k) := by
    by_cases hleast : -1074 < target n k
    · have hlog := (Nat.le_log2 hpos.ne').mpr ((hcut.full hleast).trans hkept)
      exact le_max_of_le_left (by omega)
    · exact (not_lt.mp hleast).trans (le_max_right _ _)
  refine ⟨hq, ?_⟩
  rcases hle.lt_or_eq with hlt | rfl
  · have hlog := (Nat.log2_lt hpos.ne').mpr hlt
    have heq : target r (target n k) = target n k := by
      have hleast := hcut.least
      unfold target at hq hleast ⊢
      omega
    rw [kept_of_target_eq heq, heq]
  · have heq : target (2 ^ 53) (target n k) = target n k + (1 : ℕ) := by
      have hleast := hcut.least
      have hlog : Nat.log2 (2 ^ 53) = 53 := Nat.log2_two_pow
      rw [target, hlog]
      omega
    unfold kept
    rw [heq, magnitude_shift, show (target n k + (1 : ℕ) - target n k).toNat = 1 by omega]
    rfl

/-- What is rounded is nothing, or the canonical number of what is left. -/
theorem roundWithAccuracy_cases (s : Sign) (hn : 0 < n) (hk : k ≤ target n k) :
    rounded n k = 0 ∧ roundWithAccuracy Format.binary64 s n k .exact = .zero s ∨
      ∃ m e hm, roundWithAccuracy Format.binary64 s n k .exact = .finite s m e hm ∧
        Canonical m e ∧ magnitude m e = magnitude (rounded n k) (target n k) := by
  have hcut := canonical_kept hn hk
  have hkept := kept_le_rounded n k
  have hmantissa : (shiftToTargetExponent Format.binary64 n k .exact).1.roundedMantissa =
      rounded n k := by
    unfold shiftToTargetExponent shiftToExponent
    dsimp only
    rw [targetExponent_eq, roundedMantissa_shiftRight]
    rfl
  have hexponent := (shiftToTargetExponent_eq hk .exact).2
  unfold roundWithAccuracy
  generalize shiftToTargetExponent Format.binary64 n k .exact = first at hmantissa hexponent
  rcases first with ⟨em, q⟩
  dsimp only at hmantissa hexponent ⊢
  rw [hmantissa, hexponent]
  rcases Nat.eq_zero_or_pos (rounded n k) with hzero | hpos
  · refine Or.inl ⟨hzero, dif_pos ?_⟩
    rw [hzero]
    unfold shiftToTargetExponent shiftToExponent
    dsimp only
    rw [shiftRight_mantissa, ofMantissaAndAccuracy_mantissa, Nat.zero_div]
  · rcases magnitude_kept_rounded hn hk hpos with ⟨hq, heq⟩
    rcases shiftToTargetExponent_eq hq .exact with ⟨hmantissa', hexponent'⟩
    have hpos' := kept_pos hpos hq hcut.least
    refine Or.inr ?_
    rw [dif_neg (by omega)]
    simp only [hmantissa', hexponent']
    exact ⟨_, _, hpos', rfl, canonical_kept hpos hq, heq⟩

/-- Packing keeps canonical numbers in order. -/
theorem Canonical.rank_repack_le (h : Canonical m e) (h' : Canonical n k)
    (hle : magnitude m e ≤ magnitude n k) :
    ∃ x ∈ rank (Float.Model.pack (.finite .positive m e hm)).unpack,
      ∃ y ∈ rank (Float.Model.pack (.finite .positive n k hn)).unpack, x ≤ y := by
  have hlex := (h.magnitude_le_iff h' hn).mp hle
  rcases lt_or_ge k 972 with hlt | hge
  · rw [h.repack_of_lt (by omega), h'.repack_of_lt hlt]
    refine ⟨_, rfl, _, rfl, ?_⟩
    simp only [Prod.Lex.toLex_le_toLex, lt_irrefl, false_or, true_and]
    omega
  · rw [unpack_pack_of_ge hge]
    exact (Nonneg.finite m e hm).repack.rank_le Nonneg.infinity Bool.false_ne_true

end Results

/-- The number that a mantissa and an exponent are rounded to. -/
def rounding (n : ℕ) (k : ℤ) : Float :=
  .ofModel (.pack (UnpackedFloat.round Format.binary64 .positive n k))

section Rounding

variable {m n n' : ℕ} {e k k' : ℤ} {s : Sign}

theorem round_eq (hk : k ≤ target n k) (s : Sign) :
    UnpackedFloat.round Format.binary64 s n k =
      roundWithAccuracy Format.binary64 s n k .exact := by
  unfold UnpackedFloat.round decreaseExponent
  dsimp only
  rw [targetExponent_eq, show (k - target n k).toNat = 0 by omega, Nat.shiftLeft_zero,
    Int.natCast_zero, Int.sub_zero]

/-- A mantissa that is too short is made longer before it is rounded. -/
theorem exists_round_eq (hn : 0 < n) (k : ℤ) : ∃ m e, 0 < m ∧ e ≤ target m e ∧
    magnitude m e = magnitude n k ∧ ∀ s, UnpackedFloat.round Format.binary64 s n k =
      roundWithAccuracy Format.binary64 s m e .exact := by
  have hround : ∀ s, UnpackedFloat.round Format.binary64 s n k = roundWithAccuracy Format.binary64 s
      (n * 2 ^ (k - target n k).toNat) (k - (k - target n k).toNat) .exact := by
    intro s
    unfold UnpackedFloat.round decreaseExponent
    dsimp only
    rw [targetExponent_eq, Nat.shiftLeft_eq]
  generalize hc : (k - target n k).toNat = c at hround
  refine ⟨_, _, Nat.mul_pos hn (Nat.two_pow_pos c), ?_, ?_, hround⟩
  · unfold target at hc ⊢
    rw [log2_zeros hn]
    omega
  · rw [← magnitude_shift, Int.sub_add_cancel]

theorem signed_round (s : Sign) (n : ℕ) (k : ℤ) :
    Signed s (UnpackedFloat.round Format.binary64 s n k) := signed_roundWithAccuracy

theorem rounding_nonneg (n : ℕ) (k : ℤ) : 0 ≤ rounding n k :=
  nonneg_iff.mpr (signed_round _ _ _).repack.nonneg

/-- What is more is rounded to no less. -/
theorem rounding_mono (h : magnitude n k ≤ magnitude n' k') : rounding n k ≤ rounding n' k' := by
  rcases Nat.eq_zero_or_pos n with rfl | hn
  · refine le_iff.mpr ?_
    change ∃ x ∈ rank (Float.Model.pack _).unpack, _
    rw [round_zero]
    exact (signed_round .positive n' k').repack.nonneg.rank_zero_le .positive
  have hn' : 0 < n' := magnitude_pos_iff.mp ((magnitude_pos_iff.mpr hn).trans_le h)
  rcases exists_round_eq hn k with ⟨m, e, hm, he, hvalue, hround⟩
  rcases exists_round_eq hn' k' with ⟨m', e', hm', he', hvalue', hround'⟩
  rw [← hvalue, ← hvalue'] at h
  have hle := magnitude_rounded_mono hm he he' h
  refine le_iff.mpr ?_
  change ∃ x ∈ rank (Float.Model.pack _).unpack, ∃ y ∈ rank (Float.Model.pack _).unpack, x ≤ y
  rw [hround, hround']
  rcases roundWithAccuracy_cases .positive hm he with ⟨-, heq⟩ | ⟨p, q, hp, heq, hcanonical, hsame⟩
  · rw [heq]
    exact signed_roundWithAccuracy.repack.nonneg.rank_zero_le .positive
  rcases roundWithAccuracy_cases .positive hm' he' with
    ⟨hzero, -⟩ | ⟨p', q', hp', heq', hcanonical', hsame'⟩
  · rw [← hsame, hzero] at hle
    exact absurd (magnitude_pos_iff.mp ((magnitude_pos_iff.mpr hp).trans_le hle)) (by decide)
  · rw [heq, heq']
    exact hcanonical.rank_repack_le hcanonical' (by rwa [hsame, hsame'])

end Rounding

/-- The numbers that are finite, as they are unpacked, and their values. -/
inductive Valued : UnpackedFloat → ℚ → Prop where
  | zero (s : Sign) : Valued (.zero s) 0
  | finite (s : Sign) {m : ℕ} {e : ℤ} (h : Canonical m e) (hm : 0 < m) :
      Valued (.finite s m e hm) ((s.apply m : ℤ) * 2 ^ e)

section Values

variable {f g : UnpackedFloat} {x y : ℚ} {m n : ℕ} {e k : ℤ}

theorem magnitude_nonneg (m : ℕ) (e : ℤ) : 0 ≤ magnitude m e :=
  mul_nonneg m.cast_nonneg (zpow_pos two_pos e).le

theorem apply_positive (m : ℕ) (e : ℤ) :
    ((Sign.positive.apply m : ℤ) : ℚ) * 2 ^ e = magnitude m e := rfl

theorem apply_negative (m : ℕ) (e : ℤ) :
    ((Sign.negative.apply m : ℤ) : ℚ) * 2 ^ e = -magnitude m e :=
  (congrArg (· * 2 ^ e) (Int.cast_neg (m : ℤ))).trans (neg_mul _ _)

theorem apply_neg (s : Sign) (m : ℤ) : (-s).apply m = -s.apply m := by
  cases s with
  | negative => exact (neg_neg m).symm
  | positive => rfl

theorem abs_apply (s : Sign) (m : ℕ) (e : ℤ) :
    |((s.apply m : ℤ) : ℚ) * 2 ^ e| = magnitude m e := by
  cases s with
  | negative => rw [apply_negative, abs_neg, abs_of_nonneg (magnitude_nonneg m e)]
  | positive => rw [apply_positive, abs_of_nonneg (magnitude_nonneg m e)]

theorem apply_shift (s : Sign) (m : ℕ) {j : ℤ} (h : j ≤ e) :
    ((s.apply (m <<< (e - j).toNat : ℕ) : ℤ) : ℚ) * 2 ^ j = ((s.apply m : ℤ) : ℚ) * 2 ^ e := by
  obtain ⟨c, rfl⟩ := Int.le.dest h
  rw [show (j + c - j).toNat = c by omega, Nat.shiftLeft_eq]
  cases s with
  | negative => rw [apply_negative, apply_negative, magnitude_shift]
  | positive => rw [apply_positive, apply_positive, magnitude_shift]

theorem exists_valued {a : Float} (h : a.isFinite) : ∃ x, Valued a.toModel.unpack x := by
  change a.toModel.unpack.isFinite = true at h
  generalize a.toModel = v at h
  cases hv : v.unpack with
  | notANumber | infinity =>
      rw [hv] at h
      exact absurd h Bool.noConfusion
  | zero s => exact ⟨0, .zero s⟩
  | finite s m e hm => exact ⟨_, .finite s (canonical_of_unpack hv) hm⟩

theorem Valued.neg (h : Valued f x) : Valued f.neg (-x) := by
  cases h with
  | zero s => exact neg_zero (G := ℚ) ▸ .zero (-s)
  | @finite s m e h hm =>
      rw [← neg_mul, ← Int.cast_neg, ← apply_neg]
      exact .finite (-s) h hm

theorem Valued.nonneg (h : Valued f x) (hf : Nonneg f) : 0 ≤ x := by
  cases hf with
  | infinity => cases h
  | zero s =>
      cases h
      exact le_rfl
  | finite m e hm =>
      cases h
      exact magnitude_nonneg m e

theorem Valued.exists_rank (h : Valued f x) : ∃ u, u ∈ rank f := by
  cases h with
  | zero => exact ⟨_, rfl⟩
  | finite s h hm => cases s <;> exact ⟨_, rfl⟩

/-- Finite numbers are in the order of their values. -/
theorem Valued.le_of_rank_le (hf : Valued f x) (hg : Valued g y)
    (h : ∃ u ∈ rank f, ∃ v ∈ rank g, u ≤ v) : x ≤ y := by
  rcases h with ⟨u, hu, v, hv, hle⟩
  cases hf with
  | zero s =>
      cases hg with
      | zero s' => exact le_rfl
      | @finite s' n k h' hn =>
          cases s' with
          | positive => exact magnitude_nonneg n k
          | negative =>
              cases hu
              cases hv
              exact absurd hle (by simp [Prod.Lex.le_iff])
  | @finite s m e h hm =>
      cases hg with
      | zero s' =>
          cases s with
          | negative => exact (apply_negative m e).trans_le (neg_nonpos.mpr (magnitude_nonneg m e))
          | positive =>
              cases hu
              cases hv
              exact absurd hle (by simp [Prod.Lex.le_iff])
      | @finite s' n k h' hn =>
          cases s <;> cases s'
          case negative.negative =>
            cases hu
            cases hv
            rw [apply_negative, apply_negative, neg_le_neg_iff, h'.magnitude_le_iff h hm]
            simp only [Prod.Lex.toLex_le_toLex, lt_irrefl, false_or, true_and] at hle
            omega
          case negative.positive =>
            rw [apply_negative]
            exact (neg_nonpos.mpr (magnitude_nonneg m e)).trans (magnitude_nonneg n k)
          case positive.negative =>
            cases hu
            cases hv
            exact absurd hle (by simp [Prod.Lex.le_iff])
          case positive.positive =>
            cases hu
            cases hv
            rw [apply_positive, apply_positive, h.magnitude_le_iff h' hn]
            simp only [Prod.Lex.toLex_le_toLex, lt_irrefl, false_or, true_and] at hle
            omega

end Values

section Operations

variable {f g : UnpackedFloat} {x y : ℚ} {m n : ℕ} {e k : ℤ}

theorem Canonical.round_eq (h : Canonical m e) (hm : 0 < m) (s : Sign) :
    UnpackedFloat.round Format.binary64 s m e = .finite s m e hm := by
  have htarget := h.target_eq hm 0
  have hround := roundWithAccuracy_zeros (s := s) h hm 0
  rw [Nat.pow_zero, Nat.mul_one, Int.natCast_zero, Int.sub_zero] at htarget hround
  rw [FloatingPoint.round_eq htarget.ge, hround]

theorem Valued.exists_abs_add (hf : Valued f x) (hg : Valued g y) :
    ∃ n k, magnitude n k = |x + y| ∧ (UnpackedFloat.add Format.binary64 f g).abs =
      (UnpackedFloat.round Format.binary64 .positive n k).abs := by
  cases hf with
  | zero s =>
      cases hg with
      | zero s' =>
          refine ⟨0, 0, ?_, ?_⟩
          · rw [add_zero, abs_zero]
            exact zero_mul _
          · rw [round_zero]
            cases s <;> cases s' <;> rfl
      | @finite s' n k h hn =>
          refine ⟨n, k, ?_, ?_⟩
          · rw [zero_add, abs_apply]
          · rw [h.round_eq hn]
            rfl
  | @finite s m e h hm =>
      cases hg with
      | zero s' =>
          refine ⟨m, e, ?_, ?_⟩
          · rw [add_zero, abs_apply]
          · rw [h.round_eq hm]
            rfl
      | @finite s' n k h' hn =>
          have hpos : (0 : ℚ) < 2 ^ min e k := zpow_pos two_pos _
          refine ⟨_, _, ?_, abs_normalize _ _⟩
          rw [← apply_shift s m (min_le_left e k), ← apply_shift s' n (min_le_right e k), ← add_mul,
            ← Int.cast_add, abs_mul, abs_of_pos hpos, ← Int.cast_abs, ← Nat.cast_natAbs]
          rfl

theorem sub_eq_add (f g : UnpackedFloat) : UnpackedFloat.sub Format.binary64 f g =
    UnpackedFloat.add Format.binary64 f g.neg := by
  rcases f with s | _ | s | ⟨s, m, e, hm⟩ <;> rcases g with s' | _ | s' | ⟨s', n, k, hn⟩ <;>
    try rfl
  unfold UnpackedFloat.sub UnpackedFloat.add UnpackedFloat.neg
  dsimp only
  rw [apply_neg, sub_eq_add_neg]

theorem Valued.exists_mul_self (hf : Valued f x) :
    ∃ n k, magnitude n k = x * x ∧ UnpackedFloat.mul Format.binary64 f f =
      UnpackedFloat.round Format.binary64 .positive n k := by
  cases hf with
  | zero s =>
      refine ⟨0, 0, by unfold magnitude; ring, ?_⟩
      rw [round_zero]
      cases s <;> rfl
  | @finite s m e h hm =>
      refine ⟨m * m, e + e, ?_, ?_⟩
      · rw [← abs_mul_abs_self, abs_apply]
        unfold magnitude
        rw [zpow_add₀ two_ne_zero, Nat.cast_mul]
        ring
      · rw [FloatingPoint.round_eq (h.le_target_mul_self hm)]
        cases s <;> rfl

-- Signs do not matter for squares.
theorem mul_self_congr (h : f.abs = g.abs) : UnpackedFloat.mul Format.binary64 f f =
    UnpackedFloat.mul Format.binary64 g g := by
  rcases f with s | _ | s | ⟨s, m, e, hm⟩ <;> rcases g with s' | _ | s' | ⟨s', n, k, hn⟩ <;>
    cases h <;> first | rfl | (cases s <;> cases s' <;> rfl)

end Operations

section Comparing

variable {a b c d : Float} {x y z w : ℚ}

-- Only an infinity is more than all that is finite.
theorem isFinite_of_le (ha : 0 ≤ a) (h : a ≤ b) (hb : b.isFinite) : a.isFinite := by
  rcases exists_valued hb with ⟨y, hy⟩
  rcases le_iff.mp h with ⟨u, hu, v, hv, hle⟩
  have hnonneg := nonneg_iff.mp ha
  change a.toModel.unpack.isFinite = true
  generalize a.toModel.unpack = f at hu hnonneg
  generalize b.toModel.unpack = g at hv hy
  cases hnonneg with
  | zero | finite => rfl
  | infinity =>
      cases hu
      cases hy with
      | zero s =>
          cases hv
          exact absurd hle (by decide)
      | finite s h hm =>
          cases s <;> cases hv <;> exact absurd hle (by simp [Prod.Lex.le_iff])

theorem value_le_of_le (ha : Valued a.toModel.unpack x) (hb : Valued b.toModel.unpack y)
    (h : a ≤ b) : x ≤ y := ha.le_of_rank_le hb (le_iff.mp h)

-- What is not negative is its own magnitude.
theorem le_of_abs_eq (ha : 0 ≤ a) (hb : 0 ≤ b) (hac : a.toModel.unpack.abs = c.toModel.unpack.abs)
    (hbd : b.toModel.unpack.abs = d.toModel.unpack.abs) (hc : 0 ≤ c) (hd : 0 ≤ d) (h : c ≤ d) :
    a ≤ b := by
  have hrank : ∀ {f : UnpackedFloat}, Nonneg f → rank f = rank f.abs := by
    intro f hf
    cases hf with
    | infinity | zero | finite => rfl
  rw [le_iff, hrank (nonneg_iff.mp ha), hrank (nonneg_iff.mp hb), hac, hbd,
    ← hrank (nonneg_iff.mp hc), ← hrank (nonneg_iff.mp hd), ← le_iff]
  exact h

/-- A sum is the rounded one of the values, but for its sign. -/
theorem exists_add (ha : Valued a.toModel.unpack x) (hb : Valued b.toModel.unpack y) :
    ∃ n k, magnitude n k = |x + y| ∧
      (a + b).toModel.unpack.abs = (rounding n k).toModel.unpack.abs := by
  rcases ha.exists_abs_add hb with ⟨n, k, hvalue, habs⟩
  exact ⟨n, k, hvalue, abs_unpack_pack habs⟩

theorem exists_sub (ha : Valued a.toModel.unpack x) (hb : Valued b.toModel.unpack y) :
    ∃ n k, magnitude n k = |x - y| ∧
      (a - b).toModel.unpack.abs = (rounding n k).toModel.unpack.abs := by
  rcases ha.exists_abs_add hb.neg with ⟨n, k, hvalue, habs⟩
  rw [← sub_eq_add] at habs
  exact ⟨n, k, sub_eq_add_neg x y ▸ hvalue, abs_unpack_pack habs⟩

/-- A square is the rounded one of the value. -/
theorem exists_mul_self (ha : Valued a.toModel.unpack x) :
    ∃ n k, magnitude n k = x * x ∧ a * a = rounding n k := by
  rcases ha.exists_mul_self with ⟨n, k, hvalue, hsquare⟩
  exact ⟨n, k, hvalue, congrArg (fun f => Float.ofModel (.pack f)) hsquare⟩

theorem mul_self_eq (h : a.toModel.unpack.abs = b.toModel.unpack.abs) : a * a = b * b :=
  congrArg (fun f => Float.ofModel (.pack f)) (mul_self_congr h)

-- Infinity is packed as itself.
theorem not_isFinite_of_infinity {f : UnpackedFloat} (h : f = .infinity .positive) :
    ¬ (Float.ofModel (.pack f)).isFinite := by
  have hpack : (Float.Model.pack (.infinity .positive)).unpack = .infinity .positive := rfl
  change ¬ (Float.Model.pack f).unpack.isFinite = true
  rw [h, hpack]
  exact Bool.false_ne_true

-- A sum is infinite if one of its terms is.
theorem not_isFinite_add (ha : 0 ≤ a) (hb : 0 ≤ b) (h : ¬ (a.isFinite ∧ b.isFinite)) :
    ¬ (a + b).isFinite := by
  change ¬ (a.toModel.unpack.isFinite = true ∧ b.toModel.unpack.isFinite = true) at h
  refine not_isFinite_of_infinity ?_
  rw [nonneg_iff] at ha hb
  generalize a.toModel.unpack = f at ha h
  generalize b.toModel.unpack = g at hb h
  cases ha with
  | infinity => cases hb <;> rfl
  | zero | finite =>
      cases hb with
      | infinity => rfl
      | zero | finite => exact absurd ⟨rfl, rfl⟩ h

theorem not_isFinite_mul_self (ha : 0 ≤ a) (h : ¬ a.isFinite) : ¬ (a * a).isFinite := by
  change ¬ a.toModel.unpack.isFinite = true at h
  refine not_isFinite_of_infinity ?_
  rw [nonneg_iff] at ha
  generalize a.toModel.unpack = f at ha h
  cases ha with
  | infinity => rfl
  | zero | finite => exact absurd rfl h

/-- Sums keep to the order. -/
theorem add_mono (ha : 0 ≤ a) (hb : 0 ≤ b) (hac : a ≤ c) (hbd : b ≤ d) : a + b ≤ c + d := by
  have hc := le_trans ha hac
  have hd := le_trans hb hbd
  have hab := Scalar.Ordered.add_nonneg a b ha hb
  have hcd := Scalar.Ordered.add_nonneg c d hc hd
  by_cases hfinite : c.isFinite ∧ d.isFinite
  · rcases exists_valued (isFinite_of_le ha hac hfinite.1) with ⟨x, hx⟩
    rcases exists_valued (isFinite_of_le hb hbd hfinite.2) with ⟨y, hy⟩
    rcases exists_valued hfinite.1 with ⟨z, hz⟩
    rcases exists_valued hfinite.2 with ⟨w, hw⟩
    rcases exists_add hx hy with ⟨n, k, hvalue, habs⟩
    rcases exists_add hz hw with ⟨n', k', hvalue', habs'⟩
    have hxy := add_nonneg (hx.nonneg (nonneg_iff.mp ha)) (hy.nonneg (nonneg_iff.mp hb))
    have hsum := add_le_add (value_le_of_le hx hz hac) (value_le_of_le hy hw hbd)
    have hle : magnitude n k ≤ magnitude n' k' := by
      rwa [hvalue, hvalue', abs_of_nonneg hxy, abs_of_nonneg (hxy.trans hsum)]
    exact le_of_abs_eq hab hcd habs habs' (rounding_nonneg n k) (rounding_nonneg n' k')
      (rounding_mono hle)
  · exact Scalar.Ordered.le_of_not_isFinite _ _ hab hcd (not_isFinite_add hc hd hfinite)

theorem mul_self_nonneg_of_nonneg (ha : 0 ≤ a) : 0 ≤ a * a := by
  rcases (nonneg_iff.mp ha).exists_signed with ⟨s, hs⟩
  exact nonneg_iff.mpr hs.mul_self.repack.nonneg

/-- The square of more is no less. -/
theorem mul_self_mono (ha : 0 ≤ a) (h : a ≤ b) : a * a ≤ b * b := by
  have hb := le_trans ha h
  by_cases hfinite : b.isFinite
  · rcases exists_valued (isFinite_of_le ha h hfinite) with ⟨x, hx⟩
    rcases exists_valued hfinite with ⟨y, hy⟩
    rcases exists_mul_self hx with ⟨n, k, hvalue, hsquare⟩
    rcases exists_mul_self hy with ⟨n', k', hvalue', hsquare'⟩
    rw [hsquare, hsquare']
    refine rounding_mono ?_
    rw [hvalue, hvalue']
    exact mul_self_le_mul_self (hx.nonneg (nonneg_iff.mp ha)) (value_le_of_le hx hy h)
  · exact Scalar.Ordered.le_of_not_isFinite _ _ (mul_self_nonneg_of_nonneg ha)
      (mul_self_nonneg_of_nonneg hb) (not_isFinite_mul_self hb hfinite)

/-- The square of a larger difference is no less. -/
theorem sub_mul_self_mono (ha : Valued a.toModel.unpack x) (hb : Valued b.toModel.unpack y)
    (hc : Valued c.toModel.unpack z) (h : |x - z| ≤ |y - z|) :
    (a - c) * (a - c) ≤ (b - c) * (b - c) := by
  rcases exists_sub ha hc with ⟨n, k, hvalue, habs⟩
  rcases exists_sub hb hc with ⟨n', k', hvalue', habs'⟩
  rw [← hvalue, ← hvalue'] at h
  rw [mul_self_eq habs, mul_self_eq habs']
  exact mul_self_mono (rounding_nonneg n k) (rounding_mono h)

end Comparing

/-- Sums and squares of differences keep to the order in floating point. -/
instance : Planar.Monotone Float where
  not_lt_of_le := fun _ _ hle hlt => not_le_of_lt hlt hle
  le_of_not_lt := by
    intro a b ha hb hlt
    rcases exists_valued ha with ⟨x, hx⟩
    rcases exists_valued hb with ⟨y, hy⟩
    rcases hx.exists_rank with ⟨u, hu⟩
    rcases hy.exists_rank with ⟨v, hv⟩
    exact le_iff.mpr ⟨v, hv, u, hu, not_lt.mp fun huv => hlt (lt_iff.mpr ⟨u, hu, v, hv, huv⟩)⟩
  add_le_add := fun _ _ _ _ => add_mono
  sub_mul_self_le := by
    intro a b c ha hb hc h
    rcases exists_valued ha with ⟨x, hx⟩
    rcases exists_valued hb with ⟨y, hy⟩
    rcases exists_valued hc with ⟨z, hz⟩
    refine sub_mul_self_mono hx hy hz ?_
    rcases h with ⟨hca, hab⟩ | ⟨hba, hac⟩
    · have hzx := value_le_of_le hz hx hca
      have hxy := value_le_of_le hx hy hab
      rw [abs_of_nonneg (sub_nonneg.mpr hzx), abs_of_nonneg (sub_nonneg.mpr (hzx.trans hxy))]
      exact sub_le_sub_right hxy z
    · have hyx := value_le_of_le hy hx hba
      have hxz := value_le_of_le hx hz hac
      rw [abs_of_nonpos (sub_nonpos.mpr hxz), abs_of_nonpos (sub_nonpos.mpr (hyx.trans hxz))]
      exact neg_le_neg (sub_le_sub_right hyx z)
  largest_isFinite := by
    intro a ha
    rw [← Option.some.inj ha]
    decide +kernel

end FloatingPoint

end Journey
