import Mathlib
import Journey.Planar
import Journey.Proofs.Search.Bounds

/-!
# Order and Signs in Floating Point

Which laws of order and measuring hold in floating point.

A number of 64 bits is unpacked before it is compared or calculated with, and the result is
rounded and packed again. So there are two things to say. The order of the unpacked values
is that of their ranks, and only what is not a number has none: this makes it a linear
order of all numbers, in which the two zeros have the same rank. And packing a result does
not change its sign: a result that is too large becomes an infinity and one that is too
small a zero, of the same sign, and neither becomes something that is not a number.

With this every law about signs is one about unpacked values, where it is a case split.
Nothing here depends on how results are rounded, only on what rounding never does: it
makes no number of another sign.

## Main definitions

* `FloatingPoint.rank`: Where a value stands in the order.
* `FloatingPoint.Signed`: The numbers of a sign.
* `FloatingPoint.Nonneg`: The numbers that are not negative.

## Theorems

* `FloatingPoint.compare_eq`: Values are compared by rank.
* `FloatingPoint.Signed.repack`: Packing keeps the sign.
* `FloatingPoint.nonneg_iff`: What is not negative.
-/

namespace Journey

namespace FloatingPoint

open Float.Model Float.Model.UnpackedFloat

/-- Where a value stands in the order: by sign and by being infinite, then by exponent, then
    by mantissa. -/
def rank : UnpackedFloat → Option (ℤ ×ₗ ℤ ×ₗ ℤ)
  | .notANumber => none
  | .infinity .negative => some (toLex (-2, toLex (0, 0)))
  | .finite .negative m e _ => some (toLex (-1, toLex (-e, -m)))
  | .zero _ => some (toLex (0, toLex (0, 0)))
  | .finite .positive m e _ => some (toLex (1, toLex (e, m)))
  | .infinity .positive => some (toLex (2, toLex (0, 0)))

theorem compare_natCast (m n : ℕ) : compare (m : ℤ) n = compare m n := by
  rw [← cmp_eq_compare, ← cmp_eq_compare, Nat.strictMono_cast.cmp_map_eq]

theorem compare_neg (a b : ℤ) : compare (-a) (-b) = compare b a := by
  rw [← cmp_eq_compare, ← cmp_eq_compare, StrictAnti.cmp_map_eq fun _ _ h => neg_lt_neg h]

/-- Values are compared by rank. -/
theorem compare_eq (a b : UnpackedFloat) :
    a.compare b = (rank a).bind fun x => (rank b).map fun y => compare x y := by
  rcases a with (_ | _) | _ | (_ | _) | ⟨_ | _, m, e, hm⟩ <;>
    rcases b with (_ | _) | _ | (_ | _) | ⟨_ | _, n, f, hn⟩ <;>
      -- Whatever differs in sign or kind is compared by that alone.
      try rfl
  case finite.negative.finite.negative =>
    change some ((compare e f).then (compare m n)).swap =
      some ((compare (-e) (-f)).then (compare (-(m : ℤ)) (-n)))
    rw [Ordering.swap_then, ← Std.OrientedOrd.eq_swap, ← Std.OrientedOrd.eq_swap, compare_neg,
      compare_neg, compare_natCast]
  case finite.positive.finite.positive =>
    change some ((compare e f).then (compare m n)) =
      some ((compare e f).then (compare (m : ℤ) n))
    rw [compare_natCast]

theorem compare_eq_some_iff {f g : UnpackedFloat} {o : Ordering} :
    f.compare g = some o ↔ ∃ x ∈ rank f, ∃ y ∈ rank g, compare x y = o := by
  rw [compare_eq]
  simp only [Option.bind_eq_some_iff, Option.map_eq_some_iff, Option.mem_def]

section Order

variable {a b c : Float}

theorem le_iff : a ≤ b ↔
    ∃ x ∈ rank a.toModel.unpack, ∃ y ∈ rank b.toModel.unpack, x ≤ y := by
  have h : a ≤ b ↔ a.toModel.unpack.le b.toModel.unpack = true := decide_eq_true_iff
  rw [h, UnpackedFloat.le, Option.any_eq_true]
  simp only [compare_eq_some_iff]
  constructor
  · rintro ⟨_, ⟨x, hx, y, hy, rfl⟩, hle⟩
    exact ⟨x, hx, y, hy, compare_le_iff_le.mp (Ordering.isLE_iff_ne_gt.mp hle)⟩
  · rintro ⟨x, hx, y, hy, hle⟩
    exact ⟨_, ⟨x, hx, y, hy, rfl⟩, Ordering.isLE_iff_ne_gt.mpr (compare_le_iff_le.mpr hle)⟩

theorem lt_iff : a < b ↔
    ∃ x ∈ rank a.toModel.unpack, ∃ y ∈ rank b.toModel.unpack, x < y := by
  have h : a < b ↔ a.toModel.unpack.lt b.toModel.unpack = true := decide_eq_true_iff
  rw [h, UnpackedFloat.lt, beq_iff_eq, compare_eq_some_iff]
  constructor
  · rintro ⟨x, hx, y, hy, hlt⟩
    exact ⟨x, hx, y, hy, compare_lt_iff_lt.mp hlt⟩
  · rintro ⟨x, hx, y, hy, hlt⟩
    exact ⟨x, hx, y, hy, compare_lt_iff_lt.mpr hlt⟩

theorem le_trans (hab : a ≤ b) (hbc : b ≤ c) : a ≤ c := by
  rcases le_iff.mp hab with ⟨x, hx, y, hy, hxy⟩
  rcases le_iff.mp hbc with ⟨y', hy', z, hz, hyz⟩
  rw [Option.mem_unique hy' hy] at hyz
  exact le_iff.mpr ⟨x, hx, z, hz, hxy.trans hyz⟩

theorem le_of_lt (h : a < b) : a ≤ b := by
  rcases lt_iff.mp h with ⟨x, hx, y, hy, hlt⟩
  exact le_iff.mpr ⟨x, hx, y, hy, hlt.le⟩

-- Both are numbers, because something is at most as large.
theorem le_or_lt (ha : c ≤ a) (hb : c ≤ b) : a ≤ b ∨ b < a := by
  rcases le_iff.mp ha with ⟨-, -, x, hx, -⟩
  rcases le_iff.mp hb with ⟨-, -, y, hy, -⟩
  rcases le_or_gt x y with h | h
  · exact Or.inl (le_iff.mpr ⟨x, hx, y, hy, h⟩)
  · exact Or.inr (lt_iff.mpr ⟨y, hy, x, hx, h⟩)

theorem not_le_of_lt (h : a < b) : ¬ b ≤ a := by
  intro hle
  rcases lt_iff.mp h with ⟨x, hx, y, hy, hlt⟩
  rcases le_iff.mp hle with ⟨y', hy', x', hx', hle⟩
  rw [Option.mem_unique hx' hx, Option.mem_unique hy' hy] at hle
  exact absurd hlt (not_lt_of_ge hle)

end Order

/-- Numbers are ranked. -/
instance : Scalar.Ranked Float where
  lt_asymm := fun _ _ hab hba => not_le_of_lt hab (le_of_lt hba)
  number_of_lt := by
    intro a b h
    rcases lt_iff.mp h with ⟨x, hx, -⟩
    exact le_iff.mpr ⟨x, hx, x, hx, le_rfl⟩
  lt_or_lt := by
    intro a b c h hc
    rcases lt_iff.mp h with ⟨x, hx, y, hy, hlt⟩
    rcases le_iff.mp hc with ⟨z, hz, -⟩
    rcases hlt.gt_or_lt z with hless | hless
    · exact Or.inl (lt_iff.mpr ⟨x, hx, z, hz, hless⟩)
    · exact Or.inr (lt_iff.mpr ⟨z, hz, y, hy, hless⟩)

/-- The numbers of a sign, an infinity and a zero included. -/
inductive Signed (s : Sign) : UnpackedFloat → Prop where
  | infinity : Signed s (.infinity s)
  | zero : Signed s (.zero s)
  | finite (m : Nat) (e : Int) (hm : 0 < m) : Signed s (.finite s m e hm)

/-- The numbers that are not negative. -/
inductive Nonneg : UnpackedFloat → Prop where
  | infinity : Nonneg (.infinity .positive)
  | zero (s : Sign) : Nonneg (.zero s)
  | finite (m : Nat) (e : Int) (hm : 0 < m) : Nonneg (.finite .positive m e hm)

variable {f g : UnpackedFloat}

theorem Signed.nonneg (h : Signed .positive f) : Nonneg f := by
  cases h with
  | infinity => exact Nonneg.infinity
  | zero => exact Nonneg.zero _
  | finite m e hm => exact Nonneg.finite m e hm

theorem Nonneg.exists_signed (h : Nonneg f) : ∃ s, Signed s f := by
  cases h with
  | infinity => exact ⟨_, Signed.infinity⟩
  | zero s => exact ⟨s, Signed.zero⟩
  | finite m e hm => exact ⟨_, Signed.finite m e hm⟩

-- Both zeros have the same rank.
theorem Nonneg.rank_zero_le (h : Nonneg f) (s : Sign) :
    ∃ x ∈ rank (.zero s), ∃ y ∈ rank f, x ≤ y := by
  cases h with
  | infinity => exact ⟨_, rfl, _, rfl, by decide⟩
  | zero => exact ⟨_, rfl, _, rfl, le_rfl⟩
  | finite => exact ⟨_, rfl, _, rfl, by simp [Prod.Lex.le_iff]⟩

-- The only number that is neither negative nor finite is infinity, which has the last rank.
theorem Nonneg.rank_le (hf : Nonneg f) (hg : Nonneg g) (hfinite : ¬ g.isFinite) :
    ∃ x ∈ rank f, ∃ y ∈ rank g, x ≤ y := by
  cases hg with
  | zero | finite => exact absurd rfl hfinite
  | infinity =>
      cases hf with
      | infinity => exact ⟨_, rfl, _, rfl, le_rfl⟩
      | zero s => exact ⟨_, rfl, _, rfl, by decide⟩
      | finite m e hm => exact ⟨_, rfl, _, rfl, by simp [Prod.Lex.le_iff]⟩

/-- What is not negative. -/
theorem nonneg_iff {a : Float} : 0 ≤ a ↔ Nonneg a.toModel.unpack := by
  have hzero : rank (0 : Float).toModel.unpack = some (toLex (0, toLex (0, 0))) := rfl
  rw [le_iff, hzero]
  generalize a.toModel.unpack = f
  constructor
  · rintro ⟨x, hx, y, hy, hle⟩
    rw [← Option.some.inj hx] at hle
    cases f with
    | notANumber => exact absurd hy (Option.not_mem_none y)
    | zero s => exact Nonneg.zero s
    | infinity s =>
        cases s with
        | positive => exact Nonneg.infinity
        | negative =>
            rw [← Option.some.inj hy] at hle
            exact absurd hle (by decide)
    | finite s m e hm =>
        cases s with
        | positive => exact Nonneg.finite m e hm
        | negative =>
            rw [← Option.some.inj hy] at hle
            exact absurd hle (by simp [Prod.Lex.le_iff])
  · exact fun h => h.rank_zero_le .positive

section Packing

variable {s : Sign}

-- What is not a number has the largest exponent and a mantissa that is not zero.
theorem signed_unpack {e : BitVec 11} {m : BitVec 52} (h : e = -1#11 → m = 0#52) :
    Signed s (UnpackedFloat.unpack Format.binary64 (packComponents Format.binary64 s e m)) := by
  unfold UnpackedFloat.unpack
  simp only [unpackExponent_packComponents, unpackMantissa_packComponents,
    unpackSign_packComponents, Sign.ofBitVec_toBitVec]
  split
  · rename_i he
    rw [if_pos (h he)]
    exact Signed.infinity
  · split
    · split
      · exact Signed.zero
      · exact Signed.finite _ _ _
    · exact Signed.finite _ _ _

/-- Packing keeps the sign. -/
theorem Signed.repack (h : Signed s f) :
    Signed s (Float.Model.pack f).unpack := by
  change Signed s (UnpackedFloat.unpack Format.binary64 (UnpackedFloat.pack Format.binary64 f))
  cases h with
  | infinity => exact signed_unpack fun _ => rfl
  | zero => exact signed_unpack fun _ => rfl
  | finite m e hm =>
      unfold UnpackedFloat.pack
      dsimp only
      split
      · exact signed_unpack fun _ => rfl
      · rename_i hlt
        split
        · -- The exponent is less than the largest one.
          refine signed_unpack fun he => ?_
          have hval := congrArg BitVec.toNat he
          rw [BitVec.toNat_ofNat, Nat.mod_eq_of_lt (by omega)] at hval
          change _ = 2047 at hval
          change ¬ 2048 ≤ _ at hlt
          omega
        · exact signed_unpack fun he => absurd he (by decide)

theorem Nonneg.repack (h : Nonneg f) : Nonneg (Float.Model.pack f).unpack := by
  cases h with
  | infinity => exact Signed.infinity.repack.nonneg
  | zero s =>
      have hzero : (Float.Model.pack (.zero s)).unpack = .zero s := by cases s <;> rfl
      rw [hzero]
      exact Nonneg.zero s
  | finite m e hm => exact (Signed.finite m e hm).repack.nonneg

theorem signed_roundWithAccuracy {m : Nat} {e : Int} {accuracy : Accuracy} :
    Signed s (roundWithAccuracy Format.binary64 s m e accuracy) := by
  unfold roundWithAccuracy
  dsimp only
  split
  · exact Signed.zero
  · exact Signed.finite _ _ _

theorem signed_normalize (m e : Int) :
    ∃ s, Signed s (UnpackedFloat.normalize Format.binary64 m e .positive) := by
  unfold UnpackedFloat.normalize
  split
  · exact ⟨_, signed_roundWithAccuracy⟩
  · exact ⟨_, Signed.zero⟩
  · exact ⟨_, signed_roundWithAccuracy⟩

theorem nonneg_normalize {m : Int} (h : 0 ≤ m) (e : Int) :
    Nonneg (UnpackedFloat.normalize Format.binary64 m e .positive) := by
  unfold UnpackedFloat.normalize
  split
  · rename_i hlt
    exact absurd (compare_lt_iff_lt.mp hlt) (not_lt_of_ge h)
  · exact Nonneg.zero _
  · exact signed_roundWithAccuracy.nonneg

end Packing

section Operations

-- The difference of two infinities can be no number. Of finite numbers it cannot.
theorem signed_sub (hf : f.isFinite) (hg : g.isFinite) :
    ∃ s, Signed s (UnpackedFloat.sub Format.binary64 f g) := by
  cases f with
  | notANumber | infinity => exact absurd hf Bool.noConfusion
  | zero s =>
      cases g with
      | notANumber | infinity => exact absurd hg Bool.noConfusion
      | zero s' =>
          unfold UnpackedFloat.sub
          dsimp only
          split
          · exact ⟨_, Signed.zero⟩
          · exact ⟨_, Signed.zero⟩
      | finite => exact ⟨_, Signed.finite _ _ _⟩
  | finite =>
      cases g with
      | notANumber | infinity => exact absurd hg Bool.noConfusion
      | zero => exact ⟨_, Signed.finite _ _ _⟩
      | finite => exact signed_normalize _ _

theorem Signed.mul_self {s : Sign} (h : Signed s f) :
    Signed .positive (UnpackedFloat.mul Format.binary64 f f) := by
  have hs : s * s = .positive := by cases s <;> rfl
  cases h with
  | infinity => exact hs ▸ Signed.infinity
  | zero => exact hs ▸ Signed.zero
  | finite => exact hs ▸ signed_roundWithAccuracy

theorem Nonneg.add (hf : Nonneg f) (hg : Nonneg g) :
    Nonneg (UnpackedFloat.add Format.binary64 f g) := by
  cases hf with
  | infinity => cases hg <;> exact Nonneg.infinity
  | zero s =>
      cases hg with
      | infinity => exact Nonneg.infinity
      | zero s' =>
          unfold UnpackedFloat.add
          dsimp only
          split
          · exact Nonneg.zero _
          · exact Nonneg.zero _
      | finite m e hm => exact Nonneg.finite m e hm
  | finite m e hm =>
      cases hg with
      | infinity => exact Nonneg.infinity
      | zero => exact Nonneg.finite m e hm
      | finite =>
          exact nonneg_normalize (Int.add_nonneg (Int.natCast_nonneg _) (Int.natCast_nonneg _)) _

theorem Nonneg.sqrt (h : Nonneg f) : Nonneg (UnpackedFloat.sqrt Format.binary64 f) := by
  cases h with
  | infinity => exact Nonneg.infinity
  | zero s => exact Nonneg.zero s
  | finite => exact signed_roundWithAccuracy.nonneg

end Operations

theorem sqrt_nonneg {a : Float} (h : 0 ≤ a) : 0 ≤ a.sqrt :=
  nonneg_iff.mpr (nonneg_iff.mp h).sqrt.repack

end FloatingPoint

end Journey
