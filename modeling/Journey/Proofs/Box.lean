import Journey.Box
import Journey.Proofs.Measuring

/-!
# Boxes Around Points

A box around points is no further away than any of them.

A box grows from one point to the next, and whichever of two coordinates becomes a side, the
points so far stay between the sides. From a place outside of the box the nearest point of
it lies between the place and any other point of it, along either axis. So no squared
difference is smaller, and no sum of them. With rounding this takes nothing but that squares
of differences keep to the order.

## Main definitions

* `Box.IsFinite`: The sides of a box are somewhere.
* `Box.Encloses`: A point lies between the sides of a box.

## Theorems

* `Box.encloses_of_around?`: A box around some points encloses them.
* `Box.Encloses.squaredDistance_le`: A box is no further away than a point in it.
-/

namespace Journey

namespace Box

variable {α : Type} [Scalar α] [Planar α]

omit [Planar α] in
theorem isFinite_iff {p : Point α} : p.isFinite ↔ Scalar.isFinite p.x ∧ Scalar.isFinite p.y := by
  unfold Point.isFinite
  rw [Bool.and_eq_true]

/-- The sides of a box are somewhere. -/
structure IsFinite (b : Box α) : Prop where
  lower : b.lower.isFinite
  upper : b.upper.isFinite

/-- A point lies between the sides of a box. -/
structure Encloses (b : Box α) (p : Point α) : Prop where
  x : b.lower.x ≤ p.x ∧ p.x ≤ b.upper.x
  y : b.lower.y ≤ p.y ∧ p.y ≤ b.upper.y

variable [Planar.Monotone α]

section Sides

variable {a b : α}

theorem le_self (ha : Scalar.isFinite a) : a ≤ a :=
  Planar.Monotone.le_of_not_lt a a ha ha fun hlt =>
    Planar.Monotone.not_lt_of_le a a (Scalar.Ordered.le_of_lt a a hlt) hlt

theorem lesser_spec (ha : Scalar.isFinite a) (hb : Scalar.isFinite b) :
    Scalar.isFinite (lesser a b) ∧ lesser a b ≤ a ∧ lesser a b ≤ b := by
  unfold lesser
  by_cases h : a < b
  · rw [if_pos h]
    exact ⟨ha, le_self ha, Scalar.Ordered.le_of_lt a b h⟩
  · rw [if_neg h]
    exact ⟨hb, Planar.Monotone.le_of_not_lt a b ha hb h, le_self hb⟩

theorem greater_spec (ha : Scalar.isFinite a) (hb : Scalar.isFinite b) :
    Scalar.isFinite (greater a b) ∧ a ≤ greater a b ∧ b ≤ greater a b := by
  unfold greater
  by_cases h : b < a
  · rw [if_pos h]
    exact ⟨ha, le_self ha, Scalar.Ordered.le_of_lt b a h⟩
  · rw [if_neg h]
    exact ⟨hb, Planar.Monotone.le_of_not_lt b a hb ha h, le_self hb⟩

theorem lowerSide_spec (ha : Scalar.isFinite a) :
    Scalar.isFinite (lowerSide a) ∧ lowerSide a ≤ a := by
  unfold lowerSide
  cases h : (Planar.largest? : Option α) with
  | none => exact ⟨ha, le_self ha⟩
  | some largest =>
      rcases lesser_spec (Planar.Monotone.largest_isFinite largest h).1 ha with ⟨hfinite, -, hle⟩
      exact ⟨hfinite, hle⟩

theorem upperSide_spec (ha : Scalar.isFinite a) :
    Scalar.isFinite (upperSide a) ∧ a ≤ upperSide a := by
  unfold upperSide
  cases h : (Planar.largest? : Option α) with
  | none => exact ⟨ha, le_self ha⟩
  | some largest =>
      rcases greater_spec (Planar.Monotone.largest_isFinite largest h).2 ha with ⟨hfinite, -, hle⟩
      exact ⟨hfinite, hle⟩

end Sides

section Growing

variable {b : Box α} {p q : Point α} {points : List (Point α)}

theorem isFinite_ofPoint (hp : p.isFinite) : (ofPoint p).IsFinite := by
  rcases isFinite_iff.mp hp with ⟨hx, hy⟩
  exact ⟨isFinite_iff.mpr ⟨(lowerSide_spec hx).1, (lowerSide_spec hy).1⟩,
    isFinite_iff.mpr ⟨(upperSide_spec hx).1, (upperSide_spec hy).1⟩⟩

theorem encloses_ofPoint (hp : p.isFinite) : (ofPoint p).Encloses p := by
  rcases isFinite_iff.mp hp with ⟨hx, hy⟩
  exact ⟨⟨(lowerSide_spec hx).2, (upperSide_spec hx).2⟩,
    ⟨(lowerSide_spec hy).2, (upperSide_spec hy).2⟩⟩

/-- A box that grows to a point encloses that point and what it enclosed before. -/
theorem IsFinite.extend (hb : b.IsFinite) (hp : p.isFinite) :
    (b.extend p).IsFinite ∧ (b.extend p).Encloses p ∧
      ∀ q, b.Encloses q → (b.extend p).Encloses q := by
  rcases isFinite_iff.mp hp with ⟨hx, hy⟩
  rcases isFinite_iff.mp hb.lower with ⟨hlx, hly⟩
  rcases isFinite_iff.mp hb.upper with ⟨hux, huy⟩
  rcases lesser_spec hlx hx with ⟨hlx', hlx₁, hlx₂⟩
  rcases lesser_spec hly hy with ⟨hly', hly₁, hly₂⟩
  rcases greater_spec hux hx with ⟨hux', hux₁, hux₂⟩
  rcases greater_spec huy hy with ⟨huy', huy₁, huy₂⟩
  have htrans := Scalar.Ordered.le_trans (α := α)
  refine ⟨⟨isFinite_iff.mpr ⟨hlx', hly'⟩, isFinite_iff.mpr ⟨hux', huy'⟩⟩,
    ⟨⟨hlx₂, hux₂⟩, ⟨hly₂, huy₂⟩⟩, fun q hq => ?_⟩
  exact ⟨⟨htrans _ _ _ hlx₁ hq.x.1, htrans _ _ _ hq.x.2 hux₁⟩,
    ⟨htrans _ _ _ hly₁ hq.y.1, htrans _ _ _ hq.y.2 huy₁⟩⟩

theorem IsFinite.foldl_extend (hpoints : ∀ p ∈ points, p.isFinite) : ∀ {b : Box α}, b.IsFinite →
    (points.foldl Box.extend b).IsFinite ∧
      ∀ q, b.Encloses q ∨ q ∈ points → (points.foldl Box.extend b).Encloses q := by
  induction points with
  | nil => exact fun hb => ⟨hb, fun q hq => hq.resolve_right List.not_mem_nil⟩
  | cons p points ih =>
      intro b hb
      rcases hb.extend (hpoints p List.mem_cons_self) with ⟨hextend, hp, hold⟩
      rcases ih (fun q hq => hpoints q (List.mem_cons_of_mem p hq)) hextend with ⟨hfinite, hall⟩
      refine ⟨hfinite, fun q hq => hall q ?_⟩
      rcases hq with hq | hq
      · exact Or.inl (hold q hq)
      · rcases List.mem_cons.mp hq with rfl | hq
        · exact Or.inl hp
        · exact Or.inr hq

/-- A box around some points encloses them. -/
theorem encloses_of_around? (hpoints : ∀ p ∈ points, p.isFinite) (h : around? points = some b) :
    b.IsFinite ∧ ∀ p ∈ points, b.Encloses p := by
  cases points with
  | nil => exact absurd h (Option.some_ne_none b).symm
  | cons p points =>
      have hp := hpoints p List.mem_cons_self
      rcases (isFinite_ofPoint hp).foldl_extend
        fun q hq => hpoints q (List.mem_cons_of_mem p hq) with ⟨hfinite, hall⟩
      rw [← Option.some.inj h]
      refine ⟨hfinite, fun q hq => hall q ?_⟩
      rcases List.mem_cons.mp hq with rfl | hq
      · exact Or.inl (encloses_ofPoint hp)
      · exact Or.inr hq

end Growing

section Distances

/-- Of what lies between two sides nothing is nearer than the nearer side, or than what is
    itself between them. -/
theorem clamp_sub_mul_self_le {lower upper a c : α} (hlower : Scalar.isFinite lower)
    (hupper : Scalar.isFinite upper) (ha : Scalar.isFinite a) (hc : Scalar.isFinite c)
    (hla : lower ≤ a) (hau : a ≤ upper) :
    (lesser upper (greater lower c) - c) * (lesser upper (greater lower c) - c) ≤
      (a - c) * (a - c) := by
  unfold greater
  by_cases hbelow : c < lower
  · have hlu := Scalar.Ordered.le_trans _ _ _ hla hau
    unfold lesser
    rw [if_pos hbelow, if_neg (Planar.Monotone.not_lt_of_le _ _ hlu)]
    exact Planar.Monotone.sub_mul_self_le _ _ _ hlower ha hc
      (Or.inl ⟨Scalar.Ordered.le_of_lt _ _ hbelow, hla⟩)
  · rw [if_neg hbelow]
    unfold lesser
    by_cases habove : upper < c
    · rw [if_pos habove]
      exact Planar.Monotone.sub_mul_self_le _ _ _ hupper ha hc
        (Or.inr ⟨hau, Scalar.Ordered.le_of_lt _ _ habove⟩)
    · rw [if_neg habove]
      refine Planar.Monotone.sub_mul_self_le _ _ _ hc ha hc ?_
      by_cases hlt : c < a
      · exact Or.inl ⟨le_self hc, Scalar.Ordered.le_of_lt _ _ hlt⟩
      · exact Or.inr ⟨Planar.Monotone.le_of_not_lt _ _ hc ha hlt, le_self hc⟩

/-- A box is no further away than a point in it. -/
theorem Encloses.squaredDistance_le {b : Box α} {p center : Point α} (h : b.Encloses p)
    (hb : b.IsFinite) (hp : p.isFinite) (hcenter : center.isFinite) :
    b.squaredDistance center ≤ p.squaredDistance center := by
  rcases isFinite_iff.mp hp with ⟨hx, hy⟩
  rcases isFinite_iff.mp hcenter with ⟨hcx, hcy⟩
  rcases isFinite_iff.mp hb.lower with ⟨hlx, hly⟩
  rcases isFinite_iff.mp hb.upper with ⟨hux, huy⟩
  unfold squaredDistance
  split
  · exact Point.squaredDistance_nonneg hp hcenter
  · have hclampx := (lesser_spec hux (greater_spec hlx hcx).1).1
    have hclampy := (lesser_spec huy (greater_spec hly hcy).1).1
    exact Planar.Monotone.add_le_add _ _ _ _
      (Scalar.Ordered.sub_mul_self_nonneg _ _ hclampx hcx)
      (Scalar.Ordered.sub_mul_self_nonneg _ _ hclampy hcy)
      (clamp_sub_mul_self_le hlx hux hx hcx h.x.1 h.x.2)
      (clamp_sub_mul_self_le hly huy hy hcy h.y.1 h.y.2)

end Distances

end Box

end Journey
