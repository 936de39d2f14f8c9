import Journey.Proofs.Access.KeptLegs

/-!
# Drawn Modes

What is drawn if one mode is used for all stops.

A mode that has no candidates is of no use, so another one is drawn, at most twice as often
as there are modes. What was routed in vain is kept, but what was found in vain is
nothing, and so every mode starts anew: the answer is that of the last mode drawn, as if there
were no other one, and candidates of two modes never come together.

That the number of draws is known matters beyond the request, since the next request goes on
with the generator where this one has left it. So the generator is a sequence of outcomes
that counts how many were drawn.

## Main definitions

* `Outcomes`: A generator that draws a given sequence.
* `Intermodal.only`: The configuration with one mode of several.

## Theorems

* `Intermodal.candidates_only`: What one mode finds alone.
* `Intermodal.drawModes_eq`: The draws of a number of attempts.
* `Intermodal.candidates_drawn`: The answer to a request.
-/

namespace Journey

/-- A given sequence of outcomes, of which some have been drawn. -/
structure Outcomes where
  outcome : Nat → Nat
  drawn : Nat

instance : Generator Outcomes where
  draw o _ := (o.outcome o.drawn, { o with drawn := o.drawn + 1 })

namespace Intermodal

variable {α : Type} [Scalar α]

/-- The configuration with one mode of several, which is the cheapest one at every stop. -/
def only (i : Intermodal α) (m : AccessMode α) : Intermodal α :=
  { i with modes := { modes := [m], selection := .leastCostPerStop } }

variable [Planar α] [MarkerTree α] {κ γ : Type} [LegStore κ α] [Generator γ] {i : Intermodal α}
  {t : Timetable α} {r : AccessRequest α} {P : κ → Prop} {outcome : Nat → Nat}

/-- What one mode finds alone are its offers. -/
theorem candidates_only {m : AccessMode α} (h : i.Trusts t r P m) {store : κ} (hstore : P store)
    (generator : γ) :
    ((i.only m).candidates t r store generator).1 = Found.offerAll (i.offers t r m) [] := by
  have htrusts : ∀ m' ∈ (i.only m).modes.modes, (i.only m).Trusts t r P m' := by
    intro m' hm'
    rw [List.mem_singleton.mp hm']
    exact h
  rcases candidates_eq_offerAll rfl htrusts hstore generator with ⟨store', heq⟩
  rw [heq]
  change Found.offerAll ((i.offers t r m) ++ []) [] = _
  rw [List.append_nil]

-- One draw. What the mode finds does not depend on what was drawn before.
theorem drawModes_succ (h : ∀ m ∈ i.modes.modes, i.Trusts t r P m) {drawn : Nat}
    {m : AccessMode α} (hm : i.modes.modes[outcome drawn]? = some m) (attempts : Nat) {store : κ}
    (hstore : P store) :
    ∃ store', P store' ∧
      i.drawModes t r (attempts + 1) store (Outcomes.mk outcome drawn) =
        if (Found.offerAll (i.offers t r m) []).isEmpty then
          i.drawModes t r attempts store' (Outcomes.mk outcome (drawn + 1))
        else (Found.offerAll (i.offers t r m) [], store', Outcomes.mk outcome (drawn + 1)) := by
  rcases (h m (List.mem_of_getElem? hm)).addMode_eq [] hstore with ⟨hfound, hafter⟩
  refine ⟨(i.addMode t r ([], store) m).2, hafter, ?_⟩
  rw [drawModes, ← hfound]
  simp only [Generator.draw, hm]

/-- Modes are drawn until one has offers or there are no attempts left. Whatever was drawn
    before the last one has none. -/
theorem drawModes_eq (h : ∀ m ∈ i.modes.modes, i.Trusts t r P m)
    (hrange : ∀ j, outcome j < i.modes.modes.length) (attempts : Nat) :
    ∀ (store : κ) (drawn : Nat), P store → ∃ last m store', drawn ≤ last ∧
      last ≤ drawn + attempts ∧ i.modes.modes[outcome last]? = some m ∧
      i.drawModes t r (attempts + 1) store (Outcomes.mk outcome drawn)
        = (Found.offerAll (i.offers t r m) [], store', Outcomes.mk outcome (last + 1)) ∧
      (Found.offerAll (i.offers t r m) [] = [] → last = drawn + attempts) ∧
      ∀ (j : Nat) (m' : AccessMode α), drawn ≤ j → j < last →
        i.modes.modes[outcome j]? = some m' → Found.offerAll (i.offers t r m') [] = [] := by
  have hmode : ∀ j, ∃ m, i.modes.modes[outcome j]? = some m :=
    fun j => ⟨_, List.getElem?_eq_getElem (hrange j)⟩
  induction attempts with
  | zero =>
      intro store drawn hstore
      rcases hmode drawn with ⟨m, hm⟩
      rcases drawModes_succ h hm 0 hstore with ⟨store', -, heq⟩
      refine ⟨drawn, m, store', Nat.le_refl _, Nat.le_refl _, hm, ?_, fun _ => rfl,
        fun j _ hj hlt => absurd hlt (Nat.not_lt_of_le hj)⟩
      rw [heq]
      split
      · rename_i hempty
        rw [List.isEmpty_iff.mp hempty]
        rfl
      · rfl
  | succ attempts ih =>
      intro store drawn hstore
      rcases hmode drawn with ⟨m, hm⟩
      rcases drawModes_succ h hm (attempts + 1) hstore with ⟨store', hstore', heq⟩
      by_cases hempty : (Found.offerAll (i.offers t r m) []).isEmpty = true
      · rw [if_pos hempty] at heq
        rcases ih store' (drawn + 1) hstore' with ⟨last, m', store'', hle, hlast, hm', hdraw, hnone,
          hbefore⟩
        refine ⟨last, m', store'', by omega, by omega, hm', heq.trans hdraw,
          fun hc => (hnone hc).trans (by omega), fun j m'' hj hlt hm'' => ?_⟩
        rcases Nat.eq_or_lt_of_le hj with rfl | hj
        · rw [hm, Option.some.injEq] at hm''
          exact hm'' ▸ List.isEmpty_iff.mp hempty
        · exact hbefore j m'' hj hlt hm''
      · rw [if_neg hempty] at heq
        exact ⟨drawn, m, store', Nat.le_refl _, by omega, hm, heq,
          fun hc => absurd (List.isEmpty_iff.mpr hc) hempty,
          fun j _ hj hlt => absurd hlt (Nat.not_lt_of_le hj)⟩

variable {keeps : κ → LegKey → Option (AccessLeg α) → Prop}

/-- If one mode is used for all stops, modes are drawn until one of them finds something
    alone, but no more than twice as often as there are modes. The answer is what the last
    mode drawn finds alone. -/
theorem candidates_drawn (hstore : LegStore.Faithful keeps) {edits : List (Edit α)}
    {t : Timetable α} (hbuild : (Draft.ofEdits edits).build = .ok t) {i : Intermodal α}
    (hselection : i.modes.selection = .randomSingleMode) (r : AccessRequest α) {store : κ}
    (hempty : ∀ key leg, ¬ keeps store key leg) {outcome : Nat → Nat}
    (hrange : ∀ j, outcome j < i.modes.modes.length) (generator : γ) :
    ∃ k m store', 1 ≤ k ∧ k ≤ 2 * i.modes.modes.length ∧
      i.modes.modes[outcome (k - 1)]? = some m ∧
      i.candidates t r store (Outcomes.mk outcome 0)
        = (((i.only m).candidates t r store generator).1, store', Outcomes.mk outcome k) ∧
      (((i.only m).candidates t r store generator).1 = [] → k = 2 * i.modes.modes.length) ∧
      ∀ (j : Nat) (m' : AccessMode α), 1 ≤ j → j < k →
        i.modes.modes[outcome (j - 1)]? = some m' →
          ((i.only m').candidates t r store generator).1 = [] := by
  have hlocated : Located t [r] := located_of_build hbuild fun a ha b hb _ => by
    rw [List.mem_singleton.mp ha, List.mem_singleton.mp hb]
  have hcurrent : i.Current t [r] keeps store := fun key leg hkeeps =>
    absurd hkeeps (hempty key leg)
  have htrusts : ∀ m, i.Trusts t r (i.Current t [r] keeps) m :=
    trusts_current hstore hlocated (List.mem_singleton.mpr rfl)
  have halone : ∀ m, ((i.only m).candidates t r store generator).1
      = Found.offerAll (i.offers t r m) [] :=
    fun m => candidates_only (htrusts m) hcurrent generator
  -- There is an outcome, so there is a mode and at least one attempt.
  have hpos := Nat.zero_lt_of_lt (hrange 0)
  rcases drawModes_eq (fun m _ => htrusts m) hrange (2 * i.modes.modes.length - 1) store 0 hcurrent
    with ⟨last, m, store', -, hlast, hm, hdraw, hnone, hbefore⟩
  refine ⟨last + 1, m, store', by omega, by omega, hm, ?_, fun hc => ?_, fun j m' hj hlt hm' => ?_⟩
  · rw [Nat.sub_add_cancel (by omega)] at hdraw
    rw [halone, ← hdraw]
    unfold candidates
    rw [hselection]
  · rw [hnone (halone m ▸ hc)]
    omega
  · rw [halone]
    exact hbefore (j - 1) m' (Nat.zero_le _) (by omega) hm'

end Intermodal

namespace Sample

/-- Walking, which is too far, or riding a bicycle. -/
def walkOrBicycle : Intermodal ℚ :=
  { modes := {
      modes := [⟨Mode.walk, 100, false, none, none⟩, ⟨⟨"bike"⟩, 1000, true, none, none⟩]
      selection := .randomSingleMode }
    routers := ⟨[("walk", ⟨1, 1, none, none⟩), ("bike", ⟨5, 1, some 60, some 30⟩)]⟩ }

/-- Twice to walk, and then to ride. -/
def thirdTime (j : Nat) : Nat := if j = 2 then 1 else 0

end Sample

open Sample in
/-- Walking is drawn twice in vain. The third draw is the bicycle, which goes to the stop. -/
theorem Intermodal.candidates_drawn_thirdTime : ∃ m store,
    walkOrBicycle.modes.modes[thirdTime 2]? = some m ∧
      walkOrBicycle.candidates curb leavingHome (LegCache.ofCapacity 1) (Outcomes.mk thirdTime 0)
        = (((walkOrBicycle.only m).candidates curb leavingHome (LegCache.ofCapacity 1)
          (Keystream.ofSeed 0)).1, store, Outcomes.mk thirdTime 3) ∧
      ((walkOrBicycle.only m).candidates curb leavingHome (LegCache.ofCapacity 1)
        (Keystream.ofSeed 0)).1.map (fun c => (c.stop, c.mode)) = [(0, ⟨"bike"⟩)] := by
  have hbuild : (Draft.ofEdits [Edit.addStop parking]).build = .ok curb :=
    build_eq_ok (by decide +kernel)
  have hrange : ∀ j, thirdTime j < walkOrBicycle.modes.modes.length := by
    intro j
    unfold thirdTime
    split
    · exact Nat.one_lt_two
    · exact Nat.two_pos
  have hdrawn : (walkOrBicycle.candidates curb leavingHome (LegCache.ofCapacity 1)
      (Outcomes.mk thirdTime 0)).2.2.drawn = 3 := by decide +kernel
  have hride : (walkOrBicycle.candidates curb leavingHome (LegCache.ofCapacity 1)
      (Outcomes.mk thirdTime 0)).1.map (fun c => (c.stop, c.mode)) = [(0, ⟨"bike"⟩)] := by
    decide +kernel
  rcases Intermodal.candidates_drawn LegCache.faithful hbuild (i := walkOrBicycle) rfl leavingHome
    (LegCache.get?_ofCapacity 1) hrange (Keystream.ofSeed 0) with
    ⟨k, m, store, -, -, hm, heq, -, -⟩
  rw [heq] at hdrawn hride
  rw [show k = 3 from hdrawn] at hm heq
  exact ⟨m, store, hm, heq, hride⟩

end Journey
