import Mathlib.Data.List.Basic

/-!
# The First of Many Findings

What it means that a check reports what comes first.

Something that is checked can be wrong in many ways at once, and a check reports one of
them. Which one is best said without the check: everything that is wrong has a place, and
of all places one comes first. A place is a list of numbers, as in the numbering of
sections, and places are in lexicographic order: the first number says which part of the
thing is concerned, the next one which part of the part, and so on.

A check that looks at the parts in order and goes into each of them finds what comes
first. `Verdict.of_parts` is that argument, for parts that are a few named ones and for
parts that are the elements of a list alike. Checks of a list in which each element is
compared with the one before are all of the same form, `firstBreak?`, and
`Verdict.of_neighbours` is about all of them.

## Main definitions

* `First`: Of all findings, this one comes first.
* `Verdict`: The finding that comes first, if there is any.
* `firstOf`: What is found in the first part in which anything is found.
* `Break`, `firstBreak?`: An element that does not go with the one before, and the first
  one.

## Theorems

* `First.unique`: Only one finding comes first.
* `Verdict.report`: What a check accepts, and what it reports.
* `Verdict.of_parts`: Looking at one part after the other finds what comes first.
* `Verdict.of_neighbours`: Comparing neighbours finds the first break.
-/

namespace Journey

variable {ε δ β : Type}

/-- Of all findings, this one comes first. -/
def First (F : List Nat → ε → Prop) (e : ε) : Prop :=
  ∃ place, F place e ∧ ∀ place' e', F place' e' → place' = place ∧ e' = e ∨ place < place'

/-- The finding that comes first, if there is any. -/
def Verdict (F : List Nat → ε → Prop) : Option ε → Prop
  | none => ∀ place e, ¬ F place e
  | some e => First F e

/-- Only one finding comes first. -/
theorem First.unique {F : List Nat → ε → Prop} {e e' : ε} (h : First F e) (h' : First F e') :
    e' = e := by
  rcases h with ⟨place, hfound, hfirst⟩
  rcases h' with ⟨place', hfound', hfirst'⟩
  rcases hfirst place' e' hfound' with ⟨-, heq⟩ | hlt
  · exact heq
  · rcases hfirst' place e hfound with ⟨-, heq⟩ | hlt'
    · exact heq.symm
    · exact absurd hlt' (List.lt_asymm hlt)

/-- What is found in the first of some parts in which anything is found. -/
def firstOf (parts : List (Option ε)) : Option ε := parts.findSome? id

namespace Verdict

variable {F : List Nat → ε → Prop} {verdict : Option ε}

/-- A check reports something when that comes first. -/
theorem eq_some_iff (h : Verdict F verdict) (e : ε) : verdict = some e ↔ First F e := by
  cases verdict with
  | none =>
      refine ⟨fun heq => absurd heq (by simp only [reduceCtorEq, not_false_eq_true]), fun h' => ?_⟩
      rcases h' with ⟨place, hfound, -⟩
      exact absurd hfound (h place e)
  | some e' =>
      rw [Option.some.injEq]
      exact ⟨fun heq => heq ▸ h, fun h' => h'.unique h⟩

/-- A check reports nothing when there is nothing to find. -/
theorem eq_none_iff (h : Verdict F verdict) : verdict = none ↔ ∀ place e, ¬ F place e := by
  cases verdict with
  | none => exact ⟨fun _ => h, fun _ => rfl⟩
  | some e =>
      rcases h with ⟨place, hfound, -⟩
      exact ⟨fun heq => absurd heq (by simp only [reduceCtorEq, not_false_eq_true]),
        fun hnone => absurd hfound (hnone place e)⟩

theorem congr {G : List Nat → ε → Prop} (h : Verdict F verdict)
    (hG : ∀ place e, G place e ↔ F place e) : Verdict G verdict := by
  rwa [show G = F from funext fun place => funext fun e => propext (hG place e)]

/-- What a check that reports the first finding accepts, and what it reports. -/
theorem report {τ : Type} (h : Verdict F verdict) (t : τ) :
    ((∃ t', verdict.elim (.ok t) .error = (.ok t' : Except ε τ)) ↔ ∀ place e, ¬ F place e) ∧
      ∀ e, verdict.elim (.ok t) .error = (.error e : Except ε τ) ↔ First F e := by
  rw [← h.eq_none_iff]
  refine ⟨?_, fun e => ?_⟩
  · cases verdict <;> simp only [Option.elim_none, Option.elim_some, Except.ok.injEq,
      exists_eq', reduceCtorEq, exists_false]
  · rw [← h.eq_some_iff]
    cases verdict <;> simp only [Option.elim_none, Option.elim_some, Except.error.injEq,
      reduceCtorEq, Option.some.injEq]

-- One condition is one possible finding.
theorem of_condition {p : Prop} [Decidable p] {e : ε} (hfound : p → F [] e)
    (honly : ∀ place e', F place e' → p ∧ place = [] ∧ e' = e) :
    Verdict F (if p then some e else none) := by
  by_cases hp : p
  · rw [if_pos hp]
    exact ⟨[], hfound hp, fun place' e' h => Or.inl (honly place' e' h).2⟩
  · rw [if_neg hp]
    exact fun place e' h => hp (honly place e' h).1

-- A test that has to come out true is one possible finding.
theorem of_test {b : Bool} {e : ε} (hfound : ¬ b → F [] e)
    (honly : ∀ place e', F place e' → ¬ b ∧ place = [] ∧ e' = e) :
    Verdict F (if !b then some e else none) := by
  simp only [Bool.not_eq_true, ← Bool.not_eq_true'] at hfound honly
  exact of_condition hfound honly

-- Findings may be reported under another name.
theorem map {G : List Nat → δ → Prop} {f : ε → δ} (h : Verdict F verdict)
    (hG : ∀ place e, G place e ↔ ∃ a, F place a ∧ e = f a) : Verdict G (verdict.map f) := by
  cases verdict with
  | none =>
      intro place e hfound
      rcases (hG place e).mp hfound with ⟨a, ha, -⟩
      exact h place a ha
  | some a =>
      rcases h with ⟨place, hfound, hfirst⟩
      refine ⟨place, (hG place (f a)).mpr ⟨a, hfound, rfl⟩, fun place' e' hfound' => ?_⟩
      rcases (hG place' e').mp hfound' with ⟨a', ha', rfl⟩
      rcases hfirst place' a' ha' with ⟨rfl, rfl⟩ | hlt
      · exact Or.inl ⟨rfl, rfl⟩
      · exact Or.inr hlt

/-- Looking at one part after the other finds what comes first. -/
theorem of_parts {parts : List (Option ε)} (hnil : ∀ e, ¬ F [] e)
    (hparts : ∀ n part, parts[n]? = some part → Verdict (fun rest e => F (n :: rest) e) part)
    (hend : ∀ n rest e, parts.length ≤ n → ¬ F (n :: rest) e) :
    Verdict F (firstOf parts) := by
  unfold firstOf
  cases hverdict : parts.findSome? id with
  | none =>
      rintro (_ | ⟨n, rest⟩) e hfound
      · exact hnil e hfound
      · rcases Nat.lt_or_ge n parts.length with hn | hn
        · have hpart := hparts n _ (List.getElem?_eq_getElem hn)
          have hclear : parts[n] = none :=
            List.findSome?_eq_none_iff.mp hverdict _ (List.getElem_mem hn)
          rw [hclear] at hpart
          exact hpart rest e hfound
        · exact hend n rest e hn hfound
  | some e =>
      -- The parts before the one with the finding are clear.
      rcases List.findSome?_eq_some_iff.mp hverdict with ⟨before, part, after, rfl, hpart, hclear⟩
      change part = some e at hpart
      subst hpart
      have hhere := hparts before.length (some e) (by simp only [Nat.le_refl,
        List.getElem?_append_right, Nat.sub_self, List.getElem?_cons_zero])
      rcases hhere with ⟨place, hfound, hfirst⟩
      refine ⟨before.length :: place, hfound, ?_⟩
      rintro (_ | ⟨n, rest⟩) e' hfound'
      · exact absurd hfound' (hnil e')
      · rcases Nat.lt_trichotomy n before.length with hn | rfl | hn
        · have hnone := hparts n before[n] (by
            rw [List.getElem?_append_left hn, List.getElem?_eq_getElem hn])
          rw [show before[n] = none from hclear _ (List.getElem_mem hn)] at hnone
          exact absurd hfound' (hnone rest e')
        · rcases hfirst rest e' hfound' with ⟨rfl, rfl⟩ | hlt
          · exact Or.inl ⟨rfl, rfl⟩
          · exact Or.inr (List.cons_lt_cons_iff.mpr (Or.inr ⟨rfl, hlt⟩))
        · exact Or.inr (List.cons_lt_cons_iff.mpr (Or.inl hn))

-- The parts are the elements of a list. What is found in one of them may depend on its
-- position.
theorem of_positions {l : List β} {check : Nat → β → Option ε}
    {G : Nat → β → List Nat → ε → Prop}
    (hparts : ∀ n b, l[n]? = some b → Verdict (G n b) (check n b))
    (hfound : ∀ n b rest e, l[n]? = some b → G n b rest e → F (n :: rest) e)
    (honly : ∀ place e, F place e →
      ∃ n b rest, l[n]? = some b ∧ G n b rest e ∧ place = n :: rest) :
    Verdict F (firstOf (l.mapIdx check)) := by
  have hcons : ∀ n rest e, F (n :: rest) e → ∃ b, l[n]? = some b ∧ G n b rest e := by
    intro n rest e h
    rcases honly (n :: rest) e h with ⟨n', b, rest', hb, hG, hplace⟩
    rw [List.cons.injEq] at hplace
    rcases hplace with ⟨rfl, rfl⟩
    exact ⟨b, hb, hG⟩
  refine of_parts (fun e h => ?_) (fun n part hpart => ?_) fun n rest e hn h => ?_
  · rcases honly [] e h with ⟨n, b, rest, -, -, hplace⟩
    exact absurd hplace (by simp only [reduceCtorEq, not_false_eq_true])
  · rw [List.getElem?_mapIdx, Option.map_eq_some_iff] at hpart
    rcases hpart with ⟨b, hb, rfl⟩
    refine (hparts n b hb).congr fun rest e => ⟨fun h => ?_, hfound n b rest e hb⟩
    rcases hcons n rest e h with ⟨b', hb', hG⟩
    rw [hb, Option.some.injEq] at hb'
    exact hb' ▸ hG
  · rcases hcons n rest e h with ⟨b, hb, -⟩
    rw [List.length_mapIdx] at hn
    exact absurd (List.getElem?_eq_some_iff.mp hb).1 (Nat.not_lt.mpr hn)

-- The same if it does not.
theorem of_elements {l : List β} {check : β → Option ε} {G : β → List Nat → ε → Prop}
    (hparts : ∀ b, Verdict (G b) (check b))
    (hfound : ∀ n b rest e, l[n]? = some b → G b rest e → F (n :: rest) e)
    (honly : ∀ place e, F place e →
      ∃ n b rest, l[n]? = some b ∧ G b rest e ∧ place = n :: rest) :
    Verdict F (l.findSome? check) := by
  have hmap : (l.mapIdx fun _ => check) = l.map check :=
    List.ext_getElem? fun n => by rw [List.getElem?_mapIdx, List.getElem?_map]
  have hfirst := of_positions (fun _ b _ => hparts b) hfound honly
  rwa [hmap, firstOf, List.findSome?_map, Function.id_comp] at hfirst

-- A search of a list finds the first element that it looks for.
theorem of_find? {l : List β} {p : β → Bool} {f : β → ε}
    (hfound : ∀ n b, l[n]? = some b → p b = true → F [n] (f b))
    (honly : ∀ place e, F place e →
      ∃ n b, l[n]? = some b ∧ p b = true ∧ place = [n] ∧ e = f b) :
    Verdict F ((l.find? p).map f) := by
  have hsearch : (l.find? p).map f = l.findSome? fun b => if p b then some (f b) else none := by
    rw [List.find?_eq_findSome?_guard, List.map_findSome?]
    refine congrArg (l.findSome? ·) (funext fun b => ?_)
    unfold Function.comp Option.guard
    split_ifs <;> rfl
  rw [hsearch]
  refine of_elements (G := fun b rest e => p b = true ∧ rest = [] ∧ e = f b)
    (fun b => of_condition (fun hp => ⟨hp, rfl, rfl⟩) fun _ _ h => h) ?_ fun place e h => ?_
  · rintro n b rest e hb ⟨hp, rfl, rfl⟩
    exact hfound n b hb hp
  · rcases honly place e h with ⟨n, b, hb, hp, hplace, he⟩
    exact ⟨n, b, [], hb, ⟨hp, rfl, he⟩, hplace⟩

end Verdict

/-- The position of the first element that does not go with the one before. -/
def firstBreak? (fits : Option β → β → Bool) (previous : Option β) : List β → Option Nat
  | [] => none
  | b :: rest =>
    if fits previous b then (firstBreak? fits (some b) rest).map (· + 1) else some 0

/-- The element at a position does not go with the one before, where something may be
    before the whole list. -/
def Break (fits : Option β → β → Bool) (previous : Option β) : List β → Nat → Prop
  | [], _ => False
  | b :: _, 0 => fits previous b = false
  | b :: rest, n + 1 => Break fits (some b) rest n

/-- What is before a position of a list. -/
def before? (l : List β) (n : Nat) : Option β := if n = 0 then none else l[n - 1]?

-- The element at a break, and the one before.
theorem break_iff (fits : Option β → β → Bool) (l : List β) : ∀ (previous : Option β) (n : Nat),
    Break fits previous l n ↔
      ∃ b, l[n]? = some b ∧ fits (if n = 0 then previous else l[n - 1]?) b = false := by
  induction l with
  | nil => simp only [Break, List.getElem?_nil, reduceCtorEq, false_and, exists_false, implies_true]
  | cons head rest ih =>
      rintro previous (_ | _ | n)
      · simp only [Break, List.getElem?_cons_zero, Option.some.injEq, exists_eq_left', if_true]
      · simp only [Break, ih, if_true, List.getElem?_cons_succ, Nat.zero_add, Nat.sub_self,
          List.getElem?_cons_zero, Nat.one_ne_zero, if_false]
      · simp only [Break, ih, List.getElem?_cons_succ, Nat.add_sub_cancel, Nat.succ_ne_zero,
          if_false]

theorem break_none_iff (fits : Option β → β → Bool) (l : List β) (n : Nat) :
    Break fits none l n ↔ ∃ b, l[n]? = some b ∧ fits (before? l n) b = false :=
  break_iff fits l none n

-- A condition on neighbours holds everywhere when the list is a chain.
theorem forall_before?_iff (R : β → β → Prop) (l : List β) :
    (∀ n b, l[n]? = some b → ∀ a ∈ before? l n, R a b) ↔ l.IsChain R := by
  rw [List.isChain_iff_getElem]
  refine ⟨fun h n hn => ?_, ?_⟩
  · exact h (n + 1) _ (List.getElem?_eq_getElem hn) _
      (List.getElem?_eq_getElem (Nat.lt_of_succ_lt hn))
  · rintro h (_ | n) b hb a ha
    · exact absurd ha (by simp only [before?, if_true, Option.mem_def, reduceCtorEq,
        not_false_eq_true])
    · rcases List.getElem?_eq_some_iff.mp hb with ⟨hn, rfl⟩
      rcases List.getElem?_eq_some_iff.mp (show l[n]? = some a from ha) with ⟨-, rfl⟩
      exact h n hn

-- Identifiers repeat when one of them is among those before.
theorem nodup_iff_take {ι : Type} (l : List β) (id : β → ι) :
    (l.map id).Nodup ↔ ∀ n b, l[n]? = some b → id b ∉ (l.take n).map id := by
  rw [List.nodup_iff_pairwise_ne, List.pairwise_map, List.pairwise_iff_getElem]
  refine ⟨fun h n b hb hmem => ?_, fun h i j hi hj hij heq => ?_⟩
  · rcases List.mem_map.mp hmem with ⟨a, ha, heq⟩
    rcases List.getElem_of_mem ha with ⟨i, hi, rfl⟩
    rcases List.getElem?_eq_some_iff.mp hb with ⟨hn, rfl⟩
    rw [List.length_take] at hi
    exact h i n (by omega) hn (by omega) (by rw [← heq, List.getElem_take])
  · refine h j l[j] (List.getElem?_eq_getElem hj) (List.mem_map.mpr ⟨l[i], ?_, heq⟩)
    exact List.mem_take_iff_getElem.mpr ⟨i, by omega, rfl⟩

-- What comparing neighbours reports, without places.
theorem firstBreak?_spec (fits : Option β → β → Bool) (l : List β) : ∀ previous,
    match firstBreak? fits previous l with
    | none => ∀ n, ¬ Break fits previous l n
    | some n => Break fits previous l n ∧ ∀ m, Break fits previous l m → n ≤ m := by
  induction l with
  | nil => exact fun _ _ h => h
  | cons head rest ih =>
      intro previous
      unfold firstBreak?
      by_cases hfits : fits previous head = true
      · have hhead : ¬ Break fits previous (head :: rest) 0 :=
          fun h => absurd (hfits.symm.trans h) Bool.noConfusion
        have hrest := ih (some head)
        rw [if_pos hfits]
        cases hfound : firstBreak? fits (some head) rest with
        | none =>
            rw [hfound] at hrest
            rintro (_ | n)
            · exact hhead
            · exact hrest n
        | some n =>
            rw [hfound] at hrest
            refine ⟨hrest.1, ?_⟩
            rintro (_ | m) hm
            · exact absurd hm hhead
            · exact Nat.succ_le_succ (hrest.2 m hm)
      · rw [if_neg hfits]
        exact ⟨Bool.eq_false_iff.mpr hfits, fun m _ => Nat.zero_le m⟩

/-- Comparing neighbours finds the first break. -/
theorem Verdict.of_neighbours {F : List Nat → ε → Prop} {fits : Option β → β → Bool}
    {R : Option β → β → Prop} {f : Nat → ε} {l : List β}
    (hfits : ∀ previous b, fits previous b = true ↔ R previous b)
    (hfound : ∀ n b, l[n]? = some b → ¬ R (before? l n) b → F [n] (f n))
    (honly : ∀ place e, F place e →
      ∃ n b, l[n]? = some b ∧ ¬ R (before? l n) b ∧ place = [n] ∧ e = f n) :
    Verdict F ((firstBreak? fits none l).map f) := by
  simp only [← hfits, Bool.not_eq_true] at hfound honly
  -- A finding is a break together with its place and its name.
  have hbreak : ∀ n, Break fits none l n → F [n] (f n) := by
    intro n hn
    rcases (break_none_iff fits l n).mp hn with ⟨b, hb, hfit⟩
    exact hfound n b hb hfit
  have hone : ∀ place e, F place e → ∃ n, Break fits none l n ∧ place = [n] ∧ e = f n := by
    intro place e h
    rcases honly place e h with ⟨n, b, hb, hfit, hplace, he⟩
    exact ⟨n, (break_none_iff fits l n).mpr ⟨b, hb, hfit⟩, hplace, he⟩
  have hspec := firstBreak?_spec fits l none
  cases hfirst : firstBreak? fits none l with
  | none =>
      rw [hfirst] at hspec
      intro place e h
      rcases hone place e h with ⟨n, hn, -⟩
      exact hspec n hn
  | some n =>
      rw [hfirst] at hspec
      refine ⟨[n], hbreak n hspec.1, fun place e h => ?_⟩
      rcases hone place e h with ⟨m, hm, rfl, rfl⟩
      rcases Nat.eq_or_lt_of_le (hspec.2 m hm) with rfl | hlt
      · exact Or.inl ⟨rfl, rfl⟩
      · exact Or.inr (List.cons_lt_cons_iff.mpr (Or.inl hlt))

end Journey
