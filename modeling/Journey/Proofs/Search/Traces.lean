import Mathlib.Data.List.Pairwise
import Journey.Proofs.Search.Run

/-!
# Traces

The labels of a journey in the order of travel.

The chain of a label is found by following predecessors, so it lists the newest
label first. What a journey adds up to is said more easily in the order in which
it is made, and proved by adding one label at a time. `Traced` builds the chain up
in that order, and says besides that predecessors were stored earlier, which is
why the chain is found with as many steps as there are labels.

## Main definitions

* `Label.Traced`: The chain of a label, the oldest label first.

## Theorems

* `Label.Traced.chain?_eq`: A trace is the chain in reverse.
* `Label.IsLegal.of_previous_none`: A journey begins with an access candidate.
* `Label.Traced.pairwise_lt`: The labels of a trace were stored one after the other.
* `Workspace.Legal.push_induction`: From the oldest label to the newest, when what is
  said of a label depends on those stored earlier.
* `Workspace.Legal.exists_traced`: Every legal label has a trace.
-/

namespace Journey

variable {α : Type}

namespace Label

/-- A label and its predecessors with their positions, the oldest first. -/
inductive Traced (labels : Array (Label α)) : List (Nat × Label α) → Nat → Label α → Prop where
  | start {id : Nat} {l : Label α} (label : labels[id]? = some l) (previous : l.previous = none) :
      Traced labels [(id, l)] id l
  | extend {trace : List (Nat × Label α)} {id' id : Nat} {m l : Label α}
      (before : Traced labels trace id' m) (label : labels[id]? = some l)
      (previous : l.previous = some id') (later : id' < id) :
      Traced labels (trace ++ [(id, l)]) id l

namespace Traced

variable {labels labels' : Array (Label α)} {trace : List (Nat × Label α)} {id : Nat} {l : Label α}

theorem mono (h : Traced labels trace id l)
    (hlabels : ∀ (i : Nat) (m : Label α), labels[i]? = some m → labels'[i]? = some m) :
    Traced labels' trace id l := by
  induction h with
  | start label previous => exact Traced.start (hlabels _ _ label) previous
  | extend before label previous later ih =>
      exact Traced.extend ih (hlabels _ _ label) previous later

theorem label (h : Traced labels trace id l) : labels[id]? = some l := by
  cases h with
  | start label previous => exact label
  | extend before label previous later => exact label

-- It is among the labels that a later one was judged against.
theorem label_extract (h : Traced labels trace id l) {n : Nat} (hn : id < n) :
    (labels.extract 0 n)[id]? = some l := by
  have hlt := (Array.getElem?_eq_some_iff.mp h.label).1
  rw [Array.getElem?_extract, if_pos (by omega), Nat.zero_add, h.label]

theorem getLast?_eq (h : Traced labels trace id l) : trace.getLast? = some (id, l) := by
  cases h with
  | start label previous => rfl
  | extend before label previous later => exact List.getLast?_concat

theorem self_mem (h : Traced labels trace id l) : (id, l) ∈ trace :=
  List.mem_of_getLast? h.getLast?_eq

theorem le (h : Traced labels trace id l) : ∀ x ∈ trace, x.1 ≤ id := by
  induction h with
  | start label previous =>
      intro x hx
      exact Nat.le_of_eq (congrArg Prod.fst (List.mem_singleton.mp hx))
  | extend before label previous later ih =>
      intro x hx
      rcases List.mem_append.mp hx with hx | hx
      · exact Nat.le_trans (ih x hx) (Nat.le_of_lt later)
      · exact Nat.le_of_eq (congrArg Prod.fst (List.mem_singleton.mp hx))

/-- The labels of a trace were stored one after the other. -/
theorem pairwise_lt (h : Traced labels trace id l) : trace.Pairwise fun x y => x.1 < y.1 := by
  induction h with
  | start label previous => exact List.pairwise_singleton _ _
  | extend before label previous later ih =>
      refine List.pairwise_append.mpr ⟨ih, List.pairwise_singleton _ _, fun x hx y hy => ?_⟩
      rw [List.mem_singleton.mp hy]
      exact Nat.lt_of_le_of_lt (before.le x hx) later

theorem label_of_mem (h : Traced labels trace id l) : ∀ x ∈ trace, labels[x.1]? = some x.2 := by
  induction h with
  | start label previous =>
      intro x hx
      rw [List.mem_singleton.mp hx]
      exact label
  | extend before label previous later ih =>
      intro x hx
      rcases List.mem_append.mp hx with hx | hx
      · exact ih x hx
      · rw [List.mem_singleton.mp hx]
        exact label

-- The last label is found by its position.
theorem lookup_eq (h : Traced labels trace id l) : trace.lookup id = some l := by
  cases h with
  | start label previous => exact List.lookup_cons_self
  | @extend trace id' _ m _ before label previous later =>
      have hnone : trace.lookup id = none := by
        refine List.lookup_eq_none_iff.mpr fun x hx => bne_iff_ne.mpr ?_
        have hle := before.le x hx
        omega
      rw [List.lookup_append, hnone, Option.none_or, List.lookup_cons_self]

-- No label of a trace extends one that was stored later than all of them.
theorem previous_ne (h : Traced labels trace id l) :
    ∀ x ∈ trace, ∀ n, id ≤ n → x.2.previous ≠ some n := by
  induction h with
  | start label previous =>
      intro x hx n hn
      rw [List.mem_singleton.mp hx]
      simp only [previous, ne_eq, reduceCtorEq, not_false_eq_true]
  | extend before label previous later ih =>
      intro x hx n hn
      rcases List.mem_append.mp hx with hx | hx
      · exact ih x hx n (by omega)
      · rw [List.mem_singleton.mp hx]
        simp only [previous, ne_eq, Option.some.injEq]
        omega

theorem chainWithin?_eq (h : Traced labels trace id l) :
    ∀ n, id < n → Label.chainWithin? labels n id = some trace.reverse := by
  induction h with
  | start label previous =>
      intro n hn
      rcases Nat.exists_eq_add_one_of_ne_zero (Nat.ne_zero_of_lt hn) with ⟨n, rfl⟩
      simp only [Label.chainWithin?, label, previous, Option.bind_eq_bind, Option.bind_some,
        Option.pure_def, List.reverse_singleton]
  | extend before label previous later ih =>
      intro n hn
      rcases Nat.exists_eq_add_one_of_ne_zero (Nat.ne_zero_of_lt hn) with ⟨n, rfl⟩
      simp only [Label.chainWithin?, label, previous, ih n (by omega), Option.bind_eq_bind,
        Option.bind_some, Option.pure_def, List.reverse_concat]

/-- A trace is the chain of its last label in reverse. -/
theorem chain?_eq (h : Traced labels trace id l) :
    Label.chain? labels id = some trace.reverse :=
  h.chainWithin?_eq _ (Array.getElem?_eq_some_iff.mp h.label).1

end Traced

/-- A journey begins with an access candidate. -/
theorem IsLegal.of_previous_none [Scalar α] {t : Timetable α} {policy : TransferPolicy α}
    {q : SearchQuery α} {labels : Array (Label α)} {l : Label α}
    (h : l.IsLegal t policy q labels) (hprevious : l.previous = none) :
    ∃ k c, l.step = .access k ∧ q.access[k]? = some c ∧ l.time = q.departureTime + c.time ∧
      l.transfers = 0 ∧ l.transferCost = 0 := by
  cases h with
  | access k c step previous candidate stop time cost transfers transferCost =>
      exact ⟨k, c, step, candidate, time, transfers, transferCost⟩
  | ride n m trip b v e step previous =>
      exact absurd (hprevious.symm.trans previous) (Option.some_ne_none n).symm
  | transfer n m f d inc fm tm step previous =>
      exact absurd (hprevious.symm.trans previous) (Option.some_ne_none n).symm

-- A label names one predecessor.
theorem predecessor_unique {labels : Array (Label α)} {n n' : Nat} {l m m' : Label α}
    (hm : labels[n]? = some m) (hprevious : l.previous = some n) (hm' : labels[n']? = some m')
    (hprevious' : l.previous = some n') : n = n' ∧ m = m' := by
  rw [hprevious, Option.some.injEq] at hprevious'
  subst hprevious'
  rw [hm, Option.some.injEq] at hm'
  exact ⟨rfl, hm'⟩

end Label

namespace Workspace

variable [Scalar α] {t : Timetable α} {policy : TransferPolicy α} {q : SearchQuery α}
  {w : Workspace α}

/-- Legal labels can be reasoned about from the oldest to the newest, also when
    what is said of a label depends on those stored earlier. What is said must not
    become wrong when more labels are stored. -/
theorem Legal.push_induction (hw : w.Legal t policy q)
    (P : Array (Label α) → Nat → Label α → Prop)
    (mono : ∀ (labels labels' : Array (Label α)) (id : Nat) (l : Label α),
      (∀ (i : Nat) (m : Label α), labels[i]? = some m → labels'[i]? = some m) →
      P labels id l → P labels' id l)
    (step : ∀ (labels : Array (Label α)) (l : Label α), l.IsLegal t policy q labels →
      (∀ (i : Nat) (m : Label α), labels[i]? = some m → P labels i m) →
      P (labels.push l) labels.size l) :
    ∀ (id : Nat) (l : Label α), w.labels[id]? = some l → P w.labels id l := by
  have hstored : ∀ id l, w.labels[id]? = some l → P (w.labels.extract 0 (id + 1)) id l := by
    refine hw.induction _ fun id l hl hlegal ih => ?_
    rcases Array.getElem?_eq_some_iff.mp hl with ⟨hlt, hget⟩
    have hsize : (w.labels.extract 0 id).size = id := by
      rw [Array.size_extract, Nat.min_eq_left (Nat.le_of_lt hlt), Nat.sub_zero]
    have hpush : w.labels.extract 0 (id + 1) = (w.labels.extract 0 id).push l := by
      rw [← hget, Array.push_extract_getElem, Nat.zero_min]
    have hstep := step (w.labels.extract 0 id) l hlegal fun i m hm =>
      mono _ _ i m (fun j m' hm' => ?_) (ih i m hm)
    · rw [hpush]
      rwa [hsize] at hstep
    · rcases label_of_extract hm with ⟨hi, -⟩
      rcases label_of_extract hm' with ⟨hj, hm'⟩
      rw [Array.getElem?_extract, if_pos (by omega), Nat.zero_add, hm']
  intro id l hl
  exact mono _ _ id l (fun i m hm => (label_of_extract hm).2) (hstored id l hl)

/-- Every legal label has a trace. -/
theorem Legal.exists_traced (hw : w.Legal t policy q) :
    ∀ (id : Nat) (l : Label α), w.labels[id]? = some l →
      ∃ trace, Label.Traced w.labels trace id l := by
  refine hw.induction _ fun id l hl hlegal ih => ?_
  cases hprevious : l.previous with
  | none => exact ⟨_, Label.Traced.start hl hprevious⟩
  | some id' =>
      have hlt := hlegal.previous_lt hprevious
      rcases ih id' _ (Array.getElem?_eq_getElem hlt) with ⟨trace, htrace⟩
      have hid : id' < id := (label_of_extract (Array.getElem?_eq_getElem hlt)).1
      exact ⟨_, Label.Traced.extend htrace hl hprevious hid⟩

end Workspace

end Journey
