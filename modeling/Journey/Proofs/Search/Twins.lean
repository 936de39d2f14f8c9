import Journey.Proofs.Search.Run
import Journey.Search.TransferPolicy

/-!
# Twins

Labels of two searches that say the same.

Two searches for the same trip may store their labels in different orders, and
may know the candidates by different positions. A label of one and a label of the
other are twins if they agree in everything else and so do the labels before
them, back to the candidate that the journey begins with. For some purposes the
positions have to agree as well; then the twins are `strict`.

A transfer policy is shown all labels, so it could tell twins apart. One that
looks at nothing but the chain of the ride cannot, and the policies that a search
comes with are of this kind.

## Main definitions

* `Label.Ordered`: Predecessors come first.
* `Label.Twins`: Two labels that say the same.
* `TransferPolicy.ByChain`: A policy that cannot tell twins apart.

## Theorems

* `Label.Twins.mono`: Twins remain twins when labels are added.
* `Label.Twins.rel_runStart?`: The runs of two rides that are twins start with
  twins.
* `TransferPolicy.flat_byChain`, `TransferPolicy.timeProportional_byChain`: The
  policies price by the chain.
* `Workspace.Legal.ordered`: Predecessors come first in a search.
-/

namespace Journey

variable {α : Type}

namespace Label

/-- Predecessors come first. -/
def Ordered (labels : Array (Label α)) : Prop :=
  ∀ (id : Nat) (l : Label α), labels[id]? = some l → ∀ id', l.previous = some id' → id' < id

/-- A label of one search and one of another that say the same, and so do those
    before them. Positions may differ unless the twins are strict. -/
inductive Twins (strict : Prop) (access access' : List (Candidate α))
    (labels labels' : Array (Label α)) : Label α → Label α → Prop where
  /-- The same candidate brings the traveller there. -/
  | access {l : Label α} {k k' : Nat} {c : Candidate α} (step : l.step = .access k)
      (previous : l.previous = none) (candidate : access[k]? = some c)
      (candidate' : access'[k']? = some c) (position : strict → k' = k) :
      Twins strict access access' labels labels' l { l with step := .access k' }
  /-- Twins are extended in the same way. -/
  | extend {l m m' : Label α} {id id' : Nat} (moves : ∀ k, l.step ≠ .access k)
      (previous : l.previous = some id) (label : labels[id]? = some m)
      (label' : labels'[id']? = some m')
      (before : Twins strict access access' labels labels' m m') (position : strict → id' = id) :
      Twins strict access access' labels labels' l { l with previous := some id' }

namespace Twins

variable {strict : Prop} {access access' : List (Candidate α)} {labels labels' : Array (Label α)}
  {l l' : Label α}

theorem routeStop_eq (h : Twins strict access access' labels labels' l l') :
    l'.routeStop = l.routeStop := by
  cases h <;> rfl

theorem time_eq (h : Twins strict access access' labels labels' l l') : l'.time = l.time := by
  cases h <;> rfl

theorem cost_eq (h : Twins strict access access' labels labels' l l') : l'.cost = l.cost := by
  cases h <;> rfl

theorem transferCost_eq (h : Twins strict access access' labels labels' l l') :
    l'.transferCost = l.transferCost := by
  cases h <;> rfl

theorem transfers_eq (h : Twins strict access access' labels labels' l l') :
    l'.transfers = l.transfers := by
  cases h <;> rfl

theorem isRide_eq (h : Twins strict access access' labels labels' l l') :
    l'.isRide = l.isRide := by
  cases h with
  | access step => rw [isRide, isRide, step]; rfl
  | extend => rfl

-- Strict twins are the same label.
theorem eq_of_strict (h : Twins strict access access' labels labels' l l') (hstrict : strict) :
    l' = l := by
  cases h with
  | access step previous candidate candidate' position => rw [position hstrict, ← step]
  | extend moves previous label label' before position => rw [position hstrict, ← previous]

/-- Twins remain twins when labels are added. -/
theorem mono (h : Twins strict access access' labels labels' l l') {more more' : Array (Label α)}
    (hmore : ∀ (id : Nat) (m : Label α), labels[id]? = some m → more[id]? = some m)
    (hmore' : ∀ (id : Nat) (m : Label α), labels'[id]? = some m → more'[id]? = some m) :
    Twins strict access access' more more' l l' := by
  induction h with
  | access step previous candidate candidate' position =>
      exact Twins.access step previous candidate candidate' position
  | extend moves previous label label' before position ih =>
      exact Twins.extend moves previous (hmore _ _ label) (hmore' _ _ label') ih position

-- Strict twins are twins.
theorem weaken (h : Twins strict access access' labels labels' l l') :
    Twins False access access' labels labels' l l' := by
  induction h with
  | access step previous candidate candidate' position =>
      exact Twins.access step previous candidate candidate' False.elim
  | extend moves previous label label' before position ih =>
      exact Twins.extend moves previous label label' ih False.elim

-- Before a boarding there is no ride for either of two twins, or there are twins
-- that were stored no later.
theorem rideBefore?_cases (h : Twins strict access access' labels labels' l l')
    (hlabels : Ordered labels) (hlabels' : Ordered labels') {id id' : Nat}
    (hl : labels[id]? = some l) (hl' : labels'[id']? = some l') :
    (rideBefore? labels l = some none ∧ rideBefore? labels' l' = some none) ∨
      ∃ i i' r r', rideBefore? labels l = some (some r) ∧
        rideBefore? labels' l' = some (some r') ∧ labels[i]? = some r ∧ labels'[i']? = some r' ∧
        Twins strict access access' labels labels' r r' ∧ i ≤ id ∧ i' ≤ id' := by
  have htwins := h
  cases h with
  | access step previous =>
      exact Or.inl ⟨by unfold rideBefore?; rw [step], rfl⟩
  | @extend _ m m' i i' moves previous label label' before =>
      cases hstep : l.step with
      | access k => exact absurd hstep (moves k)
      | ride trip boardingTime =>
          refine Or.inr
            ⟨id, id', l, _, ?_, ?_, hl, hl', htwins, Nat.le_refl id, Nat.le_refl id'⟩ <;>
            simp only [rideBefore?, hstep]
      | transfer duration cost =>
          -- A walk came from the label before it.
          refine Or.inr ⟨i, i', m, m', ?_, ?_, label, label', before,
            Nat.le_of_lt (hlabels id l hl i previous), Nat.le_of_lt (hlabels' id' _ hl' i' rfl)⟩
          · simp only [rideBefore?, hstep, previous, label, Option.map_some]
          · simp only [rideBefore?, label', Option.map_some]

/-- The runs of two rides that are twins start with twins. There are enough labels
    to look at, since predecessors come first. -/
theorem rel_runStartWithin? (t : Timetable α) (mode : Mode) (hlabels : Ordered labels)
    (hlabels' : Ordered labels') (id : Nat) :
    ∀ {id' : Nat} {l l' : Label α} {n n' : Nat}, labels[id]? = some l → labels'[id']? = some l' →
      Twins strict access access' labels labels' l l' → id < n → id' < n' →
      Option.Rel (Twins strict access access' labels labels') (runStartWithin? t labels mode n l)
        (runStartWithin? t labels' mode n' l') := by
  induction id using Nat.strongRecOn with
  | _ id ih =>
      intro id' l l' n n' hl hl' h hn hn'
      rcases Nat.exists_eq_add_one_of_ne_zero (Nat.ne_zero_of_lt hn) with ⟨n, rfl⟩
      rcases Nat.exists_eq_add_one_of_ne_zero (Nat.ne_zero_of_lt hn') with ⟨n', rfl⟩
      have htwins := h
      unfold runStartWithin?
      cases h with
      | access step previous =>
          simp only [previous] at htwins ⊢
          exact Option.Rel.some htwins
      | @extend _ m m' i i' moves previous label label' before =>
          have hi := hlabels id l hl i previous
          have hi' := hlabels' id' _ hl' i' rfl
          simp only [previous, label, label', Option.bind_eq_bind, Option.bind_some]
          rcases before.rideBefore?_cases hlabels hlabels' label label' with
            ⟨hnone, hnone'⟩ | ⟨j, j', r, r', hr, hr', hj, hj', hbefore, hle, hle'⟩
          · simp only [hnone, hnone', Option.bind_some]
            exact Option.Rel.some before
          · simp only [hr, hr', Option.bind_some, hbefore.isRide_eq, hbefore.routeStop_eq]
            -- The run goes on before the boarding if a ride of the same mode ended there.
            split
            · cases hmode : t.modeOf? r.routeStop with
              | none => exact Option.Rel.none
              | some mode' =>
                  simp only [Option.bind_some]
                  split
                  · exact ih j (Nat.lt_of_le_of_lt hle hi) hj hj' hbefore (by omega) (by omega)
                  · exact Option.Rel.some before
            · exact Option.Rel.some before

/-- The run that ends with a label starts with the twin of what the run that ends
    with its twin starts with. -/
theorem rel_runStart? (t : Timetable α) (hlabels : Ordered labels) (hlabels' : Ordered labels')
    {id id' : Nat} (hl : labels[id]? = some l) (hl' : labels'[id']? = some l')
    (h : Twins strict access access' labels labels' l l') :
    Option.Rel (Twins strict access access' labels labels') (runStart? t labels id)
      (runStart? t labels' id') := by
  unfold runStart?
  simp only [hl, hl', Option.bind_eq_bind, Option.bind_some, h.isRide_eq, h.routeStop_eq]
  split
  · cases t.modeOf? l.routeStop with
    | none => exact Option.Rel.none
    | some mode =>
        exact rel_runStartWithin? t mode hlabels hlabels' id hl hl' h
          (Array.getElem?_eq_some_iff.mp hl).1 (Array.getElem?_eq_some_iff.mp hl').1
  · exact Option.Rel.some h

end Twins

end Label

namespace TransferPolicy

/-- A policy that cannot tell twins apart: what a transfer costs depends on the
    chain of the ride that it extends, and not on where labels and candidates
    are. -/
def ByChain (policy : TransferPolicy α) : Prop :=
  ∀ (t : Timetable α) (c c' : TransferContext α) (access access' : List (Candidate α))
    (l l' : Label α), Label.Ordered c.labels → Label.Ordered c'.labels →
    c.labels[c.ride]? = some l → c'.labels[c'.ride]? = some l' →
    Label.Twins False access access' c.labels c'.labels l l' →
    c' = { c with labels := c'.labels, ride := c'.ride } → policy t c' = policy t c

theorem flat_byChain (price : α) : (flat price).ByChain := by
  intro t c c' access access' l l' _ _ _ _ _ _
  rfl

variable [Scalar α]

theorem timeProportional_byChain (table : Option (ModeChangeTable α)) :
    (timeProportional table).ByChain := by
  intro t c c' access access' l l' hlabels hlabels' hl hl' h hcontext
  cases table with
  | none =>
      rw [hcontext]
      rfl
  | some table =>
      have hstart := h.rel_runStart? t hlabels hlabels' hl hl'
      have hprice : ∀ start start' : Label α,
          Label.Twins False access access' c.labels c'.labels start start' →
          repricedSince start' (table.penalty c'.fromMode c'.toMode) c'
            = repricedSince start (table.penalty c.fromMode c.toMode) c := by
        intro start start' hstart
        rw [hcontext]
        unfold repricedSince
        rw [hstart.transfers_eq, hstart.time_eq, hstart.transferCost_eq]
      unfold timeProportional
      simp only [Option.bind_eq_bind]
      generalize Label.runStart? t c.labels c.ride = found at hstart ⊢
      generalize Label.runStart? t c'.labels c'.ride = found' at hstart ⊢
      cases hstart with
      | none => rfl
      | some hstart => rw [Option.bind_some, Option.bind_some, hprice _ _ hstart]

end TransferPolicy

/-- A search stores predecessors first. -/
theorem Workspace.Legal.ordered [Scalar α] {t : Timetable α} {policy : TransferPolicy α}
    {q : SearchQuery α} {w : Workspace α} (h : w.Legal t policy q) : Label.Ordered w.labels := by
  intro id l hl id' hid'
  have hlt := (h id l hl).previous_lt hid'
  rw [Array.size_extract] at hlt
  omega

end Journey
