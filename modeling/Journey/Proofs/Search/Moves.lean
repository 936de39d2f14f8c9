import Mathlib.Data.Set.Finite.List
import Mathlib.Data.Set.List
import Journey.Proofs.Journeys
import Journey.Proofs.Search.Traces
import Journey.Proofs.Search.Twins

/-!
# Moves

What a traveller decides on a journey.

A label has many fields, but little of it is a choice. Given the label before it, a
ride is on the next vehicle, so all there is to choose is where to leave it, and a walk
takes the time of one of the footpaths and costs what the policy says. So a journey is
given by its moves: two journeys with the same moves consist of twins, in whatever
order their labels were stored. And there are only finitely many moves, because the
candidates, the route-stops and the footpaths are finitely many.

## Main definitions

* `Move`, `Label.move`: What a label adds to the one it extends.
* `Timetable.moves`: All moves of a query.

## Theorems

* `Timetable.finite_moves`: There are finitely many.
* `Label.IsLegal.eq_of_move_eq`: A legal label is determined by its move and the label
  it extends.
* `Workspace.Legal.twins_of_moves_eq`: Journeys with the same moves consist of twins.
-/

namespace Journey

/-- How a route-stop is reached, as far as that is a choice. -/
inductive Move (α : Type) where
  /-- From the facility, as the candidate at this position says. -/
  | access (candidate : Nat)
  /-- By the next vehicle. -/
  | ride
  /-- On foot in the given time. -/
  | walk (duration : α)

variable {α : Type}

namespace Label

/-- What a label adds to the one it extends: a route-stop and how it is reached. -/
def move (l : Label α) : Nat × Move α :=
  (l.routeStop,
    match l.step with
    | .access k => .access k
    | .ride _ _ => .ride
    | .transfer duration _ => .walk duration)

theorem Ordered.extract {labels : Array (Label α)} (h : Ordered labels) (n : Nat) :
    Ordered (labels.extract 0 n) :=
  fun id l hl => h id l (Workspace.label_of_extract hl).2

theorem Traced.ne_nil {labels : Array (Label α)} {trace : List (Nat × Label α)} {id : Nat}
    {l : Label α} (h : Traced labels trace id l) : trace ≠ [] :=
  List.ne_nil_of_mem h.self_mem

end Label

variable [Scalar α] {t : Timetable α} {policy : TransferPolicy α} {q : SearchQuery α}

/-- All moves of a query: to a route-stop as a candidate says, by vehicle or along a
    footpath. -/
def Timetable.moves (t : Timetable α) (q : SearchQuery α) : Set (Nat × Move α) :=
  {x | x.1 < t.routeStops.size ∧ ((∃ k, k < q.access.length ∧ Move.access k = x.2) ∨
    x.2 = Move.ride ∨ ∃ f ∈ t.footpaths.toList, Move.walk (f.time q.parameters) = x.2)}

/-- There are finitely many moves. -/
theorem Timetable.finite_moves (t : Timetable α) (q : SearchQuery α) : (t.moves q).Finite := by
  have haccess := (Set.finite_lt_nat q.access.length).image (Move.access (α := α))
  have hwalk := (List.finite_toSet t.footpaths.toList).image
    fun f => Move.walk (f.time q.parameters)
  have hways := haccess.union ((Set.finite_singleton Move.ride).union hwalk)
  exact ((Set.finite_lt_nat t.routeStops.size).prod hways).subset fun x hx => hx

-- So there are finitely many ways to make no more than a number of them.
theorem Timetable.finite_moveLists (t : Timetable α) (q : SearchQuery α) (n : Nat) :
    {moves : List (Nat × Move α) | moves.length ≤ n ∧ ∀ x ∈ moves, x ∈ t.moves q}.Finite := by
  have := (t.finite_moves q).to_subtype
  refine ((List.finite_length_le (t.moves q) n).image (List.map (↑))).subset ?_
  rintro moves ⟨hlength, hmem⟩
  have hrange : moves ∈ Set.range (List.map ((↑) : t.moves q → Nat × Move α)) := by
    rw [Set.range_list_map_coe]
    exact hmem
  rcases hrange with ⟨moves', rfl⟩
  exact ⟨moves', by simpa using hlength, rfl⟩

namespace Label

variable {earlier earlier' : Array (Label α)} {l l' : Label α}

theorem IsLegal.move_mem (h : l.IsLegal t policy q earlier) : l.move ∈ t.moves q := by
  refine ⟨h.routeStop_lt, ?_⟩
  unfold move
  cases h with
  | access k c step previous candidate =>
      exact Or.inl ⟨k, (List.getElem?_eq_some_iff.mp candidate).1, by rw [step]⟩
  | ride id p trip b v e step =>
      refine Or.inr (Or.inl ?_)
      simp only [step]
  | transfer id p f d inc fm tm step previous predecessor ride path takes =>
      refine Or.inr (Or.inr ⟨f, path.1.val, ?_⟩)
      simp only [step, takes]
      rfl

-- The first label of a journey is determined by its move.
theorem IsLegal.twins_of_previous_none (hl : l.IsLegal t policy q earlier)
    (hl' : l'.IsLegal t policy q earlier') (hnone : l.previous = none)
    (hnone' : l'.previous = none) (hmove : l'.move = l.move) (labels labels' : Array (Label α)) :
    Twins False q.access q.access labels labels' l l' := by
  cases hl with
  | ride n m trip b v e step previous =>
      exact absurd (hnone.symm.trans previous) (Option.some_ne_none n).symm
  | transfer n m f d inc fm tm step previous =>
      exact absurd (hnone.symm.trans previous) (Option.some_ne_none n).symm
  | access k c step previous candidate stop time cost transfers transferCost =>
      cases hl' with
      | ride n m trip b v e step' previous' =>
          exact absurd (hnone'.symm.trans previous') (Option.some_ne_none n).symm
      | transfer n m f d inc fm tm step' previous' =>
          exact absurd (hnone'.symm.trans previous') (Option.some_ne_none n).symm
      | access k' c' step' previous' candidate' stop' time' cost' transfers' transferCost' =>
          simp only [move, step, step', Prod.mk.injEq, Move.access.injEq] at hmove
          rcases hmove with ⟨hstop, rfl⟩
          rw [candidate, Option.some.injEq] at candidate'
          subst candidate'
          have heq : l' = { l with step := .access k' } := by
            rcases l with ⟨⟩
            rcases l' with ⟨⟩
            simp_all only
          rw [heq]
          exact Twins.access step previous candidate candidate False.elim

/-- A legal label is determined by its move and the label that it extends, if the policy
    cannot tell twins apart. -/
theorem IsLegal.eq_of_move_eq (hl : l.IsLegal t policy q earlier)
    (hl' : l'.IsLegal t policy q earlier') (hpolicy : policy.ByChain) (hordered : Ordered earlier)
    (hordered' : Ordered earlier') {n n' : Nat} {m m' : Label α} (hm : earlier[n]? = some m)
    (hm' : earlier'[n']? = some m') (hprevious : l.previous = some n)
    (hprevious' : l'.previous = some n')
    (htwins : Twins False q.access q.access earlier earlier' m m') (hmove : l'.move = l.move) :
    l' = { l with previous := some n' } ∧ ∀ k, l.step ≠ .access k := by
  cases hl with
  | access k c step previous =>
      exact absurd (hprevious.symm.trans previous) (Option.some_ne_none n)
  | ride n₁ m₁ trip b v e step previous predecessor ahead next boarding vehicle enters time cost
      transfers transferCost =>
      rcases predecessor_unique hm hprevious predecessor previous with ⟨rfl, rfl⟩
      cases hl' with
      | access k c step' previous' =>
          exact absurd (hprevious'.symm.trans previous') (Option.some_ne_none n')
      | transfer n₂ m₂ f d inc fm tm step' =>
          simp only [move, step, step', Prod.mk.injEq, reduceCtorEq, and_false] at hmove
      | ride n₂ m₂ trip' b' v' e' step' previous' predecessor' ahead' next' boarding' vehicle'
          enters' time' cost' transfers' transferCost' =>
          rcases predecessor_unique hm' hprevious' predecessor' previous' with ⟨rfl, rfl⟩
          have hstop : l'.routeStop = l.routeStop := congrArg Prod.fst hmove
          -- The next vehicle is the same, and so is everything that it determines.
          rw [htwins.routeStop_eq, htwins.time_eq, next, Option.some.injEq,
            Option.some.injEq] at next'
          subst next'
          rw [htwins.routeStop_eq, boarding, Option.some.injEq] at boarding'
          rw [htwins.routeStop_eq, vehicle, Option.some.injEq] at vehicle'
          rw [hstop, time, Option.some.injEq] at time'
          subst boarding' vehicle'
          rw [htwins.time_eq, ← enters] at enters'
          rw [htwins.cost_eq, htwins.time_eq, enters', ← time', ← cost] at cost'
          rw [htwins.transfers_eq, ← transfers] at transfers'
          rw [htwins.transferCost_eq, ← transferCost] at transferCost'
          refine ⟨?_, fun k hk => absurd (step.symm.trans hk) (by simp)⟩
          rcases l with ⟨⟩
          rcases l' with ⟨⟩
          simp_all only
  | transfer n₁ m₁ f d inc fm tm step previous predecessor ride path takes left entered price time
      cost transfers transferCost =>
      rcases predecessor_unique hm hprevious predecessor previous with ⟨rfl, rfl⟩
      cases hl' with
      | access k c step' previous' =>
          exact absurd (hprevious'.symm.trans previous') (Option.some_ne_none n')
      | ride n₂ m₂ trip' b' v' e' step' =>
          simp only [move, step, step', Prod.mk.injEq, reduceCtorEq, and_false] at hmove
      | transfer n₂ m₂ f' d' inc' fm' tm' step' previous' predecessor' ride' path' takes' left'
          entered' price' time' cost' transfers' transferCost' =>
          rcases predecessor_unique hm' hprevious' predecessor' previous' with ⟨rfl, rfl⟩
          simp only [move, step, step', Prod.mk.injEq, Move.walk.injEq] at hmove
          rcases hmove with ⟨hstop, rfl⟩
          rw [htwins.routeStop_eq, left, Option.some.injEq] at left'
          rw [hstop, entered, Option.some.injEq] at entered'
          subst left' entered'
          -- The policy is shown twins, so it answers the same.
          have hprice : policy t ((⟨n', m', fm⟩ : Departing α).context q earlier' tm d')
              = policy t ((⟨n, m, fm⟩ : Departing α).context q earlier tm d') :=
            hpolicy t _ _ q.access q.access m m' hordered hordered' hm hm' htwins
              (by simp only [Departing.context, htwins.time_eq, htwins.transfers_eq,
                htwins.transferCost_eq])
          have hincrement : inc = inc' :=
            Option.some.inj (price.symm.trans (hprice.symm.trans price'))
          subst hincrement
          rw [htwins.time_eq, ← time] at time'
          rw [htwins.cost_eq, ← cost] at cost'
          rw [htwins.transfers_eq, ← transfers] at transfers'
          rw [htwins.transferCost_eq, ← transferCost] at transferCost'
          refine ⟨?_, fun k hk => absurd (step.symm.trans hk) (by simp)⟩
          rcases l with ⟨⟩
          rcases l' with ⟨⟩
          simp_all only

end Label

namespace Workspace

variable {w w' : Workspace α}

-- What is said is said of the labels stored up to some position, since that is what
-- policies are shown.
theorem Legal.twins_extract (h : w.Legal t policy q) (h' : w'.Legal t policy q)
    (hpolicy : policy.ByChain) {trace : List (Nat × Label α)} {id : Nat} {l : Label α}
    (htrace : Label.Traced w.labels trace id l) :
    ∀ {n n' id' : Nat} {trace' : List (Nat × Label α)} {l' : Label α}, id < n → id' < n' →
      Label.Traced w'.labels trace' id' l' →
      trace'.map (·.2.move) = trace.map (·.2.move) →
      Label.Twins False q.access q.access (w.labels.extract 0 n) (w'.labels.extract 0 n') l l' := by
  induction htrace with
  | @start id l label previous =>
      intro n n' id' trace' l' hn hn' htrace' hmoves
      cases htrace' with
      | start label' previous' =>
          simp only [List.map_cons, List.map_nil, List.cons.injEq, and_true] at hmoves
          exact (h id l label).twins_of_previous_none (h' id' l' label') previous previous' hmoves
            _ _
      | extend before' label' previous' later' =>
          have hlength := congrArg List.length hmoves
          simp only [List.length_map, List.length_append, List.length_singleton,
            Nat.add_eq_right, List.length_eq_zero_iff] at hlength
          exact absurd hlength before'.ne_nil
  | @extend trace k id m l before label previous later ih =>
      intro n n' id' trace' l' hn hn' htrace' hmoves
      cases htrace' with
      | start label' previous' =>
          have hlength := congrArg List.length hmoves.symm
          simp only [List.length_map, List.length_append, List.length_singleton,
            Nat.add_eq_right, List.length_eq_zero_iff] at hlength
          exact absurd hlength before.ne_nil
      | @extend trace' k' _ m' _ before' label' previous' later' =>
          rw [List.map_append, List.map_append, List.map_cons, List.map_nil, List.map_cons,
            List.map_nil] at hmoves
          rcases List.append_inj' hmoves (by simp) with ⟨hbefore, hlast⟩
          have hmove : l'.move = l.move := (List.cons.inj hlast).1
          have htwins := ih later later' before' hbefore
          have hm := before.label_extract later
          have hm' := before'.label_extract later'
          rcases (h id l label).eq_of_move_eq (h' id' l' label') hpolicy (h.ordered.extract id)
            (h'.ordered.extract id') hm hm' previous previous' htwins hmove with ⟨heq, hmoves⟩
          rw [heq]
          -- More labels do not make a difference.
          refine Label.Twins.extend hmoves previous (before.label_extract (by omega))
            (before'.label_extract (by omega)) (htwins.mono ?_ ?_) False.elim
          all_goals
            intro i x hx
            rcases label_of_extract hx with ⟨hi, hx⟩
            rw [Array.getElem?_extract, if_pos, Nat.zero_add, hx]
            have hlt := (Array.getElem?_eq_some_iff.mp hx).1
            omega

/-- Journeys with the same moves consist of twins, if the policy cannot tell twins
    apart. -/
theorem Legal.twins_of_moves_eq (h : w.Legal t policy q) (h' : w'.Legal t policy q)
    (hpolicy : policy.ByChain) {trace trace' : List (Nat × Label α)} {id id' : Nat}
    {l l' : Label α} (htrace : Label.Traced w.labels trace id l)
    (htrace' : Label.Traced w'.labels trace' id' l')
    (hmoves : trace'.map (·.2.move) = trace.map (·.2.move)) :
    Label.Twins False q.access q.access w.labels w'.labels l l' := by
  have hid := (Array.getElem?_eq_some_iff.mp htrace.label).1
  have hid' := (Array.getElem?_eq_some_iff.mp htrace'.label).1
  have htwins := h.twins_extract h' hpolicy htrace hid hid' htrace' hmoves
  rwa [Array.extract_size, Array.extract_size] at htwins

end Workspace

end Journey
