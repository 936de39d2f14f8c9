import Journey.Proofs.Search.Following
import Journey.Search.Reconstruction

/-!
# The Same Trip Told Twice

Two searches that hold twins everywhere find the same itinerary.

The best destination is chosen by costs and transfers, in which twins do not
differ, and the trip is told from the chain of its label. Chains of twins are as
long and consist of twins, and a label tells no more than what it has in common
with its twin and what the candidate says that it names, which is the same
candidate for both.

## Main definitions

* `Arrival.Twins`: The same way on, from labels that are twins.

## Theorems

* `Label.Twins.chainWithin?`: The chains of twins consist of twins.
* `Label.Twins.extend?_eq`: Twins tell the same.
* `Workspace.Agree.itinerary?`: Both searches find the same itinerary.
-/

namespace Journey

variable {α : Type} {strict : Prop} {q q' : SearchQuery α}

namespace Label

variable {access access' : List (Candidate α)} {labels labels' : Array (Label α)} {l l' : Label α}

/-- The chains of twins consist of twins. Those of the second search are found
    because predecessors come first. -/
theorem Twins.chainWithin? (h : Twins strict access access' labels labels' l l')
    (hlabels' : Ordered labels') :
    ∀ {n n' id id' : Nat} {chain : List (Nat × Label α)}, labels[id]? = some l →
      labels'[id']? = some l' → id' < n' → Label.chainWithin? labels n id = some chain →
      ∃ chain', Label.chainWithin? labels' n' id' = some chain' ∧
        List.Forall₂ (fun x x' => Twins strict access access' labels labels' x.2 x'.2)
          chain chain' := by
  induction h with
  | @access l k k' c step previous candidate candidate' position =>
      intro n n' id id' chain hl hl' hlt hchain
      rcases Nat.exists_eq_add_one_of_ne_zero (Nat.ne_zero_of_lt hlt) with ⟨n', rfl⟩
      cases n with
      | zero =>
          exact absurd hchain
            (by simp only [Label.chainWithin?, reduceCtorEq, not_false_eq_true])
      | succ n =>
          simp only [Label.chainWithin?, hl, hl', previous, Option.bind_eq_bind, Option.bind_some,
            Option.pure_def, Option.some.injEq] at hchain ⊢
          refine ⟨_, rfl, hchain ▸ List.Forall₂.cons ?_ List.Forall₂.nil⟩
          have htwins :
              Twins strict access access' labels labels' l { l with step := .access k' } :=
            Twins.access step previous candidate candidate' position
          rw [previous] at htwins
          exact htwins
  | @extend l m m' i i' moves previous label label' before position ih =>
      intro n n' id id' chain hl hl' hlt hchain
      rcases Nat.exists_eq_add_one_of_ne_zero (Nat.ne_zero_of_lt hlt) with ⟨n', rfl⟩
      cases n with
      | zero =>
          exact absurd hchain
            (by simp only [Label.chainWithin?, reduceCtorEq, not_false_eq_true])
      | succ n =>
          simp only [Label.chainWithin?, hl, hl', previous, Option.bind_eq_bind, Option.bind_some,
            Option.pure_def, Option.bind_eq_some_iff, Option.some.injEq] at hchain ⊢
          rcases hchain with ⟨rest, hrest, rfl⟩
          have hi' : i' < id' := hlabels' id' _ hl' i' rfl
          have hlt' : i' < n' := by omega
          rcases ih label label' hlt' hrest with ⟨rest', hrest', hrel⟩
          exact ⟨_, ⟨rest', hrest', rfl⟩,
            List.Forall₂.cons (Twins.extend moves previous label label' before position) hrel⟩

end Label

section Telling

variable [Scalar α] [Planar α] {t : Timetable α} {labels labels' : Array (Label α)}

/-- Twins tell the same. -/
theorem Label.Twins.extend?_eq {l l' : Label α}
    (h : l.Twins strict q.access q'.access labels labels' l') (p : Progress α) :
    p.extend? t q' labels' l' = p.extend? t q labels l := by
  cases h with
  | access step previous candidate candidate' =>
      -- Both name the same candidate.
      unfold Progress.extend?
      simp only [step, candidate, candidate', Option.bind_eq_bind, Option.bind_some]
      rfl
  | @extend _ m m' id id' moves previous label label' before =>
      unfold Progress.extend?
      simp only [previous]
      cases hstep : l.step with
      | access k => exact absurd hstep (moves k)
      | ride trip boardingTime =>
          simp only [label, label', before.routeStop_eq, Option.bind_eq_bind, Option.bind_some]
          unfold Progress.addRide
          simp only [before.cost_eq]
      | transfer duration cost =>
          simp only [label, label', before.routeStop_eq, Option.bind_eq_bind, Option.bind_some]
          rfl

theorem Progress.extendAll?_eq {ls ls' : List (Label α)}
    (h : List.Forall₂ (Label.Twins strict q.access q'.access labels labels') ls ls') :
    ∀ p : Progress α, extendAll? t q' labels' p ls' = extendAll? t q labels p ls := by
  induction h with
  | nil => exact fun _ => rfl
  | cons hl _ ih =>
      intro p
      unfold extendAll?
      rw [hl.extend?_eq p]
      refine congrArg _ (funext fun r => ?_)
      cases r with
      | none => rfl
      | some p' => exact ih p'

end Telling

namespace Workspace

variable [Scalar α] {t : Timetable α} {w w' : Workspace α}

/-- The same egress candidate is reached at the same cost, by labels that are
    twins. -/
structure ArrivalTwins (strict : Prop) (q q' : SearchQuery α) (w w' : Workspace α)
    (a a' : Arrival α) : Prop where
  totalCost : a'.totalCost = a.totalCost
  label : w.labels[a.id]? = some a.label
  label' : w'.labels[a'.id]? = some a'.label
  twins : a.label.Twins strict q.access q'.access w.labels w'.labels a'.label
  candidate : ∃ c, q.egress[a.candidate]? = some c ∧ q'.egress[a'.candidate]? = some c

namespace Agree

-- The destinations are the same.
theorem destinationList_eq (h : Agree strict t q q' w w') :
    w'.destinationList = w.destinationList := by
  unfold destinationList
  rw [h.fits.egress_size, h.fits'.egress_size]
  refine List.filter_congr fun i _ => ?_
  rw [Bool.eq_iff_iff, h.fits.destinations_over.valid.contains_iff,
    h.fits'.destinations_over.valid.contains_iff]
  exact h.destinations i

theorem arrivalAt? (h : Agree strict t q q' w w') {i : Nat} {r : Option (Arrival α)}
    (hr : w.arrivalAt? i = some r) :
    ∃ r', w'.arrivalAt? i = some r' ∧ Option.Rel (ArrivalTwins strict q q' w w') r r' := by
  unfold Workspace.arrivalAt? at hr ⊢
  rcases Option.bind_eq_some_iff.mp hr with ⟨best, hbest, hr⟩
  rcases Option.bind_eq_some_iff.mp hr with ⟨egress, hegress, hr⟩
  cases best with
  | none =>
      have hegress' : ∃ egress', w'.egress[i]? = some egress' := by
        cases egress with
        | none => exact ⟨none, h.noEgress i hegress⟩
        | some e =>
            rcases h.egress i e hegress with ⟨e', -, he', -⟩
            exact ⟨some e', he'⟩
      rcases hegress' with ⟨egress', hegress'⟩
      rw [Option.pure_def, Option.some.injEq] at hr
      refine ⟨none, ?_, hr ▸ Option.Rel.none⟩
      simp only [h.unheld i hbest, hegress', Option.bind_eq_bind, Option.bind_some, Option.pure_def]
  | some id =>
      rcases h.fits.exists_label i id hbest with ⟨l, hl, -⟩
      rcases h.held i id l ⟨hbest, hl⟩ with ⟨id', l', hheld', htwins, -⟩
      cases egress with
      | none =>
          rw [Option.pure_def, Option.some.injEq] at hr
          refine ⟨none, ?_, hr ▸ Option.Rel.none⟩
          simp only [hheld'.1, h.noEgress i hegress, Option.bind_eq_bind, Option.bind_some,
            Option.pure_def]
      | some e =>
          rcases h.egress i e hegress with ⟨e', c, he', hcost, hc, hc'⟩
          simp only [hl, Option.bind_eq_bind, Option.bind_some, Option.pure_def,
            Option.some.injEq] at hr
          refine ⟨some ⟨l'.cost + e'.cost, id', l', e'.candidate⟩, ?_, hr ▸ Option.Rel.some ?_⟩
          · simp only [hheld'.1, hheld'.2, he', Option.bind_eq_bind, Option.bind_some,
              Option.pure_def]
          · exact ⟨by rw [htwins.cost_eq, hcost], hl, hheld'.2, htwins, c, hc, hc'⟩

end Agree

namespace ArrivalTwins

variable {a a' b b' : Arrival α}

-- Neither search prefers another of two arrivals.
theorem isBetterThan_eq (ha : ArrivalTwins strict q q' w w' a a')
    (hb : ArrivalTwins strict q q' w w' b b') : a'.isBetterThan b' = a.isBetterThan b := by
  unfold Arrival.isBetterThan
  rw [ha.totalCost, hb.totalCost, ha.twins.transfers_eq, hb.twins.transfers_eq]

theorem better {best best' : Option (Arrival α)}
    (hbest : Option.Rel (ArrivalTwins strict q q' w w') best best')
    (hb : ArrivalTwins strict q q' w w' b b') :
    ArrivalTwins strict q q' w w' (Arrival.better best b) (Arrival.better best' b') := by
  unfold Arrival.better
  cases hbest with
  | none => exact hb
  | some ha =>
      simp only [hb.isBetterThan_eq ha]
      split
      · exact hb
      · exact ha

end ArrivalTwins

namespace Agree

/-- The best destination is the same for both searches. -/
theorem winner? (h : Agree strict t q q' w w') {r : Option (Arrival α)}
    (hr : w.winner? = some r) :
    ∃ r', w'.winner? = some r' ∧ Option.Rel (ArrivalTwins strict q q' w w') r r' := by
  unfold Workspace.winner? at hr ⊢
  rw [h.destinationList_eq]
  refine Loop.foldlM_follows_self (Option.Rel (ArrivalTwins strict q q' w w'))
    (fun i best best' r hbest hr => ?_) none none Option.Rel.none hr
  rcases Option.bind_eq_some_iff.mp hr with ⟨arrival, harrival, hr⟩
  rcases h.arrivalAt? harrival with ⟨arrival', harrival', hrel⟩
  simp only [harrival', Option.bind_eq_bind, Option.bind_some]
  cases hrel with
  | none => exact ⟨best', rfl, Option.some.inj hr ▸ hbest⟩
  | some ha =>
      exact ⟨_, rfl, Option.some.inj hr ▸ Option.Rel.some (ArrivalTwins.better hbest ha)⟩

variable [Planar α]

/-- The legs of twins are the same. -/
theorem legs? (h : Agree strict t q q' w w') (hsame : q.SameTrip q') {a a' : Arrival α}
    (ha : ArrivalTwins strict q q' w w' a a') {r : Option (List (Leg α))}
    (hr : w.legs? t q a = some r) : w'.legs? t q' a' = some r := by
  unfold Workspace.legs? at hr ⊢
  rcases Option.bind_eq_some_iff.mp hr with ⟨chain, hchain, hr⟩
  rcases ha.twins.chainWithin? h.ordered' ha.label ha.label'
    (Array.getElem?_eq_some_iff.mp ha.label').1 hchain with ⟨chain', hchain', hrel⟩
  have hlabels : List.Forall₂ (Label.Twins strict q.access q'.access w.labels w'.labels)
      (chain.reverse.map Prod.snd) (chain'.reverse.map Prod.snd) := by
    rw [List.forall₂_map_left_iff, List.forall₂_map_right_iff, List.forall₂_reverse_iff]
    exact hrel
  rcases ha.candidate with ⟨c, hc, hc'⟩
  rw [← hr]
  unfold Label.chain?
  simp only [hchain', Option.bind_eq_bind, Option.bind_some, hsame.departureTime,
    Progress.extendAll?_eq hlabels, hc, hc']

/-- Both searches find the same itinerary. -/
theorem itinerary? (h : Agree strict t q q' w w') (hsame : q.SameTrip q')
    {found : Option (Itinerary α)} (hfound : w.itinerary? t q = some found) :
    w'.itinerary? t q' = some found := by
  unfold Workspace.itinerary? at hfound ⊢
  rcases Option.bind_eq_some_iff.mp hfound with ⟨arrival, hwinner, hfound⟩
  rcases h.winner? hwinner with ⟨arrival', hwinner', hrel⟩
  simp only [hwinner', Option.bind_eq_bind, Option.bind_some]
  cases hrel with
  | none => exact hfound
  | @some a a' ha =>
      rcases Option.bind_eq_some_iff.mp hfound with ⟨legs, hlegs, hfound⟩
      simp only [h.legs? hsame ha hlegs, Option.bind_some]
      cases legs with
      | none => exact hfound
      | some legs =>
          rw [← hfound, ha.totalCost, ha.twins.transferCost_eq, ha.twins.transfers_eq]

end Agree

end Workspace

end Journey
