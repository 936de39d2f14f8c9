import Journey.Proofs.CheapestCandidates
import Journey.Proofs.Search.Moments

/-!
# Ways On to the Destination

Which egress candidate a route-stop keeps.

The candidates of a query are offered one after the other to the route-stops at their
stops, and an offer only replaces a dearer one. So a route-stop has, of the candidates
at its stop that were offered so far, the cheapest, and of equally cheap ones the first.
`OnwardFrom` says this of a list of offers, and every pass of the loop adds one to it.

What is offered later in a search are labels. They do not touch the ways on, but a run
may offer an egress candidate again. It would find that the route-stop has one that is
no dearer, so once all of them were offered the ways on stay as they are.

## Main definitions

* `Egress.Chosen`: The way on from a stop that some offers leave.
* `Workspace.OnwardFrom`: Every route-stop has the cheapest candidate at its stop.
* `Workspace.Underway`: The moments of a search after the egress candidates.

## Theorems

* `Workspace.onwardFrom_of_setEgress?`: What offering the egress candidates leaves.
* `Workspace.Run.onwardFrom`: Nothing changes the ways on any more.
* `Workspace.Moment.underway_cases`: Candidates are being offered, or a search is
  underway.
* `Workspace.Underway.onwardFrom`: The ways on at every later moment.
-/

namespace Journey

variable {K : Type} [Field K] [LinearOrder K]

/-- The way on from a stop that some offers leave. -/
def Egress.Chosen (offers : List (Candidate K × Nat)) (stop : Nat) : Option (Egress K) → Prop
  | none => ∀ x ∈ offers, x.1.stop ≠ stop
  | some e => ∃ c, Candidate.Cheapest offers stop c e.candidate ∧ c.cost = e.cost

omit [Field K] in
-- An offer at another stop makes no difference.
theorem Egress.Chosen.elsewhere {offers : List (Candidate K × Nat)} {stop : Nat}
    {way : Option (Egress K)} (h : Egress.Chosen offers stop way) {x : Candidate K × Nat}
    (hx : x.1.stop ≠ stop) : Egress.Chosen (offers ++ [x]) stop way := by
  cases way with
  | none =>
      intro y hy
      rcases List.mem_append.mp hy with hy | hy
      · exact h y hy
      · exact List.mem_singleton.mp hy ▸ hx
  | some e =>
      rcases h with ⟨c, hc, hcost⟩
      exact ⟨c, hc.elsewhere hx, hcost⟩

namespace Workspace

variable {t : Timetable K} {policy : TransferPolicy K} {q : SearchQuery K} {w w' : Workspace K}
  {offers : List (Candidate K × Nat)} {x : Candidate K × Nat}

/-- Every route-stop has the cheapest of some candidates at its stop as its way on, and
    none if there is no such candidate. -/
def OnwardFrom (t : Timetable K) (offers : List (Candidate K × Nat)) (w : Workspace K) : Prop :=
  ∀ i s, t.stopOf? i = some s → ∃ way, w.egress[i]? = some way ∧ Egress.Chosen offers s way

-- One more offer. It may have been made to some route-stops already.
theorem chosen_of_offerEgress? (hlast : ∀ y ∈ offers, y.2 ≤ x.2) {i s : Nat}
    {way : Option (Egress K)} (hway : w.egress[i]? = some way)
    (hchosen : Egress.Chosen offers s way ∨ Egress.Chosen (offers ++ [x]) s way)
    (hx : x.1.stop = s) (h : w.offerEgress? ⟨x.1.cost, x.2⟩ i = some w') :
    ∃ way', w'.egress[i]? = some way' ∧ Egress.Chosen (offers ++ [x]) s way' := by
  rcases offerEgress?_eq_some h with ⟨rfl, e, he, hnot⟩ | ⟨table, -, ht, -, hlt, rfl⟩
  · rw [hway, Option.some.injEq] at he
    subst he
    rcases hchosen with ⟨c, hc, hcost⟩ | hchosen
    · refine ⟨some e, hway, c, hc.stays ?_ (hlast _ hc.offered), hcost⟩
      rw [hcost]
      exact le_of_not_gt hnot
    · exact ⟨some e, hway, hchosen⟩
  · have hcheaper : ∀ e, way = some e → x.1.cost < e.cost :=
      fun e he => hlt e (by rw [hway, he])
    refine ⟨some ⟨x.1.cost, x.2⟩, by rw [(write?_eq_some ht).2.2, if_pos rfl], x.1, ?_, rfl⟩
    have hself : x ∈ offers ++ [x] := List.mem_append_right _ (List.mem_singleton.mpr rfl)
    rcases hchosen with hchosen | hchosen
    · cases way with
      | none => exact Candidate.Cheapest.of_forall_lt hx fun y hy hs => absurd hs (hchosen y hy)
      | some e =>
          rcases hchosen with ⟨c, hc, hcost⟩
          exact hc.replaced hx (hcost ▸ hcheaper e rfl)
    · -- What was chosen with the offer is no dearer than it.
      cases way with
      | none => exact absurd hx (hchosen x hself)
      | some e =>
          rcases hchosen with ⟨c, hc, hcost⟩
          exact absurd (hcheaper e rfl) (not_lt_of_ge (hcost ▸ hc.least x hself hx))

-- An offer is about one route-stop.
theorem egress_of_offerEgress? {e : Egress K} {i j : Nat} (hne : j ≠ i)
    (h : w.offerEgress? e i = some w') : w'.egress[j]? = w.egress[j]? := by
  rcases offerEgress?_eq_some h with ⟨rfl, -⟩ | ⟨table, -, ht, -, -, rfl⟩
  · rfl
  · rw [(write?_eq_some ht).2.2, if_neg (Ne.symm hne)]

/-- Offering one more candidate to the route-stops at its stop. -/
theorem OnwardFrom.concat (hw : t.WellFormed) (h : w.OnwardFrom t offers)
    (hlast : ∀ y ∈ offers, y.2 ≤ x.2) (hpass : offerEgressAt? t w x = some w') :
    w'.OnwardFrom t (offers ++ [x]) := by
  rcases Option.bind_eq_some_iff.mp hpass with ⟨routeStops, hrs, hinner⟩
  have hmem := hw.mem_routeStopsAt?_iff hrs
  have hloop := Loop.foldlM_invariant (fun done (u : Workspace K) =>
    ∀ i s, t.stopOf? i = some s → ∃ way, u.egress[i]? = some way ∧
      (Egress.Chosen (offers ++ [x]) s way ∨ (i ∉ done ∧ Egress.Chosen offers s way)))
    routeStops ?_ w w' (fun i s hi => ?_) hinner
  · intro i s hi
    rcases hloop i s hi with ⟨way, hway, hchosen | ⟨hnot, hchosen⟩⟩
    · exact ⟨way, hway, hchosen⟩
    · -- A route-stop that was not gone through is at another stop.
      refine ⟨way, hway, hchosen.elsewhere fun hstop => hnot ((hmem i).mpr ?_)⟩
      rw [hi, hstop]
  · intro done j rest u u' hxs hu hoffer i s hi
    rcases hu i s hi with ⟨way, hway, hchosen⟩
    by_cases hij : i = j
    · subst hij
      have hat : t.stopOf? i = some x.1.stop :=
        (hmem i).mp (hxs ▸ List.mem_append_right _ List.mem_cons_self)
      rw [hi, Option.some.injEq] at hat
      rcases chosen_of_offerEgress? hlast hway (hchosen.symm.imp_left fun h => h.2) hat.symm
        hoffer with ⟨way', hway', hchosen'⟩
      exact ⟨way', hway', Or.inl hchosen'⟩
    · refine ⟨way, by rw [egress_of_offerEgress? hij hoffer, hway], ?_⟩
      refine hchosen.imp_right fun hchosen => ⟨fun hdone => ?_, hchosen.2⟩
      rcases List.mem_append.mp hdone with hdone | hdone
      · exact hchosen.1 hdone
      · exact hij (List.mem_singleton.mp hdone)
  · rcases h i s hi with ⟨way, hway, hchosen⟩
    exact ⟨way, hway, Or.inr ⟨List.not_mem_nil, hchosen⟩⟩

omit [Field K] in
-- Nothing was chosen from no offers.
theorem Clean.onwardFrom (h : w.Clean) (hf : w.Fits t) : w.OnwardFrom t [] := by
  intro i s hi
  have hlt : i < t.routeStops.size := by
    rcases Option.map_eq_some_iff.mp hi with ⟨rs, hrs, -⟩
    exact (Array.getElem?_eq_some_iff.mp hrs).1
  rcases hf.egress_exists hlt with ⟨way, hway⟩
  cases way with
  | none => exact ⟨none, hway, fun x hx => absurd hx List.not_mem_nil⟩
  | some e => exact absurd hway (h.egress i e)

/-- Once all egress candidates of a query have been offered, every route-stop has the
    cheapest one at its stop. -/
theorem onwardFrom_of_setEgress? (hw : t.WellFormed) (hf : w.Fits t)
    (h : w.reset.setEgress? t q.egress = some w') : w'.OnwardFrom t q.egress.zipIdx := by
  refine Loop.foldlM_invariant (fun done (u : Workspace K) => u.OnwardFrom t done)
    q.egress.zipIdx ?_ w.reset w' (hf.clean_reset.onwardFrom hf.reset) h
  intro done x rest u u' hxs hu hpass
  -- Candidates are numbered by how many came before.
  have hsorted : (q.egress.zipIdx.map Prod.snd).Pairwise (· < ·) := by
    rw [List.zipIdx_map_snd]
    exact List.pairwise_lt_range'
  rw [hxs, List.pairwise_map, List.pairwise_append] at hsorted
  exact hu.concat hw (fun y hy => Nat.le_of_lt (hsorted.2.2 y hy x List.mem_cons_self)) hpass

/-- Every candidate offers a way on that is no dearer. -/
theorem OnwardFrom.exists_le (h : w.OnwardFrom t q.egress.zipIdx) {i k : Nat} {c : Candidate K}
    (hi : t.stopOf? i = some c.stop) (hc : q.egress[k]? = some c) :
    ∃ e, w.egress[i]? = some (some e) ∧ e.cost ≤ c.cost := by
  have hmem : (c, k) ∈ q.egress.zipIdx := List.mem_zipIdx_iff_getElem?.mpr hc
  rcases h i c.stop hi with ⟨way, hway, hchosen⟩
  cases way with
  | none => exact absurd rfl (hchosen (c, k) hmem)
  | some e =>
      rcases hchosen with ⟨c', hc', hcost⟩
      exact ⟨e, hway, hcost ▸ hc'.least (c, k) hmem rfl⟩

/-- Once all egress candidates have been offered, no event changes the ways on. -/
theorem Event.onwardFrom (h : Event t policy q w w') (hon : w.OnwardFrom t q.egress.zipIdx) :
    w'.OnwardFrom t q.egress.zipIdx := by
  cases h.effect with
  | quiet h =>
      intro i s hi
      rw [h.egress]
      exact hon i s hi
  | stored legal h =>
      intro i s hi
      rw [h.egress]
      exact hon i s hi
  | egress candidate stop written marked cheaper =>
      rcases hon.exists_le stop candidate with ⟨e, he, hle⟩
      exact absurd (cheaper e he) (not_lt_of_ge hle)

theorem Run.onwardFrom (h : Run t policy q w w') (hon : w.OnwardFrom t q.egress.zipIdx) :
    w'.OnwardFrom t q.egress.zipIdx :=
  h.invariant (fun u => u.OnwardFrom t q.egress.zipIdx) (fun _ _ hevent => hevent.onwardFrom) hon

/-- During a search that starts in a workspace, once the egress candidates have been
    offered. -/
inductive Underway (t : Timetable K) (policy : TransferPolicy K) (q : SearchQuery K)
    (w : Workspace K) : Workspace K → Prop where
  /-- While the access candidates are offered. -/
  | access {w₁ w' : Workspace K} (told : w.reset.setEgress? t q.egress = some w₁)
      (h : Loop.Passes (offerAccessAt? t q.departureTime) (InOfferAccess t q.departureTime)
        w₁ q.access.zipIdx w') : Underway t policy q w w'
  /-- During the rounds. -/
  | rounds {w₁ w' : Workspace K} (begun : w.begin? t q = some w₁)
      (h : InRounds t policy q (q.maxTransfers + 1) w₁ w') : Underway t policy q w w'
  /-- At the end. -/
  | concluded {w' : Workspace K} (h : w.explore? t policy q = some w') : Underway t policy q w w'

theorem Underway.moment (h : Underway t policy q w w') : Moment t policy q w w' := by
  cases h with
  | access told h => exact Moment.access told h
  | rounds begun h => exact Moment.rounds begun h
  | concluded h => exact Moment.concluded h

/-- At any moment of a search egress candidates are being offered, or all of them have
    been. -/
theorem Moment.underway_cases (h : Moment t policy q w w') :
    Loop.Passes (offerEgressAt? t) (InOfferEgress t) w.reset q.egress.zipIdx w' ∨
      Underway t policy q w w' := by
  cases h with
  | egress h => exact Or.inl h
  | access told h => exact Or.inr (Underway.access told h)
  | rounds begun h => exact Or.inr (Underway.rounds begun h)
  | concluded h => exact Or.inr (Underway.concluded h)

/-- What is underway has come from where all egress candidates had been offered. -/
theorem Underway.run (hw : t.WellFormed) (hf : w.Fits t) (h : Underway t policy q w w') :
    ∃ w₁, w.reset.setEgress? t q.egress = some w₁ ∧ w₁.Fits t ∧ Run t policy q w₁ w' := by
  have hready : ∀ {w₁}, w.reset.setEgress? t q.egress = some w₁ → w₁.Fits t := by
    intro w₁ h
    have hrun : Run t policy q w.reset w₁ :=
      run_of_egress hw hf.reset (Loop.passes_of_foldlM _ h)
    exact hrun.fits hf.reset
  have hbegin : ∀ {w₂}, w.begin? t q = some w₂ → ∃ w₁, w.reset.setEgress? t q.egress = some w₁ ∧
      w₁.Fits t ∧ Run t policy q w₁ w₂ := by
    intro w₂ h
    rcases begin?_eq_some h with ⟨w₁, hegress, haccess⟩
    exact ⟨w₁, hegress, hready hegress,
      run_of_access hw (hready hegress) (Loop.passes_of_foldlM _ haccess)⟩
  cases h with
  | @access w₁ w' told h => exact ⟨w₁, told, hready told, run_of_access hw (hready told) h⟩
  | rounds begun h =>
      rcases hbegin begun with ⟨w₁, hegress, hf₁, hrun⟩
      exact ⟨w₁, hegress, hf₁, hrun.trans (h.run hw (hrun.fits hf₁))⟩
  | concluded h =>
      rcases explore?_eq_some h with ⟨w₂, w₃, begun, hrounds, rfl⟩
      rcases hbegin begun with ⟨w₁, hegress, hf₁, hrun⟩
      have hlater := (inRounds_of_rounds? hrounds).run hw (hrun.fits hf₁)
      exact ⟨w₁, hegress, hf₁,
        (hrun.trans hlater).trans (Run.single (Event.quiet (quiet_conclude w₃)))⟩

/-- While a search is underway, every route-stop has the cheapest egress candidate at its
    stop. -/
theorem Underway.onwardFrom (hw : t.WellFormed) (hf : w.Fits t) (h : Underway t policy q w w') :
    w'.OnwardFrom t q.egress.zipIdx := by
  rcases h.run hw hf with ⟨w₁, hegress, -, hrun⟩
  exact hrun.onwardFrom (onwardFrom_of_setEgress? hw hf hegress)

end Workspace

end Journey
