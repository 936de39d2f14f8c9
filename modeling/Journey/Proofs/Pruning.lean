import Journey.Proofs.Growth
import Journey.Proofs.Sample
import Journey.Proofs.Search.Answer
import Journey.Proofs.Search.Tightening

/-!
# Pruning by the Bound

What the bound keeps out of a search is of no use to it.

Once a complete journey is known, labels that cost more are turned down and rides
that cost more are not left. Whether that loses anything is decided later: such a
label might lead on to the destination in ways that the search never looks at, and
the bound it was measured against is not the one at the end. But nothing that leads
on from a label is cheaper than the label, and the bound only becomes tighter, so all
of these ways are dearer than the itinerary that is found.

`LeadsTo` does not ask what the search does with a label. It is about any labels that
continue those there are, as long as each of them is legal.

## Main definitions

* `Label.LeadsTo`: A label that legal labels lead on to.
* `Label.Hopeless`: Every way to the destination over a label is dearer than an
  itinerary.

## Theorems

* `Label.hopeless_of_lt`: A label dearer than an itinerary is hopeless.
* `Engine.Answered.lt_of_exceedsBound`: What exceeds the bound of any moment is dearer
  than the itinerary that is found.
* `Engine.InService.prunes_hopeless`: The bound prunes only hopeless labels.
-/

namespace Journey

variable {K : Type} [Field K] [LinearOrder K] {t : Timetable K} {policy : TransferPolicy K}
  {q : SearchQuery K}

namespace Label

/-- A label that legal labels lead on to from the one at a position, or that label
    itself. The labels may be any that continue those there are. -/
def LeadsTo (t : Timetable K) (policy : TransferPolicy K) (q : SearchQuery K)
    (labels : Array (Label K)) (id : Nat) (m : Label K) : Prop :=
  ∃ (u : Workspace K) (n : Nat) (chain : List (Nat × Label K)), u.Legal t policy q ∧
    (∀ (i : Nat) (l : Label K), labels[i]? = some l → u.labels[i]? = some l) ∧
    u.labels[n]? = some m ∧ Label.chain? u.labels n = some chain ∧ id ∈ chain.map Prod.fst

/-- Every way to the destination over the label at a position is dearer than an
    itinerary. -/
def Hopeless (t : Timetable K) (policy : TransferPolicy K) (q : SearchQuery K)
    (labels : Array (Label K)) (id : Nat) (it : Itinerary K) : Prop :=
  ∀ m, LeadsTo t policy q labels id m → ∀ c ∈ q.egress, t.stopOf? m.routeStop = some c.stop →
    it.totalCost < m.cost + c.cost

-- A stored label leads to itself.
theorem leadsTo_self {w : Workspace K} (h : w.Legal t policy q) {id : Nat} {l : Label K}
    (hl : w.labels[id]? = some l) : LeadsTo t policy q w.labels id l := by
  rcases h.exists_traced id l hl with ⟨trace, htrace⟩
  refine ⟨w, id, trace.reverse, h, fun _ _ h => h, hl, htrace.chain?_eq, ?_⟩
  exact List.mem_map.mpr ⟨(id, l), List.mem_reverse.mpr htrace.self_mem, rfl⟩

variable [IsStrictOrderedRing K] {labels : Array (Label K)} {id : Nat} {l m : Label K}

-- Going on from a label never makes a journey cheaper.
theorem LeadsTo.cost_le (h : LeadsTo t policy q labels id m) (hq : q.Growing t policy)
    (hl : labels[id]? = some l) : l.cost ≤ m.cost := by
  rcases h with ⟨u, n, chain, hlegal, hlabels, hm, hchain, hmem⟩
  rcases hlegal.exists_traced n m hm with ⟨trace, htrace⟩
  rw [htrace.chain?_eq, Option.some.injEq] at hchain
  subst hchain
  rcases List.mem_map.mp hmem with ⟨x, hx, rfl⟩
  have hx := List.mem_reverse.mp hx
  -- The position names the same label as before.
  have hsame := htrace.label_of_mem x hx
  rw [hlabels _ l hl, Option.some.injEq] at hsame
  exact hsame ▸ (hlegal.grows hq htrace x hx).1

/-- A label dearer than an itinerary is hopeless. -/
theorem hopeless_of_lt (hq : q.Growing t policy) (hegress : ∀ c ∈ q.egress, 0 ≤ c.cost)
    (hl : labels[id]? = some l) {it : Itinerary K} (hlt : it.totalCost < l.cost) :
    Hopeless t policy q labels id it := by
  intro m hm c hc hstop
  have hle := hm.cost_le hq hl
  have hnonneg := hegress c hc
  linarith

end Label

namespace Engine

variable [IsStrictOrderedRing K] [Planar K] {e e' : Engine K} {found : Option (Itinerary K)}
  {w : Workspace K}

/-- What exceeds the bound of any moment of a search is dearer than the itinerary that
    is found, and there is one. -/
theorem Answered.lt_of_exceedsBound (h : Answered t policy e q e' found) (hw : t.WellFormed)
    (hm : Workspace.Moment t policy q e.workspace w) {cost : K}
    (hexceeds : w.exceedsBound cost = true) :
    ∃ it, found = some it ∧ it.totalCost < cost := by
  rcases Workspace.exceedsBound_eq_true hexceeds with ⟨b, hb, hlt⟩
  rcases hm.tightens h.explored b hb with ⟨b', hb', hle⟩
  -- The last bound is the cost of a way to the destination that is held.
  rcases (Workspace.ends_of_explore? hw h.fits h.explored).1 b' hb' with
    ⟨i, id, l, egress, hl, hegress, hcost⟩
  have harrives : e'.workspace.Arrives i ⟨l.cost + egress.cost, id, l, egress.candidate⟩ :=
    ⟨hl, egress, hegress, rfl, rfl⟩
  cases found with
  | none => exact absurd harrives (h.none_iff.mp rfl i _)
  | some it =>
      have hleast := h.least it rfl i _ harrives
      exact ⟨it, rfl, lt_of_le_of_lt (le_trans hleast (le_trans hcost hle)) hlt⟩

/-- Under accepted parameters and a policy that comes with the search, no increment is
    negative at any moment of a search, no label is cheaper or earlier than the one
    it extends, and a label that exceeds the bound is hopeless, whether it is offered
    or was stored before. -/
theorem InService.prunes_hopeless [MarkerTree K] {d : Draft K} (hd : d.build = .ok t)
    (he : InService t policy e) (hpolicy : policy.BuiltIn t.modes)
    (hvalid : q.parameters.validate = .ok ()) (hin : q.Within t)
    (haccess : ∀ c ∈ q.access, 0 ≤ c.time) (hegress : ∀ c ∈ q.egress, 0 ≤ c.time ∧ 0 ≤ c.cost) :
    ∃ e' found, e.search? q = some (e', found) ∧
      ∀ w, Workspace.Moment t policy q e.workspace w →
        (∀ (d : Departing K) (toMode : Mode) (f : Footpath K) (increment : K),
          w.labels[d.id]? = some d.label → d.label.isRide = true →
          t.modeOf? d.label.routeStop = some d.mode →
          policy t (d.context q w.labels toMode
            (Scalar.larger f.duration q.parameters.minTransferTime)) = some increment →
          0 ≤ increment) ∧
        (∀ (id n : Nat) (l m : Label K), w.labels[id]? = some l → l.previous = some n →
          w.labels[n]? = some m → m.cost ≤ l.cost ∧ m.time ≤ l.time) ∧
        (∀ l : Label K, l.IsLegal t policy q w.labels → w.exceedsBound l.cost = true →
          ∃ it, found = some it ∧
            Label.Hopeless t policy q (w.labels.push l) w.labels.size it) ∧
        ∀ (id : Nat) (l : Label K), w.labels[id]? = some l → w.exceedsBound l.cost = true →
          ∃ it, found = some it ∧ Label.Hopeless t policy q w.labels id it := by
  have hw := Draft.wellFormed_of_build hd
  have hc := Draft.chronological_of_build hd
  have hmin := (Parameters.validate_ok hvalid).2.2.2
  have hq : q.Growing t policy := ⟨hw, hc, hpolicy, hvalid, haccess⟩
  have hcosts : ∀ c ∈ q.egress, 0 ≤ c.cost := fun c hc => (hegress c hc).2
  rcases he.answered_forward hw (hpolicy.answers hw q) hin
    (SearchQuery.forward_of_build hd hmin haccess fun c hc => (hegress c hc).1) with
    ⟨e', found, h⟩
  refine ⟨e', found, h.search, fun w hm => ?_⟩
  have hlegal := (hm.run hw h.fits).legal h.fits.clean_reset.legal
  refine ⟨?_, ?_, ?_, ?_⟩
  · intro d toMode f increment hd hride hmode hprice
    refine hlegal.increment_nonneg hq hd hride ?_ hprice
    rw [Scalar.larger_eq_max]
    exact le_max_of_le_right hmin
  · intro id n l m hl hprevious hm
    rcases hlegal.exists_traced n m hm with ⟨trace, htrace⟩
    have hstep := Label.Traced.extend htrace hl hprevious
      (Workspace.label_of_extract (Array.getElem?_eq_getElem
        ((hlegal id l hl).previous_lt hprevious))).1
    have hgrows := hlegal.grows hq hstep _ (List.mem_append_left _ htrace.self_mem)
    exact ⟨hgrows.1, hgrows.2.1⟩
  · intro l hl hexceeds
    rcases h.lt_of_exceedsBound hw hm hexceeds with ⟨it, hit, hlt⟩
    exact ⟨it, hit, Label.hopeless_of_lt hq hcosts Array.getElem?_push_size hlt⟩
  · intro id l hl hexceeds
    rcases h.lt_of_exceedsBound hw hm hexceeds with ⟨it, hit, hlt⟩
    exact ⟨it, hit, Label.hopeless_of_lt hq hcosts hl hlt⟩

end Engine

namespace Sample

/-- From the beginning of the first line, or at a high cost from that of the second. -/
def dearShortcut : SearchQuery ℚ := query [candidate 0 0, candidate 2 1000] [candidate 3 0] 1

end Sample

open Sample in
/-- The first label at the destination is that of the high cost. In the end it exceeds
    the bound, and leads nowhere for less. -/
theorem Engine.InService.prunes_hopeless_dearShortcut : ∃ e' it w l,
    (Engine.new changeover.assemble (TransferPolicy.timeProportional none)).search? dearShortcut
      = some (e', some it) ∧ it.totalCost = 60 ∧
    Workspace.Moment changeover.assemble (TransferPolicy.timeProportional none) dearShortcut
      (Engine.new changeover.assemble (TransferPolicy.timeProportional none)).workspace w ∧
    w.labels[3]? = some l ∧ l.cost = 1060 ∧ w.exceedsBound l.cost = true ∧
    Label.Hopeless changeover.assemble (TransferPolicy.timeProportional none) dearShortcut w.labels
      3 it ∧
    Label.LeadsTo changeover.assemble (TransferPolicy.timeProportional none) dearShortcut w.labels
      3 l := by
  have hanswer : ((Engine.new changeover.assemble (TransferPolicy.timeProportional none)).search?
      dearShortcut).map (fun r => (r.2.map (·.totalCost),
        r.1.workspace.labels[3]?.map fun l => (l.cost, r.1.workspace.exceedsBound l.cost)))
      = some (some 60, some (1060, true)) := by decide +kernel
  have hin : dearShortcut.Within changeover.assemble := ⟨by decide +kernel, by decide +kernel⟩
  have hpolicy : (TransferPolicy.timeProportional (none : Option (ModeChangeTable ℚ))).BuiltIn
      changeover.assemble.modes :=
    TransferPolicy.BuiltIn.timeProportional fun b hb => absurd hb (Option.not_mem_none b)
  have hnew : InService changeover.assemble (TransferPolicy.timeProportional none)
      (Engine.new changeover.assemble (TransferPolicy.timeProportional none)) := InService.new
  rcases InService.prunes_hopeless build_changeover hnew hpolicy (by decide +kernel) hin
    (by decide +kernel) (by decide +kernel) with ⟨e', found, hsearch, hprunes⟩
  rw [hsearch, Option.map_some, Option.some.injEq, Prod.mk.injEq] at hanswer
  rcases Option.map_eq_some_iff.mp hanswer.1 with ⟨it, rfl, htotal⟩
  rcases Option.map_eq_some_iff.mp hanswer.2 with ⟨l, hl, hview⟩
  rw [Prod.mk.injEq] at hview
  have hm := Workspace.moment_of_explore? (search?_eq_some hsearch).1
  have hw := Draft.wellFormed_of_build build_changeover
  rcases hnew.fits hw with ⟨-, -, hf⟩
  rcases (hprunes _ hm).2.2.2 3 l hl (hview.1 ▸ hview.2) with ⟨it', hit, hhopeless⟩
  rw [Option.some.injEq] at hit
  subst hit
  exact ⟨e', it, e'.workspace, l, hsearch, htotal, hm, hl, hview.1, hview.2, hhopeless,
    Label.leadsTo_self ((hm.run hw hf).legal hf.clean_reset.legal) hl⟩

end Journey
