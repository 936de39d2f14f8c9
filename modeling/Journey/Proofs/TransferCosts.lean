import Mathlib.Algebra.BigOperators.Group.List.Basic
import Mathlib.Tactic.Ring
import Journey.Proofs.Penalties
import Journey.Proofs.Sample
import Journey.Proofs.Search.ModeRuns
import Journey.Proofs.Search.Moments

/-!
# What Transfers Cost Together

The prices of all transfers of a journey, from the journey as a whole.

The time-proportional policy answers increments: it prices all transfers since the
start of the current run anew and subtracts what has been paid. What the increments
add up to is said here without any history. Without a table of mode changes, every
transfer costs what the time to the end of the last one makes it cost. With one, the
same holds for each run of rides of one mode, from when it was boarded, and the
transfer that leaves it for another mode has the penalty of the two modes added to
its base.

What a label has paid is the price of all runs before the one it is on, which it had
paid when that run was boarded, and the price of that run up to now.

## Main definitions

* `ModeRun.price`: What the transfers of a run cost together.
* `Label.wholePrice`: What transfers cost together without a table.
* `Label.attributed?`: What the transfers of a trace cost together.
* `Label.Paid`: What a label has paid, run by run.

## Theorems

* `ModeRun.price_concat`: A transfer prices its run anew.
* `Workspace.Legal.paid`: Every legal label has paid for its runs.
* `Workspace.Legal.attributed?_eq`: What legal labels have paid is what their traces
  cost.
* `Engine.InService.transferCost_telescopes`: So it is for all labels of a search.
-/

namespace Journey

namespace ModeRun

variable {α : Type} [Scalar α]

/-- What the transfers of a run cost together: each of them what the time from the
    boarding to the end of the last one makes it cost, and the last one with the
    penalty for leaving the mode, if it leaves it. -/
def price (table : ModeChangeTable α) (p : TransferPenalty α) (r : ModeRun α) : α :=
  match r.exits.getLast? with
  | none => 0
  | some (last, onward) =>
    let elapsed := last.time - r.boarding.time
    let pair := if onward = r.mode then 0 else table.penalty r.mode onward
    ((r.exits.length - 1 : Nat) : α) * p.cost elapsed + p.costWithBase pair elapsed

end ModeRun

namespace Label

variable {α : Type} [Scalar α]

omit [Scalar α] in
/-- The transfers of a trace. -/
def transfersOf (trace : List (Nat × Label α)) : List (Label α) :=
  (trace.map Prod.snd).filter isTransfer

/-- What transfers cost together without a table: each of them what the time from the
    departure to the end of the last one makes it cost. -/
def wholePrice (p : TransferPenalty α) (departureTime : α) (transfers : List (Label α)) : α :=
  match transfers.getLast? with
  | none => 0
  | some last => (transfers.length : α) * p.cost (last.time - departureTime)

/-- What the transfers of a trace cost together, with or without a table of mode
    changes. -/
def attributed? (t : Timetable α) (p : TransferPenalty α) (departureTime : α)
    (table : Option (ModeChangeTable α)) (trace : List (Nat × Label α)) : Option α :=
  match table with
  | none => some (wholePrice p departureTime (transfersOf trace))
  | some table => (modeRuns? t trace).map fun runs => (runs.map (ModeRun.price table p)).sum

end Label

variable {K : Type} [Field K] [LinearOrder K]

/-- A transfer prices all transfers of its run anew. -/
theorem ModeRun.price_concat {table : ModeChangeTable K} (htable : table.Sound)
    (p : TransferPenalty K) (r : ModeRun K) (l : Label K) (onward : Mode) :
    ({ r with exits := r.exits ++ [(l, onward)] } : ModeRun K).price table p
      = (r.exits.length : K) * p.cost (l.time - r.boarding.time)
        + p.costWithBase (table.penalty r.mode onward) (l.time - r.boarding.time) := by
  have hpair : (if onward = r.mode then 0 else table.penalty r.mode onward)
      = table.penalty r.mode onward := by
    by_cases hsame : onward = r.mode
    · rw [if_pos hsame, hsame, htable.penalty_self]
    · rw [if_neg hsame]
  unfold price
  simp only [List.getLast?_concat, hpair, List.length_append, List.length_singleton,
    Nat.add_sub_cancel]

namespace Label

variable {t : Timetable K} {price : ModeRun K → K} {labels labels' : Array (Label K)}
  {trace : List (Nat × Label K)} {id n : Nat} {l m : Label K}

/-- What a label has paid for transfers. -/
inductive Paid (t : Timetable K) (price : ModeRun K → K) (labels : Array (Label K))
    (trace : List (Nat × Label K)) (id : Nat) (l : Label K) : Prop where
  /-- Nothing, before the first ride. -/
  | access (single : trace = [(id, l)]) (noRide : l.isRide = false)
      (before : rideBefore? labels l = some none) (free : l.transferCost = 0)
  /-- For the runs before the one it is on when that one was boarded, and the price of
      that one since. -/
  | run {n : Nat} {y : Label K} {runs : List (ModeRun K)} {r : ModeRun K}
      (onRun : OnRun t labels trace l n y runs r) (before : rideBefore? labels l = some (some y))
      (ride : y.isRide = true) (last : l.isRide = true → n = id ∧ y = l)
      (boarded : r.boarding.transferCost = (runs.map price).sum)
      (paid : l.transferCost = (runs.map price).sum + price r)

namespace Paid

theorem mono (h : Paid t price labels trace id l)
    (hlabels : ∀ (i : Nat) (m : Label K), labels[i]? = some m → labels'[i]? = some m) :
    Paid t price labels' trace id l := by
  cases h with
  | access single noRide before free =>
      exact Paid.access single noRide (rideBefore?_mono hlabels before) free
  | run onRun before ride last boarded paid =>
      exact Paid.run (onRun.mono hlabels) (rideBefore?_mono hlabels before) ride last boarded paid

/-- A ride pays nothing for transfers. -/
theorem ride (h : Paid t price labels trace n m) (htrace : Traced labels trace n m) (hlt : n < id)
    (hride : l.isRide = true) (hprevious : l.previous = some n) {mode : Mode}
    (hmode : t.modeOf? l.routeStop = some mode)
    (hsame : t.modeOf? m.routeStop = t.modeOf? l.routeStop)
    (htransfers : l.transfers = m.transfers) (hcost : l.transferCost = m.transferCost)
    (hfree : ∀ mode boarding, price ⟨mode, boarding, []⟩ = 0) :
    Paid t price labels (trace ++ [(id, l)]) id l := by
  have hnew : ∀ x ∈ trace, x.2.previous ≠ some id := fun x hx =>
    htrace.previous_ne x hx id (Nat.le_of_lt hlt)
  have hbefore : rideBefore? labels l = some (some l) := rideBefore?_of_isRide hride
  cases h with
  | access single noRide before free =>
      have hrides : trace.filter (fun x => x.2.isRide) = [] := by
        rw [single]
        exact List.filter_eq_nil_iff.mpr fun x hx => by
          rw [List.mem_singleton.mp hx, noRide]
          exact Bool.false_ne_true
      refine Paid.run (OnRun.start hrides before hride hprevious htrace.label htrace.lookup_eq hmode
        htransfers hnew) hbefore hride (fun _ => ⟨rfl, rfl⟩) ?_ ?_
      · exact free
      · rw [hcost, free, hfree, List.map_nil, List.sum_nil, add_zero]
  | @run k y runs r onRun before hy last boarded paid =>
      by_cases hcontinues : mode = r.mode
      · subst hcontinues
        refine Paid.run (onRun.ride before hy ?_ hride hprevious htrace.label hmode hsame htransfers
          hnew) hbefore hride (fun _ => ⟨rfl, rfl⟩) boarded (hcost.trans paid)
        exact Nat.lt_of_le_of_lt (htrace.le _ onRun.ride_mem) hlt
      · refine Paid.run (onRun.change before hy hride hprevious htrace.label htrace.lookup_eq hmode
          hcontinues htransfers hnew) hbefore hride (fun _ => ⟨rfl, rfl⟩) ?_ ?_
        · rw [paid, List.map_append, List.sum_append, List.map_singleton, List.sum_singleton]
        · rw [hcost, paid, hfree, List.map_append, List.sum_append, List.map_singleton,
            List.sum_singleton, add_zero]

/-- A walk pays for the run that it leaves what that run now costs more. -/
theorem transfer (h : Paid t price labels trace n m) (htrace : Traced labels trace n m)
    (hm : m.isRide = true) (htransfer : l.isTransfer = true) (hprevious : l.previous = some n)
    {onward : Mode} (hmode : t.modeOf? l.routeStop = some onward)
    (htransfers : l.transfers = m.transfers + 1)
    (hcost : ∀ runs r, OnRun t labels trace m n m runs r →
      r.boarding.transferCost = (runs.map price).sum →
      l.transferCost = (runs.map price).sum + price { r with exits := r.exits ++ [(l, onward)] }) :
    Paid t price labels (trace ++ [(id, l)]) id l := by
  cases h with
  | access single noRide => exact absurd (noRide.symm.trans hm) Bool.false_ne_true
  | @run k y runs r onRun before hy last boarded paid =>
      rcases last hm with ⟨rfl, rfl⟩
      have hbefore := rideBefore?_of_isTransfer htransfer hprevious htrace.label
      refine Paid.run (onRun.transfer htrace.pairwise_lt htransfer hprevious hmode htransfers)
        hbefore hm (fun hride => ?_) boarded (hcost runs r onRun boarded)
      exact absurd ((isTransfer_of_isRide hride).symm.trans htransfer) Bool.false_ne_true

end Paid

end Label

namespace Workspace

variable {t : Timetable K} {q : SearchQuery K} {w : Workspace K}

/-- Every legal label has paid for the runs of its trace, in a timetable in which every
    route-stop has a mode. -/
theorem Legal.paid {table : ModeChangeTable K}
    (h : w.Legal t (TransferPolicy.timeProportional (some table)) q) (hw : t.WellFormed)
    (htable : table.Sound) :
    ∀ id l, w.labels[id]? = some l → ∃ trace, Label.Traced w.labels trace id l ∧
      Label.Paid t (ModeRun.price table q.parameters.transferPenalty) w.labels trace id l := by
  refine h.push_induction (fun labels id l => ∃ trace, Label.Traced labels trace id l ∧
      Label.Paid t (ModeRun.price table q.parameters.transferPenalty) labels trace id l) ?_ ?_
  · rintro labels labels' id l hlabels ⟨trace, htrace, hpaid⟩
    exact ⟨trace, htrace.mono hlabels, hpaid.mono hlabels⟩
  intro labels l hlegal ih
  have hself : (labels.push l)[labels.size]? = some l := Array.getElem?_push_size
  have hmono : ∀ (i : Nat) (m : Label K), labels[i]? = some m → (labels.push l)[i]? = some m := by
    intro i m hm
    rw [Array.getElem?_push, if_neg (Nat.ne_of_lt (Array.getElem?_eq_some_iff.mp hm).1), hm]
  rcases hw.exists_mode hlegal.routeStop_lt with ⟨mode, hmode⟩
  cases hlegal with
  | access k c step previous candidate stop time cost transfers transferCost =>
      refine ⟨_, Label.Traced.start hself previous, Label.Paid.access rfl ?_ ?_ transferCost⟩
      · rw [Label.isRide, step, Step.isRide]
      · rw [Label.rideBefore?, step]
  | ride n m trip boardingTime vehicleArrival enter step previous predecessor ahead next boarding
      vehicle enters time cost transfers transferCost =>
      rcases ih n m predecessor with ⟨trace, htrace, hpaid⟩
      have hlt := (Array.getElem?_eq_some_iff.mp predecessor).1
      refine ⟨_, Label.Traced.extend (htrace.mono hmono) hself previous hlt,
        (hpaid.ride htrace hlt ?_ previous hmode ahead.modeOf?_eq transfers transferCost
          fun _ _ => rfl).mono hmono⟩
      rw [Label.isRide, step, Step.isRide]
  | transfer n m f duration increment fromMode toMode step previous predecessor ride path takes left
      entered price time cost transfers transferCost =>
      rcases ih n m predecessor with ⟨trace, htrace, hpaid⟩
      have hlt := (Array.getElem?_eq_some_iff.mp predecessor).1
      refine ⟨_, Label.Traced.extend (htrace.mono hmono) hself previous hlt,
        (hpaid.transfer htrace ride ?_ previous entered transfers ?_).mono hmono⟩
      · rw [Label.isTransfer, step, Step.isTransfer]
      · -- The policy finds the start of the run, so it prices what the run is.
        intro runs r hrun hboarded
        have hmode : r.mode = fromMode := Option.some.inj (hrun.mode.symm.trans left)
        have hcount : m.transfers + 1 - r.boarding.transfers - 1 = r.exits.length := by
          rw [hrun.count]
          omega
        simp only [TransferPolicy.timeProportional, hrun.runStart?_eq predecessor ride,
          Option.bind_eq_bind, Option.bind_some, Option.pure_def, Option.some.injEq,
          TransferPolicy.repricedSince, hcount, hboarded] at price
        rw [ModeRun.price_concat htable, hmode, transferCost, ← price, time]
        ring

-- Without a table every transfer prices all transfers before it anew.
theorem Legal.wholePrice_eq (h : w.Legal t (TransferPolicy.timeProportional none) q)
    {trace : List (Nat × Label K)} {id : Nat} {l : Label K}
    (htrace : Label.Traced w.labels trace id l) :
    l.transfers = (Label.transfersOf trace).length ∧
      l.transferCost = Label.wholePrice q.parameters.transferPenalty q.departureTime
        (Label.transfersOf trace) := by
  induction htrace with
  | @start id l label previous =>
      rcases (h id l label).of_previous_none previous with
        ⟨k, c, step, -, -, transfers, transferCost⟩
      have hnone : Label.transfersOf [(id, l)] = [] := by
        simp only [Label.transfersOf, List.map_cons, List.map_nil, Label.isTransfer, step,
          Step.isTransfer, List.filter_cons, Bool.false_eq_true, if_false, List.filter_nil]
      rw [hnone]
      exact ⟨transfers, transferCost⟩
  | @extend trace n id m l before label previous later ih =>
      have hconcat : Label.transfersOf (trace ++ [(id, l)])
          = Label.transfersOf trace ++ [l].filter Label.isTransfer := by
        unfold Label.transfersOf
        rw [List.map_append, List.filter_append, List.map_singleton]
      have hlegal := h id l label
      cases hlegal with
      | access k c step previous' =>
          exact absurd (previous'.symm.trans previous) (Option.some_ne_none n).symm
      | ride n' m' trip b v e step previous' predecessor ahead next boarding vehicle enters time
          cost transfers transferCost =>
          rcases Label.predecessor_unique (before.label_extract later) previous predecessor
            previous' with ⟨rfl, rfl⟩
          have hnone : [l].filter Label.isTransfer = [] := by
            simp only [Label.isTransfer, step, Step.isTransfer, List.filter_cons,
              Bool.false_eq_true, if_false, List.filter_nil]
          rw [hconcat, hnone, List.append_nil, transfers, transferCost]
          exact ih
      | transfer n' m' f duration increment fromMode toMode step previous' predecessor ride path
          takes left entered price time cost transfers transferCost =>
          rcases Label.predecessor_unique (before.label_extract later) previous predecessor
            previous' with ⟨rfl, rfl⟩
          have hself : [l].filter Label.isTransfer = [l] := by
            simp only [Label.isTransfer, step, Step.isTransfer, List.filter_cons, if_true,
              List.filter_nil]
          simp only [TransferPolicy.timeProportional, TransferPolicy.repriced, ih.1,
            Option.some.injEq] at price
          rw [hconcat, hself]
          refine ⟨by rw [List.length_append, List.length_singleton, transfers, ih.1], ?_⟩
          simp only [Label.wholePrice, List.getLast?_concat, List.length_append,
            List.length_singleton]
          rw [transferCost, ← price, time]
          ring

/-- What a legal label has paid for transfers is what the transfers of its trace cost
    together. -/
theorem Legal.attributed?_eq {table : Option (ModeChangeTable K)}
    (h : w.Legal t (TransferPolicy.timeProportional table) q) (hw : t.WellFormed)
    (htable : ∀ b ∈ table, b.Sound) {id : Nat} {l : Label K} (hl : w.labels[id]? = some l) :
    ∃ trace, Label.Traced w.labels trace id l ∧ Label.attributed? t q.parameters.transferPenalty
      q.departureTime table trace = some l.transferCost := by
  cases table with
  | none =>
      rcases h.exists_traced id l hl with ⟨trace, htrace⟩
      refine ⟨trace, htrace, ?_⟩
      rw [Label.attributed?, (h.wholePrice_eq htrace).2]
  | some table =>
      rcases h.paid hw (htable table rfl) id l hl with ⟨trace, htrace, hpaid⟩
      refine ⟨trace, htrace, ?_⟩
      rw [Label.attributed?]
      cases hpaid with
      | access single noRide before free =>
          have hnone : Label.modeRuns? t trace = some [] := by
            simp only [Label.modeRuns?, Label.ridesByMode, single, List.filter_cons, noRide,
              Bool.false_eq_true, if_false, List.filter_nil, List.splitBy_nil, List.mapM_nil,
              Option.pure_def]
          rw [hnone, Option.map_some, List.map_nil, List.sum_nil, free]
      | run onRun before ride last boarded paid =>
          rw [onRun.modeRuns?_eq, Option.map_some, List.map_append, List.sum_append,
            List.map_singleton, List.sum_singleton, paid]

end Workspace

namespace Engine

variable [Planar K] [MarkerTree K]

/-- At every moment of a search in a built timetable under the time-proportional
    policy, with or without a table that was accepted, what a label has been charged
    for transfers is what the transfers of its chain cost together. -/
theorem InService.transferCost_telescopes {d : Draft K} {t : Timetable K} (hd : d.build = .ok t)
    {table : Option (ModeChangeTable K)}
    (htable : ∀ b ∈ table, ∃ entries, ModeChangeTable.ofEntries entries t.modes = .ok b)
    {e : Engine K} (he : InService t (TransferPolicy.timeProportional table) e)
    {q : SearchQuery K} {w : Workspace K}
    (hm : Workspace.Moment t (TransferPolicy.timeProportional table) q e.workspace w) {id : Nat}
    {l : Label K} (hl : w.labels[id]? = some l) :
    ∃ chain, Label.chain? w.labels id = some chain ∧
      Label.attributed? t q.parameters.transferPenalty q.departureTime table chain.reverse
        = some l.transferCost := by
  have hw := Draft.wellFormed_of_build hd
  rcases he.fits hw with ⟨-, -, hf⟩
  have hlegal := (hm.run hw hf).legal hf.clean_reset.legal
  have hsound : ∀ b ∈ table, b.Sound := by
    intro b hb
    rcases htable b hb with ⟨entries, hentries⟩
    exact ModeChangeTable.sound_of_ofEntries hentries
  rcases hlegal.attributed?_eq hw hsound hl with ⟨trace, htrace, hcost⟩
  exact ⟨trace.reverse, htrace.chain?_eq, by rw [List.reverse_reverse]; exact hcost⟩

end Engine

namespace Sample

/-- Two bus lines and a train line, with footpaths between them. -/
def busBusTrain : Draft ℚ :=
  network ["A", "B", "C", "D", "E", "F"]
    [line "one" [("A", 0), ("B", 10)] [0], line "two" [("C", 0), ("D", 10)] [20],
      { line "three" [("E", 0), ("F", 10)] [40] with mode := ⟨"train"⟩ }]
    [("B", "C", 5), ("D", "E", 5)]

/-- Along all three lines, with transfers that cost one unit and one more for every
    second travelled. -/
def acrossModes : SearchQuery ℚ :=
  { query [candidate 0 0] [candidate 5 0] 2 with
    parameters := { parameters with transferPenalty := ⟨1, 3600, none, none⟩ } }

/-- Changing from the bus to the train costs ten units more. -/
def busToTrain : ModeChangeTable ℚ := ⟨⟨[("bus", ⟨[("train", 10)]⟩)]⟩⟩

theorem build_busBusTrain : busBusTrain.build = .ok busBusTrain.assemble :=
  build_eq_ok (by decide +kernel)

theorem ofEntries_busToTrain : ModeChangeTable.ofEntries [⟨⟨"bus"⟩, ⟨"train"⟩, 10⟩]
    busBusTrain.assemble.modes = .ok busToTrain := by rfl

end Sample

open Sample in
/-- The first transfer costs 16, after 15 seconds. After 35 seconds both transfers cost
    36 each, and the change of mode costs 10 more. -/
theorem Engine.InService.transferCost_telescopes_busBusTrain : ∃ w l chain,
    Workspace.Moment busBusTrain.assemble (TransferPolicy.timeProportional (some busToTrain))
      acrossModes (Engine.new busBusTrain.assemble
        (TransferPolicy.timeProportional (some busToTrain))).workspace w ∧
    w.labels[5]? = some l ∧ l.transferCost = 36 + (36 + 10) ∧
    Label.chain? w.labels 5 = some chain ∧
    Label.attributed? busBusTrain.assemble acrossModes.parameters.transferPenalty 0
      (some busToTrain) chain.reverse = some l.transferCost := by
  have hrun : ((Workspace.ofTimetable busBusTrain.assemble).explore? busBusTrain.assemble
      (TransferPolicy.timeProportional (some busToTrain)) acrossModes).bind (fun w =>
        w.labels[5]?.map (·.transferCost)) = some (36 + (36 + 10)) := by decide +kernel
  rcases Option.bind_eq_some_iff.mp hrun with ⟨w, hexplore, hlabel⟩
  rcases Option.map_eq_some_iff.mp hlabel with ⟨l, hl, hcost⟩
  have htable : ∀ b ∈ some busToTrain,
      ∃ entries, ModeChangeTable.ofEntries entries busBusTrain.assemble.modes = .ok b := by
    intro b hb
    rw [← Option.mem_some_iff.mp hb]
    exact ⟨_, ofEntries_busToTrain⟩
  have hm := Workspace.moment_of_explore? hexplore
  rcases InService.transferCost_telescopes build_busBusTrain htable InService.new hm hl with
    ⟨chain, hchain, hattributed⟩
  exact ⟨w, l, chain, hm, hl, hcost, hchain, hattributed⟩

end Journey
