import Journey.Proofs.Findings
import Journey.Proofs.Timetable.StopLookup
import Journey.Timetable.Assembly
import Journey.Timetable.Document

/-!
# The First Defect

Which drafts are accepted, and what is reported of the others.

A draft is checked in one go, part by part, and the check stops at the first thing that
is wrong. This module says what the check looks for without the check. `Acceptable` lists
what has to be true of a draft. A `Flaw` is one way in which it is not true, together with
its place in the draft: the footpath rule is part 0, the routes are part 1 and the
footpaths part 2, the routes and footpaths are numbered in their order, and within each of
them what can be wrong is numbered too. So one draft can have any number of flaws, and a
flaw late in the draft does not depend on what is right before it.

A timetable is assembled from exactly the acceptable drafts, and what is reported of
another one is the flaw whose place comes first. A document is a draft whose stops are
checked while they are read. They come before everything else, since the reading ends with
the first one that is refused.

None of this depends on the arithmetic.

## Main definitions

* `Draft.Acceptable`, `TimetableDocument.Acceptable`: What has to be true of a draft, and
  of a document.
* `Draft.Flaw`, `TimetableDocument.Flaw`: What can be wrong in it, and where.

## Theorems

* `Draft.acceptable_iff`, `TimetableDocument.acceptable_iff`: What has no flaw is acceptable.
* `Draft.verdict_defect?`: The check of a draft finds its first flaw.
* `Draft.addStops_eq`: Adding stops stops at the first one that is refused.
* `Draft.build_iff_and_load_iff`: What is built and loaded, and what is reported otherwise.
-/

namespace Journey

variable {α : Type} [Scalar α]

namespace FootpathRule

/-- All parameters of a rule are in range. -/
structure Acceptable (rule : FootpathRule α) : Prop where
  maxDistance : Scalar.isNonnegative rule.maxDistance
  walkSpeed : Scalar.isPositive rule.walkSpeed
  distanceFactor : Scalar.isPositive rule.distanceFactor

/-- A parameter of a rule is out of range. -/
inductive Flaw (rule : FootpathRule α) : List Nat → FootpathRuleDefect → Prop where
  | maxDistance : ¬ Scalar.isNonnegative rule.maxDistance → Flaw rule [0] .maxDistance
  | walkSpeed : ¬ Scalar.isPositive rule.walkSpeed → Flaw rule [1] .walkSpeed
  | distanceFactor : ¬ Scalar.isPositive rule.distanceFactor → Flaw rule [2] .distanceFactor

end FootpathRule

/-- A stop with this identifier has been added. -/
def Draft.Knows {α : Type} (d : Draft α) (id : StopId) : Prop := ∃ stop ∈ d.stops, stop.id = id

/-- The times of a visit are numbers, it begins after the one before has ended and does
    not end before it begins. -/
def Call.InOrder (previous : Option (Call α)) (c : Call α) : Prop :=
  Scalar.isFinite c.arrivalOffset ∧ Scalar.isFinite c.departureOffset ∧
    (∀ b ∈ previous, b.departureOffset ≤ c.arrivalOffset) ∧ c.arrivalOffset ≤ c.departureOffset

/-- The time of a trip is a number and later than the one before. -/
def Trip.InOrder (previous : Option (Trip α)) (t : Trip α) : Prop :=
  Scalar.isFinite t.time ∧ ∀ b ∈ previous, b.time < t.time

namespace RoutePlan

/-- What has to be true of a route by itself. -/
structure Acceptable (d : Draft α) (plan : RoutePlan α) : Prop where
  two_le : 2 ≤ plan.calls.length
  /-- Every visit is in order after the one before. -/
  calls : ∀ (n : Nat) (c : Call α), plan.calls[n]? = some c → c.InOrder (before? plan.calls n)
  trips_finite : ∀ t ∈ plan.trips, Scalar.isFinite t.time
  trips_lt : plan.trips.IsChain fun a b => a.time < b.time
  known : ∀ c ∈ plan.calls, d.Knows c.stop

/-- What can be wrong with a route, given the routes before it. -/
inductive Flaw (d : Draft α) (earlier : List (RoutePlan α)) (plan : RoutePlan α) :
    List Nat → Defect α → Prop where
  | duplicate : plan.id ∈ earlier.map (·.id) → Flaw d earlier plan [0] (.duplicateRoute plan.id)
  | tooFew : plan.calls.length < 2 → Flaw d earlier plan [1] (.tooFewStops plan.id)
  | offsets (n : Nat) (c : Call α) : plan.calls[n]? = some c →
    ¬ c.InOrder (before? plan.calls n) → Flaw d earlier plan [2, n] (.invalidOffsets plan.id n)
  | trips (n : Nat) (t : Trip α) : plan.trips[n]? = some t →
    ¬ t.InOrder (before? plan.trips n) → Flaw d earlier plan [3, n] (.unsortedTrips plan.id n)
  | unknown (n : Nat) (c : Call α) : plan.calls[n]? = some c → ¬ d.Knows c.stop →
    Flaw d earlier plan [4, n] (.unknownStop c.stop (.route plan.id))

end RoutePlan

namespace PlannedFootpath

/-- What has to be true of a footpath. -/
structure Acceptable (d : Draft α) (f : PlannedFootpath α) : Prop where
  origin : d.Knows f.origin
  target : d.Knows f.target
  duration : Scalar.isNonnegative f.duration

/-- What can be wrong with a footpath. -/
inductive Flaw (d : Draft α) (f : PlannedFootpath α) : List Nat → Defect α → Prop where
  | origin : ¬ d.Knows f.origin → Flaw d f [0] (.unknownStop f.origin .footpath)
  | target : ¬ d.Knows f.target → Flaw d f [1] (.unknownStop f.target .footpath)
  | duration : ¬ Scalar.isNonnegative f.duration →
    Flaw d f [2] (.invalidFootpath f.origin f.target f.duration)

end PlannedFootpath

namespace Draft

/-- What has to be true of a draft. -/
structure Acceptable (d : Draft α) : Prop where
  rule : ∀ rule ∈ d.footpathRule, rule.Acceptable
  routeIds : (d.routes.toList.map (·.id)).Nodup
  routes : ∀ plan ∈ d.routes.toList, plan.Acceptable d
  footpaths : ∀ f ∈ d.footpaths.toList, f.Acceptable d

/-- What can be wrong in a draft, and where. -/
inductive Flaw (d : Draft α) : List Nat → Defect α → Prop where
  | rule (rule : FootpathRule α) (place : List Nat) (defect : FootpathRuleDefect) :
    d.footpathRule = some rule → rule.Flaw place defect →
      Flaw d (0 :: place) (.invalidFootpathRule defect)
  | route (n : Nat) (plan : RoutePlan α) (place : List Nat) (defect : Defect α) :
    d.routes.toList[n]? = some plan → plan.Flaw d (d.routes.toList.take n) place defect →
      Flaw d (1 :: n :: place) defect
  | footpath (n : Nat) (f : PlannedFootpath α) (place : List Nat) (defect : Defect α) :
    d.footpaths.toList[n]? = some f → f.Flaw d place defect → Flaw d (2 :: n :: place) defect

end Draft

namespace Stop

/-- What can be wrong with a stop, given the stops before it. -/
inductive Flaw (earlier : List (Stop α)) (stop : Stop α) : List Nat → Defect α → Prop where
  | duplicate : stop.id ∈ earlier.map (·.id) → Flaw earlier stop [0] (.duplicateStop stop.id)
  | coordinate : ¬ stop.position.isFinite → Flaw earlier stop [1] (.invalidCoordinate stop.id)

end Stop

namespace TimetableDocument

/-- The draft of a document, with all its stops. -/
def draft (document : TimetableDocument) : Draft Float :=
  { stops := document.stops.toArray
    routes := document.routes.toArray
    footpaths := document.footpaths.toArray
    intraStop := document.intraStop
    footpathRule := document.footpathRule }

/-- What has to be true of a document. -/
structure Acceptable (document : TimetableDocument) : Prop where
  stopIds : (document.stops.map (·.id)).Nodup
  positions : ∀ stop ∈ document.stops, stop.position.isFinite
  draft : document.draft.Acceptable

/-- What can be wrong in a document, and where. The stops come first. -/
inductive Flaw (document : TimetableDocument) : List Nat → Defect Float → Prop where
  | stop (n : Nat) (stop : Stop Float) (place : List Nat) (defect : Defect Float) :
    document.stops[n]? = some stop → stop.Flaw (document.stops.take n) place defect →
      Flaw document (0 :: n :: place) defect
  | draft (place : List Nat) (defect : Defect Float) :
    document.draft.Flaw place defect → Flaw document (1 :: place) defect

end TimetableDocument

namespace FootpathRule

variable (rule : FootpathRule α)

theorem acceptable_iff : rule.Acceptable ↔ ∀ place e, ¬ rule.Flaw place e := by
  refine ⟨fun h place e hflaw => ?_, fun h => ⟨?_, ?_, ?_⟩⟩
  · cases hflaw with
    | maxDistance hbad => exact hbad h.maxDistance
    | walkSpeed hbad => exact hbad h.walkSpeed
    | distanceFactor hbad => exact hbad h.distanceFactor
  · exact not_not.mp fun hbad => h _ _ (.maxDistance hbad)
  · exact not_not.mp fun hbad => h _ _ (.walkSpeed hbad)
  · exact not_not.mp fun hbad => h _ _ (.distanceFactor hbad)

/-- The check of a rule finds its first flaw. -/
theorem verdict_defect? : Verdict rule.Flaw rule.defect? := by
  have hparts : rule.defect? = firstOf
      [if !Scalar.isNonnegative rule.maxDistance then some .maxDistance else none,
        if !Scalar.isPositive rule.walkSpeed then some .walkSpeed else none,
        if !Scalar.isPositive rule.distanceFactor then some .distanceFactor else none] := by
    unfold defect?
    split_ifs <;> rfl
  rw [hparts]
  refine Verdict.of_parts (fun e h => nomatch h) (fun n part hpart => ?_) fun n rest e hn h => ?_
  · match n, hpart with
    | 0, rfl =>
        exact Verdict.of_test .maxDistance fun | _, _, .maxDistance hbad => ⟨hbad, rfl, rfl⟩
    | 1, rfl =>
        exact Verdict.of_test .walkSpeed fun | _, _, .walkSpeed hbad => ⟨hbad, rfl, rfl⟩
    | 2, rfl =>
        exact Verdict.of_test .distanceFactor fun | _, _, .distanceFactor hbad => ⟨hbad, rfl, rfl⟩
  · cases h <;> exact absurd hn (by simp)

end FootpathRule

namespace Draft

theorem hasStop_iff {α : Type} (d : Draft α) (id : StopId) : d.hasStop id = true ↔ d.Knows id := by
  unfold Knows
  rw [hasStop_eq_any, Array.any_eq_true']
  simp only [decide_eq_true_eq]

end Draft

theorem Call.isConsistent_iff (previous : Option (Call α)) (c : Call α) :
    c.isConsistent (previous.map (·.departureOffset)) = true ↔ c.InOrder previous := by
  unfold isConsistent InOrder
  cases previous <;> simp only [Bool.and_eq_true, decide_eq_true_eq, Option.map_none,
    Option.map_some, Option.all_none, Option.all_some, Option.mem_def, reduceCtorEq,
    Option.some.injEq, forall_eq', false_imp_iff, implies_true, and_assoc, true_and]

theorem Trip.isLater_iff (previous : Option (Trip α)) (t : Trip α) :
    t.isLater (previous.map (·.time)) = true ↔ t.InOrder previous := by
  unfold isLater InOrder
  cases previous <;> simp only [Bool.and_eq_true, decide_eq_true_eq, Option.map_none,
    Option.map_some, Option.all_none, Option.all_some, Option.mem_def, reduceCtorEq,
    Option.some.injEq, forall_eq', false_imp_iff, implies_true, and_true]

-- Of the visit before, only its end is looked at.
theorem Call.firstInconsistent?_eq (calls : List (Call α)) : ∀ previous : Option (Call α),
    firstInconsistent? (previous.map (·.departureOffset)) calls =
      firstBreak? (fun b c => c.isConsistent (b.map (·.departureOffset))) previous calls := by
  induction calls with
  | nil => exact fun _ => rfl
  | cons c rest ih =>
      intro previous
      unfold firstInconsistent? firstBreak?
      rw [← ih (some c), Option.map_some]

theorem Trip.firstUnsorted?_eq (trips : List (Trip α)) : ∀ previous : Option (Trip α),
    firstUnsorted? (previous.map (·.time)) trips =
      firstBreak? (fun b t => t.isLater (b.map (·.time))) previous trips := by
  induction trips with
  | nil => exact fun _ => rfl
  | cons t rest ih =>
      intro previous
      unfold firstUnsorted? firstBreak?
      rw [← ih (some t), Option.map_some]

namespace RoutePlan

variable (d : Draft α) (earlier : List (RoutePlan α)) (plan : RoutePlan α)

theorem acceptable_iff :
    plan.id ∉ earlier.map (·.id) ∧ plan.Acceptable d ↔
      ∀ place e, ¬ plan.Flaw d earlier place e := by
  refine ⟨fun ⟨hnew, h⟩ place e hflaw => ?_, fun h => ⟨?_, ?_, ?_, ?_, ?_, ?_⟩⟩
  · cases hflaw with
    | duplicate hbad => exact hnew hbad
    | tooFew hbad => exact absurd h.two_le (Nat.not_le.mpr hbad)
    | offsets n c hc hbad => exact hbad (h.calls n c hc)
    | trips n t ht hbad =>
        exact hbad ⟨h.trips_finite t (List.mem_of_getElem? ht),
          (forall_before?_iff _ _).mpr h.trips_lt n t ht⟩
    | unknown n c hc hbad => exact hbad (h.known c (List.mem_of_getElem? hc))
  · exact fun hbad => h _ _ (.duplicate hbad)
  · exact Nat.not_lt.mp fun hbad => h _ _ (.tooFew hbad)
  · exact fun n c hc => not_not.mp fun hbad => h _ _ (.offsets n c hc hbad)
  · intro t ht
    rcases List.getElem?_of_mem ht with ⟨n, hn⟩
    exact (not_not.mp fun hbad => h _ _ (.trips n t hn hbad)).1
  · refine (forall_before?_iff _ _).mp fun n t ht => ?_
    exact (not_not.mp fun hbad => h _ _ (.trips n t ht hbad)).2
  · intro c hc
    rcases List.getElem?_of_mem hc with ⟨n, hn⟩
    exact not_not.mp fun hbad => h _ _ (.unknown n c hn hbad)

/-- The check of a route finds its first flaw. -/
theorem verdict_routeDefect? (ids : List RouteId)
    (hids : ∀ id, id ∈ ids ↔ id ∈ earlier.map (·.id)) :
    Verdict (plan.Flaw d earlier) (d.routeDefect? ids plan) := by
  have hparts : d.routeDefect? ids plan = firstOf
      [if ids.contains plan.id then some (.duplicateRoute plan.id) else none,
        if plan.calls.length < 2 then some (.tooFewStops plan.id) else none,
        (Call.firstInconsistent? none plan.calls).map (.invalidOffsets plan.id),
        (Trip.firstUnsorted? none plan.trips).map (.unsortedTrips plan.id),
        (plan.calls.find? fun c => !d.hasStop c.stop).map fun c =>
          .unknownStop c.stop (.route plan.id)] := by
    unfold Draft.routeDefect? firstOf
    split_ifs
    · rfl
    · rfl
    · rfl
    · cases Call.firstInconsistent? none plan.calls with
      | some position => rfl
      | none =>
          cases Trip.firstUnsorted? none plan.trips with
          | some position => rfl
          | none => cases plan.calls.find? (fun c => !d.hasStop c.stop) <;> rfl
  rw [hparts]
  refine Verdict.of_parts (fun e h => nomatch h) (fun n part hpart => ?_) fun n rest e hn h => ?_
  · match n, hpart with
    | 0, rfl =>
        refine Verdict.of_condition ?_ ?_ <;> rw [List.contains_iff_mem, hids]
        · exact .duplicate
        · exact fun | _, _, .duplicate hbad => ⟨hbad, rfl, rfl⟩
    | 1, rfl =>
        exact Verdict.of_condition .tooFew fun | _, _, .tooFew hbad => ⟨hbad, rfl, rfl⟩
    | 2, rfl =>
        rw [← Option.map_none (fun b : Call α => b.departureOffset), Call.firstInconsistent?_eq]
        exact Verdict.of_neighbours Call.isConsistent_iff .offsets
          fun | _, _, .offsets n c hc hbad => ⟨n, c, hc, hbad, rfl, rfl⟩
    | 3, rfl =>
        rw [← Option.map_none (fun b : Trip α => b.time), Trip.firstUnsorted?_eq]
        exact Verdict.of_neighbours Trip.isLater_iff .trips
          fun | _, _, .trips n t ht hbad => ⟨n, t, ht, hbad, rfl, rfl⟩
    | 4, rfl =>
        refine Verdict.of_find? ?_ ?_ <;>
          simp only [Bool.not_eq_true', ← Bool.not_eq_true, d.hasStop_iff]
        · exact .unknown
        · exact fun | _, _, .unknown n c hc hbad => ⟨n, c, hc, hbad, rfl, rfl⟩
  · cases h <;> exact absurd hn (by simp)

end RoutePlan

namespace PlannedFootpath

variable (d : Draft α) (f : PlannedFootpath α)

theorem acceptable_iff : f.Acceptable d ↔ ∀ place e, ¬ f.Flaw d place e := by
  refine ⟨fun h place e hflaw => ?_, fun h => ⟨?_, ?_, ?_⟩⟩
  · cases hflaw with
    | origin hbad => exact hbad h.origin
    | target hbad => exact hbad h.target
    | duration hbad => exact hbad h.duration
  · exact not_not.mp fun hbad => h _ _ (.origin hbad)
  · exact not_not.mp fun hbad => h _ _ (.target hbad)
  · exact not_not.mp fun hbad => h _ _ (.duration hbad)

/-- The check of a footpath finds its first flaw. -/
theorem verdict_footpathDefect? : Verdict (f.Flaw d) (d.footpathDefect? f) := by
  have hparts : d.footpathDefect? f = firstOf
      [if !d.hasStop f.origin then some (.unknownStop f.origin .footpath) else none,
        if !d.hasStop f.target then some (.unknownStop f.target .footpath) else none,
        if !Scalar.isNonnegative f.duration then
          some (.invalidFootpath f.origin f.target f.duration) else none] := by
    unfold Draft.footpathDefect?
    split_ifs <;> rfl
  rw [hparts]
  refine Verdict.of_parts (fun e h => nomatch h) (fun n part hpart => ?_) fun n rest e hn h => ?_
  · match n, hpart with
    | 0, rfl =>
        refine Verdict.of_test ?_ ?_ <;> rw [d.hasStop_iff]
        · exact .origin
        · exact fun | _, _, .origin hbad => ⟨hbad, rfl, rfl⟩
    | 1, rfl =>
        refine Verdict.of_test ?_ ?_ <;> rw [d.hasStop_iff]
        · exact .target
        · exact fun | _, _, .target hbad => ⟨hbad, rfl, rfl⟩
    | 2, rfl =>
        exact Verdict.of_test .duration fun | _, _, .duration hbad => ⟨hbad, rfl, rfl⟩
  · cases h <;> exact absurd hn (by simp)

end PlannedFootpath

namespace Draft

variable (d : Draft α)

theorem acceptable_iff : d.Acceptable ↔ ∀ place e, ¬ d.Flaw place e := by
  refine ⟨fun h place e hflaw => ?_, fun h => ?_⟩
  · cases hflaw with
    | rule rule place defect hrule hflaw =>
        exact (rule.acceptable_iff.mp (h.rule rule hrule)) place defect hflaw
    | route n plan place e hplan hflaw =>
        have hnew := (nodup_iff_take _ _).mp h.routeIds n plan hplan
        have hgood := h.routes plan (List.mem_of_getElem? hplan)
        exact (plan.acceptable_iff d _).mp ⟨hnew, hgood⟩ place e hflaw
    | footpath n f place e hf hflaw =>
        exact (f.acceptable_iff d).mp (h.footpaths f (List.mem_of_getElem? hf)) place e hflaw
  · have hroutes : ∀ n plan, d.routes.toList[n]? = some plan →
        plan.id ∉ (d.routes.toList.take n).map (·.id) ∧ plan.Acceptable d :=
      fun n plan hplan => (plan.acceptable_iff d _).mpr fun place e hflaw =>
        h _ _ (.route n plan place e hplan hflaw)
    refine ⟨?_, ?_, ?_, ?_⟩
    · exact fun rule hrule => rule.acceptable_iff.mpr fun place defect hflaw =>
        h _ _ (.rule rule place defect hrule hflaw)
    · exact (nodup_iff_take _ _).mpr fun n plan hplan => (hroutes n plan hplan).1
    · intro plan hplan
      rcases List.getElem?_of_mem hplan with ⟨n, hn⟩
      exact (hroutes n plan hn).2
    · intro f hf
      rcases List.getElem?_of_mem hf with ⟨n, hn⟩
      exact (f.acceptable_iff d).mpr fun place e hflaw => h _ _ (.footpath n f place e hn hflaw)

-- The routes are checked one after the other, each given those before it.
theorem routesDefect?_eq (plans : List (RoutePlan α)) : ∀ earlier,
    d.routesDefect? earlier plans = firstOf (plans.mapIdx fun n plan =>
      d.routeDefect? (((plans.take n).map (·.id)).reverse ++ earlier) plan) := by
  induction plans with
  | nil => exact fun _ => rfl
  | cons plan rest ih =>
      intro earlier
      unfold routesDefect?
      rw [List.mapIdx_cons, firstOf, List.findSome?_cons]
      cases h : d.routeDefect? earlier plan with
      | some defect => simp only [List.take_zero, List.map_nil, List.reverse_nil, List.nil_append,
          h, id]
      | none =>
          simp only [List.take_zero, List.map_nil, List.reverse_nil, List.nil_append, h, id,
            List.take_succ_cons, List.map_cons, List.reverse_cons, List.append_assoc,
            List.singleton_append]
          exact ih (plan.id :: earlier)

/-- The check of a draft finds its first flaw. -/
theorem verdict_defect? : Verdict d.Flaw d.defect? := by
  have hparts : d.defect? = firstOf
      [(d.footpathRule.bind FootpathRule.defect?).map .invalidFootpathRule,
        d.routesDefect? [] d.routes.toList,
        d.footpaths.toList.findSome? d.footpathDefect?] := by
    unfold defect?
    cases d.footpathRule.bind FootpathRule.defect? with
    | some defect => rfl
    | none =>
        cases d.routesDefect? [] d.routes.toList with
        | some defect => rfl
        | none => cases d.footpaths.toList.findSome? d.footpathDefect? <;> rfl
  rw [hparts]
  refine Verdict.of_parts (fun e h => nomatch h) (fun n part hpart => ?_) fun n rest e hn h => ?_
  · match n, hpart with
    | 0, rfl =>
        cases hrule : d.footpathRule with
        | none =>
            rintro place e (⟨rule, _, _, hsome, -⟩)
            exact absurd (hrule.symm.trans hsome) (by simp only [reduceCtorEq, not_false_eq_true])
        | some rule =>
            refine rule.verdict_defect?.map fun place e => ⟨?_, ?_⟩
            · rintro (⟨rule', _, defect, hsome, hflaw⟩)
              rw [hrule, Option.some.injEq] at hsome
              subst hsome
              exact ⟨defect, hflaw, rfl⟩
            · rintro ⟨defect, hflaw, rfl⟩
              exact .rule rule place defect hrule hflaw
    | 1, rfl =>
        rw [d.routesDefect?_eq]
        refine Verdict.of_positions (fun n plan _ => plan.verdict_routeDefect? d _ _ fun id => ?_)
          .route fun | _, _, .route n plan place e hplan h => ⟨n, plan, place, hplan, h, rfl⟩
        -- The identifiers before the route are kept in reverse.
        rw [List.append_nil, List.mem_reverse]
    | 2, rfl =>
        exact Verdict.of_elements (fun f => f.verdict_footpathDefect? d) .footpath
          fun | _, _, .footpath n f place e hf h => ⟨n, f, place, hf, h, rfl⟩
  · cases h <;> exact absurd hn (by simp)

theorem build_eq [Planar α] [MarkerTree α] : d.build = d.defect?.elim (.ok d.assemble) .error := by
  unfold build
  cases d.defect? <;> rfl

/-- A draft with more stops. -/
def pushStops {α : Type} (d : Draft α) (stops : List (Stop α)) : Draft α := stops.foldl pushStop d

-- The table of identifiers is the one that the stops make.
theorem pushStops_empty {α : Type} (stops : List (Stop α)) :
    (empty : Draft α).pushStops stops = { (empty : Draft α) with
      stops := stops.toArray, stopLookup := Stop.lookup stops, stopLookup_eq := rfl } := by
  induction stops using List.reverseRecOn with
  | nil => rfl
  | append_singleton stops stop ih =>
      have hpush : (empty : Draft α).pushStops (stops ++ [stop]) =
          (empty.pushStops stops).pushStop stop := List.foldl_append
      rw [hpush, ih]
      simp only [pushStop, List.push_toArray, List.size_toArray, Stop.lookup_concat]

/-- Why a stop is refused. -/
def refusal? (stop : Stop α) : Option (Defect α) := firstOf
  [if d.hasStop stop.id then some (.duplicateStop stop.id) else none,
    if !stop.position.isFinite then some (.invalidCoordinate stop.id) else none]

theorem addStop_eq (stop : Stop α) : d.addStop stop =
    (d.refusal? stop).elim (.ok (d.pushStop stop, d.stops.size)) .error := by
  unfold addStop refusal?
  split_ifs <;> rfl

-- A stop is checked against the stops before it.
theorem addStops_eq (stops : List (Stop α)) : ∀ d : Draft α, d.addStops stops =
    (firstOf (stops.mapIdx fun n stop => (d.pushStops (stops.take n)).refusal? stop)).elim
      (.ok (d.pushStops stops)) .error := by
  induction stops with
  | nil => exact fun _ => rfl
  | cons stop rest ih =>
      intro d
      have hpush : ∀ l : List (Stop α), (d.pushStop stop).pushStops l = d.pushStops (stop :: l) :=
        fun _ => rfl
      have hnone : d.pushStops [] = d := rfl
      unfold addStops
      rw [addStop_eq, List.mapIdx_cons, firstOf, List.findSome?_cons, List.take_zero, hnone]
      cases d.refusal? stop with
      | some defect => rfl
      | none =>
          simp only [Option.elim_none, id, ih, hpush, List.take_succ_cons, firstOf]

end Draft

/-- The check of a stop finds its first flaw. -/
theorem Stop.verdict_refusal? (earlier : List (Stop α)) (stop : Stop α) :
    Verdict (stop.Flaw earlier) ((Draft.empty.pushStops earlier).refusal? stop) := by
  rw [Draft.pushStops_empty]
  refine Verdict.of_parts (fun e h => nomatch h) (fun n part hpart => ?_) fun n rest e hn h => ?_
  · match n, hpart with
    | 0, rfl =>
        refine Verdict.of_condition ?_ ?_ <;>
          simp only [Draft.hasStop_iff, Draft.Knows, List.mem_toArray, ← List.mem_map]
        · exact .duplicate
        · exact fun | _, _, .duplicate hbad => ⟨hbad, rfl, rfl⟩
    | 1, rfl =>
        exact Verdict.of_test .coordinate fun | _, _, .coordinate hbad => ⟨hbad, rfl, rfl⟩
  · cases h <;> exact absurd hn (by simp)

namespace TimetableDocument

variable (document : TimetableDocument)

theorem acceptable_iff : document.Acceptable ↔ ∀ place e, ¬ document.Flaw place e := by
  refine ⟨fun h place e hflaw => ?_, fun h => ⟨?_, ?_, ?_⟩⟩
  · cases hflaw with
    | stop n stop place e hstop hflaw =>
        cases hflaw with
        | duplicate hbad => exact (nodup_iff_take _ _).mp h.stopIds n stop hstop hbad
        | coordinate hbad => exact hbad (h.positions stop (List.mem_of_getElem? hstop))
    | draft place e hflaw => exact document.draft.acceptable_iff.mp h.draft place e hflaw
  · exact (nodup_iff_take _ _).mpr fun n stop hstop hbad =>
      h _ _ (.stop n stop _ _ hstop (.duplicate hbad))
  · intro stop hstop
    rcases List.getElem?_of_mem hstop with ⟨n, hn⟩
    exact not_not.mp fun hbad => h _ _ (.stop n stop _ _ hn (.coordinate hbad))
  · exact document.draft.acceptable_iff.mpr fun place e hflaw => h _ _ (.draft place e hflaw)

/-- The first stop that is refused. -/
def stopsRefusal? : Option (Defect Float) :=
  firstOf (document.stops.mapIdx fun n stop =>
    (Draft.empty.pushStops (document.stops.take n)).refusal? stop)

theorem toTimetable_eq : document.toTimetable =
    (firstOf [document.stopsRefusal?, document.draft.defect?]).elim
      (.ok document.draft.assemble) .error := by
  unfold toTimetable toDraft
  rw [Draft.addStops_eq, ← stopsRefusal?, Draft.pushStops_empty, firstOf, List.findSome?_cons]
  cases document.stopsRefusal? with
  | some defect => rfl
  | none =>
      refine (document.draft.build_eq).trans ?_
      rw [List.findSome?_cons]
      cases document.draft.defect? <;> rfl

/-- Reading and checking a document finds its first flaw. -/
theorem verdict_toTimetable :
    Verdict document.Flaw (firstOf [document.stopsRefusal?, document.draft.defect?]) := by
  refine Verdict.of_parts (fun e h => nomatch h) (fun n part hpart => ?_) fun n rest e hn h => ?_
  · match n, hpart with
    | 0, rfl =>
        exact Verdict.of_positions (fun n stop _ => stop.verdict_refusal? (document.stops.take n))
          .stop fun | _, _, .stop n stop place e hstop h => ⟨n, stop, place, hstop, h, rfl⟩
    | 1, rfl =>
        refine document.draft.verdict_defect?.congr fun place e => ⟨fun h => ?_, .draft place e⟩
        rcases h with _ | ⟨_, _, hflaw⟩
        exact hflaw
  · cases h <;> exact absurd hn (by simp)

end TimetableDocument

/-- A timetable is assembled from a draft, or loaded from a document, exactly when it is
    acceptable, and what is reported of another one is its first flaw. -/
theorem Draft.build_iff_and_load_iff [Planar α] [MarkerTree α] (d : Draft α)
    (document : TimetableDocument) :
    ((∃ t, d.build = .ok t) ↔ d.Acceptable) ∧
      (∀ e, d.build = .error e ↔ First d.Flaw e) ∧
      ((∃ t, document.toTimetable = .ok t) ↔ document.Acceptable) ∧
      ∀ e, document.toTimetable = .error e ↔ First document.Flaw e := by
  have hdraft := d.verdict_defect?.report d.assemble
  have hdocument := document.verdict_toTimetable.report document.draft.assemble
  rw [← d.build_eq, ← d.acceptable_iff] at hdraft
  rw [← document.toTimetable_eq, ← document.acceptable_iff] at hdocument
  exact ⟨hdraft.1, hdraft.2, hdocument.1, hdocument.2⟩

end Journey
