import Mathlib.Tactic.Linarith
import Journey.Access.Resolver
import Journey.Plan.Request
import Journey.Proofs.Access.KeptLegs
import Journey.Proofs.Dictionary
import Journey.Proofs.Exact

/-!
# Signs of Candidates

When the way between a facility and a stop takes, costs and measures nothing negative.

What is negative would make an itinerary cheaper the further it goes, and no bound that the
search prunes by would be one. Walking cannot be negative: its speed and its factor are
parameters, and validated parameters have positive ones and rates that are not negative.

With several modes it is different. The modes are checked, and whether each of them has a
router, but nothing looks at what is in a router: its speed is asked for where a leg is
found, its factor and the times of its stages never. So a configuration can be accepted in
which a leg is longer the less far it goes. `Resolver.negative_candidates` has one with a
negative factor and one with a negative stage. That is all that can go wrong:
with routers that measure forwards, `Resolver.answers?_nonneg` holds for any number of
requests, whatever is kept from one to the next.

## Main definitions

* `Planar.Forward`: Measuring gives nothing negative.
* `LegRouter.Forward`, `Resolver.Forward`: Routers without negative factors and stages.
* `Candidate.Nonneg`, `AccessLeg.Nonneg`: Nothing about a candidate, or a leg, is negative.
* `Resolver.answers?`: The answers to some requests, one after the other.

## Theorems

* `Parameters.accessModeCost_nonneg`: No rate of an access mode is negative.
* `Walking.candidates?_nonneg`: Walking is never negative.
* `Intermodal.candidates_nonneg`: Nor are several modes, if their routers measure forwards.
* `Resolver.answers?_nonneg`: Both, for any number of requests.
* `Resolver.negative_candidates`: Accepted configurations with negative candidates.
-/

namespace Journey

variable {K : Type} [Field K] [LinearOrder K] [IsStrictOrderedRing K]

namespace Parameters

variable {p : Parameters K}

/-- No rate of an access mode is negative. -/
theorem accessModeCost_nonneg (h : p.validate = .ok ()) (mode : Mode) :
    0 ≤ p.accessModeCost mode := by
  unfold accessModeCost
  cases hget : p.accessModeUtilities.get? mode.text with
  | none => exact walkCost_nonneg h
  | some utility =>
      rw [validate_eq_ok_iff] at h
      simp only [defect?, Option.or_eq_none_iff, utilityDefect?, List.findSome?_eq_none_iff] at h
      -- Every entry of the table has been checked, under the name of its mode.
      have hchecked := h.1 ("access mode " ++ mode.text, utility)
        (List.mem_append_right _ (List.mem_map.mpr ⟨_, Dictionary.mem_of_get? hget, rfl⟩))
      refine costPerSecond_nonneg ?_
      by_contra hpositive
      rw [if_neg (by rwa [Scalar.isNonpositive_iff])] at hchecked
      exact absurd hchecked (Option.some_ne_none _)

omit [IsStrictOrderedRing K] in
theorem speed_pos (h : p.validate = .ok ()) : 0 < p.walkSpeed ∧ 0 < p.distanceFactor := by
  rw [validate_eq_ok_iff] at h
  simp only [defect?, Option.or_eq_none_iff, speedDefect?, List.findSome?_eq_none_iff] at h
  have hpositive : ∀ name value, (name, value) ∈
      [("beeline walk speed", p.walkSpeed), ("beeline distance factor", p.distanceFactor)] →
        0 < value := by
    intro name value hmem
    have hnone := h.2.2.1 (name, value) hmem
    by_contra hneg
    rw [if_neg (by rwa [Scalar.isPositive_iff])] at hnone
    exact absurd hnone (Option.some_ne_none _)
  exact ⟨hpositive _ _ List.mem_cons_self,
    hpositive _ _ (List.mem_cons_of_mem _ List.mem_cons_self)⟩

end Parameters

/-- Nothing about a candidate is negative. -/
structure Candidate.Nonneg (c : Candidate K) : Prop where
  time : 0 ≤ c.time
  cost : 0 ≤ c.cost
  distance : 0 ≤ c.distance

/-- Nothing about a leg is negative, its stages taken together. -/
structure AccessLeg.Nonneg (l : AccessLeg K) : Prop where
  distance : 0 ≤ l.distance
  travelTime : 0 ≤ l.travelTime
  stageTime : 0 ≤ l.stageTime

/-- A router neither shortens distances below nothing nor has stages that take less than no
    time. -/
structure LegRouter.Forward (router : LegRouter K) : Prop where
  distanceFactor : 0 ≤ router.distanceFactor
  stages : 0 ≤ router.stageBefore.getD 0 + router.stageAfter.getD 0

/-- Measuring gives nothing negative. -/
structure Planar.Forward (K : Type) [Field K] [LinearOrder K] [Planar K] : Prop where
  hypotenuse : ∀ x y : K, 0 ≤ Planar.hypotenuse x y
  ceiling : ∀ x : K, 0 ≤ x → 0 ≤ Planar.ceiling x

namespace AccessLeg

variable {l : AccessLeg K}

omit [IsStrictOrderedRing K] in
theorem Nonneg.reversed (h : l.Nonneg) : l.reversed.Nonneg := by
  refine ⟨h.distance, h.travelTime, ?_⟩
  change 0 ≤ l.stageAfter.getD 0 + l.stageBefore.getD 0
  rw [add_comm]
  exact h.stageTime

theorem Nonneg.candidate (h : l.Nonneg) {p : Parameters K} (hp : p.validate = .ok ())
    (mode : Mode) (stop : Nat) : (l.candidate p mode stop).Nonneg := by
  refine ⟨add_nonneg h.travelTime h.stageTime, add_nonneg ?_ ?_, h.distance⟩
  · exact mul_nonneg h.travelTime (Parameters.accessModeCost_nonneg hp _)
  · exact mul_nonneg h.stageTime (Parameters.accessModeCost_nonneg hp _)

end AccessLeg

variable [Planar K]

theorem LegRouter.route?_nonneg (hplanar : Planar.Forward K) {router : LegRouter K}
    (h : router.Forward) {origin target : Point K} {leg : AccessLeg K}
    (hleg : router.route? origin target = some leg) : leg.Nonneg := by
  unfold route? at hleg
  split at hleg
  · rename_i hspeed
    rw [Option.some.injEq] at hleg
    subst hleg
    have hdistance : 0 ≤ origin.distance target * router.distanceFactor :=
      mul_nonneg (hplanar.hypotenuse _ _) h.distanceFactor
    exact ⟨hdistance, hplanar.ceiling _ (div_nonneg hdistance (le_of_lt hspeed)), h.stages⟩
  · exact absurd hleg (by simp only [reduceCtorEq, not_false_eq_true])

/-- Walking is never negative. -/
theorem Walking.candidates?_nonneg [MarkerTree K] (hplanar : Planar.Forward K) {t : Timetable K}
    {r : AccessRequest K} (hp : r.parameters.validate = .ok ()) {found : List (Candidate K)}
    (h : Walking.candidates? t r = some found) : ∀ c ∈ found, c.Nonneg := by
  intro c hc
  unfold candidates? at h
  rcases Option.map_eq_some_iff.mp h with ⟨indices, -, rfl⟩
  rcases List.mem_map.mp hc with ⟨⟨index, stop⟩, -, rfl⟩
  rcases Parameters.speed_pos hp with ⟨hspeed, hfactor⟩
  have hdistance : 0 ≤ stop.position.distance r.facility.position := hplanar.hypotenuse _ _
  have htime := hplanar.ceiling _ (div_nonneg hdistance (le_of_lt hspeed))
  exact ⟨htime, mul_nonneg htime (Parameters.accessModeCost_nonneg hp _),
    mul_nonneg hdistance (le_of_lt hfactor)⟩

namespace Intermodal

variable {κ γ : Type} [LegStore κ K] [Generator γ] {i : Intermodal K} {t : Timetable K}
  {r : AccessRequest K} {keeps : κ → LegKey → Option (AccessLeg K) → Prop}

/-- Nothing about what has been found or is kept is negative. -/
structure Nonneg (keeps : κ → LegKey → Option (AccessLeg K) → Prop) (state : Found K × κ) :
    Prop where
  found : ∀ c ∈ state.1, c.Nonneg
  kept : ∀ key leg, keeps state.2 key (some leg) → leg.Nonneg

-- A leg that is found or kept is not negative, and nothing negative is kept afterwards.
theorem leg_nonneg (hplanar : Planar.Forward K) (hstore : LegStore.Faithful keeps)
    {m : AccessMode K} {router : LegRouter K} (hrouter : router.Forward) (stop : Stop K) {store : κ}
    (hkept : ∀ key leg, keeps store key (some leg) → leg.Nonneg) :
    (∀ l ∈ (leg m router r stop store).1, l.Nonneg) ∧
      ∀ key l, keeps (leg m router r stop store).2 key (some l) → l.Nonneg := by
  unfold leg
  split
  · have hanswer : ∀ key, ∀ l ∈ (LegStore.route store key
        (router.route? stop.position r.facility.position)).1, l.Nonneg := by
      intro key l hl
      rcases hstore.answer store key (router.route? stop.position r.facility.position) with
        heq | hkeeps
      · rw [heq] at hl
        exact router.route?_nonneg hplanar hrouter hl
      · rw [Option.mem_def.mp hl] at hkeeps
        exact hkept key l hkeeps
    have hafter : ∀ key key' l, keeps (LegStore.route store key
        (router.route? stop.position r.facility.position)).2 key' (some l) → l.Nonneg := by
      intro key key' l hkeeps
      rcases hstore.route _ _ _ _ _ hkeeps with hbefore | ⟨-, heq⟩
      · exact hkept key' l hbefore
      · exact router.route?_nonneg hplanar hrouter heq.symm
    unfold keptLeg
    cases r.direction with
    | access =>
        refine ⟨fun l hl => ?_, hafter _⟩
        rcases Option.map_eq_some_iff.mp hl with ⟨l', hl', rfl⟩
        exact (hanswer _ l' hl').reversed
    | egress => exact ⟨hanswer _, hafter _⟩
  · refine ⟨fun l hl => ?_, fun key l hkeeps => hkept key l (hstore.count _ _ _ hkeeps)⟩
    unfold directLeg? at hl
    cases hdirection : r.direction with
    | access =>
        rw [hdirection] at hl
        exact router.route?_nonneg hplanar hrouter hl
    | egress =>
        rw [hdirection] at hl
        exact router.route?_nonneg hplanar hrouter hl

theorem Nonneg.addStop (hplanar : Planar.Forward K) (hstore : LegStore.Faithful keeps)
    (hp : r.parameters.validate = .ok ()) {m : AccessMode K} {router : LegRouter K}
    (hrouter : router.Forward) {state : Found K × κ} (h : Nonneg keeps state)
    (stop : Nat × Stop K) : Nonneg keeps (addStop m router r state stop) := by
  rcases state with ⟨found, store⟩
  rcases stop with ⟨index, stop⟩
  rw [addStop_eq]
  split
  · rcases leg_nonneg (m := m) (r := r) hplanar hstore hrouter stop h.kept with ⟨hleg, hkept⟩
    refine ⟨?_, hkept⟩
    cases hfound : (leg m router r stop store).1 with
    | none => exact h.found
    | some l =>
        intro c hc
        rcases Found.mem_offer hc with rfl | hbefore
        · exact (hleg l hfound).candidate hp _ _
        · exact h.found c hbefore
  · exact h

variable [MarkerTree K]

theorem Nonneg.addMode (hplanar : Planar.Forward K) (hstore : LegStore.Faithful keeps)
    (hrouters : ∀ entry ∈ i.routers.entries, entry.2.Forward)
    (hp : r.parameters.validate = .ok ()) (m : AccessMode K) {state : Found K × κ}
    (h : Nonneg keeps state) : Nonneg keeps (i.addMode t r state m) := by
  unfold Intermodal.addMode
  split
  · cases hget : i.routers.get? m.mode.text with
    | none => exact h
    | some router =>
        have hrouter := hrouters _ (Dictionary.mem_of_get? hget)
        exact List.foldlRecOn _ _ h fun state hstate stop _ =>
          hstate.addStop hplanar hstore hp hrouter stop
  · exact h

theorem drawModes_nonneg (hplanar : Planar.Forward K) (hstore : LegStore.Faithful keeps)
    (hrouters : ∀ entry ∈ i.routers.entries, entry.2.Forward)
    (hp : r.parameters.validate = .ok ()) (attempts : Nat) :
    ∀ (store : κ) (generator : γ), (∀ key leg, keeps store key (some leg) → leg.Nonneg) →
      Nonneg keeps ((i.drawModes t r attempts store generator).1,
        (i.drawModes t r attempts store generator).2.1) := by
  induction attempts with
  | zero => exact fun _ _ hkept => ⟨fun _ hc => absurd hc List.not_mem_nil, hkept⟩
  | succ attempts ih =>
      intro store generator hkept
      unfold drawModes
      rcases Generator.draw generator i.modes.modes.length with ⟨choice, generator⟩
      have hdrawn : ∀ state : Found K × κ, Nonneg keeps state →
          let answer := if state.1.isEmpty then i.drawModes t r attempts state.2 generator
            else (state.1, state.2, generator)
          Nonneg keeps (answer.1, answer.2.1) := by
        intro state hstate
        dsimp only
        split
        · exact ih state.2 generator hstate.kept
        · exact hstate
      have hnone : Nonneg keeps (([], store) : Found K × κ) :=
        ⟨fun _ hc => absurd hc List.not_mem_nil, hkept⟩
      dsimp only
      cases i.modes.modes[choice]? with
      | none => exact hdrawn _ hnone
      | some m => exact hdrawn _ (hnone.addMode hplanar hstore hrouters hp m)

/-- Candidates are not negative if the routers measure forwards, and nothing negative is kept
    for later. -/
theorem candidates_nonneg (hplanar : Planar.Forward K) (hstore : LegStore.Faithful keeps)
    (hrouters : ∀ entry ∈ i.routers.entries, entry.2.Forward)
    (hp : r.parameters.validate = .ok ()) {store : κ}
    (hkept : ∀ key leg, keeps store key (some leg) → leg.Nonneg) (generator : γ) :
    Nonneg keeps ((i.candidates t r store generator).1,
      (i.candidates t r store generator).2.1) := by
  unfold candidates
  cases i.modes.selection with
  | leastCostPerStop =>
      have hnone : Nonneg keeps (([], store) : Found K × κ) :=
        ⟨fun _ hc => absurd hc List.not_mem_nil, hkept⟩
      exact List.foldlRecOn _ _ hnone fun state hstate m _ =>
        hstate.addMode hplanar hstore hrouters hp m
  | randomSingleMode => exact drawModes_nonneg hplanar hstore hrouters hp _ store generator hkept

end Intermodal

namespace Resolver

variable [MarkerTree K] {γ : Type} [Generator γ]

/-- The routers of a resolver measure forwards. Walking needs none. -/
def Forward : Resolver K → Prop
  | walking => True
  | intermodal i => ∀ entry ∈ i.routers.entries, entry.2.Forward

/-- The answers to some requests, one after the other. -/
def answers? (resolver : Resolver K) (t : Timetable K) :
    List (AccessRequest K) → AccessState γ K → Option (List (List (Candidate K)))
  | [], _ => some []
  | r :: rest, state => do
    let (found, state) ← resolver.candidates? t r state
    return found :: (← answers? resolver t rest state)

-- One request: what is found is not negative, and nothing negative is kept.
theorem candidates?_nonneg (hplanar : Planar.Forward K) {resolver : Resolver K}
    (hforward : resolver.Forward) {t : Timetable K} {r : AccessRequest K}
    (hp : r.parameters.validate = .ok ()) {state state' : AccessState γ K}
    {found : List (Candidate K)}
    (hkept : ∀ key leg, state.cache.get? key = some (some leg) → leg.Nonneg)
    (h : resolver.candidates? t r state = some (found, state')) :
    (∀ c ∈ found, c.Nonneg) ∧
      ∀ key leg, state'.cache.get? key = some (some leg) → leg.Nonneg := by
  unfold candidates? at h
  cases resolver with
  | walking =>
      rcases Option.map_eq_some_iff.mp h with ⟨found', hfound, heq⟩
      rw [Prod.mk.injEq] at heq
      rcases heq with ⟨rfl, rfl⟩
      exact ⟨Walking.candidates?_nonneg hplanar hp hfound, hkept⟩
  | intermodal i =>
      have hnonneg := i.candidates_nonneg (t := t) hplanar LegCache.faithful hforward hp hkept
        state.generator
      rw [Option.some.injEq, Prod.mk.injEq] at h
      rcases h with ⟨rfl, rfl⟩
      exact ⟨hnonneg.found, hnonneg.kept⟩

-- Many requests: each one leaves nothing negative for the next.
theorem nonneg_of_answers? (hplanar : Planar.Forward K) {resolver : Resolver K}
    (hforward : resolver.Forward) {t : Timetable K} (requests : List (AccessRequest K)) :
    ∀ {state : AccessState γ K} {answers : List (List (Candidate K))},
      (∀ r ∈ requests, r.parameters.validate = .ok ()) →
      (∀ key leg, state.cache.get? key = some (some leg) → leg.Nonneg) →
      resolver.answers? t requests state = some answers →
        ∀ found ∈ answers, ∀ c ∈ found, c.Nonneg := by
  induction requests with
  | nil =>
      intro state answers _ _ h found hfound
      rw [answers?, Option.some.injEq] at h
      rw [← h] at hfound
      exact absurd hfound List.not_mem_nil
  | cons r rest ih =>
      intro state answers hp hkept h
      simp only [answers?, Option.bind_eq_bind, Option.bind_eq_some_iff, Option.pure_def,
        Option.some.injEq] at h
      rcases h with ⟨⟨found, state'⟩, hfirst, later, hlater, rfl⟩
      rcases candidates?_nonneg hplanar hforward (hp r List.mem_cons_self) hkept hfirst with
        ⟨hfound, hkept'⟩
      intro found' hmem
      rcases List.mem_cons.mp hmem with rfl | hmem
      · exact hfound
      · exact ih (fun r hr => hp r (List.mem_cons_of_mem _ hr)) hkept' hlater found' hmem

/-- With routers that measure forwards nothing about a candidate is negative, for any number
    of requests, whatever is kept from one to the next. -/
theorem answers?_nonneg (hplanar : Planar.Forward K) {resolver : Resolver K}
    (hforward : resolver.Forward) (t : Timetable K) (capacity : Nat) (generator : γ)
    {requests : List (AccessRequest K)} (hp : ∀ r ∈ requests, r.parameters.validate = .ok ())
    {answers : List (List (Candidate K))}
    (h : resolver.answers? t requests ⟨LegCache.ofCapacity capacity, generator⟩ = some answers) :
    ∀ found ∈ answers, ∀ c ∈ found, 0 ≤ c.time ∧ 0 ≤ c.cost ∧ 0 ≤ c.distance := by
  intro found hfound c hc
  have hempty : ∀ (key : LegKey) (leg : AccessLeg K),
      (LegCache.ofCapacity capacity).get? key = some (some leg) → leg.Nonneg :=
    fun key leg hkept => absurd hkept (LegCache.get?_ofCapacity capacity key (some leg))
  have hnonneg := nonneg_of_answers? hplanar hforward requests hp hempty h found hfound c hc
  exact ⟨hnonneg.time, hnonneg.cost, hnonneg.distance⟩

end Resolver

namespace Sample

theorem forward : Planar.Forward ℚ := by
  refine ⟨hypotenuse_nonneg, fun x hx => ?_⟩
  change (0 : ℚ) ≤ ((⌈x⌉ : ℤ) : ℚ)
  exact_mod_cast Int.ceil_nonneg hx

/-- The bicycle that is ridden to the stop and back. -/
def ride : Candidate ℚ := ⟨0, 150, 150, 300, ⟨"bike"⟩⟩

theorem answers?_thereAndBack :
    (Resolver.intermodal bicycles).answers? curb thereAndBack
        ⟨LegCache.ofCapacity 1, Keystream.ofSeed 0⟩ = some [[ride], [ride]] ∧
      ∀ found ∈ [[ride], [ride]], ∀ c ∈ found, 0 ≤ c.time ∧ 0 ≤ c.cost ∧ 0 ≤ c.distance := by
  have hanswers : (Resolver.intermodal bicycles).answers? curb thereAndBack
      ⟨LegCache.ofCapacity 1, Keystream.ofSeed 0⟩ = some [[ride], [ride]] := by decide +kernel
  have hforward : (Resolver.intermodal bicycles).Forward := by
    intro entry hentry
    rw [List.mem_singleton.mp hentry]
    exact ⟨by decide +kernel, by decide +kernel⟩
  have hparameters : parameters.validate = .ok () :=
    (Parameters.validate_eq_ok_iff _).mpr (by decide +kernel)
  have hp : ∀ r ∈ thereAndBack, r.parameters.validate = .ok () := by
    intro r hr
    rcases List.mem_pair.mp hr with rfl | rfl <;> exact hparameters
  exact ⟨hanswers, Resolver.answers?_nonneg forward hforward curb 1 _ hp hanswers⟩

/-- Walking by a given router. -/
def onFoot (router : LegRouter ℚ) : Intermodal ℚ :=
  { modes := { modes := [⟨Mode.walk, 1000, false, none, none⟩], selection := .leastCostPerStop }
    routers := ⟨[(Mode.walk.text, router)]⟩ }

/-- A journey from home to where the stop is. -/
def errand : PlanRequest ℚ :=
  { departureTime := 0
    origin := ⟨⟨"home"⟩, ⟨0, 0⟩⟩
    destination := ⟨⟨"work"⟩, ⟨300, 0⟩⟩
    traveller := ⟨[]⟩ }

/-- The candidates at home. -/
def candidatesAtHome (i : Intermodal ℚ) : Option (List (Candidate ℚ)) :=
  ((Resolver.intermodal i).candidates? curb (errand.accessRequest parameters)
    (⟨LegCache.ofCapacity 1, Keystream.ofSeed 0⟩ : AccessState Keystream ℚ)).map (·.1)

end Sample

namespace Resolver

open Sample

/-- Modes, parameters, request and timetable are all accepted, and still every candidate is
    negative: with a factor below nothing in everything, with a stage that takes less than no
    time in time and cost. -/
theorem negative_candidates :
    (Draft.ofEdits [Edit.addStop parking]).build = .ok curb ∧
      parameters.validate = .ok () ∧ errand.validate = .ok () ∧
      Intermodal.configure (onFoot ⟨1, -1, none, none⟩).modes (onFoot ⟨1, -1, none, none⟩).routers =
        .ok (onFoot ⟨1, -1, none, none⟩) ∧
      candidatesAtHome (onFoot ⟨1, -1, none, none⟩) =
        some [⟨0, -300, -300, -300, Mode.nonNetworkWalk⟩] ∧
      Intermodal.configure (onFoot ⟨1, 1, some (-400), none⟩).modes
        (onFoot ⟨1, 1, some (-400), none⟩).routers = .ok (onFoot ⟨1, 1, some (-400), none⟩) ∧
      candidatesAtHome (onFoot ⟨1, 1, some (-400), none⟩) =
        some [⟨0, -100, -100, 300, Mode.nonNetworkWalk⟩] := by
  refine ⟨build_eq_ok (by decide +kernel), ?_, ?_, rfl, by decide +kernel, rfl, by decide +kernel⟩
  · exact (Parameters.validate_eq_ok_iff _).mpr (by decide +kernel)
  · unfold PlanRequest.validate
    rw [show errand.error? = none by decide +kernel]

end Resolver

end Journey
