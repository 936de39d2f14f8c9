import Journey.Proofs.Access.KeptLegs
import Journey.Proofs.CheapestCandidates
import Journey.Proofs.Exact
import Journey.Proofs.Timetable.PackedTree

/-!
# Cheapest Modes

Which mode a stop is reached with if every stop has the cheapest one.

The modes share one table of what was found, and each of them goes through the stops around
the facility and replaces what is dearer. So the table is always what the offers made so far
come to: `Found.CheapestOf` says that it has an entry for every stop at which there was an
offer, by increasing stop, and that the entry is the cheapest of them, from the earliest
mode if there are several. Once all modes have made their offers this is about the
modes that apply to a stop, and neither about the order of the loops nor about the legs
that are kept.

## Main definitions

* `Found.CheapestOf`: What is found is the cheapest offer for every stop.
* `Intermodal.Applies`: A mode connects a stop with the facility of a request.
* `AccessLeg.ReportedBy`: A candidate says what a leg comes to.

## Theorems

* `Found.CheapestOf.offer`: One more offer.
* `Found.cheapestOf_offerAll`: All offers, one after the other.
* `Intermodal.mem_offers_iff_applies`: A mode makes offers for the stops it applies to.
* `Intermodal.candidates_cheapest`: The answer to a request.
-/

namespace Journey

variable {K : Type} [Field K] [LinearOrder K]

namespace Found

variable {offers : List (Candidate K × Nat)} {found : Found K}

/-- What is found is the cheapest offer for every stop, by increasing stop. Every offer comes
    with the position of its mode. -/
structure CheapestOf (offers : List (Candidate K × Nat)) (found : Found K) : Prop where
  sorted : found.Pairwise (·.stop < ·.stop)
  complete : ∀ x ∈ offers, ∃ c ∈ found, c.stop = x.1.stop
  cheapest : ∀ c ∈ found, ∃ k, Candidate.Cheapest offers c.stop c k

/-- One more offer, from the same mode as the last one or from a later one. -/
theorem CheapestOf.offer (h : CheapestOf offers found) {x : Candidate K × Nat}
    (hlast : ∀ y ∈ offers, y.2 ≤ x.2) :
    CheapestOf (offers ++ [x]) (Found.offer x.1 found) := by
  refine ⟨pairwise_offer h.sorted, fun y hy => exists_mem_offer ?_, fun c hc => ?_⟩
  · rcases List.mem_append.mp hy with hy | hy
    · exact Or.inr (h.complete y hy)
    · exact Or.inl (congrArg (fun z => z.1.stop) (List.mem_singleton.mp hy))
  · rcases offer_cases h.sorted hc with ⟨hc, hne⟩ | ⟨hc, -, hdear⟩ | ⟨rfl, hless⟩
    · rcases h.cheapest c hc with ⟨k, hk⟩
      exact ⟨k, hk.elsewhere (Ne.symm hne)⟩
    · rcases h.cheapest c hc with ⟨k, hk⟩
      exact ⟨k, hk.stays (le_of_not_gt hdear) (hlast _ hk.offered)⟩
    · refine ⟨x.2, Candidate.Cheapest.of_forall_lt rfl fun y hy hs => ?_⟩
      -- What was found at the stop is no dearer than any earlier offer there.
      rcases h.complete y hy with ⟨d, hd, hds⟩
      rcases h.cheapest d hd with ⟨k, hk⟩
      exact lt_of_lt_of_le (hless d hd (hds.trans hs)) (hk.least y hy hds.symm)

/-- Offers made mode by mode leave the cheapest one for every stop. -/
theorem cheapestOf_offerAll (offers : List (Candidate K × Nat)) :
    offers.Pairwise (·.2 ≤ ·.2) → CheapestOf offers (offerAll (offers.map Prod.fst) []) := by
  induction offers using List.reverseRecOn with
  | nil =>
      exact fun _ => ⟨List.Pairwise.nil, fun x hx => absurd hx List.not_mem_nil,
        fun c hc => absurd hc List.not_mem_nil⟩
  | append_singleton offers x ih =>
      intro hsorted
      rcases List.pairwise_append.mp hsorted with ⟨hbefore, -, hlast⟩
      have hone := (ih hbefore).offer fun y hy => hlast y hy x List.mem_cons_self
      unfold offerAll at hone ⊢
      rw [List.map_append, List.foldl_append]
      exact hone

end Found

namespace AccessLeg

/-- A candidate says what a leg comes to: the time from door to door, how far the mode is used,
    the cost, which is that of the mode and of the stages on foot, and the mode, where walking to
    a stop has a name of its own. -/
structure ReportedBy (leg : AccessLeg K) (p : Parameters K) (mode : Mode) (c : Candidate K) :
    Prop where
  time : c.time = leg.travelTime + (leg.stageBefore.getD 0 + leg.stageAfter.getD 0)
  distance : c.distance = leg.distance
  cost : c.cost = leg.travelTime * p.accessModeCost mode +
    (leg.stageBefore.getD 0 + leg.stageAfter.getD 0) * p.accessModeCost Mode.nonNetworkWalk
  mode : c.mode = if mode = Mode.walk then Mode.nonNetworkWalk else mode

theorem reportedBy_candidate (leg : AccessLeg K) (p : Parameters K) (mode : Mode) (stop : Nat) :
    leg.ReportedBy p mode (leg.candidate p mode stop) := ⟨rfl, rfl, rfl, rfl⟩

end AccessLeg

namespace Intermodal

variable [Planar K] [MarkerTree K] {i : Intermodal K} {t : Timetable K} {r : AccessRequest K}
  {m : AccessMode K} {stop : Stop K} {leg : AccessLeg K}

/-- A mode connects a stop with the facility of a request by a leg: the traveller passes its
    filter, the stop is within its radius and passes its filter, and its router finds the leg
    in the direction of travel. -/
structure Applies (i : Intermodal K) (r : AccessRequest K) (m : AccessMode K) (stop : Stop K)
    (leg : AccessLeg K) : Prop where
  traveller : AttributeFilter.allows m.travellerFilter r.traveller = true
  radius : 0 ≤ m.maxRadius ∧
    stop.position.squaredDistance r.facility.position ≤ m.maxRadius * m.maxRadius
  attributes : AttributeFilter.allows m.stopFilter stop.attributes = true
  route : ∃ router, i.routers.get? m.mode.text = some router ∧ directLeg? router r stop = some leg

/-- A mode makes offers for the stops it applies to, whatever is kept. -/
theorem mem_offers_iff_applies [Planar.Symmetric K] [MarkerTree.Faithful K] {c : Candidate K} :
    c ∈ i.offers t r m ↔ ∃ stop leg, t.stops[c.stop]? = some stop ∧ i.Applies r m stop leg ∧
      c = leg.candidate r.parameters m.mode c.stop := by
  -- Legs that are kept make the same candidates as those found in the direction of travel.
  have hlegs : ∀ router stop, (∃ leg, newLeg? m router r stop = some leg ∧
      c = leg.candidate r.parameters m.mode c.stop) ↔ ∃ leg, directLeg? router r stop = some leg ∧
        c = leg.candidate r.parameters m.mode c.stop := by
    intro router stop
    have hmap := map_candidate_newLeg? m router r stop c.stop
    have hiff : ∀ o : Option (AccessLeg K), (∃ leg, o = some leg ∧
        c = leg.candidate r.parameters m.mode c.stop) ↔
          o.map (·.candidate r.parameters m.mode c.stop) = some c := by
      intro o
      rw [Option.map_eq_some_iff]
      simp only [eq_comm]
    rw [hiff, hiff, hmap]
  -- Exact numbers are all finite.
  rw [mem_offers_iff (fun _ _ => rfl) rfl]
  constructor
  · rintro ⟨htraveller, router, stop, leg, hrouter, hstop, hnear, hstopAllows, hleg, hc⟩
    rcases (hlegs router stop).mp ⟨leg, hleg, hc⟩ with ⟨leg', hleg', hc'⟩
    exact ⟨stop, leg', hstop, ⟨htraveller, hnear, hstopAllows, router, hrouter, hleg'⟩, hc'⟩
  · rintro ⟨stop, leg, hstop, ⟨htraveller, hnear, hstopAllows, router, hrouter, hleg⟩, hc⟩
    rcases (hlegs router stop).mpr ⟨leg, hleg, hc⟩ with ⟨leg', hleg', hc'⟩
    exact ⟨htraveller, router, stop, leg', hrouter, hstop, hnear, hstopAllows, hleg', hc'⟩

/-- The offers of all modes, each with the position of its mode. -/
def numberedOffers (i : Intermodal K) (t : Timetable K) (r : AccessRequest K) :
    List (Candidate K × Nat) :=
  i.modes.modes.zipIdx.flatMap fun m => (i.offers t r m.1).map (·, m.2)

theorem mem_numberedOffers_iff {c : Candidate K} {k : Nat} : (c, k) ∈ i.numberedOffers t r ↔
    ∃ m, i.modes.modes[k]? = some m ∧ c ∈ i.offers t r m := by
  unfold numberedOffers
  simp only [List.mem_flatMap, List.mem_map, Prod.exists, List.mem_zipIdx_iff_getElem?,
    Prod.mk.injEq]
  constructor
  · rintro ⟨m, _, hm, _, hc, rfl, rfl⟩
    exact ⟨m, hm, hc⟩
  · rintro ⟨m, hm, hc⟩
    exact ⟨m, k, hm, c, hc, rfl, rfl⟩

theorem map_fst_numberedOffers (i : Intermodal K) (t : Timetable K) (r : AccessRequest K) :
    (i.numberedOffers t r).map Prod.fst = i.modes.modes.flatMap (i.offers t r) := by
  unfold numberedOffers
  rw [List.map_flatMap]
  conv_rhs => rw [← List.zipIdx_map_fst 0 i.modes.modes, List.flatMap_map]
  simp only [List.map_map, Function.comp_def, List.map_id']

-- The offers of a mode come after those of the modes before it.
theorem pairwise_numberedOffers (i : Intermodal K) (t : Timetable K) (r : AccessRequest K) :
    (i.numberedOffers t r).Pairwise (·.2 ≤ ·.2) := by
  unfold numberedOffers
  rw [List.pairwise_flatMap]
  constructor
  · intro m _
    rw [List.pairwise_map]
    exact List.pairwise_of_forall fun _ _ => Nat.le_refl _
  · have hsorted : (i.modes.modes.zipIdx.map Prod.snd).Pairwise (· < ·) := by
      rw [List.zipIdx_map_snd]
      exact List.pairwise_lt_range'
    refine (List.pairwise_map.mp hsorted).imp ?_
    intro m m' hlt x hx y hy
    rcases List.mem_map.mp hx with ⟨_, -, rfl⟩
    rcases List.mem_map.mp hy with ⟨_, -, rfl⟩
    exact Nat.le_of_lt hlt

variable {κ γ : Type} [LegStore κ K] [Generator γ]
  {keeps : κ → LegKey → Option (AccessLeg K) → Prop}

/-- If every stop has its cheapest mode, the answer to a request has an entry for every stop
    that a mode applies to, by increasing stop. The entry is what the cheapest of these modes
    makes of the stop, and the first of equally cheap ones. It says what the leg of that mode
    comes to. -/
theorem candidates_cheapest [Planar.Symmetric K] [MarkerTree.Faithful K]
    (hstore : LegStore.Faithful keeps) {edits : List (Edit K)} {t : Timetable K}
    (hbuild : (Draft.ofEdits edits).build = .ok t)
    {i : Intermodal K} (hselection : i.modes.selection = .leastCostPerStop)
    (r : AccessRequest K) {store : κ} (hempty : ∀ key leg, ¬ keeps store key leg)
    (generator : γ) :
    ∃ found store', i.candidates t r store generator = (found, store', generator) ∧
      found.Pairwise (·.stop < ·.stop) ∧
      (∀ index, (∃ c ∈ found, c.stop = index) ↔ ∃ m ∈ i.modes.modes, ∃ stop leg,
        t.stops[index]? = some stop ∧ i.Applies r m stop leg) ∧
      ∀ c ∈ found, ∃ k m stop leg, i.modes.modes[k]? = some m ∧ t.stops[c.stop]? = some stop ∧
        i.Applies r m stop leg ∧ c = leg.candidate r.parameters m.mode c.stop ∧
        leg.ReportedBy r.parameters m.mode c ∧
        ∀ (k' : Nat) (m' : AccessMode K) (leg' : AccessLeg K), i.modes.modes[k']? = some m' →
          i.Applies r m' stop leg' →
            c.cost ≤ (leg'.candidate r.parameters m'.mode c.stop).cost ∧
              (k' < k → c.cost < (leg'.candidate r.parameters m'.mode c.stop).cost) := by
  have hlocated : Located t [r] := located_of_build hbuild fun a ha b hb _ => by
    rw [List.mem_singleton.mp ha, List.mem_singleton.mp hb]
  have hcurrent : i.Current t [r] keeps store := fun key leg hkeeps =>
    absurd hkeeps (hempty key leg)
  rcases candidates_eq_offerAll hselection (fun m _ =>
    trusts_current hstore hlocated (List.mem_singleton.mpr rfl) m) hcurrent generator with
    ⟨store', hfound⟩
  rw [← map_fst_numberedOffers] at hfound
  have hcheapest := Found.cheapestOf_offerAll (i.numberedOffers t r) (i.pairwise_numberedOffers t r)
  refine ⟨_, store', hfound, hcheapest.sorted, fun index => ?_, fun c hc => ?_⟩
  · constructor
    · rintro ⟨c, hc, rfl⟩
      rcases hcheapest.cheapest c hc with ⟨k, hk⟩
      rcases mem_numberedOffers_iff.mp hk.offered with ⟨m, hm, hoffer⟩
      rcases mem_offers_iff_applies.mp hoffer with ⟨stop, leg, hstop, happlies, -⟩
      exact ⟨m, List.mem_of_getElem? hm, stop, leg, hstop, happlies⟩
    · rintro ⟨m, hm, stop, leg, hstop, happlies⟩
      rcases List.getElem?_of_mem hm with ⟨k, hk⟩
      exact hcheapest.complete (leg.candidate r.parameters m.mode index, k)
        (mem_numberedOffers_iff.mpr ⟨m, hk,
          mem_offers_iff_applies.mpr ⟨stop, leg, hstop, happlies, rfl⟩⟩)
  · rcases hcheapest.cheapest c hc with ⟨k, hk⟩
    rcases mem_numberedOffers_iff.mp hk.offered with ⟨m, hm, hoffer⟩
    rcases mem_offers_iff_applies.mp hoffer with ⟨stop, leg, hstop, happlies, heq⟩
    have hreported : leg.ReportedBy r.parameters m.mode c :=
      heq ▸ leg.reportedBy_candidate r.parameters m.mode c.stop
    refine ⟨k, m, stop, leg, hm, hstop, happlies, heq, hreported, ?_⟩
    intro k' m' leg' hm' happlies'
    have hoffer' : (leg'.candidate r.parameters m'.mode c.stop, k') ∈ i.numberedOffers t r :=
      mem_numberedOffers_iff.mpr ⟨m', hm',
        mem_offers_iff_applies.mpr ⟨stop, leg', hstop, happlies', rfl⟩⟩
    exact ⟨hk.least _ hoffer' rfl, fun hlt => hk.first _ hoffer' rfl hlt⟩

end Intermodal

namespace Sample

/-- A stop close to home, and one with racks. -/
def rackStops : List (Edit ℚ) :=
  [Edit.addStop ⟨⟨"N"⟩, "N", ⟨50, 0⟩, ⟨[]⟩⟩,
    Edit.addStop ⟨⟨"R"⟩, "R", ⟨300, 0⟩, ⟨[("racks", "yes")]⟩⟩]

/-- Walking, a scooter for members, and two kinds of bicycles that are left at racks. All
    vehicles are equally fast. -/
def walkOrRide : Intermodal ℚ :=
  let racks : AttributeFilter := ⟨"racks", "yes"⟩
  { modes := {
      modes := [⟨Mode.walk, 1000, false, none, none⟩,
        ⟨⟨"scooter"⟩, 1000, true, none, some ⟨"member", "yes"⟩⟩,
        ⟨⟨"bike"⟩, 1000, true, some racks, some ⟨"cycles", "yes"⟩⟩,
        ⟨⟨"cargo_bike"⟩, 1000, true, some racks, none⟩]
      selection := .leastCostPerStop }
    routers := ⟨[("walk", ⟨1, 1, none, none⟩), ("bike", ⟨5, 1, some 60, some 30⟩),
      ("cargo_bike", ⟨5, 1, some 60, some 30⟩), ("scooter", ⟨5, 1, none, none⟩)]⟩ }

/-- Leaving home as someone who cycles and is not a member. -/
def cycling : AccessRequest ℚ := { leavingHome with traveller := ⟨[("cycles", "yes")]⟩ }

end Sample

open Sample in
/-- It is a short walk to one of the stops, and a ride of 60 seconds between two stages to the
    other one. The scooter would be the cheapest at both, but is for members. Of the bicycles,
    which may only be left at the second stop, the first one listed counts. -/
theorem Intermodal.candidates_cheapest_walkOrRide : ∃ found store,
    walkOrRide.candidates (Draft.ofEdits rackStops).assemble cycling (LegCache.ofCapacity 1)
        (Keystream.ofSeed 0) = (found, store, Keystream.ofSeed 0) ∧
      found.map (fun c => (c.stop, c.time, c.distance, c.cost, c.mode))
        = [(0, 50, 50, 50, Mode.nonNetworkWalk), (1, 60 + 90, 300, 150, ⟨"bike"⟩)] ∧
      found.Pairwise (·.stop < ·.stop) ∧
      ∀ index, (∃ c ∈ found, c.stop = index) ↔ ∃ m ∈ walkOrRide.modes.modes, ∃ stop leg,
        (Draft.ofEdits rackStops).assemble.stops[index]? = some stop ∧
          walkOrRide.Applies cycling m stop leg := by
  have hanswer : (walkOrRide.candidates (Draft.ofEdits rackStops).assemble cycling
      (LegCache.ofCapacity 1) (Keystream.ofSeed 0)).1.map
        (fun c => (c.stop, c.time, c.distance, c.cost, c.mode))
          = [(0, 50, 50, 50, Mode.nonNetworkWalk), (1, 60 + 90, 300, 150, ⟨"bike"⟩)] := by
    decide +kernel
  have hbuild : (Draft.ofEdits rackStops).build = .ok (Draft.ofEdits rackStops).assemble :=
    build_eq_ok (by decide +kernel)
  rcases Intermodal.candidates_cheapest LegCache.faithful hbuild (i := walkOrRide) rfl
    cycling (LegCache.get?_ofCapacity 1) (Keystream.ofSeed 0) with
    ⟨found, store, hfound, hsorted, hcomplete, -⟩
  rw [hfound] at hanswer
  exact ⟨found, store, hfound, hanswer, hsorted, hcomplete⟩

end Journey
