import Mathlib.Tactic.Ring
import Journey.Proofs.Access.Offers
import Journey.Proofs.Measuring
import Journey.Proofs.Sample
import Journey.Proofs.Timetable.Assembly
import Journey.Proofs.Timetable.Edits

/-!
# Kept Legs

Why it does not show which legs are kept.

A leg that was found for one request answers later ones: for other times of departure, for
other travellers with other parameters, and for the way back. That nobody notices has three
reasons. A leg depends on the mode and on the two places and on nothing else, and a stop is
told by its identifier, since no two stops of a timetable share one. A leg that is turned
round changes its stages, and only what they take together counts. And the distance there is
the distance back. The last two are the laws of `Planar.Symmetric`, which hold exactly and in
floating point alike.

What a store keeps and what it drops is left open. All that is asked of it is that it
answers with what it was given: `LegStore.Faithful` names what it keeps and says that
nothing gets into it but legs that were offered under the same key. So a store may be of any
size and may forget whatever it likes whenever it likes. What is kept is then `Current`: it
is what the router would find now. That is the invariant of every request.

## Main definitions

* `LegStore.Faithful`: A store that only answers with what it was given.
* `Intermodal.answers`: The answers to some requests, one after the other.
* `Intermodal.unrouted`: The same modes, with nothing kept.
* `Intermodal.Current`: Every leg that is kept is the one that would be found now.

## Theorems

* `LegCache.faithful`: A cache that is filled up once is such a store.
* `LegRouter.candidate_reversed`: A leg turned round makes the same candidate.
* `Intermodal.trusts_current`: A store in which every leg is current answers like new legs.
* `Intermodal.offers_unrouted`: A mode offers the same if nothing is kept.
* `Intermodal.candidates_unrouted`: The answer to a request does not depend on the store.
* `Intermodal.answers_unrouted`: Nor do the answers to many.
-/

namespace Journey

variable {α : Type} [Scalar α]

/-- A store that only answers with what it was given. What it keeps under which key is said
    by `keeps`, and it may drop anything at any time. -/
structure LegStore.Faithful {κ : Type} [LegStore κ α]
    (keeps : κ → LegKey → Option (AccessLeg α) → Prop) : Prop where
  /-- The answer is the given leg or a kept one. -/
  answer : ∀ store key leg, (route store key leg).1 = leg ∨ keeps store key (route store key leg).1
  /-- What is kept after an answer was kept before or has just been given. -/
  route : ∀ store key leg key' leg', keeps (route store key leg).2 key' leg' →
    keeps store key' leg' ∨ key' = key ∧ leg' = leg
  /-- Counting puts nothing into the store. -/
  count : ∀ store key leg, keeps (count store) key leg → keeps store key leg

namespace LegCache

omit [Scalar α]

theorem get?_ofCapacity (capacity : Nat) (key : LegKey) (leg : Option (AccessLeg α)) :
    (ofCapacity capacity : LegCache α).get? key ≠ some leg :=
  (Option.some_ne_none leg).symm

-- What is kept after a leg was offered was kept before or has just been offered.
theorem get?_keep {c : LegCache α} {key key' : LegKey} {leg leg' : Option (AccessLeg α)}
    (h : (c.keep key leg).get? key' = some leg') :
    c.get? key' = some leg' ∨ key' = key ∧ leg' = leg := by
  unfold keep at h
  by_cases hroom : c.size < c.capacity
  · rw [if_pos hroom, get?, List.lookup_cons] at h
    by_cases hkey : key' = key
    · rw [hkey, beq_self_eq_true] at h
      exact Or.inr ⟨hkey, (Option.some.inj h).symm⟩
    · rw [beq_false_of_ne hkey] at h
      exact Or.inl h
  · rw [if_neg hroom] at h
    exact Or.inl h

/-- A cache that is filled up once only answers with what it was given. -/
theorem faithful :
    LegStore.Faithful fun (c : LegCache α) key leg => c.get? key = some leg := by
  refine ⟨fun c key leg => ?_, fun c key leg key' leg' h => ?_, fun _ _ _ h => h⟩
  · change (c.route key leg).1 = leg ∨ c.get? key = some (c.route key leg).1
    unfold route
    cases hget : c.get? key with
    | some found => exact Or.inr rfl
    | none => exact Or.inl rfl
  · change (c.route key leg).2.get? key' = some leg' at h
    unfold route at h
    cases hget : c.get? key with
    | some found =>
        rw [hget] at h
        exact Or.inl h
    | none =>
        rw [hget] at h
        exact get?_keep (c := c.count) h

end LegCache

namespace LegRouter

variable [Planar α]

/-- A leg turned round makes the same candidate as the leg for the other direction: it
    takes the same time, costs the same and is as long. -/
theorem candidate_reversed [Planar.Symmetric α] (router : LegRouter α)
    (p : Parameters α) (mode : Mode) (index : Nat) (origin target : Point α) :
    ((router.route? origin target).map AccessLeg.reversed).map (·.candidate p mode index) =
      (router.route? target origin).map (·.candidate p mode index) := by
  unfold route?
  split
  · simp only [Option.map_some, AccessLeg.candidate, AccessLeg.totalTime, AccessLeg.stageTime,
      AccessLeg.reversed, Planar.Symmetric.distance_comm origin target,
      Planar.Symmetric.add_comm (router.stageAfter.getD 0) (router.stageBefore.getD 0)]
  · rfl

end LegRouter

/-- The same mode, with no leg kept. -/
def AccessMode.unrouted {α : Type} (m : AccessMode α) : AccessMode α :=
  { m with routedOnNetwork := false }

section Fields

omit [Scalar α]

variable (m : AccessMode α)

@[simp] theorem AccessMode.unrouted_mode : m.unrouted.mode = m.mode := rfl

@[simp] theorem AccessMode.unrouted_maxRadius : m.unrouted.maxRadius = m.maxRadius := rfl

@[simp] theorem AccessMode.unrouted_stopFilter : m.unrouted.stopFilter = m.stopFilter := rfl

@[simp] theorem AccessMode.unrouted_travellerFilter :
    m.unrouted.travellerFilter = m.travellerFilter := rfl

end Fields

namespace Intermodal

/-- The same modes, with no leg kept. -/
def unrouted {α : Type} (i : Intermodal α) : Intermodal α :=
  { i with modes := { i.modes with modes := i.modes.modes.map AccessMode.unrouted } }

section Fields

omit [Scalar α]

variable (i : Intermodal α)

@[simp] theorem unrouted_routers : i.unrouted.routers = i.routers := rfl

@[simp] theorem unrouted_selection : i.unrouted.modes.selection = i.modes.selection := rfl

@[simp] theorem unrouted_modes :
    i.unrouted.modes.modes = i.modes.modes.map AccessMode.unrouted := rfl

end Fields

variable [Planar α] {κ κ' γ : Type} [LegStore κ α] [LegStore κ' α] [Generator γ]

/-- The answers to some requests, one after the other. What one leaves in the store is there
    for the next. -/
def answers [MarkerTree α] (i : Intermodal α) (t : Timetable α) :
    List (AccessRequest α) → κ → γ → List (Found α)
  | [], _, _ => []
  | r :: rest, store, generator =>
    let (found, store, generator) := i.candidates t r store generator
    found :: answers i t rest store generator

/-- Every leg that is kept is the one that its router would find now. -/
def Current (i : Intermodal α) (t : Timetable α) (requests : List (AccessRequest α))
    (keeps : κ → LegKey → Option (AccessLeg α) → Prop) (store : κ) : Prop :=
  ∀ key leg, keeps store key leg → ∀ router stop r, i.routers.get? key.mode.text = some router →
    stop ∈ t.stops → stop.id = key.stop → r ∈ requests → r.facility.id = key.facility →
      leg = router.route? stop.position r.facility.position

section Run

variable {i : Intermodal α} {t : Timetable α} {requests : List (AccessRequest α)}
  {keeps : κ → LegKey → Option (AccessLeg α) → Prop} {m : AccessMode α} {router : LegRouter α}
  {r : AccessRequest α}

/-- A timetable and some requests in which identifiers say which place is meant. -/
structure Located (t : Timetable α) (requests : List (AccessRequest α)) : Prop where
  stop : ∀ a ∈ t.stops, ∀ b ∈ t.stops, a.id = b.id → a = b
  facility : ∀ r ∈ requests, ∀ r' ∈ requests, r.facility.id = r'.facility.id →
    r.facility.position = r'.facility.position

-- Kept or new, what the store answers is the leg from the stop to the facility.
theorem route_current (hstore : LegStore.Faithful keeps) (hlocated : Located t requests)
    (hrouter : i.routers.get? m.mode.text = some router) (hr : r ∈ requests) {stop : Stop α}
    (hstop : stop ∈ t.stops) {store : κ} (hcurrent : i.Current t requests keeps store) :
    let offered := router.route? stop.position r.facility.position
    let answer := LegStore.route store ⟨m.mode, stop.id, r.facility.id⟩ offered
    answer.1 = offered ∧ i.Current t requests keeps answer.2 := by
  intro offered answer
  constructor
  · rcases hstore.answer store ⟨m.mode, stop.id, r.facility.id⟩ offered with heq | hkeeps
    · exact heq
    · exact hcurrent _ _ hkeeps router stop r hrouter hstop rfl hr rfl
  · intro key leg hkeeps router' stop' r' hrouter' hstop' hid hr' hfacility
    rcases hstore.route store _ offered key leg hkeeps with hbefore | ⟨rfl, rfl⟩
    · exact hcurrent key leg hbefore router' stop' r' hrouter' hstop' hid hr' hfacility
    · -- The key tells the router and both places.
      rw [hrouter, Option.some.injEq] at hrouter'
      rw [hlocated.stop stop' hstop' stop hstop hid, hlocated.facility r' hr' r hr hfacility,
        ← hrouter']

/-- A store in which every leg is current answers like new legs, and stays so. -/
theorem trusts_current (hstore : LegStore.Faithful keeps) (hlocated : Located t requests)
    (hr : r ∈ requests) (m : AccessMode α) : i.Trusts t r (i.Current t requests keeps) m := by
  intro router hrouter stop hstop store hcurrent
  unfold leg newLeg?
  by_cases hkept : m.routedOnNetwork = true
  · rw [if_pos hkept, if_pos hkept]
    rcases route_current hstore hlocated hrouter hr hstop hcurrent with ⟨hanswer, hafter⟩
    unfold keptLeg
    cases r.direction with
    | access =>
        exact ⟨congrArg (fun leg : Option (AccessLeg α) => leg.map AccessLeg.reversed) hanswer,
          hafter⟩
    | egress => exact ⟨hanswer, hafter⟩
  · rw [if_neg hkept, if_neg hkept]
    exact ⟨rfl, fun key leg hkeeps => hcurrent key leg (hstore.count store key leg hkeeps)⟩

-- Where nothing is kept, it does not matter what is in the store.
theorem trusts_unrouted (m : AccessMode α) :
    i.unrouted.Trusts t r (fun _ : κ => True) m.unrouted :=
  fun _ _ _ _ _ _ => ⟨rfl, trivial⟩

/-- A leg that would be kept makes the candidate of one found in the direction of travel. -/
theorem map_candidate_newLeg? [Planar.Symmetric α] (m : AccessMode α)
    (router : LegRouter α) (r : AccessRequest α) (stop : Stop α) (index : Nat) :
    (newLeg? m router r stop).map (·.candidate r.parameters m.mode index) =
      (directLeg? router r stop).map (·.candidate r.parameters m.mode index) := by
  unfold newLeg? directLeg?
  split
  · cases r.direction with
    | access => exact router.candidate_reversed _ _ _ _ _
    | egress => rfl
  · rfl

variable [MarkerTree α]

theorem offers_unrouted [Planar.Symmetric α] (i : Intermodal α) (t : Timetable α)
    (r : AccessRequest α) (m : AccessMode α) :
    i.unrouted.offers t r m.unrouted = i.offers t r m := by
  have hoffer : ∀ router, offerAt? m.unrouted router r = offerAt? m router r := by
    intro router
    funext stop
    unfold offerAt?
    rw [AccessMode.unrouted_stopFilter, map_candidate_newLeg? m]
    rfl
  unfold offers
  rw [AccessMode.unrouted_travellerFilter, AccessMode.unrouted_mode, AccessMode.unrouted_maxRadius,
    unrouted_routers]
  simp only [hoffer]

/-- The second run, which keeps no legs, has found the same, and what the first one keeps is
    current. -/
def Alike (i : Intermodal α) (t : Timetable α) (requests : List (AccessRequest α))
    (keeps : κ → LegKey → Option (AccessLeg α) → Prop) (state : Found α × κ)
    (state' : Found α × κ') : Prop :=
  state.1 = state'.1 ∧ i.Current t requests keeps state.2

theorem Alike.addMode [Planar.Symmetric α] (hstore : LegStore.Faithful keeps)
    (hlocated : Located t requests) (hr : r ∈ requests) (m : AccessMode α) {state : Found α × κ}
    {state' : Found α × κ'} (h : i.Alike t requests keeps state state') :
    i.Alike t requests keeps (i.addMode t r state m)
      (i.unrouted.addMode t r state' m.unrouted) := by
  rcases state with ⟨found, store⟩
  rcases state' with ⟨_, store'⟩
  rcases h with ⟨rfl, hcurrent⟩
  rcases (trusts_current hstore hlocated hr m).addMode_eq found hcurrent with ⟨hfound, hafter⟩
  have hfound' : (i.unrouted.addMode t r (found, store') m.unrouted).1 =
      Found.offerAll (i.unrouted.offers t r m.unrouted) found :=
    ((trusts_unrouted m).addMode_eq found trivial).1
  exact ⟨by rw [hfound, hfound', offers_unrouted], hafter⟩

/-- Two answers to one request: the same was found, the same was drawn, and what is kept is
    current. -/
def Agree (i : Intermodal α) (t : Timetable α) (requests : List (AccessRequest α))
    (keeps : κ → LegKey → Option (AccessLeg α) → Prop) (answer : Found α × κ × γ)
    (answer' : Found α × κ' × γ) : Prop :=
  answer.1 = answer'.1 ∧ answer.2.2 = answer'.2.2 ∧ i.Current t requests keeps answer.2.1

-- The same modes are drawn, since the same ones turn out to have no candidates.
theorem drawModes_unrouted [Planar.Symmetric α] (hstore : LegStore.Faithful keeps)
    (hlocated : Located t requests) (hr : r ∈ requests) (attempts : Nat) :
    ∀ (store : κ) (store' : κ') (generator : γ), i.Current t requests keeps store →
      i.Agree t requests keeps (i.drawModes t r attempts store generator)
        (i.unrouted.drawModes t r attempts store' generator) := by
  induction attempts with
  | zero => exact fun _ _ _ hcurrent => ⟨rfl, rfl, hcurrent⟩
  | succ attempts ih =>
      intro store store' generator hcurrent
      unfold drawModes
      rw [unrouted_modes, List.length_map]
      rcases Generator.draw generator i.modes.modes.length with ⟨choice, generator⟩
      dsimp only
      rw [List.getElem?_map]
      have hdrawn : ∀ (a : Found α × κ) (b : Found α × κ'), i.Alike t requests keeps a b →
          i.Agree t requests keeps
            (if a.1.isEmpty then i.drawModes t r attempts a.2 generator else (a.1, a.2, generator))
            (if b.1.isEmpty then i.unrouted.drawModes t r attempts b.2 generator
              else (b.1, b.2, generator)) := by
        rintro ⟨found, store⟩ ⟨_, store'⟩ ⟨rfl, hcurrent⟩
        split
        · exact ih store store' generator hcurrent
        · exact ⟨rfl, rfl, hcurrent⟩
      have hnone : i.Alike t requests keeps ([], store) (([], store') : Found α × κ') :=
        ⟨rfl, hcurrent⟩
      cases i.modes.modes[choice]? with
      | none => exact hdrawn _ _ hnone
      | some m => exact hdrawn _ _ (hnone.addMode hstore hlocated hr m)

/-- The answer to a request does not depend on the store, as long as what it keeps is
    current. -/
theorem candidates_unrouted [Planar.Symmetric α] (hstore : LegStore.Faithful keeps)
    (hlocated : Located t requests) (hr : r ∈ requests) {store : κ}
    (hcurrent : i.Current t requests keeps store) (store' : κ') (generator : γ) :
    i.Agree t requests keeps (i.candidates t r store generator)
      (i.unrouted.candidates t r store' generator) := by
  unfold candidates
  rw [unrouted_selection, unrouted_modes]
  cases i.modes.selection with
  | leastCostPerStop =>
      have hmodes : i.Alike t requests keeps (i.modes.modes.foldl (i.addMode t r) ([], store))
          (i.modes.modes.foldl (fun state m => i.unrouted.addMode t r state m.unrouted)
            ([], store')) :=
        List.foldl_rel ⟨rfl, hcurrent⟩ fun m _ _ _ h => h.addMode hstore hlocated hr m
      rw [List.foldl_map]
      exact ⟨hmodes.1, rfl, hmodes.2⟩
  | randomSingleMode =>
      rw [List.length_map]
      exact drawModes_unrouted hstore hlocated hr _ store store' generator hcurrent

-- What is kept stays current from one request to the next.
theorem answers_eq [Planar.Symmetric α] (hstore : LegStore.Faithful keeps)
    (hlocated : Located t requests) (rest : List (AccessRequest α)) :
    ∀ (store : κ) (store' : κ') (generator : γ), (∀ r ∈ rest, r ∈ requests) →
      i.Current t requests keeps store →
        i.answers t rest store generator = i.unrouted.answers t rest store' generator := by
  induction rest with
  | nil => exact fun _ _ _ _ _ => rfl
  | cons r rest ih =>
      intro store store' generator hrest hcurrent
      have hagree := candidates_unrouted hstore hlocated (hrest r List.mem_cons_self) hcurrent
        store' generator
      unfold answers
      generalize i.candidates t r store generator = answer at hagree
      generalize i.unrouted.candidates t r store' generator = answer' at hagree
      rcases answer with ⟨found, store, generator⟩
      rcases answer' with ⟨_, store', _⟩
      rcases hagree with ⟨rfl, rfl, hcurrent⟩
      exact congrArg (found :: ·)
        (ih store store' generator (fun r hr => hrest r (List.mem_cons_of_mem _ hr)) hcurrent)

end Run

/-- The stops of a timetable are told apart by their identifiers. -/
theorem located_of_build [MarkerTree α] {edits : List (Edit α)} {t : Timetable α}
    {requests : List (AccessRequest α)} (hbuild : (Draft.ofEdits edits).build = .ok t)
    (hfacility : ∀ r ∈ requests, ∀ r' ∈ requests, r.facility.id = r'.facility.id →
      r.facility.position = r'.facility.position) : Located t requests := by
  rcases Draft.build_eq_ok hbuild with ⟨-, rfl⟩
  refine ⟨fun a ha b hb hid => ?_, hfacility⟩
  exact List.inj_on_of_nodup_map (Draft.distinct_ofEdits edits) (Array.mem_toList_iff.mpr ha)
    (Array.mem_toList_iff.mpr hb) hid

/-- It does not show which legs are kept: as long as facilities of one identifier are at one
    place, the answers to any requests are those of the same modes with nothing kept, and a
    leg turned round makes the candidate of the leg for the other direction. -/
theorem answers_unrouted [MarkerTree α] {keeps : κ → LegKey → Option (AccessLeg α) → Prop}
    [Planar.Symmetric α] (hstore : LegStore.Faithful keeps) (i : Intermodal α)
    {edits : List (Edit α)} {t : Timetable α} (hbuild : (Draft.ofEdits edits).build = .ok t)
    (requests : List (AccessRequest α))
    (hfacility : ∀ r ∈ requests, ∀ r' ∈ requests, r.facility.id = r'.facility.id →
      r.facility.position = r'.facility.position)
    (store : κ) (hempty : ∀ key leg, ¬ keeps store key leg) (store' : κ') (generator : γ) :
    i.answers t requests store generator = i.unrouted.answers t requests store' generator ∧
      ∀ (router : LegRouter α) (p : Parameters α) (mode : Mode) (index : Nat)
        (stop facility : Point α),
        ((router.route? stop facility).map AccessLeg.reversed).map (·.candidate p mode index) =
          (router.route? facility stop).map (·.candidate p mode index) := by
  refine ⟨?_, fun router => router.candidate_reversed⟩
  exact answers_eq hstore (located_of_build hbuild hfacility) requests store store' generator
    (fun _ hr => hr) fun key leg hkeeps => absurd hkeeps (hempty key leg)

end Intermodal

namespace Sample

/-- A stop where bicycles can be left. -/
def parking : Stop ℚ := ⟨⟨"S"⟩, "S", ⟨300, 0⟩, ⟨[]⟩⟩

/-- The timetable of that stop. -/
def curb : Timetable ℚ := (Draft.ofEdits [Edit.addStop parking]).assemble

/-- Riding a bicycle, which has to be fetched and left. -/
def bicycles : Intermodal ℚ :=
  { modes := {
      modes := [⟨⟨"bike"⟩, 1000, true, none, none⟩]
      selection := .leastCostPerStop }
    routers := ⟨[("bike", ⟨5, 1, some 60, some 30⟩)]⟩ }

/-- Going away from home and coming back. -/
def thereAndBack : List (AccessRequest ℚ) :=
  [⟨⟨⟨"home"⟩, ⟨0, 0⟩⟩, .egress, 0, parameters, ⟨[]⟩⟩,
    ⟨⟨⟨"home"⟩, ⟨0, 0⟩⟩, .access, 100, parameters, ⟨[]⟩⟩]

/-- Going away from home. -/
def leavingHome : AccessRequest ℚ := ⟨⟨⟨"home"⟩, ⟨0, 0⟩⟩, .access, 0, parameters, ⟨[]⟩⟩

/-- The sample distances are the same in both directions. -/
instance : Planar.Symmetric ℚ := by
  refine ⟨add_comm, fun p q => ?_⟩
  unfold Point.distance
  change |p.x - q.x| + |p.y - q.y| = |q.x - p.x| + |q.y - p.y|
  rw [abs_sub_comm p.x, abs_sub_comm p.y]

-- The second request is answered with the leg that the first one left.
theorem answers_thereAndBack :
    (bicycles.answers curb thereAndBack (LegCache.ofCapacity 1) (Keystream.ofSeed 0)).map
        (·.map (·.time)) = [[150], [150]] ∧
      bicycles.answers curb thereAndBack (LegCache.ofCapacity 1) (Keystream.ofSeed 0) =
        bicycles.unrouted.answers curb thereAndBack (LegCache.ofCapacity 1)
          (Keystream.ofSeed 0) := by
  refine ⟨by decide +kernel, ?_⟩
  have hbuild : (Draft.ofEdits [Edit.addStop parking]).build = .ok curb :=
    build_eq_ok (by decide +kernel)
  exact (Intermodal.answers_unrouted LegCache.faithful bicycles hbuild thereAndBack
    (by decide +kernel) _ (LegCache.get?_ofCapacity 1) _ _).1

end Sample

end Journey
