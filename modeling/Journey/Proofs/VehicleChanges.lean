import Journey.Proofs.Sample
import Journey.Proofs.Search.Moments
import Journey.Proofs.Search.Telling
import Journey.Proofs.Search.Totality
import Journey.Proofs.Timetable.Chronology

/-!
# Changes of Vehicle

How the rides of an itinerary follow one another.

A transfer takes the minimal transfer time and is counted. But a scan boards from
whatever label a route-stop holds, and that may be a ride of the same route which
an earlier round has left there. Then the second ride is on the vehicle that was
left, or on one before it that is still standing at the stop: a change that takes
no transfer time and is not counted. `Follow` tells the two kinds apart, and
there is no third.

## Main definitions

* `Ride.Rejoins`: A ride on a vehicle that stands where the ride before ended.
* `Itinerary.Follow`: Rides one after the other, with the number of transfers
  between them and of changes that are none.
* `Label.RiddenAs`: The ride of an itinerary that ends at a label.
* `Label.Reached`: Where the rides told up to a label have led.

## Theorems

* `Label.RiddenAs.rejoins`: Boarding straight from a ride rejoins its route.
* `Workspace.Told.reached`: The rides told up to a label follow one another.
* `Engine.InService.follow_rides`: The rides of an itinerary follow one another,
  and its transfers are those between them, and perhaps one after the last ride.
-/

namespace Journey

variable {K : Type} [Field K] [LinearOrder K]

/-- A ride on a vehicle of the same route that stands where the ride before ended:
    the vehicle that was left, or one that came before it. -/
structure Ride.Rejoins (t : Timetable K) (r r' : Ride K) : Prop where
  route : r'.route = r.route
  stop : r'.origin = r.target
  onward : r.arrivalTime ≤ r'.departureTime
  vehicles : ∃ i d d' row row', t.trips[d]? = some row ∧ row.id = r.trip ∧
    t.trips[d']? = some row' ∧ row'.id = r'.trip ∧ d' ≤ d ∧ t.Serves d i ∧ t.Serves d' i ∧
    t.arrival? d i = some r.arrivalTime ∧ t.departure? d' i = some r'.departureTime

namespace Itinerary

/-- Rides one after the other. The first number is that of the transfers between
    them, each of which takes the minimal transfer time at least, and the second
    one that of the changes that are no transfers. -/
inductive Follow (t : Timetable K) (p : Parameters K) : List (Ride K) → Nat → Nat → Prop where
  | none : Follow t p [] 0 0
  | first (r : Ride K) : Follow t p [r] 0 0
  | transfer {rides : List (Ride K)} {r r' : Ride K} {n m : Nat}
      (before : Follow t p (rides ++ [r]) n m)
      (takes : r.arrivalTime + p.minTransferTime ≤ r'.departureTime) :
      Follow t p (rides ++ [r] ++ [r']) (n + 1) m
  | rejoin {rides : List (Ride K)} {r r' : Ride K} {n m : Nat}
      (before : Follow t p (rides ++ [r]) n m) (rejoins : r.Rejoins t r') :
      Follow t p (rides ++ [r] ++ [r']) n (m + 1)

-- Between two consecutive rides there is a change of one kind or the other.
theorem Follow.length {t : Timetable K} {p : Parameters K} {rides : List (Ride K)} {n m : Nat}
    (h : Follow t p rides n m) : rides.length ≤ n + m + 1 := by
  induction h with
  | none => exact Nat.zero_le _
  | first r => exact Nat.le_refl _
  | transfer before takes ih =>
      rw [List.length_append, List.length_singleton]
      omega
  | rejoin before rejoins ih =>
      rw [List.length_append, List.length_singleton]
      omega

end Itinerary

namespace Label

variable {t : Timetable K} {q : SearchQuery K} {l m : Label K}

/-- The ride of an itinerary that ends at a label. -/
structure RiddenAs (t : Timetable K) (l : Label K) (r : Ride K) : Prop where
  time : r.arrivalTime = l.time
  target : ∃ stop, t.LiesAt l.routeStop stop ∧ r.target = stop.id
  route : ∃ route, t.routeOf? l.routeStop = some route ∧ r.route = route.id
  trip : ∃ d row, t.trips[d]? = some row ∧ row.id = r.trip ∧ t.Serves d l.routeStop ∧
    t.arrival? d l.routeStop = some l.time

/-- Where the rides told up to a label have led, and how many transfers and other
    changes there were. -/
inductive Reached (t : Timetable K) (p : Parameters K) (l : Label K) :
    List (Ride K) → Nat → Nat → Prop where
  /-- There was no ride yet. -/
  | access (hno : l.isRide = false) (transfers : l.transfers = 0) : Reached t p l [] 0 0
  /-- The last ride ends at the label. -/
  | ride {rides : List (Ride K)} {r : Ride K} {n k : Nat} (hride : l.isRide = true)
      (follow : Itinerary.Follow t p (rides ++ [r]) n k) (ridden : l.RiddenAs t r)
      (transfers : l.transfers = n) : Reached t p l (rides ++ [r]) n k
  /-- A transfer from the last ride ends at the label. -/
  | transfer {rides : List (Ride K)} {r : Ride K} {n k : Nat} (htransfer : l.isTransfer = true)
      (follow : Itinerary.Follow t p (rides ++ [r]) n k)
      (takes : r.arrivalTime + p.minTransferTime ≤ l.time) (transfers : l.transfers = n + 1) :
      Reached t p l (rides ++ [r]) n k

-- However a label was reached, the rides up to it follow one another, and a
-- transfer that is not between two of them can only be the last thing.
theorem Reached.follow {p : Parameters K} {rides : List (Ride K)} {n k : Nat}
    (h : l.Reached t p rides n k) :
    Itinerary.Follow t p rides n k ∧
      (l.transfers = n ∨ l.isTransfer = true ∧ l.transfers = n + 1) := by
  cases h with
  | access hride transfers => exact ⟨Itinerary.Follow.none, Or.inl transfers⟩
  | ride hride follow ridden transfers => exact ⟨follow, Or.inl transfers⟩
  | transfer htransfer follow takes transfers => exact ⟨follow, Or.inr ⟨htransfer, transfers⟩⟩

omit [Field K] [LinearOrder K] in
theorem not_isTransfer_of_isRide (h : l.isRide = true) : l.isTransfer ≠ true := by
  unfold isRide at h
  unfold isTransfer
  cases hstep : l.step <;> simp_all [Step.isRide, Step.isTransfer]

variable [IsStrictOrderedRing K]

-- A walk from where the last ride ended.
theorem Reached.walk {p : Parameters K} {rides : List (Ride K)} {n k : Nat}
    (h : m.Reached t p rides n k) (hride : m.isRide = true) (hl : l.isTransfer = true)
    {duration : K} (hduration : p.minTransferTime ≤ duration) (htime : l.time = m.time + duration)
    (htransfers : l.transfers = m.transfers + 1) : l.Reached t p rides n k := by
  cases h with
  | access hno => exact absurd hride (by simp [hno])
  | ride _ follow ridden transfers =>
      refine Reached.transfer hl follow ?_ (by rw [htransfers, transfers])
      rw [ridden.time, htime]
      linarith
  | transfer hno => exact absurd hno (not_isTransfer_of_isRide hride)

/-- A ride that is boarded where the one before ended, straight from it, rejoins
    its route: the vehicle that was left can still be caught, so the next one is
    that vehicle or an earlier one. -/
theorem RiddenAs.rejoins (hw : t.WellFormed) (hc : t.Chronological) {r r' : Ride K}
    (h : m.RiddenAs t r) (h' : l.RiddenAs t r') (hahead : t.Ahead m.routeStop l.routeStop)
    {d : Nat} {row : Trip K} (hnext : t.nextTrip? m.routeStop m.time = some (some d))
    (hboarding : t.departure? d m.routeStop = some r'.departureTime)
    (hrow : t.trips[d]? = some row) (htrip : row.id = r'.trip) {origin : Stop K}
    (horigin : t.LiesAt m.routeStop origin) (hstop : r'.origin = origin.id) : r.Rejoins t r' := by
  rcases h.trip with ⟨d₀, row₀, hrow₀, htrip₀, hserves, harrival⟩
  rcases hserves.exists_departure hw with ⟨left, hleft⟩
  -- The vehicle that was left has not gone on before it arrived.
  rcases Timetable.nextTrip?_le hw hserves hleft (hc.arrival_le_departure harrival hleft) with
    ⟨d', hd', hle⟩
  rw [hnext, Option.some.injEq, Option.some.injEq] at hd'
  subst hd'
  refine
    { route := ?_
      stop := ?_
      onward := ?_
      vehicles := ⟨m.routeStop, d₀, d, row₀, row, hrow₀, htrip₀, hrow, htrip, hle, hserves,
        (Timetable.nextTrip?_some hnext).1, by rw [h.time]; exact harrival, hboarding⟩ }
  · rcases h.route with ⟨route, hroute, heq⟩
    rcases h'.route with ⟨route', hroute', heq'⟩
    rw [← hahead.routeOf?_eq, hroute, Option.some.injEq] at hroute'
    rw [heq, heq', hroute']
  · rcases h.target with ⟨target, ⟨s, hs, htarget⟩, heq⟩
    rcases horigin with ⟨s', hs', horigin⟩
    rw [hs, Option.some.injEq] at hs'
    subst hs'
    rw [htarget, Option.some.injEq] at horigin
    rw [hstop, heq, horigin]
  · rw [h.time]
    exact Timetable.le_departure_of_nextTrip? hnext hboarding

-- Boarding after a transfer, or straight from a ride, or for the first time.
theorem Reached.board (hw : t.WellFormed) (hc : t.Chronological) {p : Parameters K}
    {rides : List (Ride K)} {n k : Nat} (h : m.Reached t p rides n k) {r' : Ride K}
    (hride : l.isRide = true) (h' : l.RiddenAs t r')
    (hahead : t.Ahead m.routeStop l.routeStop) {d : Nat} {row : Trip K}
    (hnext : t.nextTrip? m.routeStop m.time = some (some d))
    (hboarding : t.departure? d m.routeStop = some r'.departureTime)
    (hrow : t.trips[d]? = some row) (htrip : row.id = r'.trip) {origin : Stop K}
    (horigin : t.LiesAt m.routeStop origin) (hstop : r'.origin = origin.id)
    (htransfers : l.transfers = m.transfers) :
    ∃ n k, l.Reached t p (rides ++ [r']) n k := by
  cases h with
  | access _ transfers =>
      exact ⟨0, 0, Reached.ride hride (Itinerary.Follow.first r') h' (htransfers.trans transfers)⟩
  | @ride rides r n k _ follow ridden transfers =>
      have hrejoins :=
        ridden.rejoins hw hc h' hahead hnext hboarding hrow htrip horigin hstop
      exact ⟨n, k + 1, Reached.ride hride (Itinerary.Follow.rejoin follow hrejoins) h'
        (htransfers.trans transfers)⟩
  | @transfer rides r n k _ follow takes transfers =>
      have hcaught := Timetable.le_departure_of_nextTrip? hnext hboarding
      exact ⟨n + 1, k, Reached.ride hride
        (Itinerary.Follow.transfer follow (le_trans takes hcaught)) h' (htransfers.trans transfers)⟩

end Label

namespace Workspace

variable [IsStrictOrderedRing K] [Planar K] {t : Timetable K} {q : SearchQuery K} {l : Label K}
  {p : Progress K}

/-- The rides told up to a label follow one another. -/
theorem Told.reached (h : Told t q l p) (hw : t.WellFormed) (hc : t.Chronological) :
    ∃ n k, l.Reached t q.parameters (p.legs.filterMap Leg.ride?) n k := by
  induction h with
  | access step candidate time cost transfers lies =>
      exact ⟨0, 0, Label.Reached.access (by rw [Label.isRide, step]; rfl) transfers⟩
  | @ride m l p trip boardingTime vehicleArrival enter origin target route row before step next
      boarding vehicle enters ahead time cost transfers lies lies' hroute hrow ih =>
      rcases ih with ⟨n, k, hreached⟩
      have hserves := (Timetable.nextTrip?_some next).1.ahead ahead
      rw [Progress.addRide, List.filterMap_append]
      exact hreached.board hw hc (by rw [Label.isRide, step]; rfl)
        ⟨rfl, ⟨target, lies', rfl⟩, ⟨route, hroute, rfl⟩, trip, row, hrow, rfl, hserves, time⟩
        ahead next boarding hrow rfl lies rfl transfers
  | @walk m l p f duration cost s s' origin target before hride step takes time hcost transfers
      left entered elsewhere ih =>
      rcases ih with ⟨n, k, hreached⟩
      rw [Scalar.larger_eq_max] at takes
      rw [Progress.addWalk, Progress.addConnection, List.filterMap_append]
      rw [List.filterMap_cons_none rfl, List.filterMap_nil, List.append_nil]
      exact ⟨n, k, hreached.walk hride (by rw [Label.isTransfer, step]; rfl)
        (takes ▸ le_max_right _ _) time transfers⟩
  | @change m l p f duration cost s before hride step takes time hcost transfers left entered ih =>
      rcases ih with ⟨n, k, hreached⟩
      rw [Scalar.larger_eq_max] at takes
      exact ⟨n, k, hreached.walk hride (by rw [Label.isTransfer, step]; rfl)
        (takes ▸ le_max_right _ _) time transfers⟩

end Workspace

namespace Engine

variable [IsStrictOrderedRing K] [Planar K] [MarkerTree K] {t : Timetable K}
  {policy : TransferPolicy K} {e e' : Engine K} {q : SearchQuery K} {it : Itinerary K}

/-- The rides of an itinerary follow one another, with counted transfers that take
    the minimal transfer time or with changes to a vehicle of the same route that
    stands at the stop. Beyond the transfers between its rides an itinerary counts
    at most one, after the last ride. -/
theorem InService.follow_rides {d : Draft K} (hd : d.build = .ok t) (h : InService t policy e)
    (hsearch : e.search? q = some (e', some it)) :
    ∃ n k, Itinerary.Follow t q.parameters it.rides n k ∧ it.rides.length ≤ n + k + 1 ∧
      (it.transfers = n ∨ it.transfers = n + 1) := by
  have hw := Draft.wellFormed_of_build hd
  rcases h.told hw hsearch with ⟨a, p, c, stop, -, -, htold, -, -, -, rfl⟩
  rcases htold.reached hw (Draft.chronological_of_build hd) with ⟨n, k, hreached⟩
  rcases hreached.follow with ⟨hfollow, htransfers⟩
  -- The egress is no ride.
  have hrides : (⟨p.addEgress stop c, a.totalCost, a.label.transferCost, a.label.transfers⟩ :
      Itinerary K).rides = p.legs.filterMap Leg.ride? := by
    rw [Itinerary.rides, Progress.addEgress, List.filterMap_append, List.filterMap_cons_none rfl,
      List.filterMap_nil, List.append_nil]
  rw [hrides]
  exact ⟨n, k, hfollow, hfollow.length, htransfers.imp id And.right⟩

end Engine

namespace Sample

/-- A line whose vehicles stand at the third of its stops for long enough to be
    overtaken there, and a line that leads to its first stop. -/
def overtaking : Draft ℚ :=
  network ["P", "A", "J", "M", "Q"]
    [{ id := ⟨"one"⟩
       line := ⟨"one"⟩
       mode := ⟨"bus"⟩
       calls := [⟨⟨"P"⟩, -10, -10⟩, ⟨⟨"A"⟩, 0, 0⟩, ⟨⟨"J"⟩, 10, 100⟩, ⟨⟨"M"⟩, 110, 110⟩]
       trips := [⟨"early", 0⟩, ⟨"late", 50⟩] },
      line "two" [("Q", 0), ("P", 10)] [20]] []

/-- To the end of the line, from its second stop after its first vehicle has left,
    or by the other line, if transfers take a minute. -/
def behindEarly : SearchQuery ℚ :=
  { query [{ candidate 1 0 with time := 20 }, candidate 4 0] [candidate 3 0] 1 with
    parameters := { parameters with minTransferTime := 60 } }

theorem build_overtaking : overtaking.build = .ok overtaking.assemble :=
  build_eq_ok (by decide +kernel)

-- The late vehicle is left at the third stop, where the early one still stands.
theorem search?_overtaking : ∃ e' it r r',
    (Engine.new overtaking.assemble (TransferPolicy.flat 0)).search? behindEarly
      = some (e', some it) ∧ it.rides = [r, r'] ∧ it.transfers = 0 ∧
      r.trip = "late" ∧ r'.trip = "early" ∧ r.arrivalTime = 60 ∧ r'.departureTime = 100 := by
  have hanswer : ((Engine.new overtaking.assemble (TransferPolicy.flat 0)).search?
      behindEarly).map (fun x => x.2.map fun it =>
        (it.transfers, it.rides.map fun r => (r.trip, r.departureTime, r.arrivalTime)))
        = some (some (0, [("late", 50, 60), ("early", 100, 110)])) := by decide +kernel
  rcases Option.map_eq_some_iff.mp hanswer with ⟨⟨e', found⟩, hsearch, hfound⟩
  rcases Option.map_eq_some_iff.mp hfound with ⟨it, rfl, hview⟩
  rw [Prod.mk.injEq] at hview
  rcases hview with ⟨htransfers, hrides⟩
  rcases List.map_eq_cons_iff.mp hrides with ⟨r, rest, hit, hr, hrest⟩
  rcases List.map_eq_singleton_iff.mp hrest with ⟨r', rfl, hr'⟩
  rw [Prod.mk.injEq, Prod.mk.injEq] at hr hr'
  exact ⟨e', it, r, r', hsearch, hit, htransfers, hr.1, hr'.1, hr.2.2, hr'.2.1⟩

end Sample

namespace Engine

open Sample

/-- Vehicles may be changed in less than the minimal transfer time, and without a
    transfer that is counted. -/
theorem InService.change_without_transfer :
    overtaking.build = .ok overtaking.assemble ∧ behindEarly.Within overtaking.assemble ∧
      behindEarly.parameters.validate = .ok () ∧
      (∀ c ∈ behindEarly.access ++ behindEarly.egress, 0 ≤ c.time ∧ 0 ≤ c.cost) ∧
      ∃ e' it r r', (Engine.new overtaking.assemble (TransferPolicy.flat 0)).search? behindEarly
        = some (e', some it) ∧ it.rides = [r, r'] ∧ r.trip ≠ r'.trip ∧
        r'.departureTime < r.arrivalTime + behindEarly.parameters.minTransferTime ∧
        it.transfers + 1 < it.rides.length := by
  refine ⟨build_overtaking, ⟨by decide +kernel, by decide +kernel⟩, by decide +kernel,
    by decide +kernel, ?_⟩
  rcases search?_overtaking with
    ⟨e', it, r, r', hsearch, hrides, htransfers, hr, hr', harrival, hdeparture⟩
  refine ⟨e', it, r, r', hsearch, hrides, by rw [hr, hr']; decide, ?_, ?_⟩
  · rw [harrival, hdeparture]
    decide +kernel
  · rw [hrides, htransfers]
    exact Nat.lt_succ_self 1

/-- There the second ride rejoins the route of the first. -/
theorem InService.follow_rides_overtaking : ∃ e' it n k,
    (Engine.new overtaking.assemble (TransferPolicy.flat 0)).search? behindEarly
      = some (e', some it) ∧ it.rides.length = 2 ∧
      Itinerary.Follow overtaking.assemble behindEarly.parameters it.rides n k ∧
      it.rides.length ≤ n + k + 1 ∧ (it.transfers = n ∨ it.transfers = n + 1) := by
  rcases search?_overtaking with ⟨e', it, r, r', hsearch, hrides, -⟩
  rcases InService.follow_rides build_overtaking InService.new hsearch with ⟨n, k, hfollow⟩
  exact ⟨e', it, n, k, hsearch, by rw [hrides]; rfl, hfollow⟩

end Engine

end Journey
