import Journey.Proofs.Timetable.WellFormed
import Journey.Search.Rounds

/-!
# Legal Labels

When a label is a step that a traveller can make.

A label says how a route-stop was reached and names the label it extends, and
`IsLegal` says that the timetable, the query and that label bear it out: an
access label is what its candidate says, a ride is on the next vehicle of a
route that the label before it can board, and a walk follows a footpath from a
ride and costs what the transfer policy answers. Legality is judged against the
labels that were there when the label was stored, because a policy may look at
all of them.

The scan of a route carries the vehicle held from stop to stop. `Boards` is what
it has to know about it, namely the label from which it was boarded, and
`Boards.isLegal` turns that into a legal ride wherever the vehicle is left.

## Main definitions

* `Label.IsLegal`: The label extends an earlier one as the timetable allows.
* `Boarding.Boards`: A vehicle held was boarded from a label.

## Theorems

* `Label.isLegal_ofAccess`, `Boarding.Boards.isLegal`, `Departing.isLegal_walk?`:
  The labels that a search offers are legal.
* `Label.IsLegal.previous_lt`: Predecessors were stored earlier.
-/

namespace Journey

variable {α : Type} [Scalar α]

namespace Label

/-- The label extends one of the earlier labels as the timetable allows, or is
    an access candidate. -/
inductive IsLegal (t : Timetable α) (policy : TransferPolicy α) (q : SearchQuery α)
    (earlier : Array (Label α)) (l : Label α) : Prop where
  /-- An access candidate brings the traveller to a route-stop at its stop. -/
  | access (k : Nat) (c : Candidate α) (step : l.step = .access k) (previous : l.previous = none)
      (candidate : q.access[k]? = some c) (stop : t.stopOf? l.routeStop = some c.stop)
      (time : l.time = q.departureTime + c.time) (cost : l.cost = c.cost)
      (transfers : l.transfers = 0) (transferCost : l.transferCost = 0)
  /-- The next vehicle of a route takes the traveller from the route-stop of an
      earlier label to one ahead. Waiting ends when the vehicle arrives there, or
      at once if it already has. -/
  | ride (id : Nat) (p : Label α) (trip : Nat) (boardingTime vehicleArrival enter : α)
      (step : l.step = .ride trip boardingTime) (previous : l.previous = some id)
      (predecessor : earlier[id]? = some p) (ahead : t.Ahead p.routeStop l.routeStop)
      (next : t.nextTrip? p.routeStop p.time = some (some trip))
      (boarding : t.departure? trip p.routeStop = some boardingTime)
      (vehicle : t.arrival? trip p.routeStop = some vehicleArrival)
      (enters : enter = Scalar.larger p.time vehicleArrival)
      (time : t.arrival? trip l.routeStop = some l.time)
      (cost : l.cost = p.cost + (enter - p.time) * q.parameters.waitingCost
        + (l.time - enter) * q.parameters.inVehicleCost)
      (transfers : l.transfers = p.transfers) (transferCost : l.transferCost = p.transferCost)
  /-- A footpath leads the traveller from where an earlier ride ended to another
      route-stop. It takes the minimal transfer time at least, and costs the walk
      and what the transfer policy answers. -/
  | transfer (id : Nat) (p : Label α) (f : Footpath α) (duration increment : α)
      (fromMode toMode : Mode)
      (step : l.step = .transfer duration (duration * q.parameters.walkCost + increment))
      (previous : l.previous = some id) (predecessor : earlier[id]? = some p)
      (ride : p.isRide = true) (path : t.Leads f p.routeStop l.routeStop)
      (takes : duration = Scalar.larger f.duration q.parameters.minTransferTime)
      (left : t.modeOf? p.routeStop = some fromMode) (entered : t.modeOf? l.routeStop = some toMode)
      (price : policy t
        { labels := earlier, ride := id, fromMode, toMode, arrivalTime := p.time + duration
          totalTravelTime := p.time + duration - q.departureTime
          transfers := p.transfers + 1, existingCost := p.transferCost
          parameters := q.parameters } = some increment)
      (time : l.time = p.time + duration)
      (cost : l.cost = p.cost + (duration * q.parameters.walkCost + increment))
      (transfers : l.transfers = p.transfers + 1)
      (transferCost : l.transferCost = p.transferCost + increment)

variable {t : Timetable α} {policy : TransferPolicy α} {q : SearchQuery α}
  {earlier : Array (Label α)} {l : Label α}

theorem isLegal_ofAccess {k : Nat} {c : Candidate α} (hc : q.access[k]? = some c) {i : Nat}
    (hi : t.stopOf? i = some c.stop) :
    (ofAccess q.departureTime k c i).IsLegal t policy q earlier :=
  IsLegal.access k c rfl rfl hc hi rfl rfl rfl rfl

theorem IsLegal.previous_lt (h : l.IsLegal t policy q earlier) {id : Nat}
    (hid : l.previous = some id) : id < earlier.size := by
  cases h with
  | access k c step previous => exact absurd (hid.symm.trans previous) (Option.some_ne_none id)
  | ride id' p trip b v e step previous predecessor =>
      rw [hid, Option.some.injEq] at previous
      subst previous
      exact (Array.getElem?_eq_some_iff.mp predecessor).1
  | transfer id' p f d inc fm tm step previous predecessor =>
      rw [hid, Option.some.injEq] at previous
      subst previous
      exact (Array.getElem?_eq_some_iff.mp predecessor).1

-- A legal label lies at a route-stop of the timetable.
theorem IsLegal.routeStop_lt (h : l.IsLegal t policy q earlier) :
    l.routeStop < t.routeStops.size := by
  have hstop : ∀ {s}, t.stopOf? l.routeStop = some s → l.routeStop < t.routeStops.size := by
    intro s hs
    rcases (Timetable.stopOf?_eq_some_iff t _ s).mp hs with ⟨rs, hrs, -⟩
    exact (Array.getElem?_eq_some_iff.mp hrs).1
  cases h with
  | access k c step previous candidate stop => exact hstop stop
  | ride id p trip b v e step previous predecessor ahead =>
      rcases ahead with ⟨-, ri, rj, -, hj, -⟩
      exact (Array.getElem?_eq_some_iff.mp hj).1
  | transfer id p f d inc fm tm step previous predecessor ride path => exact hstop path.2.2

end Label

namespace Boarding

/-- The vehicle held is the next one that a label can board. -/
structure Boards (t : Timetable α) (labels : Array (Label α)) (b : Boarding α) (l : Label α) :
    Prop where
  label : labels[b.label]? = some l
  next : t.nextTrip? l.routeStop l.time = some (some b.trip)
  held : ∃ vehicleArrival, t.arrival? b.trip l.routeStop = some vehicleArrival ∧
    b = ofLabel b.label l b.trip vehicleArrival

namespace Boards

variable {t : Timetable α} {labels : Array (Label α)} {b : Boarding α} {l : Label α}

theorem mono (h : b.Boards t labels l) {labels' : Array (Label α)}
    (hlabels : ∀ (id : Nat) (l : Label α), labels[id]? = some l → labels'[id]? = some l) :
    b.Boards t labels' l :=
  { h with label := hlabels _ _ h.label }

theorem routeStop_eq (h : b.Boards t labels l) : b.routeStop = l.routeStop := by
  rcases h.held with ⟨a, -, hb⟩
  rw [hb]
  rfl

theorem transfers_eq (h : b.Boards t labels l) : b.transfers = l.transfers := by
  rcases h.held with ⟨a, -, hb⟩
  rw [hb]
  rfl

theorem serves (h : b.Boards t labels l) : t.Serves b.trip b.routeStop := by
  rw [h.routeStop_eq]
  exact (Timetable.nextTrip?_some h.next).1

theorem exists_departure (h : b.Boards t labels l) (hw : t.WellFormed) :
    ∃ boardingTime, t.departure? b.trip b.routeStop = some boardingTime :=
  h.serves.exists_departure hw

/-- Leaving a vehicle ahead of where it was boarded is a legal ride. -/
theorem isLegal (h : b.Boards t labels l) (policy : TransferPolicy α) (q : SearchQuery α) {i : Nat}
    (hi : t.Ahead b.routeStop i) {boardingTime arrivalTime : α}
    (hdep : t.departure? b.trip b.routeStop = some boardingTime)
    (harr : t.arrival? b.trip i = some arrivalTime) :
    (b.toLabel q.parameters i boardingTime arrivalTime).IsLegal t policy q labels := by
  -- The boarding remembers where it was boarded as the route-stop of its label.
  rcases h.held with ⟨a, ha, hb⟩
  rw [h.routeStop_eq] at hi hdep
  refine Label.IsLegal.ride b.label l b.trip boardingTime a (Scalar.larger l.time a) rfl rfl h.label
    hi h.next hdep ha rfl harr ?_ ?_ ?_
  · rw [hb]
    rfl
  · exact h.transfers_eq
  · rw [hb]
    rfl

end Boards

end Boarding

namespace Departing

variable {t : Timetable α} {policy : TransferPolicy α} {q : SearchQuery α}

/-- Walking from a ride along a footpath is a legal transfer. -/
theorem isLegal_walk? {d : Departing α} {labels : Array (Label α)}
    (hd : labels[d.id]? = some d.label) (hride : d.label.isRide = true)
    (hmode : t.modeOf? d.label.routeStop = some d.mode)
    {f : Footpath α} {i : Nat} (hf : t.Leads f d.label.routeStop i) {l : Label α}
    (h : d.walk? t policy q labels (Scalar.larger f.duration q.parameters.minTransferTime) i
      = some l) : l.IsLegal t policy q labels ∧ l.isRide = false ∧ l.routeStop = i := by
  unfold walk? at h
  rcases Option.bind_eq_some_iff.mp h with ⟨toMode, hto, h⟩
  rcases Option.bind_eq_some_iff.mp h with ⟨increment, hprice, h⟩
  rw [Option.pure_def, Option.some.injEq] at h
  subst h
  exact ⟨Label.IsLegal.transfer d.id d.label f _ increment d.mode toMode rfl rfl hd hride hf rfl
    hmode hto hprice rfl rfl rfl rfl, rfl, rfl⟩

end Departing

end Journey
