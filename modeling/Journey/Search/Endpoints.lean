import Journey.Search.Workspace

/-!
# The Ends of a Search

Where a search starts from and what it leads to.

Every route-stop at the stop of an egress candidate is a destination; of
several candidates at its stop the cheapest one counts, and the first one of
equally cheap ones. Every route-stop at the stop of an access candidate gets a
label, unless it already has one that is as good.

## Main definitions

* `Workspace.setEgress?`: Putting the egress candidates into a workspace.
* `Workspace.setAccess?`: Storing the labels of the access candidates.
-/

namespace Journey

namespace Label

/-- The arrival at a route-stop as an access candidate says. -/
def ofAccess {α : Type} [Scalar α] (departureTime : α) (position : Nat) (c : Candidate α)
    (routeStop : Nat) : Label α :=
  { previous := none
    routeStop
    step := .access position
    time := departureTime + c.time
    cost := c.cost
    transferCost := 0
    transfers := 0 }

end Label

namespace Workspace

variable {α : Type} [Scalar α]

/-- Offer a route-stop a way on to the destination. A cheaper one stays. -/
def offerEgress? (w : Workspace α) (egress : Egress α) (routeStop : Nat) :
    Option (Workspace α) := do
  let current ← w.egress[routeStop]?
  -- Of equally cheap candidates the first one counts.
  if current.all (egress.cost < ·.cost) then
    let table ← write? w.egress routeStop (some egress)
    return { w with egress := table, destinations := ← w.destinations.mark routeStop }
  else return w

/-- Put the egress candidates into a workspace. -/
def setEgress? (w : Workspace α) (t : Timetable α) (egress : List (Candidate α)) :
    Option (Workspace α) :=
  egress.zipIdx.foldlM (fun w (candidate, position) => do
    let routeStops ← t.routeStopsAt? candidate.stop
    routeStops.foldlM (fun w rs => w.offerEgress? ⟨candidate.cost, position⟩ rs) w) w

/-- Store the label of an access candidate if it improves on what is there. -/
def offerAccess? (w : Workspace α) (t : Timetable α) (label : Label α) : Option (Workspace α) := do
  if ← w.improves? label.routeStop label.cost 0 then
    let w ← w.store? label
    w.markImproved? t label.routeStop
  else return w

/-- Store the labels of the access candidates. -/
def setAccess? (w : Workspace α) (t : Timetable α) (departureTime : α)
    (access : List (Candidate α)) : Option (Workspace α) :=
  access.zipIdx.foldlM (fun w (candidate, position) => do
    let routeStops ← t.routeStopsAt? candidate.stop
    routeStops.foldlM
      (fun w rs => w.offerAccess? t (Label.ofAccess departureTime position candidate rs)) w) w

/-- The workspace before the first round of a query. -/
def begin? (w : Workspace α) (t : Timetable α) (q : SearchQuery α) : Option (Workspace α) := do
  -- The ways out come first: labels stored after them tighten the bound.
  let w ← w.reset.setEgress? t q.egress
  w.setAccess? t q.departureTime q.access

end Workspace

end Journey
