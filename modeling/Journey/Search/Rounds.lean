import Journey.Search.Endpoints
import Journey.Search.Scan
import Journey.Search.Transfers

/-!
# Rounds

The search, one ride after the other.

A round scans every route that has an improved route-stop, and then walks from
the route-stops that its vehicles reached. What the walks improve is what the
next round starts from, so that a round finds the journeys with one transfer
more than those of the round before. The search ends when a round has improved
nothing by a transfer, or when as many transfers as allowed have been made.

## Main definitions

* `Workspace.openRound?`, `Workspace.closeRound`: The start and end of a round.
* `Workspace.round?`: One round.
* `Workspace.rounds?`: Rounds until nothing improves.
* `Workspace.explore?`: All labels of a query.
-/

namespace Journey

namespace Workspace

variable {α : Type} [Scalar α]

/-- Note the routes with an improved route-stop. -/
def touchRoutes? {α : Type} (w : Workspace α) (t : Timetable α) : Option IndexSet :=
  w.improved.toList.foldlM (fun routes routeStop => do
    let rs ← t.routeStops[routeStop]?
    routes.mark rs.route) w.touched.clear

/-- Begin a round: the routes to scan are those with an improved route-stop,
    and nothing is improved yet. -/
def openRound? {α : Type} (w : Workspace α) (t : Timetable α) : Option (Workspace α) := do
  return { w with
    -- The first improved route-stop of each route is kept in `scanStart`.
    touched := ← w.touchRoutes? t
    improved := w.improved.clear
    reached := w.reached.clear
    statistics := { w.statistics with rounds := w.statistics.rounds + 1 } }

/-- Scan the routes of a round. -/
def scanRoutes? (t : Timetable α) (p : Parameters α) (w : Workspace α) : Option (Workspace α) :=
  w.touched.toList.foldlM (scanRoute? t p) w

/-- End a round: write down how much it improved. -/
def closeRound {α : Type} (w : Workspace α) : Workspace α :=
  -- Access came before the first round, so these were improved on foot.
  let improvedPerRound := w.statistics.improvedPerRound ++ [w.improved.size]
  { w with statistics := { w.statistics with improvedPerRound } }

/-- One round. -/
def round? (t : Timetable α) (policy : TransferPolicy α) (q : SearchQuery α) (w : Workspace α) :
    Option (Workspace α) := do
  let w ← w.openRound? t
  let w ← w.scanRoutes? t q.parameters
  let w ← w.relax? t policy q
  return w.closeRound

/-- Rounds until one improves nothing, but no more than `budget`. -/
def rounds? (t : Timetable α) (policy : TransferPolicy α) (q : SearchQuery α) :
    (budget : Nat) → Workspace α → Option (Workspace α)
  | 0, w => some w
  | budget + 1, w => do
    let w ← w.round? t policy q
    if w.improved.isEmpty then return w else rounds? t policy q budget w

/-- Complete the statistics. -/
def conclude {α : Type} (w : Workspace α) : Workspace α :=
  { w with statistics :=
      { w.statistics with roundCapHit := !w.improved.isEmpty, labels := w.labels.size } }

/-- Find all labels of a query, with one round more than transfers. -/
def explore? (t : Timetable α) (policy : TransferPolicy α) (q : SearchQuery α) (w : Workspace α) :
    Option (Workspace α) := do
  let w ← w.begin? t q
  -- The first round is that of the journeys without a transfer.
  let w ← w.rounds? t policy q (q.maxTransfers + 1)
  return w.conclude

end Workspace

end Journey
