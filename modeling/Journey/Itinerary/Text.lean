import Journey.Itinerary
import Journey.Clock
import Journey.Decimal.Shortest
import Journey.Decimal.Fixed

/-!
# Written Itineraries

How itineraries and their inconsistencies are shown to a reader.

An itinerary is a headline with its times, duration, transfers and cost, and
one indented line for each leg. The duration is given in hours and whole
minutes, the rest of a minute dropped. A trip whose duration is out of range
cannot be written.

## Main definitions

* `Place.text`, `Leg.text`: A place, and a line of the itinerary.
* `Itinerary.text?`: The whole text.
* `ItineraryError.message`: The text of an inconsistency.
-/

namespace Journey

namespace Place

/-- The text of a place. -/
def text : Place → String
  | origin => "origin"
  | destination => "destination"
  | stop id => "stop " ++ id.text

end Place

namespace ConnectionKind

/-- The name of a kind of connection. -/
def label : ConnectionKind → String
  | access => "access"
  | transfer => "transfer"
  | egress => "egress"

end ConnectionKind

namespace ItineraryError

/-- The text of an inconsistency. -/
def message : ItineraryError Float → String
  | noLegs => "itinerary must have at least one leg"
  | negativeDuration travelTime => "leg has negative duration: " ++ Decimal.plain travelTime
  | disconnected reached left =>
    "leg ending at " ++ reached.text ++ " is followed by a leg starting at " ++ left.text
  | overlap previousEnd start =>
    "leg starting at " ++ Decimal.plain start ++ " begins before the previous leg ends at "
      ++ Decimal.plain previousEnd

end ItineraryError

namespace Leg

/-- What is done in a leg. -/
def movement : Leg Float → String
  | ride r =>
    r.mode.text ++ " " ++ r.line.text ++ " (" ++ r.route.text ++ ", trip " ++ r.trip ++ ") from "
      ++ r.origin.text ++ " to " ++ r.target.text
  | connection c => c.mode.text ++ " from " ++ c.origin.text ++ " to " ++ c.target.text

/-- The times of a leg and what is done in it. -/
def text (leg : Leg Float) : String :=
  Clock.format leg.departureTime ++ " - " ++ Clock.format leg.arrivalTime ++ "  " ++ leg.movement

end Leg

namespace Itinerary

/-- The number of milliseconds in a minute. -/
def minute : Int := 60000

/-- Whole minutes as hours and minutes, both with the sign of the whole. -/
def hoursAndMinutes (minutes : Int) : String :=
  let rest := minutes.tmod 60
  let digits := if 0 ≤ rest ∧ rest < 10 then "0" ++ toString rest else toString rest
  toString (minutes.tdiv 60) ++ "h" ++ digits ++ "m"

/-- The first line of the text of an itinerary, with its duration in
    milliseconds. -/
def headline (i : Itinerary Float) (milliseconds : Int) : String :=
  Clock.format i.departureTime ++ " -> " ++ Clock.format i.arrivalTime ++ " ("
    ++ hoursAndMinutes (milliseconds.tdiv minute) ++ "), " ++ toString i.transfers
    ++ " transfer(s), cost " ++ Decimal.fixed 3 i.totalCost

/-- The text of an itinerary, unless its duration is out of range. -/
def text? (i : Itinerary Float) : Option String := do
  let milliseconds ← Clock.milliseconds? i.travelTime
  let lines := i.headline milliseconds :: i.legs.map fun leg => "  " ++ leg.text
  return String.join (lines.map (· ++ "\n"))

end Itinerary

end Journey
