/-!
# Identifiers

Every identifier is a text tagged with what it names, so that the identifier of
a stop can never stand where that of a route is expected. Identifiers are
ordered by their text, character by character.

Modes of transport are identifiers too: a mode is a tag such as `bus`, and the
tags that the library itself assigns to walks are listed here.

## Main definitions

* `Identifier`: A text that names something of a kind.
* `Identifier.debug`: The identifier together with its kind.
* `Mode.walk` and its companions: The modes of walking.
-/

namespace Journey

/-- What an identifier names. -/
inductive IdentifierKind where
  | stop
  | line
  | route
  | facility
  | mode
deriving DecidableEq, Repr

/-- A text that names something of a kind. -/
structure Identifier (kind : IdentifierKind) where
  text : String
deriving DecidableEq, Repr

/-- Names a physical stop. -/
abbrev StopId := Identifier .stop

/-- Names a line, which is a family of routes. -/
abbrev LineId := Identifier .line

/-- Names a route, which is one direction of one stopping pattern of a line. -/
abbrev RouteId := Identifier .route

/-- Names an origin or a destination such as a home or a workplace. -/
abbrev FacilityId := Identifier .facility

/-- A mode of transport. -/
abbrev Mode := Identifier .mode

namespace IdentifierKind

/-- The name of the identifiers of this kind. -/
def label : IdentifierKind → String
  | stop => "StopId"
  | line => "LineId"
  | route => "RouteId"
  | facility => "FacilityId"
  | mode => "Mode"

end IdentifierKind

namespace Identifier

variable {kind : IdentifierKind}

instance : ToString (Identifier kind) := ⟨text⟩

theorem text_inj {a b : Identifier kind} : a.text = b.text ↔ a = b :=
  ⟨fun h => by cases a; cases b; exact congrArg mk h, congrArg text⟩

/-- The identifier together with its kind. -/
def debug (id : Identifier kind) : String := kind.label ++ "(" ++ id.text ++ ")"

/-- The order of identifiers is that of their texts. -/
def precedes (a b : Identifier kind) : Bool := decide (a.text ≤ b.text)

/-- Put an identifier into its place in a sorted list without repetitions. -/
def insertSorted (id : Identifier kind) : List (Identifier kind) → List (Identifier kind)
  | [] => [id]
  | head :: rest =>
    if id.text < head.text then id :: head :: rest
    else if id = head then head :: rest
    else head :: insertSorted id rest

end Identifier

namespace Mode

/-- Walking between a facility and a stop in a straight line. -/
def nonNetworkWalk : Mode := ⟨"non_network_walk"⟩

/-- Walking between two stops during a transfer. -/
def transitWalk : Mode := ⟨"transit_walk"⟩

/-- Walking from the origin to the first stop. -/
def accessWalk : Mode := ⟨"access_walk"⟩

/-- Walking from the last stop to the destination. -/
def egressWalk : Mode := ⟨"egress_walk"⟩

/-- Walking. -/
def walk : Mode := ⟨"walk"⟩

end Mode

end Journey
