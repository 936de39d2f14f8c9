import Journey.Decimal.Literal

/-!
# Documents

The values of JSON documents, as they are written.

A document is kept as its text spells it: numbers are literals, objects are
lists of members with repetitions, and a string that spells a lone surrogate is
there without its text. What is wrong with such a value is noticed by whoever
reads it and by nobody else, so a field that is ignored may hold a number too
large to represent or a string that is no text.

Some readers keep a value aside before they know what it is for. Such a value
is read completely, whether it is used or not: its numbers must be in range,
its strings must be texts, and it must not be nested too deeply.

## Main definitions

* `Json`: A document.
* `Json.depth`: How deeply a document is nested.
* `Json.canBeKept`: Whether a value can be kept aside.
-/

namespace Journey

/-- A JSON document. A string, and the key of a member, has no text if it
    spells a surrogate that is not part of a pair. -/
inductive Json where
  | null
  | bool (value : Bool)
  | number (literal : Literal)
  | string (text : Option String)
  | array (items : List Json)
  | object (members : List (Option String × Json))

namespace Json

mutual

/-- How deeply a document is nested: no level for a plain value, one for every
    array or object around it. -/
def depth : Json → Nat
  | array items => listDepth items + 1
  | object members => memberDepth members + 1
  | _ => 0

/-- The greatest depth in a list. -/
def listDepth : List Json → Nat
  | [] => 0
  | item :: rest => max item.depth (listDepth rest)

/-- The greatest depth among members. -/
def memberDepth : List (Option String × Json) → Nat
  | [] => 0
  | (_, value) :: rest => max value.depth (memberDepth rest)

end

mutual

/-- Whether every number is in range and every string is a text. -/
def isLegible : Json → Bool
  | number literal => literal.value?.isSome
  | string text => text.isSome
  | array items => areLegible items
  | object members => membersLegible members
  | _ => true

/-- Whether all items are legible. -/
def areLegible : List Json → Bool
  | [] => true
  | item :: rest => item.isLegible && areLegible rest

/-- Whether all members are legible, keys included. -/
def membersLegible : List (Option String × Json) → Bool
  | [] => true
  | (key, value) :: rest => key.isSome && value.isLegible && membersLegible rest

end

/-- The greatest number of arrays and objects around a plain value that is
    kept aside. -/
def greatestDepth : Nat := 127

/-- Whether a value that stands within `outer` arrays and objects can be kept
    aside. -/
def canBeKept (outer : Nat) (json : Json) : Bool :=
  json.isLegible && decide (outer + json.depth ≤ greatestDepth)

/-- A natural number as a document. -/
def ofNat (n : Nat) : Json := number (Literal.ofNat n)

/-- A whole number as a document. -/
def ofInt (n : Int) : Json := number { Literal.ofNat n.natAbs with negative := decide (n < 0) }

/-- A text as a document. -/
def ofString (text : String) : Json := string (some text)

/-- An object with the given fields. -/
def ofFields (fields : List (String × Json)) : Json :=
  object (fields.map fun field => (some field.1, field.2))

/-- The first member of an object with a key. -/
def member? (json : Json) (key : String) : Option Json :=
  match json with
  | object members => members.lookup (some key)
  | _ => none

end Json

end Journey
