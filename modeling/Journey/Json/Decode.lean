import Journey.Json
import Journey.Clock
import Journey.Dictionary
import Journey.Identifier

/-!
# Reading Values out of Documents

Decoders for the values that timetables and queries are made of.

A record is an object or, alternatively, an array of its fields in order. In an
object, fields that the record does not have are passed over, and a field given
twice is an error, also under two of its names. In an array, fields at the end
may be missing. Which missing fields are an error is for the record to say, so
`record?` returns them as absent.

A decoder returns nothing where the document is not what it reads.

## Main definitions

* `Json.Decoder`: How a value is read out of a document.
* `Json.record?`: The fields of a record.
* `Json.required`, `Json.withDefault`: Reading a field.
* `Json.time?`: Seconds, or a written time.
-/

namespace Journey

namespace Json

/-- How a value is read out of a document. -/
abbrev Decoder (β : Type) := Json → Option β

/-- The position of the field with a name, which may have several. -/
def fieldIndex? (fields : List (List String)) (name : String) : Option Nat :=
  fields.findIdx? (·.contains name)

/-- Put the members of an object at the positions of their fields. -/
def placeMembers (fields : List (List String)) :
    List (Option String × Json) → Array (Option Json) → Option (Array (Option Json))
  | [], found => some found
  | (none, _) :: _, _ => none
  | (some key, value) :: rest, found =>
    match fieldIndex? fields key with
    | none => placeMembers fields rest found
    | some i =>
      match found[i]? with
      | some none => placeMembers fields rest (found.setIfInBounds i (some value))
      | _ => none

/-- The fields of a record, given the names of each, in their order. -/
def record? (fields : List (List String)) : Decoder (List (Option Json))
  | object members =>
    (placeMembers fields members (Array.replicate fields.length none)).map Array.toList
  | array items =>
    if items.length ≤ fields.length then
      some (items.map some ++ List.replicate (fields.length - items.length) none)
    else none
  | _ => none

/-- A field that must be there. -/
def required {β : Type} (decode : Decoder β) (field : Option Json) : Option β := field.bind decode

/-- A field that has a default. -/
def withDefault {β : Type} (decode : Decoder β) (default : β) (field : Option Json) : Option β :=
  match field with
  | none => some default
  | some json => decode json

/-- A text. -/
def text? : Decoder String
  | string text => text
  | _ => none

/-- An identifier. -/
def identifier? {kind : IdentifierKind} : Decoder (Identifier kind) := fun json =>
  json.text?.map (⟨·⟩)

/-- A number, whole or not. -/
def float? : Decoder Float
  | number literal => literal.value?.map Numeral.toFloat
  | _ => none

/-- A whole number from zero on, written without fraction and exponent. -/
def natural? : Decoder Nat
  | number literal =>
    match literal.value? with
    | some (.natural n) => some n
    | _ => none
  | _ => none

/-- A truth value. -/
def bool? : Decoder Bool
  | bool value => some value
  | _ => none

/-- A value that may be `null`. -/
def nullable? {β : Type} (decode : Decoder β) : Decoder (Option β)
  | null => some none
  | json => (decode json).map some

/-- A list of values. -/
def list? {β : Type} (decode : Decoder β) : Decoder (List β)
  | array items => items.mapM decode
  | _ => none

/-- An entry of a map from texts. -/
def decodeEntry {β : Type} (decode : Decoder β) (member : Option String × Json) :
    Option (String × β) := do
  let key ← member.1
  let value ← decode member.2
  return (key, value)

/-- A map from texts, in which the last of several members with one key
    stays. -/
def dictionary? {β : Type} (decode : Decoder β) : Decoder (Dictionary β)
  | object members => (members.mapM (decodeEntry decode)).map Dictionary.ofList
  | _ => none

/-- Seconds after midnight, as a number or as a written time. -/
def time? : Decoder Float
  | number literal => literal.value?.map Numeral.toFloat
  | string (some text) => (Clock.parse text).toOption.map Float.ofNat
  | _ => none

end Json

end Journey
