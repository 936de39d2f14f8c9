import Journey.Json
import Journey.Decimal.Shortest

/-!
# Writing Documents

From a document to its text, without blanks.

Numbers are written by their value: whole numbers as their digits and all
others in the layout of `Decimal.document`. In a string only what must be
escaped is escaped, with a letter where there is one.

## Main definitions

* `Json.quote`: A text as a string of a document.
* `Json.render`: A document as text.
-/

namespace Journey

namespace Json

/-- A control character as a Unicode escape. -/
def unicodeEscape (c : Char) : List Char :=
  ['\\', 'u', '0', '0', Nat.digitChar (c.toNat / 16), Nat.digitChar (c.toNat % 16)]

/-- A character within a string. -/
def escapeChar (c : Char) : List Char :=
  if c = '"' then ['\\', '"']
  else if c = '\\' then ['\\', '\\']
  else if c = '\x08' then ['\\', 'b']
  else if c = '\t' then ['\\', 't']
  else if c = '\n' then ['\\', 'n']
  else if c = '\x0c' then ['\\', 'f']
  else if c = '\r' then ['\\', 'r']
  else if c.toNat < 0x20 then unicodeEscape c
  else [c]

/-- A text as a string of a document. -/
def quote (text : String) : String :=
  String.ofList ('"' :: text.toList.flatMap escapeChar ++ ['"'])

/-- A numeral as a number of a document. -/
def renderNumeral : Numeral → String
  | .natural n => toString n
  | .negated n => "-" ++ toString n
  | .real x => Decimal.document x

mutual

/-- A document as text. Strings without a text and numbers out of range do not
    arise from reading a document completely and are written `null`. -/
def render : Json → String
  | null => "null"
  | bool value => if value then "true" else "false"
  | number literal =>
    match literal.value? with
    | some numeral => renderNumeral numeral
    | none => "null"
  | string text =>
    match text with
    | some text => quote text
    | none => "null"
  | array items => "[" ++ renderItems items ++ "]"
  | object members => "\x7b" ++ renderMembers members ++ "\x7d"

/-- The items of an array, separated by commas. -/
def renderItems : List Json → String
  | [] => ""
  | [item] => item.render
  | item :: rest => item.render ++ "," ++ renderItems rest

/-- The members of an object, separated by commas. -/
def renderMembers : List (Option String × Json) → String
  | [] => ""
  | [(key, value)] => quote (key.getD "") ++ ":" ++ value.render
  | (key, value) :: rest => quote (key.getD "") ++ ":" ++ value.render ++ "," ++ renderMembers rest

end

end Json

end Journey
