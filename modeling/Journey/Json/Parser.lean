import Journey.Json

/-!
# Reading Documents

From text to a document, by the grammar of JSON and nothing more: no comments,
no byte order mark, no leading zeros, no trailing commas, and nothing but blanks
around the document.

The reader is a descent over the characters. Of two steps in a row at least one
consumes a character, so twice the length of the text bounds the depth of the
descent, and that bound is the fuel it starts with.

## Main definitions

* `Json.parseString`: The rest of a string, after the opening quote.
* `Json.parseLiteral`: A number.
* `Json.parse`: A whole document.
-/

namespace Journey

namespace Json

/-- The blanks of JSON: space, tabulator, line feed and carriage return. -/
def isBlank (c : Char) : Bool := c == ' ' || c == '\t' || c == '\n' || c == '\r'

/-- Characters without leading blanks. -/
def skipBlanks (cs : List Char) : List Char := cs.dropWhile isBlank

/-- The value of a decimal digit. -/
def digitValue (c : Char) : Nat := c.toNat - '0'.toNat

/-- The value of a hexadecimal digit. -/
def hexValue? (c : Char) : Option Nat :=
  if '0' ≤ c ∧ c ≤ '9' then some (c.toNat - '0'.toNat)
  else if 'a' ≤ c ∧ c ≤ 'f' then some (c.toNat - 'a'.toNat + 10)
  else if 'A' ≤ c ∧ c ≤ 'F' then some (c.toNat - 'A'.toNat + 10)
  else none

/-- A code unit of four hexadecimal digits. -/
def parseUnit : List Char → Option (Nat × List Char)
  | a :: b :: c :: d :: rest => do
    let a ← hexValue? a
    let b ← hexValue? b
    let c ← hexValue? c
    let d ← hexValue? d
    return (((a * 16 + b) * 16 + c) * 16 + d, rest)
  | _ => none

/-- The character of an escape that is a single letter. -/
def simpleEscape? : Char → Option Char
  | '"' => some '"'
  | '\\' => some '\\'
  | '/' => some '/'
  | 'b' => some '\x08'
  | 'f' => some '\x0c'
  | 'n' => some '\n'
  | 'r' => some '\r'
  | 't' => some '\t'
  | _ => none

/-- Whether a code unit is the first one of a surrogate pair. -/
def isLeadingSurrogate (unit : Nat) : Bool := decide (0xD800 ≤ unit ∧ unit < 0xDC00)

/-- Whether a code unit is the second one of a surrogate pair. -/
def isTrailingSurrogate (unit : Nat) : Bool := decide (0xDC00 ≤ unit ∧ unit < 0xE000)

/-- What the four digits after a Unicode escape spell, together with a second
    escape if the two are a surrogate pair. There is no character if a
    surrogate stands alone. -/
def parseUnicode (cs : List Char) : Option (Option Char × List Char) := do
  let (unit, rest) ← parseUnit cs
  if isLeadingSurrogate unit then
    match rest with
    | '\\' :: 'u' :: more =>
      let (second, after) ← parseUnit more
      if isTrailingSurrogate second then
        return (some (Char.ofNat (0x10000 + (unit - 0xD800) * 0x400 + (second - 0xDC00))), after)
      else return (none, rest)
    | _ => return (none, rest)
  else if isTrailingSurrogate unit then return (none, rest)
  else return (some (Char.ofNat unit), rest)

/-- The rest of a string, after the opening quote. `read` holds the characters
    read so far, the last one first, unless one of them is not a character. -/
def parseString : Nat → Option (List Char) → List Char → Option (Option String × List Char)
  | 0, _, _ => none
  | fuel + 1, read, cs =>
    match cs with
    | [] => none
    | '"' :: rest => some (read.map fun cs => String.ofList cs.reverse, rest)
    | '\\' :: 'u' :: rest =>
      match parseUnicode rest with
      | none => none
      | some (c, rest) => parseString fuel (read.bind fun cs => c.map (· :: cs)) rest
    | '\\' :: c :: rest =>
      match simpleEscape? c with
      | none => none
      | some c => parseString fuel (read.map (c :: ·)) rest
    | ['\\'] => none
    | c :: rest =>
      if c.toNat < 0x20 then none else parseString fuel (read.map (c :: ·)) rest

/-- The digits at the front, at least one. -/
def parseDigits (cs : List Char) : Option (List Nat × List Char) :=
  match cs.takeWhile Char.isDigit with
  | [] => none
  | digits => some (digits.map digitValue, cs.dropWhile Char.isDigit)

/-- The whole part of a number. It has no leading zeros. -/
def parseWhole (cs : List Char) : Option (List Nat × List Char) :=
  match cs with
  | '0' :: rest => some ([0], rest)
  | _ => parseDigits cs

/-- The fraction of a number, if there is one. -/
def parseFraction (cs : List Char) : Option (List Nat × List Char) :=
  match cs with
  | '.' :: rest => parseDigits rest
  | _ => some ([], cs)

/-- The exponent of a number, if there is one. -/
def parseExponent (cs : List Char) : Option (Option (Bool × List Nat) × List Char) :=
  let digits (negative : Bool) (cs : List Char) :=
    (parseDigits cs).map fun (digits, rest) => (some (negative, digits), rest)
  match cs with
  | 'e' :: '-' :: rest | 'E' :: '-' :: rest => digits true rest
  | 'e' :: '+' :: rest | 'E' :: '+' :: rest => digits false rest
  | 'e' :: rest | 'E' :: rest => digits false rest
  | _ => some (none, cs)

/-- A number. -/
def parseLiteral (cs : List Char) : Option (Literal × List Char) := do
  let (negative, cs) := match cs with
    | '-' :: rest => (true, rest)
    | _ => (false, cs)
  let (whole, cs) ← parseWhole cs
  let (fraction, cs) ← parseFraction cs
  let (exponent, cs) ← parseExponent cs
  return ({ negative, whole, fraction, exponent }, cs)

mutual

/-- A value, after its leading blanks. -/
def parseValue : Nat → List Char → Option (Json × List Char)
  | 0, _ => none
  | fuel + 1, cs =>
    match cs with
    | 'n' :: 'u' :: 'l' :: 'l' :: rest => some (null, rest)
    | 't' :: 'r' :: 'u' :: 'e' :: rest => some (bool true, rest)
    | 'f' :: 'a' :: 'l' :: 's' :: 'e' :: rest => some (bool false, rest)
    | '"' :: rest =>
      (parseString (rest.length + 1) (some []) rest).map fun (text, rest) => (string text, rest)
    | '[' :: rest =>
      match skipBlanks rest with
      | ']' :: rest => some (array [], rest)
      | rest => (parseItems fuel rest).map fun (items, rest) => (array items, rest)
    | '{' :: rest =>
      match skipBlanks rest with
      | '}' :: rest => some (object [], rest)
      | rest => (parseMembers fuel rest).map fun (members, rest) => (object members, rest)
    | _ => (parseLiteral cs).map fun (literal, rest) => (number literal, rest)

/-- The items of an array up to its closing bracket, at least one. -/
def parseItems : Nat → List Char → Option (List Json × List Char)
  | 0, _ => none
  | fuel + 1, cs =>
    match parseValue fuel cs with
    | none => none
    | some (item, rest) =>
      match skipBlanks rest with
      | ']' :: rest => some ([item], rest)
      | ',' :: rest =>
        (parseItems fuel (skipBlanks rest)).map fun (items, rest) => (item :: items, rest)
      | _ => none

/-- The members of an object up to its closing brace, at least one. -/
def parseMembers : Nat → List Char → Option (List (Option String × Json) × List Char)
  | 0, _ => none
  | fuel + 1, cs =>
    match cs with
    | '"' :: rest =>
      match parseString (rest.length + 1) (some []) rest with
      | none => none
      | some (key, rest) =>
        match skipBlanks rest with
        | ':' :: rest =>
          match parseValue fuel (skipBlanks rest) with
          | none => none
          | some (value, rest) =>
            match skipBlanks rest with
            | '}' :: rest => some ([(key, value)], rest)
            | ',' :: rest =>
              (parseMembers fuel (skipBlanks rest)).map fun (members, rest) =>
                ((key, value) :: members, rest)
            | _ => none
        | _ => none
    | _ => none

end

/-- A whole document with nothing but blanks around it. -/
def parse (text : String) : Option Json :=
  let cs := skipBlanks text.toList
  match parseValue (2 * cs.length + 2) cs with
  | some (json, rest) => if (skipBlanks rest).isEmpty then some json else none
  | none => none

end Json

end Journey
