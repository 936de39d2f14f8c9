import Journey.Binary64

/-!
# Time of Day

Times are seconds after midnight of the service day. Timetables run past
midnight, so an hour above 23 is the small hours of the next day and not an
error.

A written time is `HH:MM` or `HH:MM:SS`, with one to three digits for the hour.
Writing a time rounds it to whole seconds and gives the hour at least two
digits.

## Main definitions

* `Clock.parse`: Reading a written time.
* `Clock.render`: Writing whole seconds.
* `Clock.format`: Writing a time in seconds.
* `Clock.milliseconds?`: A duration in whole milliseconds, unless out of range.
-/

namespace Journey

namespace Clock

/-- Why a written time is refused. -/
inductive ParseError where
  | tooFewComponents
  | tooManyComponents
  | hourDigits
  | minuteDigits
  | minuteRange
  | secondDigits
  | secondRange
deriving DecidableEq, Repr

namespace ParseError

/-- What is wrong with the written time. -/
def reason : ParseError → String
  | tooFewComponents => "expected HH:MM[:SS] format"
  | tooManyComponents => "too many components"
  | hourDigits => "invalid hour digits"
  | minuteDigits => "invalid minute digits"
  | minuteRange => "minute must be 0-59"
  | secondDigits => "invalid second digits"
  | secondRange => "second must be 0-59"

/-- The text of the error. -/
def message (e : ParseError) : String := "invalid time: " ++ e.reason

end ParseError

/-- Split at every occurrence of a separator. There is one more component than
    there are separators. -/
def splitAt (separator : Char) : List Char → List (List Char)
  | [] => [[]]
  | c :: rest =>
    if c = separator then [] :: splitAt separator rest
    else
      match splitAt separator rest with
      | [] => [[c]]
      | first :: others => (c :: first) :: others

/-- The value of a decimal digit. -/
def digit? (c : Char) : Option Nat :=
  if '0' ≤ c ∧ c ≤ '9' then some (c.toNat - '0'.toNat) else none

/-- The value of a text of decimal digits. -/
def digits? (text : List Char) : Option Nat :=
  text.foldlM (fun n c => (digit? c).map (n * 10 + ·)) 0

/-- An hour: one to three digits. -/
def hour? (text : List Char) : Option Nat :=
  if text.isEmpty || 3 < text.length then none else digits? text

/-- A minute or a second: exactly two digits. -/
def twoDigits? (text : List Char) : Option Nat :=
  if text.length = 2 then digits? text else none

/-- The whole seconds of an hour, a minute and a second. -/
def seconds (hour minute second : Nat) : Nat := hour * 3600 + minute * 60 + second

/-- The seconds component, zero if it is not written. -/
def parseSecond : Option (List Char) → Except ParseError Nat
  | none => .ok 0
  | some text =>
    match twoDigits? text with
    | none => .error .secondDigits
    | some second => if second ≤ 59 then .ok second else .error .secondRange

/-- The components of a written time, checked from left to right. -/
def parseComponents (hour minute : List Char) (second : Option (List Char)) :
    Except ParseError Nat :=
  match hour? hour with
  | none => .error .hourDigits
  | some h =>
    match twoDigits? minute with
    | none => .error .minuteDigits
    | some m => if m ≤ 59 then (parseSecond second).map (seconds h m) else .error .minuteRange

/-- Read `HH:MM` or `HH:MM:SS` as whole seconds after midnight. -/
def parse (text : String) : Except ParseError Nat :=
  match splitAt ':' text.toList with
  | [hour, minute] => parseComponents hour minute none
  | [hour, minute, second] => parseComponents hour minute (some second)
  | [] | [_] => .error .tooFewComponents
  | _ => .error .tooManyComponents

/-- A number with at least two digits. -/
def padded (n : Nat) : String := if n < 10 then "0" ++ toString n else toString n

/-- Write whole seconds as `HH:MM:SS`. -/
def render (total : Nat) : String :=
  padded (total / 3600) ++ ":" ++ padded (total % 3600 / 60) ++ ":" ++ padded (total % 60)

/-- The largest number of whole seconds that is written. -/
def largestSeconds : Nat := Nat.pow 2 64 - 1

/-- Write a time as `HH:MM:SS`, rounded to whole seconds with halves going up.
    Negative times and those that are not numbers have no clock reading. -/
def format (time : Float) : String :=
  match Binary64.ofFloat time with
  | .finite negative m e =>
    -- A negative zero is midnight.
    if negative ∧ m ≠ 0 then "--:--:--"
    else render (min (Binary64.roundedMagnitude m e) largestSeconds)
  | _ => "--:--:--"

/-- Durations have fewer milliseconds than this, in either direction. -/
def millisecondBound : Int := Int.ofNat (Nat.pow 2 63)

/-- A number rounded to a whole one, halves going away from zero. Infinities
    are as large as the bound on durations; not-a-number counts as zero. -/
def wholeNumber (x : Float) : Int :=
  match Binary64.ofFloat x with
  | .finite negative m e =>
    if negative then -(Binary64.roundedMagnitude m e : Int) else Binary64.roundedMagnitude m e
  | .infinite negative => if negative then -millisecondBound else millisecondBound
  | .notANumber => 0

/-- A duration in whole milliseconds. One that is too long is cut off at the
    longest duration; one that is too far below zero does not exist. -/
def milliseconds? (duration : Float) : Option Int :=
  let whole := wholeNumber (duration * 1000)
  if whole ≤ -millisecondBound then none else some (min whole (millisecondBound - 1))

end Clock

end Journey
