import Journey.Scalar
import Journey.Configuration
import Journey.Dictionary

/-!
# Changes of Mode

Extra penalties for transfers that change the mode of transport.

A table lists penalties for ordered pairs of modes, those from one mode apart
from those from another. It is checked entry by entry against the modes of a
timetable, and the first defect of the first entry that has one is what is
reported; whether an entry repeats a pair is only asked once the entry itself is
sound.

## Main definitions

* `ModeChangePenalty`: A penalty for one change of mode.
* `ModeChangeTable`: Penalties by the mode that is left and the mode changed to.
* `ModeChangeTable.ofEntries`: Checking a list of penalties.
* `ModeChangeTable.penalty`: Looking a penalty up.
-/

namespace Journey

/-- A penalty for one change of mode. -/
structure ModeChangePenalty (α : Type) where
  origin : Mode
  target : Mode
  penalty : α
deriving DecidableEq, Repr

/-- Penalties by the mode that is left, and for each of these by the mode that is
    changed to. -/
structure ModeChangeTable (α : Type) where
  rows : Dictionary (Dictionary α)
deriving DecidableEq, Repr

namespace ModeChangeTable

variable {α : Type}

/-- No penalties. -/
def empty : ModeChangeTable α := ⟨.empty⟩

/-- The number of pairs with a penalty. -/
def size (t : ModeChangeTable α) : Nat := t.rows.total Dictionary.size

/-- Whether no pair has a penalty. -/
def isEmpty (t : ModeChangeTable α) : Bool := t.rows.entries.isEmpty

/-- The penalty of a pair, if it is listed. -/
def get? (t : ModeChangeTable α) (origin target : Mode) : Option α :=
  (t.rows.get? origin.text).bind (·.get? target.text)

/-- Write the penalty of a pair, with a row for the mode that is left if it has
    none yet. -/
def insert (t : ModeChangeTable α) (e : ModeChangePenalty α) : ModeChangeTable α :=
  let row := (t.rows.get? e.origin.text).getD .empty
  ⟨t.rows.insert e.origin.text (row.insert e.target.text e.penalty)⟩

variable [Scalar α]

/-- The penalty of a change of mode, which is zero unless it is listed. -/
def penalty (t : ModeChangeTable α) (origin target : Mode) : α := (t.get? origin target).getD 0

/-- What is wrong with an entry, given the entries before it. -/
def entryDefect? (t : ModeChangeTable α) (modes : List Mode) (e : ModeChangePenalty α) :
    Option (ConfigurationError α) :=
  if !modes.contains e.origin then some (.unknownMode e.origin)
  else if !modes.contains e.target then some (.unknownMode e.target)
  else if e.origin = e.target then some (.sameModePenalty e.origin)
  else if !Scalar.isNonnegative e.penalty then
    some (.invalidModePenalty e.origin e.target e.penalty)
  else if (t.get? e.origin e.target).isSome then some (.duplicateModePenalty e.origin e.target)
  else none

/-- Add entries to a table until one has a defect. -/
def addEntries (modes : List Mode) (t : ModeChangeTable α) :
    List (ModeChangePenalty α) → Except (ConfigurationError α) (ModeChangeTable α)
  | [] => .ok t
  | e :: rest =>
    match t.entryDefect? modes e with
    | some defect => .error defect
    | none => addEntries modes (t.insert e) rest

/-- The table of a list of penalties between modes of a timetable. -/
def ofEntries (entries : List (ModeChangePenalty α)) (modes : List Mode) :
    Except (ConfigurationError α) (ModeChangeTable α) := addEntries modes empty entries

/-- The table of a list of penalties, or none at all if the list is empty. -/
def configured (entries : List (ModeChangePenalty α)) (modes : List Mode) :
    Except (ConfigurationError α) (Option (ModeChangeTable α)) :=
  if entries.isEmpty then .ok none else (ofEntries entries modes).map some

end ModeChangeTable

end Journey
