import Journey.Proofs.Search.LongestRuns
import Journey.Proofs.Search.Totality

/-!
# Where Runs Start

The policies that a search comes with answer whatever it asks.

A flat price needs nothing to be looked up, and neither does the price of a whole
journey. Only the price of a run is found by walking back over the labels of the
journey. That walk goes from a label to an earlier one and asks for the modes of their
route-stops, so it gets through if labels extend earlier ones and lie at route-stops of
the timetable. What the prices are does not matter, and neither does the arithmetic.

## Main definitions

* `TransferPolicy.Standard`: The policies that a search comes with, at any price.

## Theorems

* `Workspace.Legal.runStart?_exists`: The start of a run is found.
* `TransferPolicy.Standard.answers`: The policies answer.
* `TransferPolicy.Standard.byChain`: They cannot tell twins apart.
-/

namespace Journey

variable {α : Type} [Scalar α]

/-- The policies that a search comes with, at any price and with any table of mode
    changes. -/
inductive TransferPolicy.Standard : TransferPolicy α → Prop where
  | flat (price : α) : Standard (TransferPolicy.flat price)
  | timeProportional (table : Option (ModeChangeTable α)) :
      Standard (TransferPolicy.timeProportional table)

namespace Workspace.Legal

variable {t : Timetable α} {policy : TransferPolicy α} {q : SearchQuery α} {w : Workspace α}
  {id : Nat} {l : Label α}

theorem modesKnown (h : w.Legal t policy q) (ht : t.WellFormed) : Label.ModesKnown t w.labels :=
  Label.modesKnown_of_lt ht fun id l hl => (h id l hl).routeStop_lt

/-- The start of the run that a label is on is found. -/
theorem runStart?_exists (h : w.Legal t policy q) (ht : t.WellFormed)
    (hl : w.labels[id]? = some l) : ∃ start, Label.runStart? t w.labels id = some start := by
  cases hride : l.isRide with
  | false => exact ⟨l, Label.runStart?_of_not_isRide t hl hride⟩
  | true =>
      rcases h.ordered.runStart?_of_isRide (h.modesKnown ht) hl hride with
        ⟨-, -, -, start, -, -, -, hstart, -⟩
      exact ⟨start, hstart⟩

end Workspace.Legal

/-- The policies that a search comes with answer whatever it asks. -/
theorem TransferPolicy.Standard.answers {t : Timetable α} {policy : TransferPolicy α}
    (h : policy.Standard) (ht : t.WellFormed) (q : SearchQuery α) : policy.Answers t q := by
  cases h with
  | flat price => exact TransferPolicy.flat_answers price
  | timeProportional table =>
      intro w d toMode duration hlegal hd _ _
      cases table with
      | none => exact ⟨_, rfl⟩
      | some table =>
          rcases hlegal.runStart?_exists ht hd with ⟨start, hstart⟩
          unfold TransferPolicy.timeProportional Departing.context
          simp only [hstart, Option.bind_eq_bind, Option.bind_some, Option.pure_def]
          exact ⟨_, rfl⟩

/-- The policies that a search comes with cannot tell twins apart. -/
theorem TransferPolicy.Standard.byChain {policy : TransferPolicy α} (h : policy.Standard) :
    policy.ByChain := by
  cases h with
  | flat price => exact flat_byChain price
  | timeProportional table => exact timeProportional_byChain table

end Journey
