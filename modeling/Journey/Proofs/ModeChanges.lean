import Mathlib.Data.List.Nodup
import Journey.Proofs.Findings
import Journey.Proofs.Penalties

/-!
# Tables of Mode Changes

Which penalties make a table, and what the table says.

A table is filled entry by entry, and an entry is only checked against what the table holds
by then. What the check looks for can be said of the list of penalties alone, as for drafts
of timetables: a `Flaw` is one way in which a penalty is not acceptable, together with its
place, and a penalty that repeats one before it is flawed too, whatever else is wrong with
either. Only the lists without a flaw make a table, and what is reported of another one is
the flaw whose place comes first.

A table that was made lists each penalty by the mode that is left and the mode changed to.
No two are for the same change of mode, so none was written over another one: the penalty of
a change is that of the only entry for it, there are as many as entries, and another order
of the entries makes a table that says the same.

None of this depends on the arithmetic.

## Main definitions

* `ModeChangePenalty.Acceptable`, `ModeChangeTable.Acceptable`: What has to be true of a
  penalty, and of a list of them.
* `ModeChangePenalty.Flaw`, `ModeChangeTable.Flaw`: What can be wrong, and where.
* `ModeChangeTable.adding`: A table with more penalties.
* `ModeChangeTable.Sorted`: The modes are in order.

## Theorems

* `ModeChangePenalty.verdict_entryDefect?`: The check of a penalty finds its first flaw.
* `ModeChangeTable.verdict_firstDefect?`: The check of a list finds its first flaw.
* `ModeChangeTable.get?_adding_of_not_mem`, `ModeChangeTable.get?_adding_of_mem`: What a
  table lists.
* `ModeChangeTable.ofEntries_iff`: What makes a table, and what it says.
-/

namespace Journey

variable {α : Type} [Scalar α] {modes : List Mode}

namespace ModeChangePenalty

/-- The change of mode that a penalty is for. -/
def change {α : Type} (e : ModeChangePenalty α) : Mode × Mode := (e.origin, e.target)

/-- What has to be true of a penalty by itself. -/
structure Acceptable (modes : List Mode) (e : ModeChangePenalty α) : Prop where
  origin : e.origin ∈ modes
  target : e.target ∈ modes
  changes : e.origin ≠ e.target
  penalty : Scalar.isNonnegative e.penalty

/-- What can be wrong with a penalty, given the penalties before it. -/
inductive Flaw (modes : List Mode) (earlier : List (ModeChangePenalty α))
    (e : ModeChangePenalty α) : List Nat → ConfigurationError α → Prop where
  | origin : e.origin ∉ modes → Flaw modes earlier e [0] (.unknownMode e.origin)
  | target : e.target ∉ modes → Flaw modes earlier e [1] (.unknownMode e.target)
  | same : e.origin = e.target → Flaw modes earlier e [2] (.sameModePenalty e.origin)
  | penalty : ¬ Scalar.isNonnegative e.penalty →
    Flaw modes earlier e [3] (.invalidModePenalty e.origin e.target e.penalty)
  | duplicate : e.change ∈ earlier.map change →
    Flaw modes earlier e [4] (.duplicateModePenalty e.origin e.target)

end ModeChangePenalty

namespace ModeChangeTable

/-- What has to be true of a list of penalties. -/
structure Acceptable (modes : List Mode) (entries : List (ModeChangePenalty α)) : Prop where
  entry : ∀ e ∈ entries, e.Acceptable modes
  changes : (entries.map ModeChangePenalty.change).Nodup

/-- What can be wrong in a list of penalties, and where. -/
inductive Flaw (modes : List Mode) (entries : List (ModeChangePenalty α)) :
    List Nat → ConfigurationError α → Prop where
  | entry (n : Nat) (e : ModeChangePenalty α) (place : List Nat) (error : ConfigurationError α) :
    entries[n]? = some e → e.Flaw modes (entries.take n) place error →
      Flaw modes entries (n :: place) error

/-- A table into which some penalties were written. -/
def adding {α : Type} (t : ModeChangeTable α) (entries : List (ModeChangePenalty α)) :
    ModeChangeTable α :=
  entries.foldl insert t

section Listing

variable {α : Type} (t : ModeChangeTable α) {entries : List (ModeChangePenalty α)}
  {origin target : Mode}

/-- A change that no penalty is for is listed as before. -/
theorem get?_adding_of_not_mem (h : (origin, target) ∉ entries.map ModeChangePenalty.change) :
    (t.adding entries).get? origin target = t.get? origin target := by
  induction entries generalizing t with
  | nil => rfl
  | cons e rest ih =>
      rw [List.map_cons, List.mem_cons, not_or] at h
      rw [adding, List.foldl_cons]
      refine (ih (t.insert e) h.2).trans ?_
      rw [get?_insert, if_neg fun heq => h.1 (Prod.ext heq.1 heq.2)]

/-- A change that some penalty is for is listed with one of them. -/
theorem get?_adding_of_mem (h : (origin, target) ∈ entries.map ModeChangePenalty.change) :
    ∃ e ∈ entries, e.change = (origin, target) ∧
      (t.adding entries).get? origin target = some e.penalty := by
  induction entries generalizing t with
  | nil => exact absurd h List.not_mem_nil
  | cons e rest ih =>
      rw [adding, List.foldl_cons]
      by_cases hrest : (origin, target) ∈ rest.map ModeChangePenalty.change
      · rcases ih (t.insert e) hrest with ⟨e', he', hchange, hget⟩
        exact ⟨e', List.mem_cons_of_mem _ he', hchange, hget⟩
      · rw [List.map_cons, List.mem_cons] at h
        have hchange : (origin, target) = e.change := h.resolve_right hrest
        refine ⟨e, List.mem_cons_self, hchange.symm, ?_⟩
        -- No later penalty is for the same change.
        refine (get?_adding_of_not_mem (t.insert e) hrest).trans ?_
        rw [get?_insert, if_pos (Prod.mk.inj hchange)]

end Listing

end ModeChangeTable

namespace ModeChangePenalty

variable (modes) (earlier : List (ModeChangePenalty α)) (e : ModeChangePenalty α)

theorem acceptable_iff : e.change ∉ earlier.map change ∧ e.Acceptable modes ↔
    ∀ place error, ¬ e.Flaw modes earlier place error := by
  refine ⟨fun ⟨hnew, h⟩ place error hflaw => ?_, fun h => ⟨?_, ?_, ?_, ?_, ?_⟩⟩
  · cases hflaw with
    | origin hbad => exact hbad h.origin
    | target hbad => exact hbad h.target
    | same hbad => exact h.changes hbad
    | penalty hbad => exact hbad h.penalty
    | duplicate hbad => exact hnew hbad
  · exact fun hbad => h _ _ (.duplicate hbad)
  · exact not_not.mp fun hbad => h _ _ (.origin hbad)
  · exact not_not.mp fun hbad => h _ _ (.target hbad)
  · exact fun hbad => h _ _ (.same hbad)
  · exact not_not.mp fun hbad => h _ _ (.penalty hbad)

omit [Scalar α] in
theorem isSome_get?_adding : (((ModeChangeTable.empty.adding earlier).get? e.origin e.target).isSome
    = true) ↔ e.change ∈ earlier.map change := by
  by_cases hmem : e.change ∈ earlier.map change
  · rcases ModeChangeTable.get?_adding_of_mem .empty hmem with ⟨e', -, -, hget⟩
    simp only [hget, Option.isSome_some, hmem]
  · simp only [ModeChangeTable.get?_adding_of_not_mem .empty hmem, hmem, iff_false,
      Bool.not_eq_true, Option.isSome_eq_false_iff, Option.isNone_iff_eq_none]
    rfl

/-- The check of a penalty finds its first flaw. -/
theorem verdict_entryDefect? : Verdict (e.Flaw modes earlier)
    ((ModeChangeTable.empty.adding earlier).entryDefect? modes e) := by
  have hparts : (ModeChangeTable.empty.adding earlier).entryDefect? modes e = firstOf
      [if !modes.contains e.origin then some (.unknownMode e.origin) else none,
        if !modes.contains e.target then some (.unknownMode e.target) else none,
        if e.origin = e.target then some (.sameModePenalty e.origin) else none,
        if !Scalar.isNonnegative e.penalty then
          some (.invalidModePenalty e.origin e.target e.penalty) else none,
        if ((ModeChangeTable.empty.adding earlier).get? e.origin e.target).isSome then
          some (.duplicateModePenalty e.origin e.target) else none] := by
    unfold ModeChangeTable.entryDefect?
    split_ifs <;> rfl
  rw [hparts]
  refine Verdict.of_parts (fun e h => nomatch h) (fun n part hpart => ?_) fun n rest e hn h => ?_
  · match n, hpart with
    | 0, rfl =>
        refine Verdict.of_test ?_ ?_ <;> rw [List.contains_iff_mem]
        · exact .origin
        · exact fun | _, _, .origin hbad => ⟨hbad, rfl, rfl⟩
    | 1, rfl =>
        refine Verdict.of_test ?_ ?_ <;> rw [List.contains_iff_mem]
        · exact .target
        · exact fun | _, _, .target hbad => ⟨hbad, rfl, rfl⟩
    | 2, rfl => exact Verdict.of_condition .same fun | _, _, .same hbad => ⟨hbad, rfl, rfl⟩
    | 3, rfl => exact Verdict.of_test .penalty fun | _, _, .penalty hbad => ⟨hbad, rfl, rfl⟩
    | 4, rfl =>
        refine Verdict.of_condition ?_ ?_ <;> rw [isSome_get?_adding]
        · exact .duplicate
        · exact fun | _, _, .duplicate hbad => ⟨hbad, rfl, rfl⟩
  · cases h <;> exact absurd hn (by simp)

end ModeChangePenalty

namespace ModeChangeTable

variable {entries entries' : List (ModeChangePenalty α)} {table : ModeChangeTable α}

section Filling

variable (modes entries)

theorem acceptable_iff :
    Acceptable modes entries ↔ ∀ place error, ¬ Flaw modes entries place error := by
  refine ⟨fun h place error hflaw => ?_, fun h => ?_⟩
  · rcases hflaw with ⟨n, e, place, _, he, hflaw⟩
    have hnew := (nodup_iff_take _ _).mp h.changes n e he
    exact (e.acceptable_iff modes _).mp ⟨hnew, h.entry e (List.mem_of_getElem? he)⟩ place error
      hflaw
  · have hentries : ∀ n e, entries[n]? = some e →
        e.change ∉ (entries.take n).map ModeChangePenalty.change ∧ e.Acceptable modes :=
      fun n e he => (e.acceptable_iff modes _).mpr fun place error hflaw =>
        h _ _ (.entry n e place error he hflaw)
    refine ⟨fun e he => ?_, (nodup_iff_take _ _).mpr fun n e he => (hentries n e he).1⟩
    rcases List.getElem?_of_mem he with ⟨n, hn⟩
    exact (hentries n e hn).2

/-- What the check of a list reports. -/
def firstDefect? : Option (ConfigurationError α) :=
  firstOf (entries.mapIdx fun n e => (empty.adding (entries.take n)).entryDefect? modes e)

/-- The check of a list finds its first flaw. -/
theorem verdict_firstDefect? : Verdict (Flaw modes entries) (firstDefect? modes entries) :=
  Verdict.of_positions (fun n e _ => e.verdict_entryDefect? modes (entries.take n)) .entry
    fun | _, _, .entry n e place error he h => ⟨n, e, place, he, h, rfl⟩

-- Each entry is checked against those before it.
theorem addEntries_eq : ∀ t : ModeChangeTable α, t.addEntries modes entries =
    (firstOf (entries.mapIdx fun n e => (t.adding (entries.take n)).entryDefect? modes e)).elim
      (.ok (t.adding entries)) .error := by
  induction entries with
  | nil => exact fun _ => rfl
  | cons e rest ih =>
      intro t
      have hadd : ∀ l : List (ModeChangePenalty α), (t.insert e).adding l = t.adding (e :: l) :=
        fun _ => rfl
      have hnone : t.adding [] = t := rfl
      unfold addEntries
      rw [List.mapIdx_cons, firstOf, List.findSome?_cons, List.take_zero, hnone]
      cases t.entryDefect? modes e with
      | some defect => rfl
      | none => simp only [id, ih, hadd, List.take_succ_cons, firstOf]

theorem ofEntries_eq : ofEntries entries modes =
    (firstDefect? modes entries).elim (.ok (empty.adding entries)) .error :=
  addEntries_eq modes entries empty

end Filling

/-- Acceptable penalties make a table into which all of them are written. -/
theorem ofEntries_eq_ok_iff : ofEntries entries modes = .ok table ↔
    Acceptable modes entries ∧ table = empty.adding entries := by
  rw [ofEntries_eq, acceptable_iff, ← (verdict_firstDefect? modes entries).eq_none_iff]
  cases firstDefect? modes entries with
  | none =>
      simp only [Option.elim_none, Except.ok.injEq, true_and]
      exact eq_comm
  | some error => simp only [Option.elim_some, reduceCtorEq, false_and]

/-- The order of acceptable penalties does not matter. -/
theorem Acceptable.perm (h : Acceptable modes entries) (hperm : entries'.Perm entries) :
    Acceptable modes entries' where
  entry e he := h.entry e (hperm.mem_iff.mp he)
  changes := (hperm.map _).nodup_iff.mpr h.changes

/-- The penalty of a change of mode is that of the entry for it. -/
theorem Acceptable.penalty_eq (h : Acceptable modes entries) {e : ModeChangePenalty α}
    (he : e ∈ entries) : (empty.adding entries).penalty e.origin e.target = e.penalty := by
  rcases get?_adding_of_mem empty (List.mem_map_of_mem he) with ⟨e', he', hchange, hget⟩
  unfold penalty
  rw [hget, List.inj_on_of_nodup_map h.changes he' he hchange]
  rfl

omit [Scalar α] in
theorem not_mem_changes_iff {origin target : Mode} :
    (origin, target) ∉ entries.map ModeChangePenalty.change ↔
      ∀ e ∈ entries, e.change ≠ (origin, target) := by
  rw [List.mem_map, not_exists]
  exact forall_congr' fun e => not_and

/-- A change of mode without an entry has no penalty. -/
theorem penalty_eq_zero {origin target : Mode}
    (hnone : ∀ e ∈ entries, e.change ≠ (origin, target)) :
    (empty.adding entries).penalty origin target = 0 := by
  unfold penalty
  rw [get?_adding_of_not_mem empty (not_mem_changes_iff.mpr hnone)]
  rfl

/-- The modes that are left are in order, and so are those changed to from each of them. -/
def Sorted {α : Type} (t : ModeChangeTable α) : Prop :=
  t.rows.Sorted ∧ ∀ origin row, t.rows.get? origin = some row → row.Sorted

omit [Scalar α] in
/-- Writing a penalty for a new change makes a sorted table larger by one. -/
theorem Sorted.insert {t : ModeChangeTable α} (h : t.Sorted) {e : ModeChangePenalty α}
    (hnew : t.get? e.origin e.target = none) :
    (t.insert e).Sorted ∧ (t.insert e).size = t.size + 1 := by
  rcases h with ⟨hrows, hrow⟩
  unfold get? at hnew
  have htotal := hrows.total_insert e.origin.text
    (((t.rows.get? e.origin.text).getD .empty).insert e.target.text e.penalty) Dictionary.size
  have hold : ((t.rows.get? e.origin.text).getD .empty).Sorted ∧
      ((t.rows.get? e.origin.text).getD .empty).get? e.target.text = none ∧
      ((t.rows.get? e.origin.text).map Dictionary.size).getD 0 =
        ((t.rows.get? e.origin.text).getD .empty).size := by
    cases hget : t.rows.get? e.origin.text with
    | none => exact ⟨Dictionary.sorted_empty, rfl, rfl⟩
    | some row =>
        rw [hget] at hnew
        exact ⟨hrow _ row hget, hnew, rfl⟩
  rcases hold with ⟨hsorted, hnone, hsize⟩
  constructor
  · refine ⟨hrows.insert _ _, fun origin row hget => ?_⟩
    change (t.rows.insert e.origin.text _).get? origin = some row at hget
    rw [Dictionary.get?_insert] at hget
    split at hget
    · exact Option.some.inj hget ▸ hsorted.insert _ _
    · exact hrow origin row hget
  · change (t.rows.insert e.origin.text _).total Dictionary.size = t.rows.total Dictionary.size + 1
    rw [hsize, hsorted.size_insert hnone] at htotal
    omega

omit [Scalar α] in
theorem Sorted.size_adding {t : ModeChangeTable α} (h : t.Sorted)
    (hnew : ∀ e ∈ entries, t.get? e.origin e.target = none)
    (hchanges : (entries.map ModeChangePenalty.change).Nodup) :
    (t.adding entries).size = t.size + entries.length := by
  induction entries generalizing t with
  | nil => rfl
  | cons e rest ih =>
      rcases h.insert (hnew e List.mem_cons_self) with ⟨hsorted, hsize⟩
      rw [List.map_cons, List.nodup_cons] at hchanges
      rw [adding, List.foldl_cons]
      refine (ih hsorted (fun e' he' => ?_) hchanges.2).trans ?_
      · have hne : ¬ (e'.origin = e.origin ∧ e'.target = e.target) := fun heq =>
          hchanges.1 (List.mem_map.mpr ⟨e', he', Prod.ext heq.1 heq.2⟩)
        rw [get?_insert, if_neg hne]
        exact hnew e' (List.mem_cons_of_mem _ he')
      · rw [hsize, List.length_cons]
        omega

theorem Acceptable.size_eq (h : Acceptable modes entries) :
    (empty.adding entries).size = entries.length :=
  have hsorted : (empty : ModeChangeTable α).Sorted :=
    ⟨Dictionary.sorted_empty, fun _ _ hget => absurd hget.symm (Option.some_ne_none _)⟩
  (hsorted.size_adding (fun _ _ => rfl) h.changes).trans (Nat.zero_add _)

/-- Another order of the entries makes a table that says the same. -/
theorem Acceptable.penalty_perm (h : Acceptable modes entries) (hperm : entries'.Perm entries)
    (origin target : Mode) :
    (empty.adding entries').penalty origin target =
      (empty.adding entries).penalty origin target := by
  by_cases hlisted : ∃ e ∈ entries, e.change = (origin, target)
  · rcases hlisted with ⟨e, he, hchange⟩
    rw [ModeChangePenalty.change, Prod.mk.injEq] at hchange
    rw [← hchange.1, ← hchange.2, h.penalty_eq he,
      (h.perm hperm).penalty_eq (hperm.mem_iff.mpr he)]
  · simp only [not_exists, not_and] at hlisted
    rw [penalty_eq_zero hlisted, penalty_eq_zero fun e he => hlisted e (hperm.mem_iff.mp he)]

/-- A table is made of exactly the acceptable penalties, and what is reported of others is
    their first flaw. The table has the penalty of each entry and no other one, as many as
    there are entries, and the order of the entries does not matter. -/
theorem ofEntries_iff (modes : List Mode) (entries : List (ModeChangePenalty α)) :
    ((∃ table, ofEntries entries modes = .ok table) ↔ Acceptable modes entries) ∧
      (∀ error, ofEntries entries modes = .error error ↔ First (Flaw modes entries) error) ∧
      ∀ table, ofEntries entries modes = .ok table →
        (∀ e ∈ entries, table.penalty e.origin e.target = e.penalty) ∧
        (∀ origin target, (∀ e ∈ entries, e.change ≠ (origin, target)) →
          table.penalty origin target = 0) ∧
        table.size = entries.length ∧
        ∀ entries', entries'.Perm entries → ∃ table', ofEntries entries' modes = .ok table' ∧
          (∀ origin target, table'.penalty origin target = table.penalty origin target) ∧
          table'.size = table.size := by
  have hreport := (verdict_firstDefect? modes entries).report (empty.adding entries)
  rw [← ofEntries_eq, ← acceptable_iff] at hreport
  refine ⟨hreport.1, hreport.2, fun table hok => ?_⟩
  rcases ofEntries_eq_ok_iff.mp hok with ⟨h, rfl⟩
  refine ⟨fun e he => h.penalty_eq he, fun _ _ hnone => penalty_eq_zero hnone, h.size_eq,
    fun entries' hperm => ?_⟩
  refine ⟨empty.adding entries', ofEntries_eq_ok_iff.mpr ⟨h.perm hperm, rfl⟩,
    h.penalty_perm hperm, ?_⟩
  rw [(h.perm hperm).size_eq, h.size_eq, hperm.length_eq]

end ModeChangeTable

namespace Sample

/-- The modes of a network. -/
def busTrainFerry : List Mode := [⟨"bus"⟩, ⟨"train"⟩, ⟨"ferry"⟩]

/-- Penalties for both directions of a change, and for one to a third mode. -/
def severalChanges : List (ModeChangePenalty Float) :=
  [⟨⟨"bus"⟩, ⟨"train"⟩, 1⟩, ⟨⟨"train"⟩, ⟨"bus"⟩, 1.5⟩, ⟨⟨"bus"⟩, ⟨"ferry"⟩, 0⟩]

end Sample

namespace ModeChangeTable

open Sample in
/-- Three penalties make a table in either order. If they are listed twice and one of the
    modes is not there, the mode comes before the repetitions. -/
theorem ofEntries_iff_severalChanges : ∃ table table',
    ofEntries severalChanges busTrainFerry = .ok table ∧
    table.penalty ⟨"train"⟩ ⟨"bus"⟩ = 1.5 ∧ table.penalty ⟨"train"⟩ ⟨"ferry"⟩ = 0 ∧
    table.size = 3 ∧
    ofEntries severalChanges.reverse busTrainFerry = .ok table' ∧
    table'.penalty ⟨"train"⟩ ⟨"bus"⟩ = table.penalty ⟨"train"⟩ ⟨"bus"⟩ ∧
    First (Flaw [⟨"bus"⟩, ⟨"train"⟩] (severalChanges ++ severalChanges))
      (.unknownMode ⟨"ferry"⟩) := by
  have hok : ofEntries severalChanges busTrainFerry
      = .ok (empty.adding severalChanges) := by decide +kernel
  rcases (ofEntries_iff busTrainFerry severalChanges).2.2 _ hok with ⟨hlisted, hnone, hsize, hperm⟩
  rcases hperm _ severalChanges.reverse_perm with ⟨table', hok', hsame, -⟩
  have herror : ofEntries (severalChanges ++ severalChanges) [⟨"bus"⟩, ⟨"train"⟩]
      = .error (.unknownMode ⟨"ferry"⟩) := by decide +kernel
  exact ⟨_, table', hok, hlisted ⟨⟨"train"⟩, ⟨"bus"⟩, 1.5⟩ (by decide +kernel),
    hnone _ _ (by decide +kernel), hsize, hok', hsame _ _,
    ((ofEntries_iff _ _).2.1 _).mp herror⟩

end ModeChangeTable

end Journey
