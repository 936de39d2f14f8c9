import Journey.Proofs.Search.Additions

/-!
# Counting Rounds

What a search writes down about its rounds, and what a higher limit adds.

Scans and walks never look at the statistics and never touch them, and a route-stop
is only noted as improved when a label is stored. So a round adds one entry to the
statistics, and if that entry is not zero, a label. Everything that the statistics say
in the end follows from this by going through the rounds.

The limit of transfers is read in one place, where it becomes the number of rounds
that may be made. A search with a higher limit therefore repeats the rounds of one
with a lower limit, and goes on only if that one was cut off.

## Main definitions

* `SearchQuery.allowing`: The same query with another limit of transfers.
* `Workspace.Works`: What the loops of a round leave alone.
* `Statistics.Accounts`: What statistics say about the rounds that were made.

## Theorems

* `Workspace.works_of_scanRoutes?`, `Workspace.works_of_relax?`: Scans and walks leave
  the statistics alone.
* `Workspace.statistics_of_rounds?`: What rounds write down.
* `Workspace.statistics_of_explore?`: What a search writes down.
* `Workspace.size_of_rounds?`, `Workspace.size_of_explore?`: Rounds that are cut off have
  stored a label each.
* `Workspace.rounds?_extend`: More rounds begin where fewer ended.
* `Workspace.explore?_extend`: A search with a higher limit goes on where one with a
  lower limit ended.
* `Engine.search?_extend`: It only repeats one that was not cut off.
-/

namespace Journey

variable {α : Type}

/-- The same query with another limit of transfers. -/
def SearchQuery.allowing (q : SearchQuery α) (maxTransfers : Nat) : SearchQuery α :=
  { q with maxTransfers }

/-- What statistics say about the rounds that were made. -/
structure Statistics.Accounts (s : Statistics) (maxTransfers : Nat) : Prop where
  rounds_pos : 0 < s.rounds
  rounds_le : s.rounds ≤ maxTransfers + 1
  length_eq : s.improvedPerRound.length = s.rounds
  /-- Every round but the last one improved something. -/
  positive : ∀ n ∈ s.improvedPerRound.dropLast, 0 < n
  /-- The search was cut off if the last round did so, too. -/
  capHit_iff : s.roundCapHit = true ↔ ∃ n, s.improvedPerRound.getLast? = some n ∧ 0 < n

namespace Workspace

/-- What the loops of a round leave alone: the statistics, and what was improved,
    unless a label is stored. -/
structure Works (w w' : Workspace α) : Prop where
  statistics : w'.statistics = w.statistics
  improved : w'.improved = w.improved ∧ w'.labels.size = w.labels.size ∨
    w.labels.size < w'.labels.size

namespace Works

variable {w w₁ w₂ : Workspace α}

theorem refl (w : Workspace α) : Works w w := ⟨rfl, Or.inl ⟨rfl, rfl⟩⟩

theorem trans (h : Works w w₁) (h' : Works w₁ w₂) : Works w w₂ := by
  refine ⟨h'.statistics.trans h.statistics, ?_⟩
  rcases h.improved with ⟨himproved, hsize⟩ | hlt
  · rcases h'.improved with ⟨himproved', hsize'⟩ | hlt'
    · exact Or.inl ⟨himproved'.trans himproved, hsize'.trans hsize⟩
    · exact Or.inr (hsize ▸ hlt')
  · rcases h'.improved with ⟨-, hsize'⟩ | hlt'
    · exact Or.inr (hsize'.symm ▸ hlt)
    · exact Or.inr (Nat.lt_trans hlt hlt')

-- A loop whose passes leave the statistics alone does so.
theorem of_foldlM {β : Type} {f : Workspace α → β → Option (Workspace α)} {xs : List β}
    (hstep : ∀ u x u', f u x = some u' → Works u u') (h : xs.foldlM f w = some w₁) : Works w w₁ :=
  Loop.foldlM_invariant (fun _ u => Works w u) xs
    (fun _ x _ u u' _ hu hx => hu.trans (hstep u x u' hx)) w w₁ (refl w) h

end Works

variable [Scalar α] {t : Timetable α} {policy : TransferPolicy α} {q : SearchQuery α}
  {w w' : Workspace α} {l : Label α}

section Loops

-- Storing a label and noting its route-stop.
theorem works_of_improvements (h : Improvements t w w') : Works w w' := by
  induction h with
  | refl => exact Works.refl w
  | tail _ hstep ih =>
      rcases hstep with ⟨l, w₁, hstore, hmark⟩
      rcases store?_eq_some hstore with ⟨best, labelled, egress, -, -, -, rfl⟩
      rcases markImproved?_eq_some hmark with ⟨improved, rs, start, scanStart, -, -, -, -, rfl⟩
      exact ih.trans ⟨rfl, Or.inr (by rw [Array.size_push]; exact Nat.lt_succ_self _)⟩

theorem works_of_landings (h : Landings w w') : Works w w' := by
  induction h with
  | refl => exact Works.refl w
  | tail _ hstep ih =>
      rcases hstep with ⟨l, w₁, hstore, hmark⟩
      rcases store?_eq_some hstore with ⟨best, labelled, egress, -, -, -, rfl⟩
      rcases markReached?_eq_some hmark with ⟨reached, -, rfl⟩
      exact ih.trans ⟨rfl, Or.inr (by rw [Array.size_push]; exact Nat.lt_succ_self _)⟩

theorem works_of_offerEgress? {e : Egress α} {i : Nat} (h : w.offerEgress? e i = some w') :
    Works w w' := by
  rcases offerEgress?_eq_some h with ⟨rfl, -⟩ | ⟨table, destinations, -, -, -, rfl⟩
  · exact Works.refl w'
  · exact ⟨rfl, Or.inl ⟨rfl, rfl⟩⟩

theorem works_of_offerAccess? (h : w.offerAccess? t l = some w') : Works w w' :=
  works_of_improvements (improvements_of_offerAccess? h)

theorem works_of_scanRoute? {p : Parameters α} {r : Nat} (h : scanRoute? t p w r = some w') :
    Works w w' := by
  rcases landings_of_scanRoute? h with ⟨row, w₁, first, -, htake, hlandings⟩
  rcases takeScanStart?_eq_some htake with ⟨start, scanStart, -, -, rfl, -⟩
  have htaken : Works w { w with scanStart } := ⟨rfl, Or.inl ⟨rfl, rfl⟩⟩
  exact htaken.trans (works_of_landings hlandings)

/-- The scans of a round leave the statistics alone. -/
theorem works_of_scanRoutes? {p : Parameters α} (h : w.scanRoutes? t p = some w') : Works w w' :=
  Works.of_foldlM (fun _ _ _ h => works_of_scanRoute? h) h

/-- The walks of a round leave the statistics alone. -/
theorem works_of_relax? (h : w.relax? t policy q = some w') : Works w w' := by
  rcases improvements_of_relax? h with ⟨w₁, sources, himproves, rfl⟩
  have haway : Works w₁ (w₁.putAway sources) := ⟨rfl, Or.inl ⟨rfl, rfl⟩⟩
  exact (works_of_improvements himproves).trans haway

-- So does everything before the first round.
theorem statistics_of_begin? (h : w.begin? t q = some w') : w'.statistics = Statistics.initial := by
  rcases begin?_eq_some h with ⟨w₁, hegress, haccess⟩
  have htold : Works w.reset w₁ := by
    rw [setEgress?_eq] at hegress
    refine Works.of_foldlM (fun u x u' hu => ?_) hegress
    rcases Option.bind_eq_some_iff.mp hu with ⟨routeStops, -, hu⟩
    exact Works.of_foldlM (fun _ _ _ h => works_of_offerEgress? h) hu
  have hentered : Works w₁ w' := works_of_improvements (improvements_of_setAccess? haccess)
  exact (htold.trans hentered).statistics

end Loops

section Rounds

/-- A round writes down how much it improved, and has stored a label if it improved
    something. -/
theorem statistics_of_round? (h : w.round? t policy q = some w') :
    w'.statistics = ⟨w.statistics.rounds + 1,
      w.statistics.improvedPerRound ++ [w'.improved.size], w.statistics.roundCapHit,
      w.statistics.labels⟩ ∧
      (w'.improved.isEmpty = false → w.labels.size < w'.labels.size) := by
  rcases round?_eq_some h with ⟨w₁, w₂, w₃, hopen, hscan, hrelax, rfl⟩
  have hworks := (works_of_scanRoutes? hscan).trans (works_of_relax? hrelax)
  have hopened : w₁.statistics = { w.statistics with rounds := w.statistics.rounds + 1 } ∧
      w₁.labels = w.labels ∧ w₁.improved = w.improved.clear := by
    unfold openRound? at hopen
    rcases Option.bind_eq_some_iff.mp hopen with ⟨touched, -, hopen⟩
    rw [← Option.some.inj hopen]
    exact ⟨rfl, rfl, rfl⟩
  rcases hopened with ⟨hstatistics, hlabels, himproved⟩
  unfold closeRound
  rw [hworks.statistics, hstatistics]
  refine ⟨rfl, fun hsome => ?_⟩
  -- Nothing was improved when the round opened.
  rcases hworks.improved with ⟨hsame, -⟩ | hlt
  · have hempty : w₃.improved.isEmpty = true := by
      rw [IndexSet.isEmpty_iff, hsame, himproved, IndexSet.toList_clear]
    exact absurd (hempty.symm.trans hsome) Bool.noConfusion
  · exact hlabels ▸ hlt

theorem rounds?_succ (budget : Nat) (w : Workspace α) :
    w.rounds? t policy q (budget + 1) = (w.round? t policy q).bind fun w₁ =>
      if w₁.improved.isEmpty then some w₁ else w₁.rounds? t policy q budget := rfl

omit [Scalar α] in
theorem size_improved_pos {w : Workspace α} (h : w.improved.isEmpty = false) :
    0 < w.improved.size := by
  unfold IndexSet.isEmpty at h
  unfold IndexSet.size
  rw [Array.isEmpty_eq_false_iff] at h
  exact Array.size_pos_iff.mpr h

omit [Scalar α] in
theorem size_improved_eq_zero {w : Workspace α} (h : w.improved.isEmpty = true) :
    w.improved.size = 0 := by
  unfold IndexSet.isEmpty at h
  unfold IndexSet.size
  rw [Array.isEmpty_iff] at h
  rw [h, Array.size_empty]

/-- Rounds write down one entry each. All but the last one have improved something,
    and so has the last one if there was no more to make. -/
theorem statistics_of_rounds? (budget : Nat) :
    ∀ {w : Workspace α}, w.rounds? t policy q (budget + 1) = some w' →
      ∃ earlier, w'.statistics.improvedPerRound
          = w.statistics.improvedPerRound ++ earlier ++ [w'.improved.size] ∧
        w'.statistics.rounds = w.statistics.rounds + earlier.length + 1 ∧
        (∀ n ∈ earlier, 0 < n) ∧ earlier.length ≤ budget ∧
        (w'.improved.isEmpty = false → earlier.length = budget) := by
  induction budget with
  | zero =>
      intro w h
      rw [rounds?_succ] at h
      rcases Option.bind_eq_some_iff.mp h with ⟨w₁, hround, h⟩
      rw [rounds?, ite_self, Option.some.injEq] at h
      subst h
      rw [(statistics_of_round? hround).1]
      exact ⟨[], by rw [List.append_nil], rfl, fun n hn => absurd hn List.not_mem_nil,
        Nat.le_refl 0, fun _ => rfl⟩
  | succ budget ih =>
      intro w h
      rw [rounds?_succ] at h
      rcases Option.bind_eq_some_iff.mp h with ⟨w₁, hround, h⟩
      have hstatistics := (statistics_of_round? hround).1
      split at h
      · rename_i hempty
        rw [Option.some.injEq] at h
        subst h
        rw [hstatistics]
        exact ⟨[], by rw [List.append_nil], rfl, fun n hn => absurd hn List.not_mem_nil,
          Nat.zero_le _, fun hsome => absurd (hempty.symm.trans hsome) Bool.noConfusion⟩
      · rename_i hsome
        rcases ih h with ⟨earlier, hrest, hrounds, hpositive, hle, hlast⟩
        refine ⟨w₁.improved.size :: earlier, ?_, ?_, ?_, Nat.succ_le_succ hle, fun hcut => ?_⟩
        · rw [hrest, hstatistics, List.append_assoc _ [_] earlier, List.singleton_append]
        · have hcount : w₁.statistics.rounds = w.statistics.rounds + 1 := by rw [hstatistics]
          rw [hrounds, hcount, List.length_cons]
          omega
        · intro n hn
          rcases List.mem_cons.mp hn with rfl | hn
          · exact size_improved_pos (Bool.eq_false_iff.mpr hsome)
          · exact hpositive n hn
        · rw [List.length_cons, hlast hcut]

/-- Rounds that are cut off have stored a label each. -/
theorem size_of_rounds? (budget : Nat) :
    ∀ {w : Workspace α}, w.rounds? t policy q budget = some w' → w'.improved.isEmpty = false →
      w.labels.size + budget ≤ w'.labels.size := by
  induction budget with
  | zero => exact fun h _ => Nat.le_of_eq (congrArg (·.labels.size) (Option.some.inj h))
  | succ budget ih =>
      intro w h hcut
      rw [rounds?_succ] at h
      rcases Option.bind_eq_some_iff.mp h with ⟨w₁, hround, h⟩
      have hstored := (statistics_of_round? hround).2
      split at h
      · rename_i hempty
        rw [Option.some.inj h] at hempty
        exact absurd (hempty.symm.trans hcut) Bool.noConfusion
      · rename_i hsome
        have hrest := ih h hcut
        have hone := hstored (Bool.eq_false_iff.mpr hsome)
        omega

/-- More rounds begin where fewer ended, and end there if that was no cut. -/
theorem rounds?_extend (more budget : Nat) :
    ∀ {w : Workspace α}, w.rounds? t policy q (budget + 1) = some w' →
      w.rounds? t policy q (more + (budget + 1))
        = if w'.improved.isEmpty then some w' else w'.rounds? t policy q more := by
  induction budget with
  | zero =>
      intro w h
      rw [rounds?_succ] at h
      rcases Option.bind_eq_some_iff.mp h with ⟨w₁, hround, h⟩
      rw [rounds?, ite_self, Option.some.injEq] at h
      rw [← Nat.add_assoc, Nat.add_zero, rounds?_succ, hround, Option.bind_some, h]
  | succ budget ih =>
      intro w h
      rw [rounds?_succ] at h
      rcases Option.bind_eq_some_iff.mp h with ⟨w₁, hround, h⟩
      rw [← Nat.add_assoc, rounds?_succ, hround, Option.bind_some]
      split at h
      · rename_i hempty
        rw [if_pos hempty, ← Option.some.inj h, if_pos hempty]
      · rename_i hsome
        rw [if_neg hsome, ih h]

end Rounds

section Searches

theorem rounds?_allowing (maxTransfers budget : Nat) :
    ∀ w : Workspace α,
      w.rounds? t policy (q.allowing maxTransfers) budget = w.rounds? t policy q budget := by
  induction budget with
  | zero => exact fun w => rfl
  | succ budget ih =>
      intro w
      rw [rounds?_succ, rounds?_succ]
      have hround : w.round? t policy (q.allowing maxTransfers) = w.round? t policy q := rfl
      rw [hround]
      refine congrArg _ (funext fun w₁ => ?_)
      rw [ih w₁]

-- The limit of transfers is nothing but the number of rounds.
theorem explore?_allowing_eq_some {maxTransfers : Nat}
    (h : w.explore? t policy (q.allowing maxTransfers) = some w') :
    ∃ w₁ w₂, w.begin? t q = some w₁ ∧ w₁.rounds? t policy q (maxTransfers + 1) = some w₂ ∧
      w' = w₂.conclude := by
  rcases explore?_eq_some h with ⟨w₁, w₂, hbegin, hrounds, heq⟩
  rw [rounds?_allowing] at hrounds
  exact ⟨w₁, w₂, hbegin, hrounds, heq⟩

/-- What a search writes down about its rounds. -/
theorem statistics_of_explore? (h : w.explore? t policy q = some w') :
    w'.statistics.Accounts q.maxTransfers ∧ w'.statistics.labels = w'.labels.size := by
  rcases explore?_eq_some h with ⟨w₁, w₂, hbegin, hrounds, rfl⟩
  rcases statistics_of_rounds? q.maxTransfers hrounds with
    ⟨earlier, hlist, hcount, hpositive, hle, -⟩
  rw [statistics_of_begin? hbegin] at hlist hcount
  have hlist' : w₂.conclude.statistics.improvedPerRound = earlier ++ [w₂.improved.size] := hlist
  have hcount' : w₂.conclude.statistics.rounds = 0 + earlier.length + 1 := hcount
  refine ⟨?_, rfl⟩
  refine
    { rounds_pos := by rw [hcount']; omega
      rounds_le := by rw [hcount']; omega
      length_eq := by rw [hlist', hcount', List.length_append, List.length_singleton]; omega
      positive := by rw [hlist', List.dropLast_concat]; exact hpositive
      capHit_iff := ?_ }
  have hcap : w₂.conclude.statistics.roundCapHit = !w₂.improved.isEmpty := rfl
  rw [hlist', List.getLast?_concat, hcap]
  cases hempty : w₂.improved.isEmpty with
  | true => simp [size_improved_eq_zero hempty]
  | false => simp [size_improved_pos hempty]

-- Until its end a search is a run of the query without regard to the limit.
theorem run_of_explore?_allowing {maxTransfers : Nat} (hw : t.WellFormed) (hf : w.Fits t)
    (h : w.explore? t policy (q.allowing maxTransfers) = some w') :
    Run t policy q w.reset w' := by
  rcases explore?_allowing_eq_some h with ⟨w₁, w₂, hbegin, hrounds, rfl⟩
  have hrun : Run t policy q w.reset w₁ := run_of_begin? hw hf hbegin
  have hmore : Run t policy q w₁ w₂ := (inRounds_of_rounds? hrounds).run hw (hrun.fits hf.reset)
  exact (hrun.trans hmore).trans (Run.single (Event.quiet (quiet_conclude w₂)))

/-- A search that is cut off has stored more labels than transfers were allowed. -/
theorem size_of_explore? {maxTransfers : Nat}
    (h : w.explore? t policy (q.allowing maxTransfers) = some w')
    (hcut : w'.statistics.roundCapHit = true) : maxTransfers < w'.labels.size := by
  rcases explore?_allowing_eq_some h with ⟨w₁, w₂, -, hrounds, rfl⟩
  have hcap : w₂.conclude.statistics.roundCapHit = !w₂.improved.isEmpty := rfl
  rw [hcap, Bool.not_eq_true'] at hcut
  have hsize : w₁.labels.size + (maxTransfers + 1) ≤ w₂.labels.size :=
    size_of_rounds? _ hrounds hcut
  have hlabels : w₂.conclude.labels = w₂.labels := rfl
  rw [hlabels]
  omega

/-- A search with a higher limit goes on where one with a lower limit ended, unless that
    one was not cut off. -/
theorem explore?_extend {m n : Nat} (hmn : m ≤ n) {u u' : Workspace α}
    (hu : w.explore? t policy (q.allowing m) = some u)
    (hu' : w.explore? t policy (q.allowing n) = some u') :
    (u.statistics.roundCapHit = false → u' = u) ∧
      ∃ v v' : Workspace α, u = v.conclude ∧ u' = v'.conclude ∧
        (v' = v ∨ v.rounds? t policy q (n - m) = some v') := by
  rcases explore?_allowing_eq_some hu with ⟨w₁, v, hbegin, hrounds, rfl⟩
  rcases explore?_allowing_eq_some hu' with ⟨w₁', v', hbegin', hrounds', rfl⟩
  rw [hbegin, Option.some.injEq] at hbegin'
  subst hbegin'
  have hbudget : n + 1 = (n - m) + (m + 1) := by omega
  rw [hbudget, rounds?_extend (n - m) m hrounds] at hrounds'
  split at hrounds'
  · rw [Option.some.injEq] at hrounds'
    subst hrounds'
    exact ⟨fun _ => rfl, v, v, rfl, rfl, Or.inl rfl⟩
  · rename_i hsome
    refine ⟨fun hcut => ?_, v, v', rfl, rfl, Or.inr hrounds'⟩
    have hcap : v.conclude.statistics.roundCapHit = !v.improved.isEmpty := rfl
    rw [hcap, Bool.not_eq_false'] at hcut
    exact absurd hcut hsome

-- The trip is told from the labels alone.
theorem itinerary?_allowing [Planar α] (w : Workspace α) (maxTransfers : Nat) :
    w.itinerary? t (q.allowing maxTransfers) = w.itinerary? t q := by
  have hextend : ∀ (labels : List (Label α)) (p : Progress α),
      p.extendAll? t (q.allowing maxTransfers) w.labels labels
        = p.extendAll? t q w.labels labels := by
    intro labels
    induction labels with
    | nil => exact fun p => rfl
    | cons l rest ih =>
        intro p
        have hone : p.extend? t (q.allowing maxTransfers) w.labels l = p.extend? t q w.labels l :=
          rfl
        unfold Progress.extendAll?
        rw [hone]
        refine congrArg _ (funext fun r => ?_)
        cases r with
        | none => rfl
        | some p' => exact ih p'
  have hlegs : w.legs? t (q.allowing maxTransfers) = w.legs? t q := by
    funext a
    unfold legs?
    refine congrArg _ (funext fun chain => ?_)
    exact congrArg (· >>= _) (hextend _ _)
  unfold itinerary?
  rw [hlegs]

-- The list of what rounds improved only becomes longer.
theorem improvedPerRound_prefix {budget : Nat} (h : w.rounds? t policy q budget = some w') :
    w.statistics.improvedPerRound <+: w'.statistics.improvedPerRound := by
  cases budget with
  | zero => exact Option.some.inj h ▸ List.prefix_refl _
  | succ budget =>
      rcases statistics_of_rounds? budget h with ⟨earlier, hlist, -⟩
      rw [hlist, List.append_assoc]
      exact List.prefix_append _ _

end Searches

end Workspace

namespace Engine

variable [Scalar α] [Planar α] {e e₁ e₂ : Engine α} {q : SearchQuery α}
  {found₁ found₂ : Option (Itinerary α)}

/-- A search that was not cut off is repeated by every one with a higher limit. -/
theorem search?_extend {m n : Nat} (hmn : m ≤ n)
    (h₁ : e.search? (q.allowing m) = some (e₁, found₁))
    (h₂ : e.search? (q.allowing n) = some (e₂, found₂))
    (hfinished : e₁.statistics.roundCapHit = false) : e₂ = e₁ ∧ found₂ = found₁ := by
  rcases search?_eq_some h₁ with ⟨hexplore₁, hfound₁, ht₁, hp₁⟩
  rcases search?_eq_some h₂ with ⟨hexplore₂, hfound₂, ht₂, hp₂⟩
  have hworkspace := (Workspace.explore?_extend hmn hexplore₁ hexplore₂).1 hfinished
  rw [hworkspace, Workspace.itinerary?_allowing] at hfound₂
  rw [Workspace.itinerary?_allowing] at hfound₁
  constructor
  · cases e₁
    cases e₂
    simp only [Engine.mk.injEq]
    exact ⟨ht₂.trans ht₁.symm, hp₂.trans hp₁.symm, hworkspace⟩
  · exact Option.some.inj (hfound₂.symm.trans hfound₁)

end Engine

end Journey
