import Journey.Proofs.MoreRounds
import Journey.Proofs.Search.Restarting

/-!
# Reused Engines

An engine that has been used is as good as a new one.

Engines are kept so that their tables need not be made again, and nothing about the
queries they have answered is supposed to show. What can be seen of a query is its
itinerary, its statistics and the journeys to all route-stops. All of this is the same
for an engine in service as for a new one, whether the queries before found something
or not and whether they were cut off or not. So one engine answers any list of queries
as a new engine for each of them does. This needs no assumption about the arithmetic,
the candidates or the transfer policy. A policy that does not answer what it is asked
gives no outcome on either side.

## Main definitions

* `Engine.Outcome`: What can be seen of a query.
* `Engine.journeyAt?`: The journey that a route-stop is left with.
* `Engine.outcome?`, `Engine.outcomes?`: Asking a query, or one after the other.

## Theorems

* `Engine.labelAt?_of_journeyAt?`: A journey ends with the best label.
* `Engine.InService.outcome?_eq`: Two engines in service answer a query alike.
* `Engine.InService.outcome?_exists`: A query within the timetable has an outcome.
* `Engine.outcomes?_as_new`: One engine answers many queries as many new engines do.
-/

namespace Journey

variable {α : Type}

/-- What can be seen of a query. -/
structure Engine.Outcome (α : Type) where
  itinerary : Option (Itinerary α)
  statistics : Statistics
  /-- For every route-stop its best label and all before it. -/
  journeys : List (Option (List (Nat × Label α)))

-- A chain begins with the label it is the chain of.
theorem Label.chain?_eq_cons {labels : Array (Label α)} {id : Nat} {chain : List (Nat × Label α)}
    (h : Label.chain? labels id = some chain) :
    ∃ l rest, labels[id]? = some l ∧ chain = (id, l) :: rest := by
  unfold Label.chain? at h
  generalize labels.size = length at h
  cases length with
  | zero => exact absurd h (Option.some_ne_none chain).symm
  | succ length =>
      unfold Label.chainWithin? at h
      rcases Option.bind_eq_some_iff.mp h with ⟨l, hl, h⟩
      cases hprevious : l.previous with
      | none =>
          simp only [hprevious, Option.pure_def, Option.some.injEq] at h
          exact ⟨l, [], hl, h.symm⟩
      | some previous =>
          simp only [hprevious] at h
          rcases Option.bind_eq_some_iff.mp h with ⟨rest, -, h⟩
          exact ⟨l, rest, hl, (Option.some.inj h).symm⟩

namespace Engine

variable [Scalar α] {t : Timetable α} {policy : TransferPolicy α} {e e' : Engine α}
  {q : SearchQuery α}

/-- The best label of a route-stop, followed through its predecessors. -/
def journeyAt? {α : Type} (e : Engine α) (routeStop : Nat) :
    Option (Option (List (Nat × Label α))) := do
  match ← e.workspace.best[routeStop]? with
  | none => return none
  | some id => return some (← Label.chain? e.workspace.labels id)

omit [Scalar α] in
-- A journey ends with the label that can be looked up.
theorem labelAt?_of_journeyAt? {i : Nat} {journey : Option (List (Nat × Label α))}
    (h : e.journeyAt? i = some journey) :
    e.labelAt? i = some (journey.bind fun chain => chain.head?.map Prod.snd) := by
  unfold journeyAt? at h
  unfold labelAt? Workspace.labelAt?
  rcases Option.bind_eq_some_iff.mp h with ⟨best, hbest, h⟩
  simp only [hbest, Option.bind_eq_bind, Option.bind_some]
  cases best with
  | none =>
      rw [Option.pure_def, Option.some.injEq] at h
      rw [← h]
      rfl
  | some id =>
      rcases Option.bind_eq_some_iff.mp h with ⟨chain, hchain, h⟩
      rw [Option.pure_def, Option.some.injEq] at h
      rw [← h]
      rcases Label.chain?_eq_cons hchain with ⟨l, rest, hl, rfl⟩
      simp only [hl, Option.bind_some, Option.pure_def, List.head?_cons, Option.map_some]

variable [Planar α]

/-- Ask a query and look at everything that can be seen of it. -/
def outcome? (e : Engine α) (q : SearchQuery α) : Option (Engine α × Outcome α) := do
  let (e, itinerary) ← e.search? q
  let journeys ← (List.range e.timetable.routeStops.size).mapM e.journeyAt?
  return (e, { itinerary, statistics := e.statistics, journeys })

/-- Ask one query after the other. -/
def outcomes? : Engine α → List (SearchQuery α) → Option (List (Outcome α))
  | _, [] => some []
  | e, q :: queries => do
    let (e, outcome) ← e.outcome? q
    return outcome :: (← outcomes? e queries)

theorem outcome?_eq_some {o : Outcome α} (h : e.outcome? q = some (e', o)) :
    ∃ journeys, e.search? q = some (e', o.itinerary) ∧
      (List.range e'.timetable.routeStops.size).mapM e'.journeyAt? = some journeys ∧
      o = ⟨o.itinerary, e'.statistics, journeys⟩ := by
  unfold outcome? at h
  rcases Option.bind_eq_some_iff.mp h with ⟨⟨e₁, found⟩, hsearch, h⟩
  rcases Option.bind_eq_some_iff.mp h with ⟨journeys, hjourneys, h⟩
  rw [Option.pure_def, Option.some.injEq, Prod.mk.injEq] at h
  rcases h with ⟨rfl, rfl⟩
  exact ⟨journeys, hsearch, hjourneys, rfl⟩

namespace InService

-- The searches of two engines in service end abreast, with the same itinerary.
theorem search?_abreast (hw : t.WellFormed) (he : InService t policy e)
    (he' : InService t policy e') {e₁ : Engine α} {found : Option (Itinerary α)}
    (h : e.search? q = some (e₁, found)) :
    ∃ e₂, e'.search? q = some (e₂, found) ∧ e₂.timetable = e₁.timetable ∧
      Workspace.Abreast t q e₁.workspace e₂.workspace := by
  rcases he.fits hw with ⟨ht, hp, hf⟩
  rcases he'.fits hw with ⟨ht', hp', hf'⟩
  rcases search?_eq_some h with ⟨hexplore, hitinerary, ht₁, -⟩
  rw [ht, hp] at hexplore
  rw [ht] at hitinerary
  rcases Workspace.explore?_abreast hw hf hf' hexplore with ⟨w', hexplore', habreast⟩
  refine ⟨{ e' with workspace := w' }, ?_, (ht'.trans ht.symm).trans ht₁.symm, habreast⟩
  unfold search?
  simp only [ht', hp', hexplore', habreast.toAgree.itinerary? ⟨rfl, rfl, rfl⟩ hitinerary,
    Option.bind_eq_bind, Option.bind_some, Option.pure_def]

-- What one engine finds is found by the other one.
theorem outcome?_follows (hw : t.WellFormed) (he : InService t policy e)
    (he' : InService t policy e') {e₁ : Engine α} {o : Outcome α}
    (h : e.outcome? q = some (e₁, o)) : ∃ e₂, e'.outcome? q = some (e₂, o) := by
  rcases outcome?_eq_some h with ⟨journeys, hsearch, hjourneys, ho⟩
  rcases search?_abreast hw he he' hsearch with ⟨e₂, hsearch', ht, habreast⟩
  have hsame : e₂.journeyAt? = e₁.journeyAt? := by
    funext i
    unfold journeyAt?
    rw [habreast.best_eq i, habreast.labels trivial]
  have hstatistics : e₂.statistics = e₁.statistics := habreast.statistics
  refine ⟨e₂, ?_⟩
  unfold outcome?
  rw [ho]
  simp only [hsearch', ht, hsame, hjourneys, hstatistics, Option.bind_eq_bind, Option.bind_some,
    Option.pure_def]

/-- Two engines in service answer a query alike. -/
theorem outcome?_eq (hw : t.WellFormed) (he : InService t policy e) (he' : InService t policy e')
    (q : SearchQuery α) : (e'.outcome? q).map Prod.snd = (e.outcome? q).map Prod.snd := by
  cases h : e.outcome? q with
  | some r =>
      rcases outcome?_follows hw he he' h with ⟨e₂, h'⟩
      rw [h']
      rfl
  | none =>
      cases h' : e'.outcome? q with
      | none => rfl
      | some r =>
          rcases outcome?_follows hw he' he h' with ⟨e₂, h₂⟩
          exact absurd (h.symm.trans h₂) (Option.some_ne_none _).symm

/-- A query within the timetable has an outcome. -/
theorem outcome?_exists (hw : t.WellFormed) (he : InService t policy e) (hq : q.Within t)
    (hpolicy : policy.Answers t q) : ∃ e' o, e.outcome? q = some (e', o) := by
  rcases he.search?_exists hw hpolicy hq with ⟨e', found, hsearch⟩
  rcases he.fits hw with ⟨ht, hp, hf⟩
  rcases search?_eq_some hsearch with ⟨hexplore, -, ht', -⟩
  rw [ht, hp] at hexplore
  have hrun := (Workspace.moment_of_explore? hexplore).run hw hf
  have hlegal := hrun.legal hf.clean_reset.legal
  -- Every journey can be followed back to where it begins.
  have hjourneys : ∃ journeys,
      (List.range e'.timetable.routeStops.size).mapM e'.journeyAt? = some journeys := by
    refine Loop.mapM_exists fun i hi => ?_
    rw [List.mem_range, ht', ht] at hi
    unfold journeyAt?
    rcases (hrun.fits hf.reset).best_cases hi with hnone | ⟨id, l, hbest, hl⟩
    · exact ⟨none, by simp only [hnone, Option.bind_eq_bind, Option.bind_some, Option.pure_def]⟩
    · rcases hlegal.exists_traced id l hl with ⟨trace, htrace⟩
      exact ⟨some trace.reverse, by
        simp only [hbest, htrace.chain?_eq, Option.bind_eq_bind, Option.bind_some,
          Option.pure_def]⟩
  rcases hjourneys with ⟨journeys, hjourneys⟩
  refine ⟨e', ⟨found, e'.statistics, journeys⟩, ?_⟩
  unfold outcome?
  simp only [hsearch, hjourneys, Option.bind_eq_bind, Option.bind_some, Option.pure_def]

theorem outcome? {o : Outcome α} (he : InService t policy e) (h : e.outcome? q = some (e', o)) :
    InService t policy e' := by
  rcases outcome?_eq_some h with ⟨-, hsearch, -⟩
  exact he.search hsearch

/-- An engine in service answers queries one after the other as new engines do. -/
theorem outcomes?_eq (hw : t.WellFormed) (queries : List (SearchQuery α)) :
    ∀ {e : Engine α}, InService t policy e → e.outcomes? queries
      = queries.mapM fun q => ((Engine.new t policy).outcome? q).map Prod.snd := by
  induction queries with
  | nil => exact fun _ => rfl
  | cons q queries ih =>
      intro e he
      rw [List.mapM_cons, ← outcome?_eq hw InService.new he q]
      unfold outcomes?
      cases h : e.outcome? q with
      | none => rfl
      | some r => simp only [ih (he.outcome? h), Option.bind_eq_bind, Option.bind_some,
          Option.map_some, Option.pure_def]

end InService

/-- One engine answers many queries as a new engine for each of them does. If they are
    within the timetable and the policy answers, all of them have an outcome. -/
theorem outcomes?_as_new [MarkerTree α] {d : Draft α} (hd : d.build = .ok t)
    (policy : TransferPolicy α) (queries : List (SearchQuery α)) :
    (Engine.new t policy).outcomes? queries
        = (queries.mapM fun q => ((Engine.new t policy).outcome? q).map Prod.snd) ∧
      ((∀ q ∈ queries, q.Within t ∧ policy.Answers t q) →
        ∃ outcomes, (Engine.new t policy).outcomes? queries = some outcomes) := by
  have hw := Draft.wellFormed_of_build hd
  have hnew : InService t policy (Engine.new t policy) := InService.new
  have hsame := InService.outcomes?_eq hw queries hnew
  refine ⟨hsame, fun hqueries => ?_⟩
  rw [hsame]
  refine Loop.mapM_exists fun q hq => ?_
  rcases InService.outcome?_exists hw hnew (hqueries q hq).1 (hqueries q hq).2 with
    ⟨e', o, ho⟩
  exact ⟨o, by rw [ho]; rfl⟩

end Engine

namespace Sample

/-- Queries of different kinds, the first of which is asked again in the end. -/
def severalQueries : List (SearchQuery ℚ) :=
  [toTheEnd.allowing 2, toTheEnd.allowing 0, { toTheEnd with departureTime := 30 },
    toTheEnd.allowing 2]

end Sample

namespace Engine

open Sample in
/-- A search to its end, one that is cut off, one that leaves too late to find
    anything, and the first one again. -/
theorem outcomes?_as_new_slowOrChange : ∃ outcomes,
    (Engine.new slowOrChange.assemble (TransferPolicy.flat 0)).outcomes? severalQueries
      = some outcomes ∧
    (severalQueries.mapM fun q => ((Engine.new slowOrChange.assemble
      (TransferPolicy.flat 0)).outcome? q).map Prod.snd) = some outcomes ∧
    outcomes.map (fun o => (o.itinerary.map (·.totalCost), o.statistics.roundCapHit))
      = [(some 60, false), (some 100, true), (none, false), (some 60, false)] := by
  rcases outcomes?_as_new build_slowOrChange (TransferPolicy.flat 0) severalQueries with
    ⟨hsame, hexists⟩
  have hwithin : ∀ q ∈ severalQueries, (∀ c ∈ q.access, c.stop < slowOrChange.assemble.stops.size) ∧
      ∀ c ∈ q.egress, c.stop < slowOrChange.assemble.stops.size := by decide +kernel
  rcases hexists fun q hq => ⟨hwithin q hq, TransferPolicy.flat_answers 0⟩ with
    ⟨outcomes, houtcomes⟩
  refine ⟨outcomes, houtcomes, hsame ▸ houtcomes, ?_⟩
  have hview : ((Engine.new slowOrChange.assemble (TransferPolicy.flat 0)).outcomes?
      severalQueries).map (List.map fun o => (o.itinerary.map (·.totalCost),
        o.statistics.roundCapHit))
      = some [(some 60, false), (some 100, true), (none, false), (some 60, false)] := by
    decide +kernel
  rw [houtcomes, Option.map_some, Option.some.injEq] at hview
  exact hview

end Engine

end Journey
