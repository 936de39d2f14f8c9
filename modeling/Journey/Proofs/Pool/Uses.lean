import Journey.Proofs.Reuse
import Journey.Search.Pool

/-!
# Uses of a Pool

What uses of a pool do with its engines, and what can be seen of it.

A use asks queries and may use the pool again in between, so the uses of a pool form a tree.
Any of them can fail, by giving up or because a query has no answer, and then the failure
is caught by the use around it or makes that use fail too. `Use.run` goes through such a
tree by `Pool.withEngine` and notes what happens.

An engine is a value, and two engines may be the same value without being one engine. So
the uses are gone through a second time with engines that have names. `Runs` is this, case
by case, and `exists_runs` says that it is the same as before when the names are forgotten.
What follows is proved along `Runs`.

A use takes an engine out of the pool and returns it when it ends, so as many engines are
out as uses are open. If none fails, there are in the end as many idle engines as the tree
is deep, or as many as before if those were more. And since engines in service answer like
new ones, and only those are ever idle, it does not show which of them was asked.

## Main definitions

* `Pool.Use`: A tree of uses.
* `Pool.Use.run`, `Pool.Use.on`: Its run with an engine, and on a pool.
* `Pool.NamedPool`: A pool of engines with names.
* `Pool.Runs`, `Pool.Uses`: The run of a use with named engines.
* `Pool.Steady`: The idle engines that are counted do not change unless a use intervenes.
* `Pool.Stocked`: All idle engines are in service.

## Theorems

* `Pool.exists_runs`: Every use has a run with named engines.
* `Pool.Runs.idle_length`: How many engines are idle in the end.
* `Pool.Runs.steady`: What is counted inside.
* `Pool.Runs.stocked`: All queries are answered as by new engines.
-/

namespace Journey

namespace Pool

variable {α : Type}

/-- What is done with an engine of a pool. -/
inductive Use (α : Type) where
  /-- Nothing else. -/
  | done
  /-- Give up. -/
  | fail
  /-- Ask a query. If it has no answer, the use fails. -/
  | ask (q : SearchQuery α) (next : Use α)
  /-- Use the pool again. If that use fails and this is not caught, so does the use around. -/
  | nest (inner : Use α) (caught : Bool) (next : Use α)

/-- What can be seen of uses. -/
inductive Event (α : Type) where
  /-- A use begins. So many engines are idle before it, and in it. -/
  | opened (before inside : Nat)
  /-- A query is asked while so many engines are idle. -/
  | asked (idle : Nat) (q : SearchQuery α) (outcome : Option (Engine.Outcome α))
  /-- A use ends, or fails. -/
  | closed (finished : Bool)

/-- What a use of a pool leaves behind. -/
structure Used (α : Type) where
  pool : Pool α
  finished : Bool
  events : List (Event α)

/-- Take back what a use has left of its engine. -/
def returned (p : Pool α) : Option (Engine α) → Pool α
  | some e => p.put e
  | none => p

/-- Use an engine of the pool, noting when it is taken and when it is returned or lost. -/
def lend (p : Pool α)
    (use : Engine α → Pool α → Option (Engine α) × Pool α × List (Event α)) : Used α :=
  match p.withEngine fun e rest =>
    match use e rest with
    | (left, rest', events) =>
      (left, rest', left.isSome,
        .opened p.idleCount rest.idleCount :: events ++ [.closed left.isSome]) with
  | (pool, finished, events) => ⟨pool, finished, events⟩

theorem lend_eq {p p' : Pool α} {left : Option (Engine α)} {events : List (Event α)}
    {use : Engine α → Pool α → Option (Engine α) × Pool α × List (Event α)}
    (h : use p.take.1 p.take.2 = (left, p', events)) :
    p.lend use = ⟨p'.returned left, left.isSome,
      .opened p.idleCount p.take.2.idleCount :: events ++ [.closed left.isSome]⟩ := by
  unfold lend withEngine
  simp only [h]
  cases left <;> rfl

namespace Use

/-- The depth of the tree. -/
def depth : Use α → Nat
  | done | fail => 1
  | ask _ next => next.depth
  | nest inner _ next => max (inner.depth + 1) next.depth

theorem depth_pos (u : Use α) : 0 < u.depth := by
  induction u with
  | done => exact Nat.one_pos
  | fail => exact Nat.one_pos
  | ask _ _ ih => exact ih
  | nest _ _ _ _ ih => exact ih.trans_le (Nat.le_max_right _ _)

variable [Scalar α] [Planar α]

/-- Do with an engine what the use says, while the others are in the pool. A use that fails
    has no engine left. -/
def run : Use α → Engine α → Pool α → Option (Engine α) × Pool α × List (Event α)
  | done, e, p => (some e, p, [])
  | fail, _, p => (none, p, [])
  | ask q next, e, p =>
    match e.outcome? q with
    | none => (none, p, [.asked p.idleCount q none])
    | some (e', outcome) =>
      match next.run e' p with
      | (left, p', events) => (left, p', .asked p.idleCount q (some outcome) :: events)
  | nest inner caught next, e, p =>
    match p.lend inner.run with
    | ⟨p', finished, events⟩ =>
      if finished || caught then
        match next.run e p' with
        | (left, p'', events') => (left, p'', events ++ events')
      else (none, p', events)

/-- The use of an engine of the pool. -/
def on (u : Use α) (p : Pool α) : Used α := p.lend u.run

end Use

/-- An engine with a name. -/
structure Named (α : Type) where
  name : Nat
  engine : Engine α

/-- A pool of engines with names. -/
structure NamedPool (α : Type) where
  timetable : Timetable α
  policy : TransferPolicy α
  idle : List (Named α)
  /-- The name of the engine that is made next. -/
  fresh : Nat

namespace NamedPool

/-- The pool without the names. -/
def forget (p : NamedPool α) : Pool α :=
  { timetable := p.timetable, policy := p.policy, idle := p.idle.map Named.engine }

/-- The names of the idle engines. -/
def names (p : NamedPool α) : List Nat := p.idle.map Named.name

/-- Take an engine out of the pool, or make one with a new name. -/
def take (p : NamedPool α) : Named α × NamedPool α :=
  match p.idle with
  | e :: rest => (e, { p with idle := rest })
  | [] => (⟨p.fresh, Engine.new p.timetable p.policy⟩, { p with fresh := p.fresh + 1 })

/-- Take back what a use has left of its engine. -/
def returned (p : NamedPool α) : Option (Named α) → NamedPool α
  | some e => { p with idle := e :: p.idle }
  | none => p

theorem take_forget (p : NamedPool α) :
    p.forget.take = (p.take.1.engine, p.take.2.forget) := by
  rcases p with ⟨t, policy, _ | ⟨e, rest⟩, fresh⟩ <;> rfl

theorem forget_returned (p : NamedPool α) (left : Option (Named α)) :
    (p.returned left).forget = p.forget.returned (left.map Named.engine) := by
  cases left <;> rfl

theorem idleCount_forget (p : NamedPool α) : p.forget.idleCount = p.idle.length :=
  List.length_map _

theorem length_take (p : NamedPool α) : p.take.2.idle.length = p.idle.length - 1 := by
  rcases p with ⟨t, policy, _ | ⟨e, rest⟩, fresh⟩ <;> rfl

end NamedPool

/-- The idle engines of a pool, with the numbers from zero for names. -/
def named (p : Pool α) : NamedPool α :=
  { timetable := p.timetable
    policy := p.policy
    idle := p.idle.zipIdx.map fun (e, n) => ⟨n, e⟩
    fresh := p.idle.length }

theorem forget_named (p : Pool α) : p.named.forget = p := by
  unfold named NamedPool.forget
  rw [List.map_map]
  change ({ p with idle := p.idle.zipIdx.map Prod.fst } : Pool α) = p
  rw [List.zipIdx_map_fst]

/-- Something that can be seen, and the names of the engines at that time. Those in use begin
    with the last one taken. -/
structure Moment (α : Type) where
  event : Event α
  inUse : List Nat
  idle : List Nat

/-- All of a use, from when it takes its engine to when it returns or loses it. -/
def NamedPool.lending (p : NamedPool α) (inUse : List Nat) (log : List (Moment α))
    (p' : NamedPool α) (finished : Bool) : List (Moment α) :=
  ⟨.opened p.idle.length p.take.2.idle.length, p.take.1.name :: inUse, p.take.2.names⟩ ::
    log ++ [⟨.closed finished, p.take.1.name :: inUse, p'.names⟩]

variable [Scalar α] [Planar α]

/-- The run of a use with an engine, while other uses have theirs. -/
inductive Runs : Use α → List Nat → Named α → NamedPool α →
    Option (Named α) → NamedPool α → List (Moment α) → Prop where
  | done {others e p} : Runs .done others e p (some e) p []
  | fail {others e p} : Runs .fail others e p none p []
  | unanswered {q next others e p} (h : e.engine.outcome? q = none) :
      Runs (.ask q next) others e p none p
        [⟨.asked p.idle.length q none, e.name :: others, p.names⟩]
  | answered {q next others e engine outcome p left p' log}
      (h : e.engine.outcome? q = some (engine, outcome))
      (hnext : Runs next others ⟨e.name, engine⟩ p left p' log) :
      Runs (.ask q next) others e p left p'
        (⟨.asked p.idle.length q (some outcome), e.name :: others, p.names⟩ :: log)
  | continued {inner caught next others e p left p' log left' p'' log'}
      (hinner : Runs inner (e.name :: others) p.take.1 p.take.2 left p' log)
      (hcontinue : (left.isSome || caught) = true)
      (hnext : Runs next others e (p'.returned left) left' p'' log') :
      Runs (.nest inner caught next) others e p left' p''
        (p.lending (e.name :: others) log p' left.isSome ++ log')
  | broken {inner next others e p p' log}
      (hinner : Runs inner (e.name :: others) p.take.1 p.take.2 none p' log) :
      Runs (.nest inner false next) others e p none p'
        (p.lending (e.name :: others) log p' false)

/-- The use of an engine of the pool. -/
inductive Uses (u : Use α) (p : NamedPool α) : Bool → NamedPool α → List (Moment α) → Prop where
  | intro {left p' log} (h : Runs u [] p.take.1 p.take.2 left p' log) :
      Uses u p left.isSome (p'.returned left) (p.lending [] log p' left.isSome)

section Erasing

-- Without the names, the run with named engines is the run.
theorem lend_forget {p p' : NamedPool α} {u : Use α} {inUse : List Nat} {left : Option (Named α)}
    {log : List (Moment α)} (h : u.run p.take.1.engine p.take.2.forget =
      (left.map Named.engine, p'.forget, log.map Moment.event)) :
    p.forget.lend u.run = ⟨(p'.returned left).forget, left.isSome,
      (p.lending inUse log p' left.isSome).map Moment.event⟩ := by
  have hrun : u.run p.forget.take.1 p.forget.take.2 =
      (left.map Named.engine, p'.forget, log.map Moment.event) := by
    rw [p.take_forget]
    exact h
  rw [lend_eq hrun, p.take_forget, ← NamedPool.forget_returned, Option.isSome_map,
    NamedPool.idleCount_forget, NamedPool.idleCount_forget]
  unfold NamedPool.lending
  rw [List.map_append, List.map_cons]
  rfl

/-- Every use has a run with named engines. -/
theorem exists_runs (u : Use α) : ∀ (others : List Nat) (e : Named α) (p : NamedPool α),
    ∃ left p' log, Runs u others e p left p' log ∧
      u.run e.engine p.forget = (left.map Named.engine, p'.forget, log.map Moment.event) := by
  induction u with
  | done => exact fun others e p => ⟨_, _, _, Runs.done, rfl⟩
  | fail => exact fun others e p => ⟨_, _, _, Runs.fail, rfl⟩
  | ask q next ih =>
      intro others e p
      unfold Use.run
      cases h : e.engine.outcome? q with
      | none =>
          refine ⟨_, _, _, Runs.unanswered h, ?_⟩
          rw [p.idleCount_forget]
          rfl
      | some r =>
          rcases r with ⟨engine, outcome⟩
          rcases ih others ⟨e.name, engine⟩ p with ⟨left, p', log, hruns, hrun⟩
          refine ⟨left, p', _, Runs.answered h hruns, ?_⟩
          dsimp only at hrun ⊢
          rw [hrun, p.idleCount_forget]
          rfl
  | nest inner caught next ihinner ihnext =>
      intro others e p
      rcases ihinner (e.name :: others) p.take.1 p.take.2 with ⟨left, p', log, hinner, hrun⟩
      unfold Use.run
      rw [lend_forget hrun]
      dsimp only
      by_cases hcontinue : (left.isSome || caught) = true
      · rcases ihnext others e (p'.returned left) with ⟨left', p'', log', hnext, hrun'⟩
        refine ⟨_, _, _, Runs.continued hinner hcontinue hnext, ?_⟩
        rw [if_pos hcontinue, hrun', List.map_append]
      · rw [if_neg hcontinue]
        rw [Bool.or_eq_true, not_or, Bool.not_eq_true, Bool.not_eq_true] at hcontinue
        rcases hcontinue with ⟨hleft, rfl⟩
        obtain rfl : left = none := Option.not_isSome_iff_eq_none.mp (Bool.eq_false_iff.mp hleft)
        exact ⟨_, _, _, Runs.broken hinner, rfl⟩

/-- Every use of a pool is one of named engines. -/
theorem exists_uses (u : Use α) (p : NamedPool α) : ∃ p' log,
    Uses u p (u.on p.forget).finished p' log ∧ p'.forget = (u.on p.forget).pool ∧
      log.map Moment.event = (u.on p.forget).events := by
  rcases exists_runs u [] p.take.1 p.take.2 with ⟨left, p', log, hruns, hrun⟩
  have hon : u.on p.forget = ⟨(p'.returned left).forget, left.isSome,
      (p.lending [] log p' left.isSome).map Moment.event⟩ := lend_forget hrun
  rw [hon]
  exact ⟨_, _, Uses.intro hruns, rfl, rfl⟩

end Erasing

section Counting

variable {u : Use α} {others inUse : List Nat} {e : Named α} {p p' : NamedPool α}
  {left : Option (Named α)} {log : List (Moment α)} {finished : Bool}

omit [Scalar α] [Planar α] in
theorem not_failed_lending :
    .closed false ∉ (p.lending inUse log p' finished).map Moment.event ↔
      .closed false ∉ log.map Moment.event ∧ finished = true := by
  unfold NamedPool.lending
  rw [List.map_append, List.map_cons]
  simp

omit [Scalar α] [Planar α] in
-- The engine that was taken is returned on top of those that were made for nested uses.
theorem idle_length_returned {depth : Nat} (hdepth : 0 < depth) (hleft : left.isSome = true)
    (h : p'.idle.length + 1 = max (p.take.2.idle.length + 1) depth) :
    (p'.returned left).idle.length = max p.idle.length depth := by
  have hlength : (p'.returned left).idle.length = p'.idle.length + 1 := by
    cases left with
    | none => cases hleft
    | some e => rfl
  rw [hlength, h, p.length_take]
  omega

theorem Runs.idle_length (h : Runs u others e p left p' log)
    (hnone : .closed false ∉ log.map Moment.event) (hleft : left.isSome = true) :
    p'.idle.length + 1 = max (p.idle.length + 1) u.depth := by
  induction h with
  | done =>
      unfold Use.depth
      omega
  | fail => cases hleft
  | unanswered _ => cases hleft
  | answered _ _ ih => exact ih (fun hmem => hnone (List.mem_cons_of_mem _ hmem)) hleft
  | @continued inner _ _ _ _ _ _ _ _ _ _ _ _ _ _ ihinner ihnext =>
      rw [List.map_append, List.mem_append, not_or, not_failed_lending] at hnone
      rcases hnone with ⟨⟨hinner, hsome⟩, hnext⟩
      have hgrown := idle_length_returned inner.depth_pos hsome (ihinner hinner hsome)
      have hlast := ihnext hnext hleft
      unfold Use.depth
      omega
  | broken _ _ => cases hleft

/-- The pool grows to the depth of the uses. -/
theorem Uses.idle_length (h : Uses u p finished p' log)
    (hnone : .closed false ∉ log.map Moment.event) :
    p'.idle.length = max p.idle.length u.depth := by
  rcases h with ⟨hruns⟩
  rw [not_failed_lending] at hnone
  exact idle_length_returned u.depth_pos hnone.2 (hruns.idle_length hnone.1 hnone.2)

/-- What is counted inside uses. One engine less is idle in a use than before it, unless there
    was none, and this does not change until the pool is used again. A use whose query has no
    answer fails at once. -/
def Steady : Option Nat → List (Event α) → Prop
  | _, [] => True
  | known, .opened before inside :: events =>
    (∀ n ∈ known, before = n) ∧ inside = before - 1 ∧ Steady (some inside) events
  | known, .asked idle _ outcome :: events =>
    (∀ n ∈ known, idle = n) ∧ (outcome.isNone = true → events.head? = some (.closed false)) ∧
      Steady known events
  | _, .closed _ :: events => Steady none events

-- What follows a use begins when it is closed.
theorem Runs.steady (h : Runs u others e p left p' log) : ∀ (known : Option Nat)
    (events : List (Event α)), (∀ n ∈ known, p.idle.length = n) → Steady none events →
      Steady known (log.map Moment.event ++ .closed left.isSome :: events) := by
  induction h with
  | done => exact fun _ _ _ hevents => hevents
  | fail => exact fun _ _ _ hevents => hevents
  | unanswered _ => exact fun _ _ hknown hevents => ⟨hknown, fun _ => rfl, hevents⟩
  | answered _ _ ih =>
      intro known events hknown hevents
      exact ⟨hknown, fun hc => absurd hc Bool.false_ne_true, ih known events hknown hevents⟩
  | @continued _ _ _ _ _ p _ _ _ _ _ _ _ _ _ ihinner ihnext =>
      intro known events hknown hevents
      unfold NamedPool.lending
      rw [List.map_append, List.map_append, List.map_cons, List.append_assoc, List.append_assoc]
      exact ⟨hknown, p.length_take, ihinner _ _ (fun n hn => Option.some.inj hn)
        (ihnext none events (fun n hn => absurd hn (Option.not_mem_none n)) hevents)⟩
  | @broken _ _ _ _ p _ _ _ ih =>
      intro known events hknown hevents
      unfold NamedPool.lending
      rw [List.map_append, List.map_cons, List.append_assoc]
      exact ⟨hknown, p.length_take, ih _ _ (fun n hn => Option.some.inj hn) hevents⟩

theorem Uses.steady (h : Uses u p finished p' log) : Steady none (log.map Moment.event) := by
  rcases h with ⟨hruns⟩
  unfold NamedPool.lending
  rw [List.map_append, List.map_cons]
  exact ⟨fun n hn => absurd hn (Option.not_mem_none n), p.length_take,
    hruns.steady _ [] (fun n hn => Option.some.inj hn) trivial⟩

end Counting

section Answering

variable {t : Timetable α} {policy : TransferPolicy α} {u : Use α} {others : List Nat}
  {e : Named α} {p p' : NamedPool α} {left : Option (Named α)} {log : List (Moment α)}
  {finished : Bool}

/-- All idle engines are in service, for the timetable and the policy of the pool. -/
structure Stocked (t : Timetable α) (policy : TransferPolicy α) (p : Pool α) : Prop where
  sameTimetable : p.timetable = t
  samePolicy : p.policy = policy
  inService : ∀ e ∈ p.idle, Engine.InService t policy e

theorem stocked_new : (Pool.new t policy).Stocked t policy :=
  ⟨rfl, rfl, fun _ hmem => absurd hmem List.not_mem_nil⟩

theorem Stocked.take (h : p.forget.Stocked t policy) :
    Engine.InService t policy p.take.1.engine ∧ p.take.2.forget.Stocked t policy := by
  rcases p with ⟨_, _, _ | ⟨e, rest⟩, fresh⟩
  · rcases h with ⟨rfl, rfl, hidle⟩
    exact ⟨Engine.InService.new, rfl, rfl, hidle⟩
  · exact ⟨h.inService _ List.mem_cons_self, h.sameTimetable, h.samePolicy,
      fun e' hmem => h.inService e' (List.mem_cons_of_mem _ hmem)⟩

theorem Stocked.returned (h : p.forget.Stocked t policy)
    (hleft : ∀ e ∈ left, Engine.InService t policy e.engine) :
    (p.returned left).forget.Stocked t policy := by
  cases left with
  | none => exact h
  | some e =>
      refine ⟨h.sameTimetable, h.samePolicy, fun e' hmem => ?_⟩
      rcases List.mem_cons.mp hmem with rfl | hmem
      · exact hleft e rfl
      · exact h.inService e' hmem

/-- All queries have been answered as by a new engine. -/
def AsNew (t : Timetable α) (policy : TransferPolicy α) (events : List (Event α)) : Prop :=
  ∀ idle q outcome, .asked idle q outcome ∈ events →
    outcome = ((Engine.new t policy).outcome? q).map Prod.snd

theorem asNew_append {events events' : List (Event α)} :
    AsNew t policy (events ++ events') ↔ AsNew t policy events ∧ AsNew t policy events' := by
  unfold AsNew
  simp only [List.mem_append, or_imp, forall_and]

theorem asNew_lending {inUse : List Nat} :
    AsNew t policy ((p.lending inUse log p' finished).map Moment.event) ↔
      AsNew t policy (log.map Moment.event) := by
  unfold NamedPool.lending
  rw [List.map_append, List.map_cons, asNew_append]
  unfold AsNew
  simp

theorem asNew_asked_cons {q : SearchQuery α} {outcome : Option (Engine.Outcome α)} {idle : Nat}
    {events : List (Event α)} (hw : t.WellFormed) (he : Engine.InService t policy e.engine)
    (h : (e.engine.outcome? q).map Prod.snd = outcome) (hevents : AsNew t policy events) :
    AsNew t policy (.asked idle q outcome :: events) := by
  intro idle' q' outcome' hmem
  rcases List.mem_cons.mp hmem with heq | hmem
  · cases heq
    rw [← h]
    exact Engine.InService.outcome?_eq hw Engine.InService.new he q
  · exact hevents idle' q' outcome' hmem

/-- A run with an engine in service leaves only such engines behind. -/
theorem Runs.stocked (hw : t.WellFormed) (h : Runs u others e p left p' log)
    (he : Engine.InService t policy e.engine) (hp : p.forget.Stocked t policy) :
    (∀ e' ∈ left, Engine.InService t policy e'.engine) ∧ p'.forget.Stocked t policy ∧
      AsNew t policy (log.map Moment.event) := by
  have hnil : AsNew t policy [] := fun _ _ _ hmem => absurd hmem List.not_mem_nil
  induction h with
  | done => exact ⟨fun e' hmem => Option.some.inj hmem ▸ he, hp, hnil⟩
  | fail => exact ⟨fun e' hmem => absurd hmem (Option.not_mem_none e'), hp, hnil⟩
  | unanswered h =>
      exact ⟨fun e' hmem => absurd hmem (Option.not_mem_none e'), hp,
        asNew_asked_cons hw he (congrArg (Option.map Prod.snd) h) hnil⟩
  | answered h _ ih =>
      rcases ih (he.outcome? h) hp with ⟨hleft, hp', hlog⟩
      exact ⟨hleft, hp', asNew_asked_cons hw he (congrArg (Option.map Prod.snd) h) hlog⟩
  | continued _ _ _ ihinner ihnext =>
      rcases ihinner hp.take.1 hp.take.2 with ⟨hleft, hp', hlog⟩
      rcases ihnext he (hp'.returned hleft) with ⟨hleft', hp'', hlog'⟩
      refine ⟨hleft', hp'', ?_⟩
      rw [List.map_append, asNew_append, asNew_lending]
      exact ⟨hlog, hlog'⟩
  | broken _ ih =>
      rcases ih hp.take.1 hp.take.2 with ⟨-, hp', hlog⟩
      exact ⟨fun e' hmem => absurd hmem (Option.not_mem_none e'), hp', asNew_lending.mpr hlog⟩

/-- The uses of a pool of engines in service leave such a pool behind, whether they fail or
    not. -/
theorem Uses.stocked (hw : t.WellFormed) (h : Uses u p finished p' log)
    (hp : p.forget.Stocked t policy) :
    p'.forget.Stocked t policy ∧ AsNew t policy (log.map Moment.event) := by
  rcases h with ⟨hruns⟩
  rcases hruns.stocked hw hp.take.1 hp.take.2 with ⟨hleft, hp', hlog⟩
  exact ⟨hp'.returned hleft, asNew_lending.mpr hlog⟩

end Answering

end Pool

end Journey
