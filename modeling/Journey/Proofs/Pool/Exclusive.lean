import Journey.Proofs.Pool.Uses

/-!
# Exclusive Use of Engines

No engine is ever in use twice.

An engine is in use from when it is taken out of the pool until it is returned, and then the
use that has it can be the only one. With names this can be said: at any time the names of
the engines in use and of the idle ones are all different. An engine is found either idle
or new, so it is enough to know of a stretch of a run which names the pool can still hand
out. `Orderly` says this of a stretch, stretches follow one another (`Orderly.append`), and
putting a use around a stretch gives one again (`Orderly.lending`).

An engine that is lost is not handed out again, since its name is not one of these. So a use
that fails costs the pool its engine and nothing else.

## Main definitions

* `Pool.NamedPool.Offers`: The names that the pool can hand out.
* `Pool.NamedPool.Apart`: The engines in use are none of these.
* `Pool.Moment.Loses`: An engine is lost.
* `Pool.Orderly`: What is known of a stretch of a run.

## Theorems

* `Pool.Runs.orderly`: Every run is orderly.
* `Pool.uses_transparent`: The pool grows to the depth of the uses, hands every engine to one
  use at a time and answers as new engines do.
-/

namespace Journey

namespace Pool

variable {α : Type}

namespace NamedPool

/-- The names that the pool can hand out: those of the idle engines, and new ones. -/
def Offers (p : NamedPool α) (n : Nat) : Prop := n ∈ p.names ∨ p.fresh ≤ n

/-- The engines in use are different from one another and from those that the pool can hand
    out. -/
structure Apart (p : NamedPool α) (inUse : List Nat) : Prop where
  inUse_nodup : inUse.Nodup
  names_nodup : p.names.Nodup
  names_lt : ∀ n ∈ p.names, n < p.fresh
  not_offers : ∀ n ∈ inUse, ¬ p.Offers n

variable {p : NamedPool α} {inUse : List Nat}

theorem Apart.nodup (h : p.Apart inUse) : (inUse ++ p.names).Nodup :=
  List.nodup_append.mpr ⟨h.inUse_nodup, h.names_nodup,
    fun n hn _ hmem heq => h.not_offers n hn (Or.inl (heq ▸ hmem))⟩

theorem apart_named (p : Pool α) : p.named.Apart [] := by
  have hnames : p.named.names = List.range p.idle.length := by
    unfold named names
    rw [List.map_map]
    exact (List.zipIdx_map_snd 0 p.idle).trans List.range_eq_range'.symm
  refine ⟨List.nodup_nil, hnames ▸ List.nodup_range, fun n hmem => ?_,
    fun n hmem => absurd hmem List.not_mem_nil⟩
  rw [hnames, List.mem_range] at hmem
  exact hmem

theorem offers_take (p : NamedPool α) : p.Offers p.take.1.name := by
  rcases p with ⟨_, _, _ | ⟨e, rest⟩, fresh⟩
  · exact Or.inr (Nat.le_refl fresh)
  · exact Or.inl List.mem_cons_self

theorem offers_of_take {n : Nat} (h : p.take.2.Offers n) : p.Offers n := by
  rcases p with ⟨_, _, _ | ⟨e, rest⟩, fresh⟩
  · exact h.imp_right Nat.le_of_succ_le
  · exact h.imp_left (List.mem_cons_of_mem _)

/-- What was taken is apart from what is left. -/
theorem Apart.take (h : p.Apart inUse) : p.take.2.Apart (p.take.1.name :: inUse) := by
  have hfree : p.take.1.name ∉ inUse := fun hmem => h.not_offers _ hmem p.offers_take
  have hleft : p.take.2.names.Nodup ∧ (∀ n ∈ p.take.2.names, n < p.take.2.fresh) ∧
      ¬ p.take.2.Offers p.take.1.name := by
    rcases p with ⟨_, _, _ | ⟨e, rest⟩, fresh⟩
    · refine ⟨List.nodup_nil, fun n hmem => absurd hmem List.not_mem_nil, ?_⟩
      exact fun hc => hc.elim List.not_mem_nil (Nat.not_succ_le_self fresh)
    · rcases List.nodup_cons.mp h.names_nodup with ⟨hnot, hrest⟩
      refine ⟨hrest, fun n hmem => h.names_lt n (List.mem_cons_of_mem _ hmem), ?_⟩
      exact fun hc => hc.elim hnot (Nat.not_le_of_lt (h.names_lt e.name List.mem_cons_self))
  refine ⟨List.nodup_cons.mpr ⟨hfree, h.inUse_nodup⟩, hleft.1, hleft.2.1, fun n hmem => ?_⟩
  rcases List.mem_cons.mp hmem with rfl | hmem
  · exact hleft.2.2
  · exact fun hc => h.not_offers n hmem (offers_of_take hc)

theorem offers_returned {left : Option (Named α)} {n m : Nat} (hleft : ∀ e ∈ left, e.name = n)
    (h : (p.returned left).Offers m) : m = n ∨ p.Offers m := by
  cases left with
  | none => exact Or.inr h
  | some e =>
      rcases h with hmem | hfresh
      · rcases List.mem_cons.mp hmem with rfl | hmem
        · exact Or.inl (hleft e rfl)
        · exact Or.inr (Or.inl hmem)
      · exact Or.inr (Or.inr hfresh)

theorem Apart.returned {left : Option (Named α)} {n : Nat} (h : p.Apart (n :: inUse))
    (hleft : ∀ e ∈ left, e.name = n) : (p.returned left).Apart inUse := by
  rcases List.nodup_cons.mp h.inUse_nodup with ⟨hn, hinUse⟩
  have hnot := h.not_offers n List.mem_cons_self
  have hpool : (p.returned left).names.Nodup ∧
      ∀ m ∈ (p.returned left).names, m < (p.returned left).fresh := by
    cases left with
    | none => exact ⟨h.names_nodup, h.names_lt⟩
    | some e =>
        obtain rfl := hleft e rfl
        refine ⟨List.nodup_cons.mpr ⟨fun hmem => hnot (Or.inl hmem), h.names_nodup⟩,
          fun m hmem => ?_⟩
        rcases List.mem_cons.mp hmem with rfl | hmem
        · exact Nat.lt_of_not_le fun hc => hnot (Or.inr hc)
        · exact h.names_lt m hmem
  refine ⟨hinUse, hpool.1, hpool.2, fun m hmem hc => ?_⟩
  rcases offers_returned hleft hc with rfl | hoffers
  · exact hn hmem
  · exact h.not_offers m (List.mem_cons_of_mem n hmem) hoffers

end NamedPool

/-- An engine is lost, as the use that has it fails. -/
def Moment.Loses (m : Moment α) (n : Nat) : Prop :=
  m.event = .closed false ∧ m.inUse.head? = some n

/-- A stretch of a run, from one state of the pool to a later one. Engines that are lost on the
    way are not seen again. -/
structure Orderly (inUse : List Nat) (p : NamedPool α) (log : List (Moment α))
    (p' : NamedPool α) : Prop where
  apart : p'.Apart inUse
  offers : ∀ n, p'.Offers n → p.Offers n
  nodup : ∀ m ∈ log, (m.inUse ++ m.idle).Nodup
  known : ∀ m ∈ log, ∀ n ∈ m.inUse ++ m.idle, n ∈ inUse ∨ p.Offers n
  lost : ∀ m ∈ log, ∀ n, m.Loses n → n ∉ inUse ∧ ¬ p'.Offers n
  forgotten : log.Pairwise fun a b => ∀ n, a.Loses n → n ∉ b.inUse ++ b.idle

namespace Orderly

variable {p p' p'' : NamedPool α} {inUse : List Nat} {log log' : List (Moment α)}

theorem nil (h : p.Apart inUse) : Orderly inUse p [] p :=
  ⟨h, fun _ hn => hn, fun _ hm => absurd hm List.not_mem_nil,
    fun _ hm => absurd hm List.not_mem_nil, fun _ hm => absurd hm List.not_mem_nil,
    List.Pairwise.nil⟩

/-- Nothing is lost unless a use fails. -/
theorem single {event : Event α} (h : p.Apart inUse) (hevent : event ≠ .closed false) :
    Orderly inUse p [⟨event, inUse, p.names⟩] p := by
  refine ⟨h, fun _ hn => hn, fun m hm => ?_, fun m hm n hn => ?_, fun m hm n hn => ?_,
    List.pairwise_singleton _ _⟩
  · rw [List.mem_singleton.mp hm]
    exact h.nodup
  · rw [List.mem_singleton.mp hm] at hn
    exact (List.mem_append.mp hn).imp_right Or.inl
  · rw [List.mem_singleton.mp hm] at hn
    exact absurd hn.1 hevent

theorem append (h : Orderly inUse p log p') (h' : Orderly inUse p' log' p'') :
    Orderly inUse p (log ++ log') p'' := by
  refine ⟨h'.apart, fun n hn => h.offers n (h'.offers n hn), ?_, ?_, ?_, ?_⟩
  · exact List.forall_mem_append.mpr ⟨h.nodup, h'.nodup⟩
  · refine List.forall_mem_append.mpr ⟨h.known, fun m hm n hn => ?_⟩
    exact (h'.known m hm n hn).imp_right (h.offers n)
  · refine List.forall_mem_append.mpr ⟨fun m hm n hn => ?_, h'.lost⟩
    rcases h.lost m hm n hn with ⟨hfree, hnot⟩
    exact ⟨hfree, fun hc => hnot (h'.offers n hc)⟩
  · refine List.pairwise_append.mpr ⟨h.forgotten, h'.forgotten, fun a ha b hb n hn hmem => ?_⟩
    rcases h.lost a ha n hn with ⟨hfree, hnot⟩
    exact (h'.known b hb n hmem).elim hfree hnot

theorem cons {event : Event α} (h : Orderly inUse p log p') (hp : p.Apart inUse)
    (hevent : event ≠ .closed false) : Orderly inUse p (⟨event, inUse, p.names⟩ :: log) p' :=
  (single hp hevent).append h

/-- All of a use, with an orderly stretch inside. -/
theorem lending {left : Option (Named α)} (hp : p.Apart inUse)
    (h : Orderly (p.take.1.name :: inUse) p.take.2 log p')
    (hleft : ∀ e ∈ left, e.name = p.take.1.name) :
    Orderly inUse p (p.lending inUse log p' left.isSome) (p'.returned left) := by
  have hopened : Event.opened p.idle.length p.take.2.idle.length ≠ (.closed false : Event α) :=
    fun hc => nomatch hc
  have hinside := h.cons hp.take hopened
  have hknown : ∀ n, n ∈ p.take.1.name :: inUse ∨ p.take.2.Offers n → n ∈ inUse ∨ p.Offers n := by
    rintro n (hmem | hoffers)
    · rcases List.mem_cons.mp hmem with rfl | hmem
      · exact Or.inr p.offers_take
      · exact Or.inl hmem
    · exact Or.inr (NamedPool.offers_of_take hoffers)
  have hlost : ∀ n, n ∉ p.take.1.name :: inUse → ¬ p'.Offers n →
      n ∉ inUse ∧ ¬ (p'.returned left).Offers n := by
    intro n hfree hnot
    rw [List.mem_cons, not_or] at hfree
    exact ⟨hfree.2, fun hc => (NamedPool.offers_returned hleft hc).elim hfree.1 hnot⟩
  unfold NamedPool.lending
  refine ⟨h.apart.returned hleft, fun n hn => ?_, ?_, ?_, ?_, ?_⟩
  · rcases NamedPool.offers_returned hleft hn with rfl | hn
    · exact p.offers_take
    · exact NamedPool.offers_of_take (h.offers n hn)
  · refine List.forall_mem_append.mpr ⟨hinside.nodup, List.forall_mem_singleton.mpr ?_⟩
    exact h.apart.nodup
  · refine List.forall_mem_append.mpr ⟨fun m hm n hn => hknown n (hinside.known m hm n hn),
      List.forall_mem_singleton.mpr fun n hn => hknown n ?_⟩
    exact (List.mem_append.mp hn).imp_right fun hmem => h.offers n (Or.inl hmem)
  · refine List.forall_mem_append.mpr ⟨fun m hm n hn => ?_, List.forall_mem_singleton.mpr ?_⟩
    · rcases hinside.lost m hm n hn with ⟨hfree, hnot⟩
      exact hlost n hfree hnot
    -- The engine of the use itself is lost if the use has failed.
    · rintro n ⟨hevent, hhead⟩
      obtain rfl := Option.some.inj hhead
      have hnone : left = none :=
        Option.not_isSome_iff_eq_none.mp (Bool.eq_false_iff.mp (Event.closed.inj hevent))
      rw [hnone]
      exact ⟨(List.nodup_cons.mp h.apart.inUse_nodup).1,
        h.apart.not_offers _ List.mem_cons_self⟩
  · refine List.pairwise_append.mpr ⟨hinside.forgotten, List.pairwise_singleton _ _, ?_⟩
    intro a ha b hb n hn hmem
    rw [List.mem_singleton.mp hb] at hmem
    rcases hinside.lost a ha n hn with ⟨hfree, hnot⟩
    exact (List.mem_append.mp hmem).elim hfree fun hname => hnot (Or.inl hname)

end Orderly

variable [Scalar α] [Planar α] {u : Use α} {others : List Nat} {e : Named α} {p p' : NamedPool α}
  {left : Option (Named α)} {log : List (Moment α)} {finished : Bool}

/-- Every run is orderly, and what is left is the engine that was taken. -/
theorem Runs.orderly (h : Runs u others e p left p' log) (hp : p.Apart (e.name :: others)) :
    Orderly (e.name :: others) p log p' ∧ ∀ e' ∈ left, e'.name = e.name := by
  induction h with
  | done => exact ⟨Orderly.nil hp, fun e' hmem => Option.some.inj hmem ▸ rfl⟩
  | fail => exact ⟨Orderly.nil hp, fun e' hmem => absurd hmem (Option.not_mem_none e')⟩
  | unanswered _ =>
      exact ⟨Orderly.single hp (fun hc => nomatch hc),
        fun e' hmem => absurd hmem (Option.not_mem_none e')⟩
  | answered _ _ ih =>
      rcases ih hp with ⟨hlog, hleft⟩
      exact ⟨hlog.cons hp (fun hc => nomatch hc), hleft⟩
  | continued _ _ _ ihinner ihnext =>
      rcases ihinner hp.take with ⟨hlog, hleft⟩
      have hlending := hlog.lending hp hleft
      rcases ihnext hlending.apart with ⟨hlog', hleft'⟩
      exact ⟨hlending.append hlog', hleft'⟩
  | broken _ ih =>
      rcases ih hp.take with ⟨hlog, hleft⟩
      exact ⟨hlog.lending hp hleft, fun e' hmem => absurd hmem (Option.not_mem_none e')⟩

theorem Uses.orderly (h : Uses u p finished p' log) (hp : p.Apart []) : Orderly [] p log p' := by
  rcases h with ⟨hruns⟩
  rcases hruns.orderly hp.take with ⟨hlog, hleft⟩
  exact hlog.lending hp hleft

/-- Uses of a pool, however they are nested, are not noticed by the queries. If none of them
    fails, there are as many idle engines afterwards as before, or as the uses are deep. Inside a
    use there is one less than before it, until the pool is used again, and a use whose query has
    no answer fails at once. Every query is answered as by a new engine, also after failures. No
    engine is in use twice or in use and idle, and one that is lost is never seen again. -/
theorem uses_transparent [MarkerTree α] {t : Timetable α} {d : Draft α} (hd : d.build = .ok t)
    (policy : TransferPolicy α) {p : Pool α} (hp : p.Stocked t policy) (u : Use α) :
    (.closed false ∉ (u.on p).events → (u.on p).pool.idleCount = max p.idleCount u.depth) ∧
    Steady none (u.on p).events ∧
    (∀ idle q outcome, .asked idle q outcome ∈ (u.on p).events →
      outcome = ((Engine.new t policy).outcome? q).map Prod.snd) ∧
    (u.on p).pool.Stocked t policy ∧
    ∃ (p' : NamedPool α) (log : List (Moment α)), Uses u p.named (u.on p).finished p' log ∧
      p'.forget = (u.on p).pool ∧ log.map Moment.event = (u.on p).events ∧
      (∀ m ∈ log, (m.inUse ++ m.idle).Nodup) ∧
      (log.Pairwise fun a b => ∀ n, a.Loses n → n ∉ b.inUse ++ b.idle) ∧
      ∀ m ∈ log, ∀ n, m.Loses n → ¬ p'.Offers n := by
  have hw := Draft.wellFormed_of_build hd
  rcases exists_uses u p.named with ⟨p', log, huses, hpool, hevents⟩
  rw [forget_named] at huses hpool hevents
  have hstocked := huses.stocked hw (p.forget_named.symm ▸ hp)
  have horderly := huses.orderly (NamedPool.apart_named p)
  rw [← hpool, ← hevents]
  refine ⟨fun hnone => ?_, huses.steady, hstocked.2, hstocked.1, p', log, huses, rfl, rfl,
    horderly.nodup, horderly.forgotten, fun m hm n hn => (horderly.lost m hm n hn).2⟩
  rw [NamedPool.idleCount_forget, huses.idle_length hnone, ← NamedPool.idleCount_forget,
    forget_named]

/-- A use does not fail at this. -/
def Event.goesOn : Event α → Bool
  | .closed finished => finished
  | _ => true

/-- The outcome of a query. -/
def Event.outcome? : Event α → Option (Engine.Outcome α)
  | .asked _ _ outcome => outcome
  | _ => none

end Pool

namespace Sample

/-- Uses within uses, with queries before and after them. -/
def threeDeep : Pool.Use ℚ :=
  .ask (toTheEnd.allowing 2) (.nest (.nest (.ask (toTheEnd.allowing 0) .done) false .done) false
    (.ask (toTheEnd.allowing 2) (.nest .done false .done)))

/-- A use that fails, since there is no stop with the number 9, and another query after that. -/
def tooFar : Pool.Use ℚ :=
  .nest (.ask { toTheEnd with egress := [candidate 9 0] } .done) true
    (.ask (toTheEnd.allowing 2) .done)

/-- The pool of the example. -/
def newPool : Pool ℚ := Pool.new slowOrChange.assemble (TransferPolicy.flat 0)

end Sample

namespace Pool

open Sample in
/-- A new pool grows to three engines. Of these one is lost, and what is asked after that is
    still answered as by a new engine. -/
theorem uses_transparent_threeDeep :
    (threeDeep.on newPool).pool.idleCount = 3 ∧
    (tooFar.on (threeDeep.on newPool).pool).pool.idleCount = 2 ∧
    ∃ idle q o, .asked idle q (some o) ∈ (tooFar.on (threeDeep.on newPool).pool).events ∧
      o.itinerary.map (·.totalCost) = some 60 ∧
      some o = ((Engine.new slowOrChange.assemble (TransferPolicy.flat 0)).outcome? q).map
        Prod.snd := by
  have hfirst := uses_transparent build_slowOrChange (TransferPolicy.flat 0) stocked_new threeDeep
  have hsecond := uses_transparent build_slowOrChange (TransferPolicy.flat 0) hfirst.2.2.2.1 tooFar
  have hall : (threeDeep.on newPool).events.all Event.goesOn = true := by decide +kernel
  have hany : ((tooFar.on (threeDeep.on newPool).pool).events.any fun event =>
      (event.outcome?.bind (·.itinerary)).map (·.totalCost) = some 60) = true := by decide +kernel
  refine ⟨hfirst.1 fun hmem => Bool.false_ne_true (List.all_eq_true.mp hall _ hmem),
    by decide +kernel, ?_⟩
  rcases List.any_eq_true.mp hany with ⟨event, hmem, hcost⟩
  have hcost := of_decide_eq_true hcost
  cases event with
  | opened _ _ => cases hcost
  | closed _ => cases hcost
  | asked idle q outcome =>
      cases outcome with
      | none => cases hcost
      | some o => exact ⟨idle, q, o, hmem, hcost, hsecond.2.2.1 idle q _ hmem⟩

end Pool

end Journey
