import Journey.Proofs.Sample
import Journey.Proofs.Search.Beginnings
import Journey.Proofs.Search.Retelling

/-!
# The Order of Candidates

When a query may list its candidates in another order.

One would like the order not to matter at all, but the routes of a round are
scanned one after the other, and the sooner a complete journey is found the more
labels are turned down as too expensive. A label that is dearer than a complete
journey is of no use in itself, and yet it can do harm: in a later round a scan may
leave the vehicle it holds for an earlier one that such a label could board, and
then the cheap journey is not found. So the answer may depend on the order in which
routes are met, and the order of the access candidates decides it.

This is all that the order decides. Egress candidates may be listed in any order,
and access candidates in any order that leads to the same routes in the same order;
then both searches go through the same steps and find the same itinerary. If the
access candidates are listed in another order, so are the first labels, and the
transfer policy must not look at where labels are. The policies that a search comes
with do not.

## Theorems

* `Engine.search?_follows`: One search answers what the other one does.
* `Engine.InService.search?_reordered`: Both searches answer the same.
-/

namespace Journey

namespace Engine

variable {α : Type} [Scalar α] [Scalar.Ranked α] [Planar α] {t : Timetable α}
  {policy : TransferPolicy α} {q q' : SearchQuery α} {e e' : Engine α}

-- One search answers what the other one does.
theorem search?_follows (hw : t.WellFormed) (honce : ∀ s l, t.routeStopsAt? s = some l → l.Nodup)
    (he : InService t policy e) (he' : InService t policy e') (hre : q.Reordered q')
    (haccess : (q.access.map (·.stop)).Nodup) (hegress : (q.egress.map (·.stop)).Nodup)
    (hroutes : q'.entryRoutes t = q.entryRoutes t)
    (hpolicy : q'.access = q.access ∨ policy.ByChain) {e₁ : Engine α}
    {found : Option (Itinerary α)} (h : e.search? q = some (e₁, found)) :
    ∃ e₂, e'.search? q' = some (e₂, found) := by
  rcases he.fits hw with ⟨ht, hp, hf⟩
  rcases he'.fits hw with ⟨ht', hp', hf'⟩
  rcases search?_eq_some h with ⟨hexplore, hitinerary, -, -⟩
  rw [ht, hp] at hexplore
  rw [ht] at hitinerary
  rcases Workspace.explore?_eq_some hexplore with ⟨u, v, hbegin, hrounds, hv⟩
  -- Both searches begin in agreement, whatever was searched for before.
  have hin := Workspace.within_of_begin? hw hbegin
  have hin' : q'.Within t :=
    ⟨fun c hc => hin.1 c (hre.access.mem_iff.mpr hc),
      fun c hc => hin.2 c (hre.egress.mem_iff.mpr hc)⟩
  rcases hf'.begin?_exists hw hin' with ⟨u', hbegin', -⟩
  have hbegun := Workspace.Begun.of_begin? hw honce haccess hf hbegin
  have hbegun' := Workspace.Begun.of_begin? hw honce ((hre.access.map _).nodup_iff.mp haccess) hf'
    hbegin'
  have hagree := hbegun.agree hbegun' hw hre hegress
  have hmet : t.routesMet u'.improved.toList = t.routesMet u.improved.toList := by
    rw [hbegun.routesMet_improved, hbegun'.routesMet_improved, hroutes]
  -- The rounds keep them in agreement, and so they find the same.
  rcases Workspace.Agree.rounds? hw hre.toSameTrip hpolicy _ hagree hmet hrounds with
    ⟨v', hrounds', hend⟩
  have hexplore' : e'.workspace.explore? t policy q' = some v'.conclude := by
    unfold Workspace.explore?
    simp only [hbegin', hre.maxTransfers, hrounds', Option.bind_eq_bind, Option.bind_some,
      Option.pure_def]
  have hconcluded : Workspace.Agree (q'.access = q.access) t q q' e₁.workspace v'.conclude := by
    rw [hv]
    exact { hend with
      fits := (Workspace.quiet_conclude v).fits hend.fits
      fits' := (Workspace.quiet_conclude v').fits hend.fits' }
  refine ⟨{ e' with workspace := v'.conclude }, ?_⟩
  unfold search?
  simp only [ht', hp', hexplore', hconcluded.itinerary? hre.toSameTrip hitinerary,
    Option.bind_eq_bind, Option.bind_some, Option.pure_def]

/-- The order of the egress candidates does not matter, nor does that of the access
    candidates as long as they lead to the same routes in the same order and the
    policy cannot tell labels apart by their positions. -/
theorem InService.search?_reordered [MarkerTree α] {d : Draft α} (hd : d.build = .ok t)
    (he : InService t policy e) (he' : InService t policy e') (hre : q.Reordered q')
    (haccess : (q.access.map (·.stop)).Nodup) (hegress : (q.egress.map (·.stop)).Nodup)
    (hroutes : q'.entryRoutes t = q.entryRoutes t)
    (hpolicy : q'.access = q.access ∨ policy.ByChain) :
    (e'.search? q').map Prod.snd = (e.search? q).map Prod.snd := by
  have hw := Draft.wellFormed_of_build hd
  have honce : ∀ s l, t.routeStopsAt? s = some l → l.Nodup := fun s l hl =>
    Draft.nodup_routeStopsAt?_of_build hd hl
  cases h : e.search? q with
  | some r =>
      rcases search?_follows hw honce he he' hre haccess hegress hroutes hpolicy h with ⟨e₂, h'⟩
      rw [h']
      rfl
  | none =>
      cases h' : e'.search? q' with
      | none => rfl
      | some r =>
          rcases search?_follows hw honce he' he hre.symm ((hre.access.map _).nodup_iff.mp haccess)
            ((hre.egress.map _).nodup_iff.mp hegress) hroutes.symm (hpolicy.imp_left Eq.symm) h'
            with ⟨e₂, h₂⟩
          rw [h] at h₂
          exact absurd h₂ (by simp only [reduceCtorEq, not_false_eq_true])

end Engine

namespace Sample

/-- A direct line that leaves late, a line with two vehicles, and one that leads to
    where the second vehicle can be caught. -/
def threeLines : Draft ℚ :=
  network ["B", "E", "P", "J", "Q"]
    [line "direct" [("B", 0), ("E", 10)] [490],
      line "line" [("P", 0), ("J", 10), ("E", 20)] [0, 100],
      line "feeder" [("Q", 0), ("P", 50)] [0]] []

/-- The line is met after the direct one. -/
def directFirst : SearchQuery ℚ :=
  query [candidate 0 0, candidate 2 1000, candidate 4 0] [candidate 1 0] 1

/-- The line is met before the direct one. -/
def lineFirst : SearchQuery ℚ :=
  query [candidate 2 1000, candidate 0 0, candidate 4 0] [candidate 1 0] 1

/-- Two access candidates on the line, and two egress candidates. -/
def alongLine : SearchQuery ℚ :=
  query [candidate 2 10, candidate 3 0] [candidate 1 0, candidate 0 500] 1

/-- The same candidates in another order. -/
def backAlongLine : SearchQuery ℚ :=
  query [candidate 3 0, candidate 2 10] [candidate 0 500, candidate 1 0] 1

theorem build_threeLines : threeLines.build = .ok threeLines.assemble :=
  build_eq_ok (by decide +kernel)

end Sample

namespace Engine

open Sample

/-- If the routes are met in another order, an itinerary may cost more. -/
theorem InService.dearer_in_another_order : ∃ e it e' it',
    threeLines.build = .ok threeLines.assemble ∧ directFirst.Within threeLines.assemble ∧
      directFirst.parameters.validate = .ok () ∧ directFirst.Reordered lineFirst ∧
      (directFirst.access.map (·.stop)).Nodup ∧ (directFirst.egress.map (·.stop)).Nodup ∧
      (∀ c ∈ directFirst.access ++ directFirst.egress, 0 ≤ c.time ∧ 0 ≤ c.cost) ∧
      (Engine.new threeLines.assemble (TransferPolicy.flat 0)).search? directFirst
        = some (e, some it) ∧
      (Engine.new threeLines.assemble (TransferPolicy.flat 0)).search? lineFirst
        = some (e', some it') ∧ it.totalCost < it'.totalCost := by
  have hfirst : answer threeLines directFirst = some (some 120) := by decide +kernel
  have hsecond : answer threeLines lineFirst = some (some 500) := by decide +kernel
  rcases search?_of_answer hfirst with ⟨e, found, hsearch, hcost⟩
  rcases Option.map_eq_some_iff.mp hcost with ⟨it, rfl, htotal⟩
  rcases search?_of_answer hsecond with ⟨e', found', hsearch', hcost'⟩
  rcases Option.map_eq_some_iff.mp hcost' with ⟨it', rfl, htotal'⟩
  refine ⟨e, it, e', it', build_threeLines, ⟨by decide +kernel, by decide +kernel⟩,
    by decide +kernel, ⟨⟨rfl, rfl, rfl⟩, List.Perm.swap _ _ _, List.Perm.refl _⟩,
    by decide +kernel, by decide +kernel, by decide +kernel, hsearch, hsearch', ?_⟩
  rw [htotal, htotal']
  decide +kernel

/-- Candidates on one line may change places. -/
theorem InService.search?_reordered_line : ∃ it, it.totalCost = 30 ∧
    ((Engine.new threeLines.assemble (TransferPolicy.flat 0)).search? alongLine).map Prod.snd
      = some (some it) ∧
    ((Engine.new threeLines.assemble (TransferPolicy.flat 0)).search? backAlongLine).map Prod.snd
      = some (some it) := by
  have hanswer : answer threeLines alongLine = some (some 30) := by decide +kernel
  rcases search?_of_answer hanswer with ⟨e, found, hsearch, hcost⟩
  rcases Option.map_eq_some_iff.mp hcost with ⟨it, rfl, htotal⟩
  have hre : alongLine.Reordered backAlongLine :=
    ⟨⟨rfl, rfl, rfl⟩, List.Perm.swap _ _ _, List.Perm.swap _ _ _⟩
  have hsame := InService.search?_reordered build_threeLines InService.new InService.new hre
    (by decide +kernel) (by decide +kernel) (by decide +kernel)
    (Or.inr (TransferPolicy.flat_byChain 0))
  refine ⟨it, htotal, by rw [hsearch]; rfl, ?_⟩
  rw [hsame, hsearch]
  rfl

end Engine

end Journey
