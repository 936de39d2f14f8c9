import Mathlib.Data.List.Induction
import Journey.Proofs.Box
import Journey.Proofs.Selection
import Journey.Proofs.Timetable.NearStops
import Journey.Timetable.PackedTree

/-!
# What Packed Trees Find

The tree that is used with floating point may be relied on.

Groups are made by selection, which loses nothing, so the groups in a group are together all
of it. Each is smaller than the whole, and so a search that may go as deep as there are
things gets to the smallest groups. It only leaves out what is in boxes that are too far
away, and a box is no further away than what is in it. So a search comes upon exactly what
is near enough.

The nearest thing is found by going through all of them and keeping the one that none has
been nearer than. What is infinitely far away is left out at first, and if that leaves
nothing the first thing of all is taken. Both times nothing is nearer than what is taken,
since squared distances are not negative and can be compared.

Only things that are nowhere can keep a tree from being made. The stops of a timetable are
somewhere, so that locators are made without asking.

## Theorems

* `PackedTree.perm_flatten_groups`, `PackedTree.length_lt_of_mem_groups`: The groups in a group.
* `PackedTree.perm_located`: What a search comes upon.
* `PackedTree.exists_nearest?`: The nearest thing is found.
* `MarkerTree.packed_faithful`: The tree may be relied on.
* `Locator.ofMarkers?_eq_some`: Markers that are somewhere are accepted.
-/

namespace Journey

namespace PackedTree

variable {α β : Type} [Scalar α]

section Groups

variable {coordinate : β → α} {place : β → Point α} {size cuts pieces : Nat} {xs ys : List β}

/-- The pieces of a list are together all of it. -/
theorem perm_flatten_cut (coordinate : β → α) (size cuts : Nat) :
    ∀ xs : List β, (cut coordinate size cuts xs).flatten.Perm xs := by
  induction cuts with
  | zero => exact fun xs => .of_eq List.flatten_singleton
  | succ cuts ih =>
      intro xs
      unfold cut
      dsimp only
      split
      · exact .of_eq List.flatten_singleton
      · rw [List.flatten_cons]
        exact ((ih _).append_left _).trans (Selection.perm_least _ size xs)

theorem length_le_of_mem_cut (h : ys ∈ cut coordinate size cuts xs) : ys.length ≤ xs.length :=
  (perm_flatten_cut coordinate size cuts xs).length_eq ▸
    (List.sublist_flatten_of_mem h).length_le

/-- If a list is cut, every piece is shorter than the list. -/
theorem length_lt_of_mem_cut (hsize : 0 < size) (hlong : size < xs.length)
    (h : ys ∈ cut coordinate size (cuts + 1) xs) : ys.length < xs.length := by
  unfold cut at h
  dsimp only at h
  rw [if_neg (Nat.not_le_of_lt hlong), List.mem_cons] at h
  have hfirst := Selection.length_least (fun a b => coordinate a < coordinate b) size xs
  have hall := (Selection.perm_least (fun a b => coordinate a < coordinate b) size xs).length_eq
  rw [List.length_append] at hall
  rcases h with rfl | h
  · omega
  · have hle := length_le_of_mem_cut h
    omega

/-- The groups in a group are together all of it. -/
theorem perm_flatten_groups (place : β → Point α) (xs : List β) :
    (groups place xs).flatten.Perm xs := by
  unfold groups
  dsimp only
  generalize strips xs.length = pieces
  have hstrips := perm_flatten_cut (fun x => (place x).y) ((xs.length + pieces - 1) / pieces)
    (pieces - 1) xs
  rw [List.flatten_eq_flatMap, List.flatMap_assoc]
  refine List.Perm.trans (List.Perm.flatMap_left _ fun strip _ => ?_)
    (List.flatten_eq_flatMap ▸ hstrips)
  rw [← List.flatten_eq_flatMap]
  exact perm_flatten_cut _ _ _ strip

-- Groups that are divided are cut into two or three strips.
theorem length_lt_of_mem_cutEvenly (hlong : groupSize < xs.length)
    (h : ys ∈ cutEvenly coordinate (strips xs.length) xs) : ys.length < xs.length := by
  have hgroup : groupSize = 6 := rfl
  unfold cutEvenly strips at h
  split at h
  · exact length_lt_of_mem_cut (by omega) (by omega) h
  · exact length_lt_of_mem_cut (by omega) (by omega) h

/-- The groups in a group are smaller than it. -/
theorem length_lt_of_mem_groups (hlong : groupSize < xs.length) (h : ys ∈ groups place xs) :
    ys.length < xs.length := by
  rcases List.mem_flatMap.mp h with ⟨strip, hstrip, hys⟩
  exact (length_le_of_mem_cut hys).trans_lt (length_lt_of_mem_cutEvenly hlong hstrip)

end Groups

section Searching

variable [Planar α] [Planar.Monotone α] {place : β → Point α} {center : Point α}

/-- What a search comes upon is what is near enough. -/
theorem perm_located (hcenter : center.isFinite) (bound : α) (depth : Nat) :
    ∀ xs : List β, xs.length ≤ depth → (∀ x ∈ xs, (place x).isFinite) →
      (located place center bound depth xs).Perm (reached place center bound xs) := by
  induction depth with
  | zero =>
      intro xs hlength _
      rw [List.length_eq_zero_iff.mp (Nat.le_zero.mp hlength)]
      exact .refl []
  | succ depth ih =>
      intro xs hlength hxs
      unfold located
      split
      · rename_i hnone
        have hnil : xs = [] := by
          cases xs with
          | nil => rfl
          | cons x xs => exact absurd hnone (Option.some_ne_none _)
        rw [hnil]
        exact .refl []
      rename_i box hbox
      have hplaces : ∀ p ∈ xs.map place, p.isFinite := by
        intro p hp
        rcases List.mem_map.mp hp with ⟨x, hx, rfl⟩
        exact hxs x hx
      rcases Box.encloses_of_around? hplaces hbox with ⟨hfinite, hencloses⟩
      split
      · split
        · exact .refl _
        · rename_i hlong
          have hgroups := perm_flatten_groups place xs
          have hfound : ((groups place xs).flatMap (located place center bound depth)).Perm
              ((groups place xs).flatMap (reached place center bound)) := by
            refine List.Perm.flatMap_left _ fun group hgroup => ih group ?_ fun x hx => ?_
            · have hlt := length_lt_of_mem_groups (Nat.lt_of_not_le hlong) hgroup
              omega
            · exact hxs x (hgroups.mem_iff.mp (List.mem_flatten.mpr ⟨group, hgroup, hx⟩))
          refine hfound.trans (List.Perm.trans (.of_eq ?_) (hgroups.filter _))
          exact List.filter_flatten.symm
      · rename_i hfar
        -- What is near enough would be in a box that is.
        refine .of_eq (List.filter_eq_nil_iff.mpr fun x hx hle => hfar ?_).symm
        exact Scalar.Ordered.le_trans _ _ _
          ((hencloses _ (List.mem_map_of_mem hx)).squaredDistance_le hfinite (hxs x hx) hcenter)
          (of_decide_eq_true hle)

end Searching

section Nearest

variable {place : β → Point α} {center : Point α} {xs : List β} [Scalar.Ordered α]

/-- One more thing is looked at. -/
theorem isNearest_nearer {best : Option β} (h : Point.IsNearest place center xs best) {x : β}
    (hnonneg : ∀ y ∈ xs ++ [x], 0 ≤ (place y).squaredDistance center) :
    Point.IsNearest place center (xs ++ [x]) (nearer place center best x) := by
  have hx : x ∈ xs ++ [x] := List.mem_append_right _ List.mem_cons_self
  have hself := Scalar.Ordered.le_refl (hnonneg x hx)
  cases best with
  | none =>
      subst h
      refine ⟨hx, fun y hy => ?_⟩
      rw [List.mem_singleton.mp hy]
      exact hself
  | some best =>
      rcases h with ⟨hbest, hleast⟩
      unfold nearer
      dsimp only
      split
      · rename_i hlt
        refine ⟨hx, fun y hy => ?_⟩
        rcases List.mem_append.mp hy with hold | hnew
        · exact Scalar.Ordered.le_trans _ _ _ (Scalar.Ordered.le_of_lt _ _ hlt) (hleast y hold)
        · rw [List.mem_singleton.mp hnew]
          exact hself
      · rename_i hlt
        have hkept : best ∈ xs ++ [x] := List.mem_append_left _ hbest
        refine ⟨hkept, fun y hy => ?_⟩
        rcases List.mem_append.mp hy with hold | hnew
        · exact hleast y hold
        · rw [List.mem_singleton.mp hnew]
          exact (Scalar.Ordered.le_or_lt _ _ (hnonneg best hkept) (hnonneg x hx)).resolve_right hlt

theorem isNearest_foldl (hnonneg : ∀ x ∈ xs, 0 ≤ (place x).squaredDistance center) :
    Point.IsNearest place center xs (xs.foldl (nearer place center) none) := by
  induction xs using List.reverseRecOn with
  | nil => exact rfl
  | append_singleton xs x ih =>
      rw [List.foldl_append]
      exact isNearest_nearer (ih fun y hy => hnonneg y (List.mem_append_left _ hy)) hnonneg

-- Where no distance is finite, they can still be compared.
theorem exists_first? (hnonneg : ∀ x ∈ xs, 0 ≤ (place x).squaredDistance center)
    (hinfinite : ∀ x ∈ xs, ¬ Scalar.isFinite ((place x).squaredDistance center)) :
    ∃ best, first? place center xs = some best ∧ Point.IsNearest place center xs best := by
  have hleast : ∀ x ∈ xs, ∀ y ∈ xs,
      (place x).squaredDistance center ≤ (place y).squaredDistance center :=
    fun x hx y hy => Scalar.Ordered.le_of_not_isFinite _ _ (hnonneg x hx) (hnonneg y hy)
      (hinfinite y hy)
  match xs with
  | [] => exact ⟨none, rfl, rfl⟩
  | [x] =>
      exact ⟨some x, rfl, List.mem_cons_self, hleast x List.mem_cons_self⟩
  | x :: y :: rest =>
      refine ⟨some x, ?_, List.mem_cons_self, hleast x List.mem_cons_self⟩
      unfold first?
      dsimp only
      rw [if_pos]
      simp only [List.all_map, List.all_eq_true, Function.comp_apply]
      intro z hz
      unfold Scalar.same
      rw [Bool.and_self, decide_eq_true_iff]
      exact hleast z hz z hz

/-- The nearest thing is found. -/
theorem exists_nearest? (hnonneg : ∀ x ∈ xs, 0 ≤ (place x).squaredDistance center) :
    ∃ best, nearest? place center xs = some best ∧ Point.IsNearest place center xs best := by
  have hnear : ∀ x ∈ xs.filter fun x => Scalar.isFinite ((place x).squaredDistance center),
      0 ≤ (place x).squaredDistance center := fun x hx => hnonneg x (List.mem_of_mem_filter hx)
  have hfold := isNearest_foldl hnear
  unfold nearest?
  dsimp only
  split
  · rename_i best heq
    rw [heq] at hfold
    rcases hfold with ⟨hbest, hleast⟩
    rw [List.mem_filter] at hbest
    refine ⟨some best, rfl, hbest.1, fun x hx => ?_⟩
    by_cases hfinite : Scalar.isFinite ((place x).squaredDistance center)
    · exact hleast x (List.mem_filter.mpr ⟨hx, hfinite⟩)
    · exact Scalar.Ordered.le_of_not_isFinite _ _ (hnonneg best hbest.1) (hnonneg x hx) hfinite
  · rename_i heq
    rw [heq] at hfold
    exact exists_first? hnonneg (List.filter_eq_nil_iff.mp hfold)

end Nearest

end PackedTree

/-- The tree that puts markers into groups may be relied on. -/
instance MarkerTree.packed_faithful {α : Type} [Scalar α] [Planar α] [Planar.Monotone α] :
    @MarkerTree.Faithful α _ MarkerTree.packed := by
  let _ : MarkerTree α := MarkerTree.packed
  refine { located := fun ms center bound hms hcenter => ?_,
           neighbour? := fun ms center hms hcenter => ?_ }
  · have hplaces : ∀ m ∈ ms.attach, m.val.position.isFinite := fun m _ => hms m.val m.property
    have hperm := PackedTree.perm_located hcenter bound ms.length ms.attach
      (Nat.le_of_eq List.length_attach) hplaces
    refine (hperm.map Subtype.val).trans (.of_eq ?_)
    unfold PackedTree.reached
    conv_rhs => rw [← List.attach_map_subtype_val ms, List.filter_map]
    rfl
  · have hnonneg : ∀ m ∈ ms.attach, 0 ≤ m.val.position.squaredDistance center :=
      fun m _ => Point.squaredDistance_nonneg (hms m.val m.property) hcenter
    rcases PackedTree.exists_nearest? hnonneg with ⟨best, hbest, hnearest⟩
    have hmap : Point.IsNearest Marker.position center (ms.attach.map Subtype.val)
        (best.map Subtype.val) := hnearest.map
    rw [List.attach_map_subtype_val] at hmap
    exact ⟨best, hbest, hmap⟩

namespace Locator

variable {α : Type} [Scalar α] [Planar α] [Planar.Monotone α]

/-- Markers that are somewhere are accepted, however many there are. -/
theorem ofMarkers?_eq_some {ms : List (Marker α)} (hms : ∀ m ∈ ms, m.position.isFinite) :
    ofMarkers? ms = some { markers := ms } := by
  have hsame : ∀ a : α, Scalar.isFinite a → Scalar.same a a := fun a ha => by
    unfold Scalar.same
    rw [Bool.and_self, decide_eq_true (Box.le_self ha)]
  have horderable : orderable ms := by
    refine List.all_eq_true.mpr fun m hm => ?_
    rcases Box.isFinite_iff.mp (hms m hm) with ⟨hx, hy⟩
    unfold Point.same
    rw [hsame _ hx, hsame _ hy, Bool.and_self]
  unfold ofMarkers?
  rw [horderable, Bool.or_true, if_pos rfl]

/-- The locator of some stops is the one that accepts their markers. -/
theorem ofMarkers?_markers {stops : Array (Stop α)}
    (hstops : ∀ stop ∈ stops, stop.position.isFinite) :
    ofMarkers? (Stop.markers stops) = some (ofStops stops) :=
  ofMarkers?_eq_some (Stop.isFinite_markers hstops)

end Locator

end Journey
