import Bindery.Proofs.Graph.Building
import Bindery.Proofs.Graph.Stack

/-!
# Live declarations

A declaration can be asked from above and from below: the walk down from the units lists it, or the
way up from it leads to one of them. In a forest below units the two agree, whatever was moved and
removed on the way to it.
-/

namespace Bindery.Graph

open Relation

variable {g h : Graph} {i u y id target : DeclId} {s t : Slot}

/-- The unit that the way up from the declaration leads to is still listed. -/
def IsOwned (g : Graph) (i : DeclId) : Prop := ∃ u ∈ g.units, g.unitOf? i = some (some u)

theorem IsRooted.unitOf?_eq_some_iff (hg : g.IsRooted) (hu : u ∈ g.units) :
    g.unitOf? i = some (some u) ↔ g.IsAbove u i := by
  by_cases hi : i < g.size
  · obtain ⟨o, ho, hsome, hnone⟩ := hg.exists_unitOf? hi
    obtain ⟨s, hs, hk⟩ := hg.kind_unit hu
    rw [ho, Option.some.injEq]
    refine ⟨fun h => (hsome u h).1, fun ha => ?_⟩
    cases ho' : o with
    | none => exact absurd hk (hnone ho' u s ha hs)
    | some v =>
      obtain ⟨hv, t, ht, htk⟩ := hsome v ho'
      rw [hg.unit_unique hs hk ht htk ha hv]
  · have hget : g.get? i = none := get?_eq_none_iff.2 (not_lt.1 hi)
    refine ⟨fun h => ?_, fun ha => absurd (ha.lt_size (hg.unit_lt hu)) hi⟩
    simp [unitOf?, above?, aboveWithin?, find?, hget] at h

/-- Seen from below, a declaration is live if a listed unit owns it. -/
theorem IsRooted.isOwned_iff (hg : g.IsRooted) : g.IsOwned i ↔ g.IsLive i :=
  exists_congr fun _ => and_congr_right fun hu => hg.unitOf?_eq_some_iff hu

/-- The walk down lists a declaration, then what is below its children, one child after the
other. -/
theorem IsForest.descendants?_node (hg : g.IsForest) (hs : g.get? i = some s) :
    ∃ parts, s.children.mapM g.descendants? = some parts ∧
      g.descendants? i = some (⟨i, s⟩ :: parts.flatten) := by
  refine ⟨s.children.map g.below, mapM_eq_some_of_forall fun c hc => ?_, ?_⟩
  · exact hg.descendants?_eq ((hg.mem_children hs c).1 hc).lt_size
  · rw [hg.descendants?_eq (lt_size_of_get? hs), hg.below_eq hs, List.flatMap_def]

/-- `h` is `g` with `id` moved to the end of the children of `target`. -/
structure MovesTo (g h : Graph) (id target : DeclId) : Prop where
  units : h.units = g.units
  pending : h.pending = g.pending
  moved : ∀ {s}, g.get? id = some s → h.get? id = some { s with parent := some target }
  gained : ∀ {s}, g.get? target = some s →
    h.get? target = some { s with children := s.children.filter (· != id) ++ [id] }
  /-- The siblings stay, and so does their order. -/
  lost : ∀ {p s}, g.IsParent p id → p ≠ target → g.get? p = some s →
    h.get? p = some { s with children := s.children.filter (· != id) }
  other : ∀ {i}, i ≠ id → i ≠ target → ¬ g.IsParent i id → h.get? i = g.get? i

theorem IsForest.movesTo (hg : g.IsForest) (hid : id < g.size) (hne : id ≠ target) :
    g.MovesTo (g.mapSlots (Slot.moved [id] target)) id target := by
  have hfilter : ∀ l : List DeclId, l.filter (· ∉ [id]) = l.filter (· != id) := fun l =>
    List.filter_congr fun c _ => by by_cases h : c = id <;> simp [h]
  -- the children of anything but the old parent do not change
  have hkeep : ∀ {i s}, g.get? i = some s → ¬ g.IsParent i id →
      s.children.filter (· != id) = s.children := by
    intro i s hs hp
    rw [List.filter_eq_self]
    intro c hc
    rw [bne_iff_ne]
    rintro rfl
    exact hp ((hg.mem_children hs c).1 hc)
  refine ⟨rfl, rfl, fun {s} hs => ?_, fun {s} hs => ?_, fun {p s} hp hpt hs => ?_,
    fun {i} hi hit hp => ?_⟩
  · have hself : ¬ g.IsParent id id := fun h => hg.ne_of_isParent h rfl
    rw [get?_mapSlots, hs, Option.map_some, Slot.moved, hfilter, hkeep hs hself, hg.id_eq hs,
      if_pos (List.mem_singleton_self id), if_neg hne, List.append_nil]
  · have hmem : target ∉ [id] := by simpa using hne.symm
    rw [get?_mapSlots, hs, Option.map_some, Slot.moved, hfilter, hg.id_eq hs, if_neg hmem,
      if_pos rfl]
  · have hmem : p ∉ [id] := by simpa using hg.ne_of_isParent hp
    rw [get?_mapSlots, hs, Option.map_some, Slot.moved, hfilter, hg.id_eq hs, if_neg hmem,
      if_neg hpt, List.append_nil]
  · cases hs : g.get? i with
    | none => rw [get?_mapSlots, hs, Option.map_none]
    | some s =>
      obtain rfl := hg.id_eq hs
      have hmem : s.id ∉ [id] := by simpa using hi
      rw [get?_mapSlots, hs, Option.map_some, Slot.moved, hfilter, hkeep hs hp, if_neg hmem,
        if_neg hit, List.append_nil]

/-- In whatever is built, the walks down come to an end and meet each declaration once, those whose
way up leads back to where they began; what the units list is what they own; a removal ends the life
of what is at and below the declaration; and a move changes no more than it must. -/
theorem walks_of_built (hg : g.Built) :
    (∀ r s, g.get? r = some s → ∃ xs, g.descendants? r = some xs ∧
      (∀ ys, g.Visits [r] ys ↔ ys = xs) ∧
      (∃ parts, s.children.mapM g.descendants? = some parts ∧ xs = ⟨r, s⟩ :: parts.flatten) ∧
      (xs.map Found.id).Nodup ∧ ∀ x, x ∈ xs.map Found.id ↔ g.IsAbove r x) ∧
    (∃ live, g.live? = some live ∧ (live.map Found.id).Nodup ∧
      (∀ x, x ∈ live.map Found.id ↔ ∃ u ∈ g.units, g.unitOf? x = some (some u)) ∧
      ∀ y < g.size, ∃ h live', g.remove? y = some h ∧ h.Built ∧ h.live? = some live' ∧
        ∀ x, (h.IsAbove y x ↔ g.IsAbove y x) ∧ (g.IsAbove y x → x ∉ live'.map Found.id) ∧
          (¬ g.IsAbove y x → (x ∈ live'.map Found.id ↔ x ∈ live.map Found.id))) ∧
    ∀ id s target, g.get? id = some s → s.kind ≠ .unit → target < g.size → ¬ g.IsAbove id target →
      ∃ h, g.reparent? id target = some h ∧ h.Built ∧ g.MovesTo h id target := by
  have hr := hg.isRooted
  refine ⟨fun r s hs => ?_, ⟨_, hr.live?_eq, hr.nodup_live, fun x => ?_, fun y hy => ?_⟩,
    fun id s target hs hk ht hna => ?_⟩
  · have hlt := lt_size_of_get? hs
    obtain ⟨parts, hparts, hxs⟩ := hr.descendants?_node hs
    have hbelow := hr.descendants?_eq hlt
    refine ⟨_, hbelow, fun ys => ?_, ⟨parts, hparts, ?_⟩, hr.nodup_below hlt,
      fun x => hr.mem_map_id_below hlt⟩
    · rw [visits_singleton_iff, hbelow, Option.some.injEq, eq_comm]
    · exact Option.some.inj (hbelow.symm.trans hxs)
  · rw [hr.mem_map_id_live, ← hr.isOwned_iff, IsOwned]
  · obtain ⟨s, hs⟩ := exists_get?_of_lt hy
    have hremove := hr.remove?_eq_of_get? hs
    have hbuilt := hg.step (.remove y) hy hremove
    refine ⟨_, _, hremove, hbuilt, hbuilt.isRooted.live?_eq, fun x => ?_⟩
    rw [hbuilt.isRooted.mem_map_id_live, hr.mem_map_id_live, hr.isLive_removed]
    exact ⟨hr.isAbove_dropped.trans (and_iff_left fun _ => .refl), fun ha hl => hl.2 ha,
      fun ha => and_iff_left ha⟩
  · have hmove := hr.reparent?_eq hs ht
    refine ⟨_, hmove, hg.step (.reparent id target) ⟨⟨s, hs, hk⟩, ht, hna⟩ hmove,
      hr.movesTo (lt_size_of_get? hs) ?_⟩
    rintro rfl
    exact hna .refl

/-- A class that was made on its own is moved into a namespace and then cut off with its field,
while the function beside it stays. -/
theorem walks_of_built_moved : ∃ g h : Graph, g.Built ∧
    g.live?.map (List.map Found.id) = some [0, 1, 2, 3, 4] ∧
    (∃ xs, g.descendants? 3 = some xs ∧ g.Visits [3] xs ∧ xs.map Found.id = [3, 4]) ∧
    g.remove? 3 = some h ∧ h.Built ∧ h.live?.map (List.map Found.id) = some [0, 1, 2] := by
  -- the graph before the move, and all that is computed of it and of what comes from it
  obtain ⟨g, hg, hkind, htarget, hna, hrun⟩ : ∃ g : Graph, g.Built ∧
      (∃ s, g.get? 3 = some s ∧ s.kind ≠ .unit) ∧ 1 < g.size ∧ 1 ∉ (g.below 3).map Found.id ∧
      (g.reparent? 3 1).any fun h => decide (3 < h.size ∧
        h.live?.map (List.map Found.id) = some [0, 1, 2, 3, 4] ∧
        (h.descendants? 3).map (List.map Found.id) = some [3, 4] ∧
        ((h.remove? 3).bind Graph.live?).map (List.map Found.id) = some [0, 1, 2]) := by
    have h1 := Built.empty.step (.addUnit "a") trivial rfl
    have h2 := h1.step (.addChild 0 .namespace "N") ⟨by decide, by decide⟩ rfl
    have h3 := h2.step (.addChild 1 .function "f") ⟨by decide, by decide⟩ rfl
    have h4 := h3.step (.addDetached .record "C") (Kind.noConfusion ·) rfl
    have h5 := h4.step (.addChild 3 .property "x") ⟨by decide, by decide⟩ rfl
    exact ⟨_, h5, ⟨_, rfl, by decide⟩, by decide, by decide, by decide +kernel⟩
  obtain ⟨s, hs, hk⟩ := hkind
  rw [hg.isRooted.mem_map_id_below (lt_size_of_get? hs)] at hna
  obtain ⟨h, hmove, hb, -⟩ := (walks_of_built hg).2.2 3 s 1 hs hk htarget hna
  rw [hmove, Option.any_some, decide_eq_true_eq] at hrun
  obtain ⟨hlt, hids, hbelow, hleft⟩ := hrun
  obtain ⟨t, ht⟩ := exists_get?_of_lt hlt
  obtain ⟨hdown, ⟨live, -, -, -, hremove⟩, -⟩ := walks_of_built hb
  obtain ⟨xs, hxs, hvisit, -⟩ := hdown 3 t ht
  obtain ⟨k, live', hk, hkb, -⟩ := hremove 3 hlt
  rw [hxs] at hbelow
  rw [hk] at hleft
  exact ⟨h, k, hb, hids, ⟨xs, hxs, (hvisit xs).2 rfl, Option.some.inj hbelow⟩, hk, hkb, hleft⟩

end Bindery.Graph
