import Bindery.Proofs.Graph.Place

/-!
# Units as roots

`Graph.IsRooted`: a forest in which units stand below nothing, and the list of units has units only,
each once. That is all that searches ask of a graph: what is live is what stands at or below a
listed unit, the walks list it without repetition, and what stands where does not matter otherwise.
-/

namespace Bindery.Graph

open Relation

variable {g : Graph} {c i p r u v target : DeclId} {s t : Slot} {f : Slot → Slot}

structure IsRooted (g : Graph) : Prop extends g.IsForest where
  parent_unit : ∀ {i s}, g.get? i = some s → s.kind = .unit → s.parent = none
  kind_unit : ∀ {u}, u ∈ g.units → ∃ s, g.get? u = some s ∧ s.kind = .unit
  nodup_units : g.units.Nodup

/-- A declaration at or below a unit. -/
def IsLive (g : Graph) (i : DeclId) : Prop := ∃ u ∈ g.units, g.IsAbove u i

theorem isLive_mapSlots_of_keepsPlace (hf : Slot.KeepsPlace f) :
    (g.mapSlots f).IsLive i ↔ g.IsLive i := by
  have hparent : (g.mapSlots f).IsParent = g.IsParent := by
    funext p c
    exact propext (isParent_mapSlots_of_keepsPlace hf)
  rw [IsLive, IsAbove, hparent]
  rfl

/-- A search among children finds everything it is for, each once. -/
theorem IsForest.childrenWhere?_spec (hg : g.IsForest) (hp : p < g.size) (q : Slot → Bool) :
    ∃ ids, g.childrenWhere? p q = some ids ∧ ids.Nodup ∧
      ∀ i, i ∈ ids ↔ g.IsParent p i ∧ ∃ s, g.get? i = some s ∧ q s := by
  obtain ⟨s, hs⟩ := exists_get?_of_lt hp
  obtain ⟨xs, hxs, hids, hx⟩ := hg.children?_eq hs
  refine ⟨_, by rw [childrenWhere?, hxs, Option.map_some], ?_, fun i => ?_⟩
  · refine List.Nodup.sublist ((List.filter_sublist).map _) ?_
    rw [hids]
    exact hg.nodup_children hs
  · rw [← hg.mem_children hs, ← hids]
    simp only [List.mem_map, List.mem_filter]
    constructor
    · rintro ⟨x, ⟨hm, hq⟩, rfl⟩
      exact ⟨⟨x, hm, rfl⟩, x.slot, hx x hm, hq⟩
    · rintro ⟨⟨x, hm, rfl⟩, t, ht, hq⟩
      obtain rfl := Option.some.inj ((hx x hm).symm.trans ht)
      exact ⟨x, ⟨hm, hq⟩, rfl⟩

namespace IsRooted

variable (hg : g.IsRooted)
include hg

theorem unit_lt (hu : u ∈ g.units) : u < g.size := by
  obtain ⟨s, hs, -⟩ := hg.kind_unit hu
  exact lt_size_of_get? hs

/-- Nothing but itself stands above a unit. -/
theorem eq_of_isAbove_unit (hs : g.get? u = some s) (hk : s.kind = .unit) (ha : g.IsAbove r u) :
    r = u :=
  ha.eq_of_parent_eq_none hs (hg.parent_unit hs hk)

theorem eq_of_isAbove_mem_units (hu : u ∈ g.units) (ha : g.IsAbove r u) : r = u := by
  obtain ⟨s, hs, hk⟩ := hg.kind_unit hu
  exact hg.eq_of_isAbove_unit hs hk ha

theorem not_isParent_mem_units (hu : u ∈ g.units) : ¬ g.IsParent p u := by
  obtain ⟨s, hs, hk⟩ := hg.kind_unit hu
  exact not_isParent_of_parent_eq_none hs (hg.parent_unit hs hk)

/-- There is at most one unit above a declaration. -/
theorem unit_unique (hs : g.get? u = some s) (hsk : s.kind = .unit) (ht : g.get? v = some t)
    (htk : t.kind = .unit) (hui : g.IsAbove u i) (hvi : g.IsAbove v i) : u = v := by
  rcases hui.total hvi with h | h
  · exact hg.eq_of_isAbove_unit ht htk h
  · exact (hg.eq_of_isAbove_unit hs hsk h).symm

theorem live_lt (h : g.IsLive i) : i < g.size := by
  obtain ⟨u, hu, ha⟩ := h
  exact ha.lt_size (hg.unit_lt hu)

theorem live_of_isParent (h : g.IsParent p c) : g.IsLive c ↔ g.IsLive p := by
  constructor
  · rintro ⟨u, hu, ha⟩
    rcases ReflTransGen.cases_tail ha with rfl | ⟨q, huq, hq⟩
    · exact absurd h (hg.not_isParent_mem_units hu)
    · exact ⟨u, hu, hq.unique h ▸ huq⟩
  · rintro ⟨u, hu, ha⟩
    exact ⟨u, hu, ha.tail h⟩

/-! ### Answers of the walks -/

theorem forest?_eq : g.forest? = some (g.units.map g.treeAt) :=
  mapM_eq_some_of_forall fun _ hu => hg.subtree?_eq (hg.unit_lt hu)

theorem live?_eq : g.live? = some (g.units.flatMap g.below) := by
  rw [live?, hg.forest?_eq, Option.map_some, Tree.preorderList_eq_flatMap, List.flatMap_map]
  rfl

theorem mem_live {x : Found} :
    x ∈ g.units.flatMap g.below ↔ g.IsLive x.id ∧ g.get? x.id = some x.slot := by
  rw [List.mem_flatMap]
  constructor
  · rintro ⟨u, hu, hx⟩
    obtain ⟨ha, hs⟩ := (hg.mem_below (hg.unit_lt hu)).1 hx
    exact ⟨⟨u, hu, ha⟩, hs⟩
  · rintro ⟨⟨u, hu, ha⟩, hs⟩
    exact ⟨u, hu, (hg.mem_below (hg.unit_lt hu)).2 ⟨ha, hs⟩⟩

theorem mem_map_id_live : i ∈ (g.units.flatMap g.below).map Found.id ↔ g.IsLive i := by
  simp only [List.mem_map, hg.mem_live]
  constructor
  · rintro ⟨x, ⟨hl, -⟩, rfl⟩
    exact hl
  · intro hl
    obtain ⟨s, hs⟩ := exists_get?_of_lt (hg.live_lt hl)
    exact ⟨⟨i, s⟩, ⟨hl, hs⟩, rfl⟩

/-- Every live declaration is met once. -/
theorem nodup_live : ((g.units.flatMap g.below).map Found.id).Nodup :=
  hg.nodup_flatMap_below hg.nodup_units (fun _ hu => hg.unit_lt hu)
    (fun _ hu => hg.nodup_below (hg.unit_lt hu))
    (fun _ _ _ hv hne ha => hne (hg.eq_of_isAbove_mem_units hv ha))

/-- A search among what is live finds everything it is for, each once. -/
theorem liveWhere?_spec (q : Slot → Bool) : ∃ ids, g.liveWhere? q = some ids ∧ ids.Nodup ∧
    ∀ i, i ∈ ids ↔ g.IsLive i ∧ ∃ s, g.get? i = some s ∧ q s := by
  refine ⟨_, by rw [liveWhere?, hg.live?_eq, Option.map_some], ?_, fun i => ?_⟩
  · exact hg.nodup_live.sublist ((List.filter_sublist).map _)
  · simp only [List.mem_map, List.mem_filter, hg.mem_live]
    constructor
    · rintro ⟨x, ⟨⟨hl, hx⟩, hq⟩, rfl⟩
      exact ⟨hl, x.slot, hx, hq⟩
    · rintro ⟨hl, s, hs, hq⟩
      exact ⟨⟨i, s⟩, ⟨⟨hl, hs⟩, hq⟩, rfl⟩

/-! ### Changes -/

/-- A change keeps units roots if it keeps the forest, kinds, and that units have no parent. -/
theorem mapSlots_of_forest (hforest : (g.mapSlots f).IsForest)
    (hk : ∀ i s, g.get? i = some s → (f s).kind = s.kind ∧
      (s.kind = .unit → s.parent = none → (f s).parent = none)) : (g.mapSlots f).IsRooted where
  toIsForest := hforest
  parent_unit := by
    intro i t ht htk
    rw [get?_mapSlots] at ht
    obtain ⟨s, hs, rfl⟩ := Option.map_eq_some_iff.1 ht
    obtain ⟨hkind, hparent⟩ := hk i s hs
    rw [hkind] at htk
    exact hparent htk (hg.parent_unit hs htk)
  kind_unit := by
    intro u hu
    obtain ⟨s, hs, hsk⟩ := hg.kind_unit hu
    exact ⟨f s, by rw [get?_mapSlots, hs, Option.map_some], (hk u s hs).1.trans hsk⟩
  nodup_units := hg.nodup_units

theorem mapSlots_of_keepsPlace (hp : Slot.KeepsPlace f)
    (hk : ∀ i s, g.get? i = some s → (f s).kind = s.kind) : (g.mapSlots f).IsRooted :=
  hg.mapSlots_of_forest (hg.toIsForest.mapSlots_of_keepsPlace hp) fun i s hs =>
    ⟨hk i s hs, fun _ hn => (hp s).2.1.trans hn⟩

/-- The children of any declaration can be moved to a unit. -/
theorem moved_children (hs : g.get? p = some s) (ht : g.get? u = some t)
    (htk : t.kind = .unit) : (g.mapSlots (Slot.moved s.children u)).IsRooted := by
  have htp : t.parent = none := hg.parent_unit ht htk
  have hchild : ∀ i ∈ s.children, g.IsParent p i := fun i hi => (hg.mem_children hs i).1 hi
  refine hg.mapSlots_of_forest (hg.toIsForest.moved (hg.nodup_children hs)
    (fun i hi => (hchild i hi).lt_size) (lt_size_of_get? ht) fun i hi ha => ?_) fun i v hv => ?_
  · obtain rfl := ha.eq_of_parent_eq_none ht htp
    exact not_isParent_of_parent_eq_none ht htp (hchild i hi)
  · refine ⟨rfl, fun hvk hvp => ?_⟩
    have hi : v.id ∉ s.children := by
      rw [hg.id_eq hv]
      exact fun hi => not_isParent_of_parent_eq_none hv hvp (hchild i hi)
    simp [Slot.moved, hi, hvp]

theorem dropped (p : DeclId) : (g.mapSlots (Slot.dropped p)).IsRooted := by
  refine hg.mapSlots_of_forest hg.toIsForest.dropped fun i t ht => ⟨rfl, fun _ hn => ?_⟩
  simp [Slot.dropped, Slot.without, hn]

end IsRooted

end Bindery.Graph
