import Bindery.Graph.Layout
import Bindery.Proofs.Graph.Layout
import Bindery.Proofs.Graph.Waiting

/-!
# Planting trees

A tree whose declarations stand where their kinds may stand can be put at the end of a well-formed
graph, below a new unit or as something that waits. What was there before stays as it was.
-/

namespace Bindery

/-- The second may stand right below the first; both are the toolchain's, or neither is. -/
def Declaration.MayHold (d e : Declaration) : Prop :=
  d.kind ∈ e.kind.parents ∧ (d.kind = .record → d.isComplete) ∧
    e.flags.has .synthesized = d.flags.has .synthesized

/-- The tree as it may be planted. -/
structure Tree.IsSound (t : Tree Declaration) : Prop where
  edges : t.Edges Declaration.MayHold
  removed : ∀ d ∈ t.preorder, d.isRemoved = false

namespace Graph

variable {g : Graph} {t : Tree Declaration} {i p c : DeclId} {s u : Slot} {ws : List Pending}

/-- The slots that planting adds. -/
theorem isLayout_planted (g : Graph) (ht : t.IsSound) :
    IsLayout Declaration.MayHold (· = t.label) none g.size [g.size] (t.slots none g.size) :=
  t.isLayout_slots none g.size nofun ht.edges rfl

theorem get?_plant_of_lt (h : i < g.size) (t : Tree Declaration) :
    (g.plant t).get? i = g.get? i := by
  rw [get?, plant, Array.getElem?_append_left h, get?]

theorem get?_plant_of_get? (hs : g.get? i = some s) (t : Tree Declaration) :
    (g.plant t).get? i = some s := by
  rw [get?_plant_of_lt (lt_size_of_get? hs), hs]

theorem get?_plant_of_mem (ht : t.IsSound) (hs : s ∈ t.slots none g.size) :
    (g.plant t).get? s.id = some s := by
  have hl := isLayout_planted g ht
  obtain ⟨j, hj, rfl⟩ := List.getElem_of_mem hs
  have hid : (t.slots none g.size)[j].id = g.size + j := by
    have := congrArg (·[j]?) hl.ids
    simpa [hj] using this
  show (g.slots ++ (t.slots none g.size).toArray)[(t.slots none g.size)[j].id]? = _
  rw [hid]
  exact (Array.getElem?_append_right (Nat.le_add_right _ _)).trans (by simp [size])

/-- Every slot is an old one or one of the tree's. -/
theorem get?_plant_cases (ht : t.IsSound) (h : (g.plant t).get? i = some s) :
    g.get? i = some s ∧ i < g.size ∨ s ∈ t.slots none g.size ∧ s.id = i ∧ g.size ≤ i := by
  by_cases hi : i < g.size
  · rw [get?_plant_of_lt hi] at h
    exact Or.inl ⟨h, hi⟩
  · refine Or.inr ?_
    have hl := isLayout_planted g ht
    rw [not_lt] at hi
    rw [get?, plant, Array.getElem?_append_right hi] at h
    have hmem : s ∈ t.slots none g.size := by
      have := Array.mem_of_getElem? h
      simpa using this
    refine ⟨hmem, ?_, hi⟩
    have hs := get?_plant_of_mem ht hmem
    have hge := (hl.mem_range hmem).1
    have hj := congrArg (·[i - g.slots.size]?) hl.ids
    simp only [List.getElem?_map] at hj
    rw [List.getElem?_toArray] at h
    rw [h] at hj
    have hlt : i - g.slots.size < (t.slots none g.size).length := by
      rw [List.getElem?_eq_some_iff] at h
      exact h.1
    rw [List.getElem?_range' hlt] at hj
    simp only [Option.map_some, Option.some.injEq, Nat.one_mul] at hj
    rw [hj]
    exact Nat.add_sub_of_le hi

theorem isParent_plant (ht : t.IsSound) : (g.plant t).IsParent p c ↔
    g.IsParent p c ∨ ∃ s ∈ t.slots none g.size, s.id = c ∧ s.parent = some p := by
  constructor
  · rintro ⟨s, hs, hp⟩
    rcases get?_plant_cases ht hs with ⟨hs, -⟩ | ⟨hs, hi, -⟩
    · exact Or.inl ⟨s, hs, hp⟩
    · exact Or.inr ⟨s, hs, hi, hp⟩
  · rintro (⟨s, hs, hp⟩ | ⟨s, hs, rfl, hp⟩)
    · exact ⟨s, get?_plant_of_get? hs t, hp⟩
    · exact ⟨s, get?_plant_of_mem ht hs, hp⟩

/-- Parents in the tree are the tree's. -/
theorem parent_planted (ht : t.IsSound) (hs : s ∈ t.slots none g.size) (hp : s.parent = some p) :
    ∃ u ∈ t.slots none g.size, u.id = p ∧ u.id < s.id ∧
      u.toDeclaration.MayHold s.toDeclaration := by
  have hl := isLayout_planted g ht
  by_cases hr : s.id ∈ [g.size]
  · rw [(hl.root s hs hr).1] at hp
    exact absurd hp nofun
  · obtain ⟨u, hu, hup, hlt, hm⟩ := hl.inner s hs hr
    obtain rfl := Option.some.inj (hup.symm.trans hp)
    exact ⟨u, hu, rfl, hlt, hm⟩

theorem not_removed_planted (ht : t.IsSound) (hs : s ∈ t.slots none g.size) :
    s.isRemoved = false := by
  refine ht.removed s.toDeclaration ?_
  rw [← t.map_toDeclaration_slots none g.size]
  exact List.mem_map_of_mem hs

theorem IsForest.plant (hg : g.IsForest) (ht : t.IsSound) : (g.plant t).IsForest := by
  have hl := isLayout_planted g ht
  have hold : ∀ {p c}, (g.plant t).IsParent p c → p < g.size → g.IsParent p c := by
    intro p c h hp
    rcases (isParent_plant ht).1 h with h | ⟨s, hs, -, hsp⟩
    · exact h
    · obtain ⟨u, hu, rfl, -⟩ := parent_planted ht hs hsp
      exact absurd hp (not_lt_of_ge (hl.mem_range hu).1)
  refine ⟨?_, ?_, ?_, ?_, ?_⟩
  · intro i s hs
    rcases get?_plant_cases ht hs with ⟨hs, -⟩ | ⟨-, hi, -⟩
    · exact hg.id_eq hs
    · exact hi
  · intro p s hs c
    rcases get?_plant_cases ht hs with ⟨hs, hp⟩ | ⟨hm, rfl, hp⟩
    · rw [hg.mem_children hs c]
      exact ⟨fun h => (isParent_plant ht).2 (Or.inl h), fun h => hold h hp⟩
    · rw [hl.mem_children s hm c, isParent_plant ht]
      refine ⟨Or.inr, ?_⟩
      rintro (h | h)
      · exact absurd (hg.parent_lt h) (not_lt_of_ge hp)
      · exact h
  · intro p s hs
    rcases get?_plant_cases ht hs with ⟨hs, -⟩ | ⟨hs, -⟩
    · exact hg.nodup_children hs
    · exact hl.nodup_children s hs
  · intro p c h
    rcases (isParent_plant ht).1 h with h | ⟨s, hs, -, hsp⟩
    · rw [size_plant]
      exact Nat.lt_add_right _ (hg.parent_lt h)
    · obtain ⟨u, hu, rfl, -⟩ := parent_planted ht hs hsp
      exact lt_size_of_get? (get?_plant_of_mem ht hu)
  · -- old declarations keep their rank, the tree's own number is a rank above all of those
    obtain ⟨rank, hlt, hrank⟩ := hg.exists_rank
    refine acyclic_of_rank (fun i => if i < g.size then rank i else i) fun p c h => ?_
    rcases (isParent_plant ht).1 h with h | ⟨s, hs, rfl, hsp⟩
    · simp only [hg.parent_lt h, h.lt_size, if_true]
      exact hrank p c h
    · obtain ⟨u, hu, rfl, hus, -⟩ := parent_planted ht hs hsp
      have h1 := (hl.mem_range hu).1
      have h2 := (hl.mem_range hs).1
      simp only [not_lt_of_ge h1, not_lt_of_ge h2, if_false]
      exact hus

namespace WellFormed

variable (hg : g.WellFormed) (ht : t.IsSound)
include hg ht

omit hg in
theorem kind_planted (hs : s ∈ t.slots none g.size) : s.kind = .unit → s.id = g.size := by
  intro hk
  by_contra hne
  obtain ⟨u, -, -, -, hm⟩ := (isLayout_planted g ht).inner s hs (by simpa using hne)
  rw [Declaration.MayHold, hk] at hm
  exact absurd hm.1 List.not_mem_nil

omit hg in
theorem root_planted : ∃ s ∈ t.slots none g.size, s.id = g.size ∧ s.parent = none ∧
    s.toDeclaration = t.label := by
  have hl := isLayout_planted g ht
  obtain ⟨s, hs, hid⟩ := hl.exists_root g.size (List.mem_singleton_self _)
  obtain ⟨hp, hd⟩ := hl.root s hs (by rw [hid]; exact List.mem_singleton_self _)
  exact ⟨s, hs, hid, hp, hd⟩

omit hg in
theorem label_planted (hs : s ∈ t.slots none g.size) (hid : s.id = g.size) :
    s.toDeclaration = t.label :=
  ((isLayout_planted g ht).root s hs (by simp [hid])).2

theorem kind_parent_plant (hs : (g.plant t).get? p = some s) (hu : (g.plant t).get? c = some u)
    (hp : u.parent = some p) : s.kind ∈ u.kind.parents ∧ (s.kind = .record → s.isComplete) := by
  have hg' := hg.toIsForest.plant ht
  rcases get?_plant_cases ht hu with ⟨hu, -⟩ | ⟨hu, -, -⟩
  · obtain ⟨s', hs'⟩ := exists_get?_of_lt (hg.parent_lt ⟨u, hu, hp⟩)
    obtain rfl := Option.some.inj (hs.symm.trans (get?_plant_of_get? hs' t))
    exact hg.kind_parent hs' hu hp
  · obtain ⟨v, hv, rfl, -, hm⟩ := parent_planted ht hu hp
    obtain rfl := Option.some.inj (hs.symm.trans (get?_plant_of_mem ht hv))
    exact ⟨hm.1, hm.2.1⟩

theorem removed_plant (hs : (g.plant t).get? i = some s) (hr : s.isRemoved) :
    s.kind = .namespace ∧ s.parent = none ∧ s.children = [] := by
  rcases get?_plant_cases ht hs with ⟨hs, -⟩ | ⟨hs, -⟩
  · exact hg.removed hs hr
  · rw [not_removed_planted ht hs] at hr
    exact absurd hr nofun

/-- A tree that is no unit may be planted as it is. -/
theorem plant (hk : t.label.kind ≠ .unit) : (g.plant t).WellFormed where
  toIsForest := hg.toIsForest.plant ht
  mem_units := by
    intro i s hs
    rcases get?_plant_cases ht hs with ⟨hs, -⟩ | ⟨hm, rfl, hi⟩
    · exact hg.mem_units hs
    · refine ⟨fun h => absurd (hg.unit_lt h) (not_lt_of_ge hi), fun h => absurd ?_ hk⟩
      rw [← label_planted ht hm (kind_planted ht hm h)]
      exact h
  unit_lt := by
    intro u hu
    rw [size_plant]
    exact Nat.lt_add_right _ (hg.unit_lt hu)
  nodup_units := hg.nodup_units
  nodup_names := by
    have : g.units.map (g.plant t).name? = g.units.map g.name? :=
      List.map_congr_left fun u hu => by
        rw [name?, get?_plant_of_lt (hg.unit_lt hu), name?]
    rw [show (g.plant t).units = g.units from rfl, this]
    exact hg.nodup_names
  kind_parent := hg.kind_parent_plant ht
  removed := hg.removed_plant ht

/-- A tree below a unit of a new file may be planted as the last unit. -/
theorem plant_unit (hk : t.label.kind = .unit) (hn : ∀ u ∈ g.units, g.name? u ≠ some t.label.name) :
    { g.plant t with units := g.units ++ [g.size] }.WellFormed where
  id_eq := (hg.toIsForest.plant ht).id_eq
  mem_children := (hg.toIsForest.plant ht).mem_children
  nodup_children := (hg.toIsForest.plant ht).nodup_children
  parent_lt := (hg.toIsForest.plant ht).parent_lt
  acyclic := (hg.toIsForest.plant ht).acyclic
  mem_units := by
    intro i s hs
    simp only [List.mem_append, List.mem_singleton]
    rcases get?_plant_cases ht hs with ⟨hs, hi⟩ | ⟨hm, rfl, hi⟩
    · rw [or_iff_left (ne_of_lt hi)]
      exact hg.mem_units hs
    · rw [or_iff_right fun h => absurd (hg.unit_lt h) (not_lt_of_ge hi)]
      refine ⟨fun h => ?_, kind_planted ht hm⟩
      rw [label_planted ht hm h]
      exact hk
  unit_lt := by
    intro u hu
    show u < (g.plant t).size
    rw [size_plant]
    rcases List.mem_append.1 hu with hu | hu
    · exact Nat.lt_add_right _ (hg.unit_lt hu)
    · obtain ⟨s, hs, hid, -⟩ := root_planted (g := g) ht
      have hlt := lt_size_of_get? (get?_plant_of_mem ht hs)
      rw [hid, size_plant] at hlt
      rw [List.mem_singleton.1 hu]
      exact hlt
  nodup_units := by
    refine List.nodup_append.2 ⟨hg.nodup_units, List.nodup_singleton _, ?_⟩
    rintro u hu v hv rfl
    exact absurd (hg.unit_lt hu) (List.mem_singleton.1 hv ▸ lt_irrefl _)
  nodup_names := by
    have hold : g.units.map (g.plant t).name? = g.units.map g.name? :=
      List.map_congr_left fun u hu => by
        rw [name?, get?_plant_of_lt (hg.unit_lt hu), name?]
    have hnew : (g.plant t).name? g.size = some t.label.name := by
      obtain ⟨s, hs, hid, -, hd⟩ := root_planted (g := g) ht
      rw [← hid, name?_of_get? (get?_plant_of_mem ht hs), hd]
    show ((g.units ++ [g.size]).map (g.plant t).name?).Nodup
    rw [List.map_append, hold, List.map_singleton, hnew]
    refine List.nodup_append.2 ⟨hg.nodup_names, List.nodup_singleton _, ?_⟩
    rintro n hm m hm' rfl
    obtain ⟨u, hu, hun⟩ := List.mem_map.1 hm
    exact hn u hu (hun.trans (List.mem_singleton.1 hm'))
  kind_parent := hg.kind_parent_plant ht
  removed := hg.removed_plant ht

end WellFormed

/-! ### Waiting -/

/-- What waits for a graph goes on waiting when a tree is planted. -/
theorem Awaits.plant (ht : t.IsSound) (h : g.Awaits ws) (ws' : List Pending)
    (hws' : ∀ p ∈ ws', p.decl = g.size ∧ p.goal ∈ t.label.kind.parents)
    (hnd : (ws'.map Pending.decl).Nodup) (hu : t.label.kind = .unit ∨ ws' ≠ []) :
    (g.plant t).Awaits (ws ++ ws') where
  nodup := by
    rw [List.map_append]
    refine List.nodup_append.2 ⟨h.nodup, hnd, ?_⟩
    rintro a ha b hb rfl
    obtain ⟨p, hp, rfl⟩ := List.mem_map.1 ha
    obtain ⟨q, hq, hqp⟩ := List.mem_map.1 hb
    obtain ⟨s, hs, -⟩ := h.isRoot hp
    have := lt_size_of_get? hs
    rw [← hqp, (hws' q hq).1] at this
    exact absurd this (lt_irrefl _)
  isRoot := by
    intro p hp
    rcases List.mem_append.1 hp with hp | hp
    · obtain ⟨s, hs, h'⟩ := h.isRoot hp
      exact ⟨s, get?_plant_of_get? hs t, h'⟩
    · obtain ⟨s, hs, hid, hsp, hd⟩ := WellFormed.root_planted (g := g) ht
      obtain ⟨h1, h2⟩ := hws' p hp
      refine ⟨s, ?_, hsp, not_removed_planted ht hs, hd ▸ h2⟩
      rw [h1, ← hid]
      exact get?_plant_of_mem ht hs
  rooted := by
    intro i s hs hn
    rcases get?_plant_cases ht hs with ⟨hs, -⟩ | ⟨hm, rfl, -⟩
    · rcases h.rooted hs hn with h' | h' | ⟨p, hp, h'⟩
      · exact Or.inl h'
      · exact Or.inr (Or.inl h')
      · exact Or.inr (Or.inr ⟨p, List.mem_append_left _ hp, h'⟩)
    · have hl := isLayout_planted g ht
      have hid : s.id = g.size := by
        by_contra hne
        obtain ⟨u, -, hup, -⟩ := hl.inner s hm (by simpa using hne)
        exact absurd (hn.symm.trans hup) nofun
      rcases hu with hu | hu
      · left
        rw [WellFormed.label_planted ht hm hid]
        exact hu
      · obtain ⟨p, hp⟩ := List.exists_mem_of_ne_nil ws' hu
        exact Or.inr (Or.inr ⟨p, List.mem_append_right _ hp, (hws' p hp).1.trans hid.symm⟩)

end Graph

end Bindery
