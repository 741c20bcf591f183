import Bindery.Proofs.Graph.Change

/-!
# Places after a change

Who stands below whom after slots were changed. A change that keeps places keeps a forest and all
that is above anything; so does moving declarations to a target that is not below them, and cutting
one off. What is above a declaration changes only where it was moved.
-/

namespace Bindery

/-- A change of slots that leaves every declaration where it is. -/
def Slot.KeepsPlace (f : Slot → Slot) : Prop :=
  ∀ s, (f s).id = s.id ∧ (f s).parent = s.parent ∧ (f s).children = s.children

theorem Slot.keepsPlace_marked (fl : Flags) (ids : List DeclId) : KeepsPlace (Slot.marked fl ids) :=
  fun s => by unfold marked; split <;> exact ⟨rfl, rfl, rfl⟩

theorem Slot.keepsPlace_renamed (name : String) (ids : List DeclId) :
    KeepsPlace (Slot.renamed name ids) :=
  fun s => by unfold renamed; split <;> exact ⟨rfl, rfl, rfl⟩

namespace Graph

open Relation

variable {g : Graph} {c i j p r x id target : DeclId} {s t : Slot} {f : Slot → Slot}
  {ids : List DeclId}

theorem isParent_mapSlots :
    (g.mapSlots f).IsParent p c ↔ ∃ s, g.get? c = some s ∧ (f s).parent = some p := by
  simp [IsParent]

theorem isParent_mapSlots_of_keepsPlace (hf : Slot.KeepsPlace f) :
    (g.mapSlots f).IsParent p c ↔ g.IsParent p c := by
  simp only [isParent_mapSlots, (hf _).2.1]
  rfl

theorem IsForest.mapSlots_of_keepsPlace (hg : g.IsForest) (hf : Slot.KeepsPlace f) :
    (g.mapSlots f).IsForest where
  id_eq := fun h => hg.isNumbered.mapSlots (fun s => (hf s).1) _ _ h
  mem_children := by
    intro p s hs c
    rw [get?_mapSlots] at hs
    obtain ⟨u, hu, rfl⟩ := Option.map_eq_some_iff.1 hs
    rw [(hf u).2.2, isParent_mapSlots_of_keepsPlace hf]
    exact hg.mem_children hu c
  nodup_children := by
    intro p s hs
    rw [get?_mapSlots] at hs
    obtain ⟨u, hu, rfl⟩ := Option.map_eq_some_iff.1 hs
    rw [(hf u).2.2]
    exact hg.nodup_children hu
  parent_lt := by
    intro p c h
    rw [isParent_mapSlots_of_keepsPlace hf] at h
    simpa using hg.parent_lt h
  acyclic := by
    obtain ⟨rank, -, hrank⟩ := hg.exists_rank
    exact acyclic_of_rank rank fun p c h => hrank p c ((isParent_mapSlots_of_keepsPlace hf).1 h)

namespace IsForest

variable (hg : g.IsForest)
include hg

/-! ### Moving -/

theorem isParent_moved : (g.mapSlots (Slot.moved ids target)).IsParent p c ↔
    if c ∈ ids then c < g.size ∧ p = target else g.IsParent p c := by
  rw [isParent_mapSlots]
  constructor
  · rintro ⟨s, hs, hp⟩
    simp only [Slot.moved, hg.id_eq hs] at hp
    split at hp
    · next hc =>
      rw [if_pos hc]
      exact ⟨lt_size_of_get? hs, (Option.some.inj hp).symm⟩
    · next hc =>
      rw [if_neg hc]
      exact ⟨s, hs, hp⟩
  · intro h
    split at h
    · next hc =>
      obtain ⟨s, hs⟩ := exists_get?_of_lt h.1
      exact ⟨s, hs, by simp [Slot.moved, hg.id_eq hs, hc, h.2]⟩
    · next hc =>
      obtain ⟨s, hs, hp⟩ := h
      exact ⟨s, hs, by simp [Slot.moved, hg.id_eq hs, hc, hp]⟩

theorem acyclic_moved (hna : ∀ i ∈ ids, ¬ g.IsAbove i target) (x : DeclId) :
    ¬ TransGen (g.mapSlots (Slot.moved ids target)).IsParent x x := by
  classical
  obtain ⟨rank, -, hrank⟩ := hg.exists_rank
  -- what was moved, and what is below it, goes below the rank of the target
  refine acyclic_of_rank (fun x =>
    if ∃ i ∈ ids, g.IsAbove i x then rank x + rank target + 1 else rank x) (fun p c h => ?_) x
  rw [hg.isParent_moved] at h
  split at h
  · next hc =>
    obtain ⟨-, rfl⟩ := h
    have h1 : ¬ ∃ i ∈ ids, g.IsAbove i p := by
      rintro ⟨i, hi, ha⟩
      exact hna i hi ha
    have h2 : ∃ i ∈ ids, g.IsAbove i c := ⟨c, hc, .refl⟩
    simp only [if_neg h1, if_pos h2]
    omega
  · have hlt := hrank p c h
    by_cases h1 : ∃ i ∈ ids, g.IsAbove i p
    · obtain ⟨i, hi, ha⟩ := h1
      have h1 : ∃ i ∈ ids, g.IsAbove i p := ⟨i, hi, ha⟩
      have h2 : ∃ i ∈ ids, g.IsAbove i c := ⟨i, hi, ha.tail h⟩
      simp only [if_pos h1, if_pos h2]
      omega
    · simp only [if_neg h1]
      split <;> omega

/-- Declarations can be moved to a target that is not below any of them. -/
theorem moved (hids : ids.Nodup) (hlt : ∀ i ∈ ids, i < g.size) (ht : target < g.size)
    (hna : ∀ i ∈ ids, ¬ g.IsAbove i target) : (g.mapSlots (Slot.moved ids target)).IsForest where
  id_eq := fun h => hg.isNumbered.mapSlots (Slot.id_moved ids target) _ _ h
  mem_children := by
    intro p s hs c
    rw [get?_mapSlots] at hs
    obtain ⟨u, hu, rfl⟩ := Option.map_eq_some_iff.1 hs
    have hm := hg.mem_children hu c
    rw [hg.isParent_moved]
    by_cases hc : c ∈ ids
    · have hcl := hlt c hc
      by_cases hp : p = target <;> simp [Slot.moved, hg.id_eq hu, hc, hp, hcl]
    · rw [if_neg hc, ← hm]
      by_cases hp : p = target <;> simp [Slot.moved, hg.id_eq hu, hc, hp]
  nodup_children := by
    intro p s hs
    rw [get?_mapSlots] at hs
    obtain ⟨u, hu, rfl⟩ := Option.map_eq_some_iff.1 hs
    have hf : (u.children.filter (· ∉ ids)).Nodup := (hg.nodup_children hu).filter _
    simp only [Slot.moved]
    split
    · refine List.nodup_append.2 ⟨hf, hids, ?_⟩
      rintro a ha b hb rfl
      simp [hb] at ha
    · simpa using hf
  parent_lt := by
    intro p c h
    rw [hg.isParent_moved] at h
    rw [size_mapSlots]
    split at h
    · exact h.2 ▸ ht
    · exact hg.parent_lt h
  acyclic := hg.acyclic_moved hna

/-! ### Cutting off -/

theorem isParent_dropped :
    (g.mapSlots (Slot.dropped id)).IsParent p c ↔ c ≠ id ∧ g.IsParent p c := by
  rw [isParent_mapSlots]
  constructor
  · rintro ⟨s, hs, hp⟩
    simp only [Slot.dropped, Slot.without, hg.id_eq hs] at hp
    split at hp
    · exact absurd hp.symm (Option.some_ne_none p)
    · next hc => exact ⟨hc, s, hs, hp⟩
  · rintro ⟨hc, s, hs, hp⟩
    exact ⟨s, hs, by simp [Slot.dropped, Slot.without, hg.id_eq hs, hc, hp]⟩

theorem dropped : (g.mapSlots (Slot.dropped id)).IsForest where
  id_eq := fun h => hg.isNumbered.mapSlots (Slot.id_dropped id) _ _ h
  mem_children := by
    intro p s hs c
    rw [get?_mapSlots] at hs
    obtain ⟨u, hu, rfl⟩ := Option.map_eq_some_iff.1 hs
    rw [hg.isParent_dropped, ← hg.mem_children hu c]
    simp [Slot.dropped, Slot.without, and_comm]
  nodup_children := by
    intro p s hs
    rw [get?_mapSlots] at hs
    obtain ⟨u, hu, rfl⟩ := Option.map_eq_some_iff.1 hs
    exact (hg.nodup_children hu).filter _
  parent_lt := by
    intro p c h
    rw [size_mapSlots]
    exact hg.parent_lt (hg.isParent_dropped.1 h).2
  acyclic := by
    obtain ⟨rank, -, hrank⟩ := hg.exists_rank
    exact acyclic_of_rank rank fun p c h => hrank p c (hg.isParent_dropped.1 h).2

end IsForest

end Graph

end Bindery
