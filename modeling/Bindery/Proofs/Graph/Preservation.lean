import Bindery.Proofs.Graph.Kinds

/-!
# Changes that keep a graph well-formed

Marks and new names keep a graph well-formed if they leave alone what well-formedness reads. Moving
declarations keeps it if they may stand below the target, and cutting off a namespace without
children does. `hoisted` is the graph after a namespace was emptied onto its unit and cut off.
-/

namespace Bindery

open Relation

/-- A change that keeps what well-formedness reads of a declaration itself. -/
def Slot.KeepsNature (s t : Slot) : Prop :=
  t.kind = s.kind ∧ t.isComplete = s.isComplete ∧ t.isRemoved = s.isRemoved ∧
    (s.kind = .unit → t.name = s.name)

namespace Graph

variable {g : Graph} {c i p r u x space target unit : DeclId} {s t : Slot} {f : Slot → Slot}
  {ids : List DeclId}

theorem get?_mapSlots_eq_some (h : (g.mapSlots f).get? i = some t) :
    ∃ s, g.get? i = some s ∧ f s = t := by
  rw [get?_mapSlots] at h
  exact Option.map_eq_some_iff.1 h

theorem get?_mapSlots_of_get? (f : Slot → Slot) (h : g.get? i = some s) :
    (g.mapSlots f).get? i = some (f s) := by
  rw [get?_mapSlots, h, Option.map_some]

theorem name?_of_get? (h : g.get? i = some s) : g.name? i = some s.name := by
  rw [name?, h, Option.map_some]

namespace WellFormed

variable (hg : g.WellFormed)
include hg

/-- What is left of well-formedness, if the forest is kept and kinds still fit. -/
theorem mapSlots_of_forest (hforest : (g.mapSlots f).IsForest)
    (hf : ∀ i s, g.get? i = some s → (f s).kind = s.kind ∧ (s.kind = .unit → (f s).name = s.name))
    (hparent : ∀ p c s t, g.get? p = some s → g.get? c = some t → (f t).parent = some p →
      s.kind ∈ t.kind.parents ∧ (s.kind = .record → (f s).isComplete))
    (hremoved : ∀ i s, g.get? i = some s → (f s).isRemoved →
      s.kind = .namespace ∧ (f s).parent = none ∧ (f s).children = []) :
    (g.mapSlots f).WellFormed where
  toIsForest := hforest
  mem_units := by
    intro i t ht
    obtain ⟨s, hs, rfl⟩ := get?_mapSlots_eq_some ht
    rw [(hf i s hs).1]
    exact hg.mem_units hs
  unit_lt := by
    intro u hu
    rw [size_mapSlots]
    exact hg.unit_lt hu
  nodup_units := hg.nodup_units
  nodup_names := by
    have : g.units.map (g.mapSlots f).name? = g.units.map g.name? := by
      refine List.map_congr_left fun u hu => ?_
      obtain ⟨s, hs, hk, -⟩ := hg.exists_unit hu
      rw [name?_of_get? hs, name?_of_get? (get?_mapSlots_of_get? f hs), (hf u s hs).2 hk]
    rw [units_mapSlots, this]
    exact hg.nodup_names
  kind_parent := by
    intro p c s' t' hs' ht' hp
    obtain ⟨s, hs, rfl⟩ := get?_mapSlots_eq_some hs'
    obtain ⟨t, ht, rfl⟩ := get?_mapSlots_eq_some ht'
    rw [(hf p s hs).1, (hf c t ht).1]
    exact hparent p c s t hs ht hp
  removed := by
    intro i t ht hr
    obtain ⟨s, hs, rfl⟩ := get?_mapSlots_eq_some ht
    rw [(hf i s hs).1]
    exact hremoved i s hs hr

theorem mapSlots_of_keepsPlace (hp : Slot.KeepsPlace f)
    (hf : ∀ i s, g.get? i = some s → s.KeepsNature (f s)) : (g.mapSlots f).WellFormed := by
  refine hg.mapSlots_of_forest (hg.toIsForest.mapSlots_of_keepsPlace hp)
    (fun i s hs => ⟨(hf i s hs).1, (hf i s hs).2.2.2⟩) (fun p c s t hs ht hpc => ?_)
    (fun i s hs hr => ?_)
  · rw [(hp t).2.1] at hpc
    rw [(hf p s hs).2.1]
    exact hg.kind_parent hs ht hpc
  · rw [(hf i s hs).2.2.1] at hr
    rw [(hp s).2.1, (hp s).2.2]
    exact hg.removed hs hr

/-- Declarations can be moved to a target where their kinds may stand. -/
theorem moved (ht : g.get? target = some t) (htr : t.isRemoved = false) (hids : ids.Nodup)
    (hfit : ∀ i ∈ ids, ∃ s, g.get? i = some s ∧ s.isRemoved = false ∧ t.kind ∈ s.kind.parents ∧
      (t.kind = .record → t.isComplete))
    (hna : ∀ i ∈ ids, ¬ g.IsAbove i target) :
    (g.mapSlots (Slot.moved ids target)).WellFormed := by
  have hlt : ∀ i ∈ ids, i < g.size := fun i hi => by
    obtain ⟨s, hs, -⟩ := hfit i hi
    exact lt_size_of_get? hs
  refine hg.mapSlots_of_forest (hg.toIsForest.moved hids hlt (lt_size_of_get? ht) hna)
    (fun _ _ _ => ⟨rfl, fun _ => rfl⟩) (fun p c s u hs hu hpc => ?_) (fun i s hs hr => ?_)
  · simp only [Slot.moved, hg.id_eq hu] at hpc
    split at hpc
    · next hc =>
      obtain rfl := Option.some.inj hpc
      obtain rfl := Option.some.inj (ht.symm.trans hs)
      obtain ⟨u', hu', -, hk⟩ := hfit c hc
      obtain rfl := Option.some.inj (hu.symm.trans hu')
      exact hk
    · exact hg.kind_parent hs hu hpc
  · replace hr : s.isRemoved := hr
    obtain ⟨hk, hp, hc⟩ := hg.removed hs hr
    have hi : i ∉ ids := by
      intro hi
      obtain ⟨s', hs', hr', -⟩ := hfit i hi
      obtain rfl := Option.some.inj (hs.symm.trans hs')
      rw [hr] at hr'
      exact absurd hr' (by decide)
    have hit : i ≠ target := by
      rintro rfl
      obtain rfl := Option.some.inj (hs.symm.trans ht)
      rw [hr] at htr
      exact absurd htr (by decide)
    exact ⟨hk, by simp [Slot.moved, hg.id_eq hs, hi, hp],
      by simp [Slot.moved, hg.id_eq hs, hit, hc]⟩

/-- A namespace without children can be cut off. -/
theorem dropped (hs : g.get? space = some s) (hk : s.kind = .namespace) (hc : s.children = []) :
    (g.mapSlots (Slot.dropped space)).WellFormed := by
  have hflags : ∀ i t, g.get? i = some t → i ≠ space → (t.dropped space).flags = t.flags := by
    intro i t ht hi
    simp [Slot.dropped, Slot.without, hg.id_eq ht, hi]
  refine hg.mapSlots_of_forest hg.toIsForest.dropped (fun _ _ _ => ⟨rfl, fun _ => rfl⟩)
    (fun p c u v hu hv hp => ?_) (fun i u hu hr => ?_)
  · have hpar : (g.mapSlots (Slot.dropped space)).IsParent p c := isParent_mapSlots.2 ⟨v, hv, hp⟩
    obtain ⟨-, v', hv', hp'⟩ := hg.toIsForest.isParent_dropped.1 hpar
    obtain rfl := Option.some.inj (hv.symm.trans hv')
    obtain ⟨hkind, hcomplete⟩ := hg.kind_parent hu hv hp'
    refine ⟨hkind, fun hrec => ?_⟩
    have hpn : p ≠ space := by
      rintro rfl
      obtain rfl := Option.some.inj (hu.symm.trans hs)
      rw [hk] at hrec
      exact absurd hrec (by decide)
    rw [Declaration.isComplete, hflags p u hu hpn]
    exact hcomplete hrec
  · by_cases hi : i = space
    · subst hi
      obtain rfl := Option.some.inj (hu.symm.trans hs)
      exact ⟨hk, by simp [Slot.dropped, Slot.without, hg.id_eq hu],
        by simp [Slot.dropped, Slot.without, hc]⟩
    · rw [Declaration.isRemoved, hflags i u hu hi] at hr
      obtain ⟨hk', hp', hc'⟩ := hg.removed hu hr
      exact ⟨hk', by simp [Slot.dropped, Slot.without, hp'],
        by simp [Slot.dropped, Slot.without, hc']⟩

end WellFormed

/-! ### Hoisting -/

/-- The graph after the children of `space` became the last children of `unit`, and `space` was cut
off. -/
def hoisted (g : Graph) (space unit : DeclId) : Graph :=
  (g.mapSlots (Slot.moved (((g.get? space).map Slot.children).getD []) unit)).mapSlots
    (Slot.dropped space)

theorem hoisted_eq (hs : g.get? space = some s) : g.hoisted space unit =
    (g.mapSlots (Slot.moved s.children unit)).mapSlots (Slot.dropped space) := by
  rw [hoisted, hs, Option.map_some, Option.getD_some]

/-- The parent of a declaration after hoisting. -/
theorem IsForest.get?_hoisted (hg : g.IsForest) (unit : DeclId) (hs : g.get? space = some s)
    (hu : g.get? i = some t) :
    ∃ t', (g.hoisted space unit).get? i = some t' ∧
      t'.toDeclaration = { t with flags := if i = space then t.flags ∪ .removed else t.flags } ∧
      t'.parent = if i = space then none else if t.parent = some space then some unit
        else t.parent := by
  rw [hoisted_eq hs]
  refine ⟨_, get?_mapSlots_of_get? _ (get?_mapSlots_of_get? _ hu), ?_, ?_⟩
  · simp [Slot.dropped, Slot.without, Slot.moved, hg.id_eq hu]
  · simp only [Slot.dropped, Slot.without, Slot.moved, hg.id_eq hu, hg.mem_children hs,
      isParent_iff_of_get? hu]

/-- A namespace may be emptied onto any unit. -/
theorem IsRooted.hoisted (hg : g.IsRooted) (hs : g.get? space = some s) (ht : g.get? unit = some t)
    (htk : t.kind = .unit) : (g.hoisted space unit).IsRooted := by
  rw [hoisted_eq hs]
  exact (hg.moved_children hs ht htk).dropped space

theorem exists_get?_of_hoisted (ht : (g.hoisted space unit).get? i = some t) :
    ∃ u, g.get? i = some u := by
  obtain ⟨u, hu, -⟩ := get?_mapSlots_eq_some ht
  obtain ⟨v, hv, -⟩ := get?_mapSlots_eq_some hu
  exact ⟨v, hv⟩

namespace WellFormed

variable (hg : g.WellFormed)
include hg

/-- What the children of a namespace are, seen from a unit. -/
theorem fits_unit (hs : g.get? space = some s) (hk : s.kind = .namespace)
    (ht : g.get? unit = some t) (hu : unit ∈ g.units) : ∀ i ∈ s.children,
      ∃ c, g.get? i = some c ∧ c.isRemoved = false ∧ t.kind ∈ c.kind.parents ∧
        (t.kind = .record → t.isComplete) := by
  intro i hi
  obtain ⟨c, hc, hp⟩ := (hg.mem_children hs i).1 hi
  have hkp := (hg.kind_parent hs hc hp).1
  have htk := (hg.mem_units ht).1 hu
  refine ⟨c, hc, ?_, ?_, fun h => ?_⟩
  · cases hr : c.isRemoved with
    | false => rfl
    | true =>
      have := (hg.removed hc hr).2.1
      rw [hp] at this
      exact absurd this (Option.some_ne_none space)
  · rw [hk] at hkp
    rw [htk]
    revert hkp
    cases c.kind <;> simp [Kind.parents]
  · rw [htk] at h
    exact absurd h (by decide)

theorem moved_children (hs : g.get? space = some s) (hk : s.kind = .namespace)
    (hu : unit ∈ g.units) : (g.mapSlots (Slot.moved s.children unit)).WellFormed := by
  obtain ⟨t, ht, -, hp, hr⟩ := hg.exists_unit hu
  refine hg.moved ht hr (hg.nodup_children hs) (hg.fits_unit hs hk ht hu) fun i hi ha => ?_
  obtain rfl := ha.eq_of_parent_eq_none ht hp
  exact not_isParent_of_parent_eq_none ht hp ((hg.mem_children hs i).1 hi)

theorem hoisted (hs : g.get? space = some s) (hk : s.kind = .namespace) (hu : unit ∈ g.units) :
    (g.hoisted space unit).WellFormed := by
  rw [hoisted_eq hs]
  have hne : space ≠ unit := by
    rintro rfl
    rw [(hg.mem_units hs).1 hu] at hk
    exact absurd hk nofun
  refine (hg.moved_children hs hk hu).dropped (get?_mapSlots_of_get? _ hs) hk ?_
  simp [Slot.moved, hg.id_eq hs, hne]

end WellFormed

end Graph

end Bindery
