import Bindery.Proofs.Graph.Count
import Bindery.Proofs.Pipeline.Attach
import Bindery.Proofs.Pipeline.Trim

/-!
# What every change keeps

`Slot.Keeps`: what a declaration is, its first name and every flag it has stay, and units keep their
names. `Graph.Keeps` says so of all slots of a graph, of which there are as many as before; so a set
of slots grows by what comes into it.
-/

namespace Bindery

open Relation

structure Slot.Keeps (s t : Slot) : Prop where
  kind : t.kind = s.kind
  type : t.type = s.type
  parameters : t.parameters = s.parameters
  value : t.value = s.value
  firstName : t.firstName = s.firstName
  flags : t.flags.has s.flags
  renamed : s.flags.has .renamed = s.initialName.isSome →
    t.flags.has .renamed = t.initialName.isSome
  name_unit : s.kind = .unit → t.name = s.name

namespace Slot.Keeps

variable {s t u : Slot}

theorem refl (s : Slot) : s.Keeps s :=
  ⟨rfl, rfl, rfl, rfl, rfl, Flags.has_self _, fun h => h, fun _ => rfl⟩

theorem trans (h : s.Keeps t) (h' : t.Keeps u) : s.Keeps u where
  kind := h'.kind.trans h.kind
  type := h'.type.trans h.type
  parameters := h'.parameters.trans h.parameters
  value := h'.value.trans h.value
  firstName := h'.firstName.trans h.firstName
  flags := Flags.has_trans h'.flags h.flags
  renamed := fun hr => h'.renamed (h.renamed hr)
  name_unit := fun hk => (h'.name_unit (h.kind.trans hk)).trans (h.name_unit hk)

theorem flag (h : s.Keeps t) {f : Flags} (hf : s.flags.has f) : t.flags.has f :=
  Flags.has_trans h.flags hf

/-- More flags keep a declaration. -/
theorem of_flags {f : Flags} (hf : f.has .renamed = false)
    (h : t.toDeclaration = { s with flags := s.flags ∪ f }) : s.Keeps t := by
  refine ⟨?_, ?_, ?_, ?_, ?_, ?_, ?_, ?_⟩ <;> simp only [h]
  · rfl
  · exact Flags.has_union_left _ _
  · rw [Flags.isBit_renamed.has_union, hf, Bool.or_false]
    exact fun hr => hr
  · exact fun _ => trivial

theorem of_eq (h : t.toDeclaration = s.toDeclaration) : s.Keeps t := by
  refine ⟨?_, ?_, ?_, ?_, ?_, ?_, ?_, ?_⟩ <;> simp only [h]
  · exact Flags.has_self _
  · exact fun hr => hr
  · exact fun _ => trivial

/-- So does another name, if it is not for a unit. -/
theorem of_called {name : String} (hk : s.kind ≠ .unit)
    (h : t.toDeclaration = s.called name) : s.Keeps t := by
  refine ⟨?_, ?_, ?_, ?_, ?_, ?_, ?_, ?_⟩ <;> simp only [h]
  · rfl
  · rfl
  · rfl
  · rfl
  · rfl
  · exact Flags.has_union_left _ _
  · exact fun _ => Flags.has_union_right _ _
  · exact fun hu => absurd hu hk

theorem change (a : Action) {ids : List DeclId} (h : s.id ∈ ids → s.kind ≠ .unit) :
    s.Keeps (a.change ids s) := by
  have hmark : ∀ f : Flags, f.has .renamed = false → s.Keeps (s.marked f ids) := by
    intro f hf
    unfold Slot.marked
    split
    · exact of_flags hf rfl
    · exact refl s
  cases a with
  | hoist => exact refl s
  | rename name =>
    show s.Keeps (s.renamed name ids)
    unfold Slot.renamed
    split
    · next hm =>
      rw [Declaration.rename?_eq]
      split
      · exact refl s
      · exact of_called (h hm) rfl
    · exact refl s
  | ignore => exact hmark _ (by decide)
  | markValueType => exact hmark _ (by decide)
  | markBitmask => exact hmark _ (by decide)
  | markReadOnly => exact hmark _ (by decide)

theorem itemRenamed (h : s.ItemRenamed t) : s.Keeps t := by
  rcases h with rfl | ⟨hk, -, name, rfl⟩
  · exact refl _
  · exact of_called (fun hu => absurd (hk.symm.trans hu) nofun) rfl

end Slot.Keeps

namespace Graph

variable {g h k : Graph} {i u space unit : DeclId} {s : Slot} {f : Slot → Slot}

structure Keeps (g h : Graph) : Prop where
  size : h.size = g.size
  units : h.units = g.units
  slot : ∀ {i s}, g.get? i = some s → ∃ t, h.get? i = some t ∧ s.Keeps t

namespace Keeps

theorem refl (g : Graph) : g.Keeps g := ⟨rfl, rfl, fun {_ s} hs => ⟨s, hs, .refl s⟩⟩

theorem trans (hgh : g.Keeps h) (hhk : h.Keeps k) : g.Keeps k where
  size := hhk.size.trans hgh.size
  units := hhk.units.trans hgh.units
  slot := by
    intro i s hs
    obtain ⟨t, ht, hst⟩ := hgh.slot hs
    obtain ⟨u, hu, htu⟩ := hhk.slot ht
    exact ⟨u, hu, hst.trans htu⟩

theorem mapSlots (hf : ∀ i s, g.get? i = some s → s.Keeps (f s)) : g.Keeps (g.mapSlots f) where
  size := size_mapSlots g f
  units := rfl
  slot := fun {i s} hs => ⟨f s, get?_mapSlots_of_get? f hs, hf i s hs⟩

theorem itemsRenamed (h' : g.ItemsRenamed h) : g.Keeps h := by
  obtain ⟨f, hf, rfl⟩ := h'
  exact mapSlots fun _ s _ => .itemRenamed (hf s)

theorem hoisted (hg : g.WellFormed) (hs : g.get? space = some s) :
    g.Keeps (g.hoisted space unit) where
  size := by rw [hoisted_eq hs, size_mapSlots, size_mapSlots]
  units := by rw [hoisted_eq hs, units_mapSlots, units_mapSlots]
  slot := by
    intro i t ht
    obtain ⟨t', ht', hd, -⟩ := hg.get?_hoisted unit hs ht
    refine ⟨t', ht', ?_⟩
    split at hd
    · exact .of_flags (by decide) hd
    · exact .of_eq hd

/-- Units keep their names. -/
theorem name?_unit (hg : g.WellFormed) (h' : g.Keeps h) (hu : u ∈ g.units) :
    h.name? u = g.name? u := by
  obtain ⟨s, hs, hk, -⟩ := hg.exists_unit hu
  obtain ⟨t, ht, hst⟩ := h'.slot hs
  rw [name?_of_get? hs, name?_of_get? ht, hst.name_unit hk]

/-- No slot is new. -/
theorem exists_slot (h' : g.Keeps h) {t : Slot} (ht : h.get? i = some t) :
    ∃ s, g.get? i = some s ∧ s.Keeps t := by
  obtain ⟨s, hs⟩ := exists_get?_of_lt (h'.size ▸ lt_size_of_get? ht)
  obtain ⟨t', ht', hst⟩ := h'.slot hs
  obtain rfl := Option.some.inj (ht.symm.trans ht')
  exact ⟨s, hs, hst⟩

/-! ### Sets that grow -/

variable {p : Slot → Bool} {S : Finset DeclId}

theorem slotsWhere_eq_union (hk : g.Keeps h) (hS : ∀ i ∈ S, i < g.size)
    (hp : ∀ i s t, g.get? i = some s → h.get? i = some t → (p t ↔ p s ∨ i ∈ S)) :
    h.slotsWhere p = g.slotsWhere p ∪ S := by
  ext i
  rw [Finset.mem_union]
  by_cases hi : i < g.size
  · obtain ⟨s, hs⟩ := exists_get?_of_lt hi
    obtain ⟨t, ht, -⟩ := hk.slot hs
    rw [mem_slotsWhere_of_get? hs, mem_slotsWhere_of_get? ht, hp i s t hs ht]
  · have hno : ∀ {k : Graph}, k.size = g.size → i ∉ k.slotsWhere p := by
      intro k hsize hm
      obtain ⟨s, hs, -⟩ := mem_slotsWhere.1 hm
      exact hi (hsize ▸ lt_size_of_get? hs)
    exact iff_of_false (hno hk.size) fun hm => hm.elim (hno rfl) fun hm => hi (hS i hm)

/-- A set grows by what is new in it. -/
theorem card_slotsWhere (hk : g.Keeps h) (hS : ∀ i ∈ S, ∃ s, g.get? i = some s ∧ p s = false)
    (hp : ∀ i s t, g.get? i = some s → h.get? i = some t → (p t ↔ p s ∨ i ∈ S)) :
    (h.slotsWhere p).card = (g.slotsWhere p).card + S.card := by
  rw [hk.slotsWhere_eq_union (fun i hi => ?_) hp]
  · refine Finset.card_union_of_disjoint (Finset.disjoint_left.2 fun i hi hm => ?_)
    obtain ⟨s, hs, hno⟩ := hS i hm
    rw [mem_slotsWhere_of_get? hs, hno] at hi
    exact absurd hi Bool.false_ne_true
  · obtain ⟨s, hs, -⟩ := hS i hi
    exact lt_size_of_get? hs

/-- A set stays as it is if nothing comes into it. -/
theorem slotsWhere_eq (hk : g.Keeps h)
    (hp : ∀ i s t, g.get? i = some s → h.get? i = some t → p t = p s) :
    h.slotsWhere p = g.slotsWhere p := by
  rw [hk.slotsWhere_eq_union (S := ∅) (by simp) fun i s t hs ht => by simp [hp i s t hs ht],
    Finset.union_empty]

end Keeps

end Graph

end Bindery
