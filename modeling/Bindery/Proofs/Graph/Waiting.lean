import Bindery.Proofs.Graph.Preservation

/-!
# Waiting declarations

`Graph.Awaits g ws`: the declarations of `ws` are different roots, of kinds that may stand where
they are to go; the other roots are units and what was removed. Moving the first one of `ws` away
leaves the others waiting, and so do marks, new names and hoisting.
-/

namespace Bindery

open Relation

/-- The kind of declaration below which a pending one goes. -/
def Pending.goal (p : Pending) : Kind := if p.owner.isSome then .record else .unit

namespace Graph

variable {g : Graph} {i u space target unit : DeclId} {s t : Slot} {f : Slot → Slot} {p : Pending}
  {ws : List Pending}

structure Awaits (g : Graph) (ws : List Pending) : Prop where
  nodup : (ws.map Pending.decl).Nodup
  isRoot : ∀ {p}, p ∈ ws → ∃ s, g.get? p.decl = some s ∧ s.parent = none ∧
    s.isRemoved = false ∧ p.goal ∈ s.kind.parents
  rooted : ∀ {i s}, g.get? i = some s → s.parent = none →
    s.kind = .unit ∨ s.isRemoved ∨ ∃ p ∈ ws, p.decl = i

theorem Awaits.kind_ne_unit (h : g.Awaits ws) (hp : p ∈ ws) (hs : g.get? p.decl = some s) :
    s.kind ≠ .unit := by
  obtain ⟨s', hs', -, -, hk⟩ := h.isRoot hp
  obtain rfl := Option.some.inj (hs.symm.trans hs')
  intro hu
  rw [hu] at hk
  exact absurd hk List.not_mem_nil

/-- What waits does not depend on the list that says so. -/
theorem Awaits.withPending (h : g.Awaits ws) (ps : List Pending) :
    Awaits { g with pending := ps } ws :=
  ⟨h.nodup, h.isRoot, h.rooted⟩

/-- What waits is not live. -/
theorem Awaits.not_live (hg : g.WellFormed) (h : g.Awaits ws) (hp : p ∈ ws) :
    ¬ g.IsLive p.decl := by
  rintro ⟨u, hu, ha⟩
  obtain ⟨s, hs, hn, -⟩ := h.isRoot hp
  obtain rfl := ha.eq_of_parent_eq_none hs hn
  exact h.kind_ne_unit hp hs ((hg.mem_units hs).1 hu)

/-- What waits is not above anything live. -/
theorem Awaits.not_isAbove_live (hg : g.WellFormed) (h : g.Awaits ws) (hp : p ∈ ws)
    (hi : g.IsLive i) : ¬ g.IsAbove p.decl i := by
  rintro ha
  obtain ⟨u, hu, hui⟩ := hi
  obtain ⟨s, hs, hn, -⟩ := h.isRoot hp
  rcases ha.total hui with h' | h'
  · exact h.not_live hg hp (hg.isRooted.eq_of_isAbove_mem_units hu h' ▸ ⟨u, hu, .refl⟩)
  · exact h.not_live hg hp ⟨u, hu, h'⟩

/-- Everything is live but what was removed and what waits with what is below it. -/
theorem Awaits.live_iff (hg : g.WellFormed) (h : g.Awaits ws) (hs : g.get? i = some s) :
    g.IsLive i ↔ s.isRemoved = false ∧ ∀ p ∈ ws, ¬ g.IsAbove p.decl i := by
  constructor
  · refine fun hl => ⟨?_, fun p hp => h.not_isAbove_live hg hp hl⟩
    obtain ⟨u, hu, ha⟩ := hl
    by_contra hr
    rw [Bool.not_eq_false] at hr
    obtain rfl := ha.eq_of_parent_eq_none hs (hg.removed hs hr).2.1
    obtain ⟨t, ht, -, -, htr⟩ := hg.exists_unit hu
    obtain rfl := Option.some.inj (hs.symm.trans ht)
    exact absurd (hr.symm.trans htr) nofun
  · rintro ⟨hr, hno⟩
    obtain ⟨r, t, ha, ht, hn⟩ := hg.exists_root (lt_size_of_get? hs)
    rcases h.rooted ht hn with hk | htr | ⟨p, hp, rfl⟩
    · exact ⟨r, (hg.mem_units ht).2 hk, ha⟩
    · -- what was removed has no children
      rcases ReflTransGen.cases_head ha with rfl | ⟨c, hc, -⟩
      · obtain rfl := Option.some.inj (hs.symm.trans ht)
        exact absurd (htr.symm.trans hr) nofun
      · have hm := (hg.mem_children ht c).2 hc
        rw [(hg.removed ht htr).2.2] at hm
        exact absurd hm List.not_mem_nil
    · exact absurd ha (hno p hp)

/-! ### Origins -/

/-- What waits was made by the toolchain with all that is below it; units were not, with all that is
below them. -/
structure IsSplit (g : Graph) (ws : List Pending) : Prop where
  edge : ∀ {p c s t}, g.get? p = some s → g.get? c = some t → t.parent = some p →
    t.flags.has .synthesized = s.flags.has .synthesized
  unit : ∀ {u s}, u ∈ g.units → g.get? u = some s → s.flags.has .synthesized = false
  waiting : ∀ {p s}, p ∈ ws → g.get? p.decl = some s → s.flags.has .synthesized

theorem IsSplit.eq_of_isAbove (hg : g.IsForest) (h : g.IsSplit ws) (ha : g.IsAbove u i)
    (hu : g.get? u = some t) : ∀ {s}, g.get? i = some s →
      s.flags.has .synthesized = t.flags.has .synthesized := by
  induction ha with
  | refl =>
    intro s hs
    rw [Option.some.inj (hs.symm.trans hu)]
  | tail _ hp ih =>
    intro s hs
    obtain ⟨v, hv⟩ := exists_get?_of_lt (hg.parent_lt hp)
    rw [h.edge hv hs ((isParent_iff_of_get? hs).1 hp), ih hv]

theorem IsSplit.live_iff (hg : g.WellFormed) (h : g.IsSplit ws) (hw : g.Awaits ws)
    (hs : g.get? i = some s) :
    g.IsLive i ↔ s.isRemoved = false ∧ s.flags.has .synthesized = false := by
  constructor
  · refine fun hl => ⟨((hw.live_iff hg hs).1 hl).1, ?_⟩
    obtain ⟨u, hu, ha⟩ := hl
    obtain ⟨t, ht, -⟩ := hg.exists_unit hu
    rw [h.eq_of_isAbove hg.toIsForest ha ht hs, h.unit hu ht]
  · rintro ⟨hr, hn⟩
    refine (hw.live_iff hg hs).2 ⟨hr, fun p hp ha => ?_⟩
    obtain ⟨t, ht, -⟩ := hw.isRoot hp
    rw [h.eq_of_isAbove hg.toIsForest ha ht hs, h.waiting hp ht] at hn
    exact absurd hn nofun

/-! ### Changes -/

theorem Awaits.mapSlots_of_keepsPlace (h : g.Awaits ws) (hp : Slot.KeepsPlace f)
    (hf : ∀ i s, g.get? i = some s → s.KeepsNature (f s)) : (g.mapSlots f).Awaits ws where
  nodup := h.nodup
  isRoot := by
    intro p hm
    obtain ⟨s, hs, hn, hr, hk⟩ := h.isRoot hm
    obtain ⟨h1, -, h3, -⟩ := hf _ s hs
    exact ⟨f s, get?_mapSlots_of_get? f hs, (hp s).2.1.trans hn, h3.trans hr, h1 ▸ hk⟩
  rooted := by
    intro i t ht hn
    obtain ⟨s, hs, rfl⟩ := get?_mapSlots_eq_some ht
    obtain ⟨h1, -, h3, -⟩ := hf i s hs
    rw [h1, h3]
    exact h.rooted hs ((hp s).2.1.symm.trans hn)

/-- The first one that waits can be moved away. -/
theorem Awaits.moved (hg : g.WellFormed) (h : g.Awaits (p :: ws)) :
    (g.mapSlots (Slot.moved [p.decl] target)).Awaits ws where
  nodup := (List.nodup_cons.1 h.nodup).2
  isRoot := by
    intro q hq
    obtain ⟨s, hs, hn, hr, hk⟩ := h.isRoot (List.mem_cons_of_mem p hq)
    refine ⟨s.moved [p.decl] target, get?_mapSlots_of_get? _ hs, ?_, hr, hk⟩
    have hne : q.decl ≠ p.decl := fun he =>
      (List.nodup_cons.1 h.nodup).1 (he ▸ List.mem_map_of_mem hq)
    simp [Slot.moved, hg.id_eq hs, hne, hn]
  rooted := by
    intro i t ht hn
    obtain ⟨s, hs, rfl⟩ := get?_mapSlots_eq_some ht
    have hi : i ≠ p.decl := by
      rintro rfl
      simp [Slot.moved, hg.id_eq hs] at hn
    have hsn : s.parent = none := by
      simpa [Slot.moved, hg.id_eq hs, hi] using hn
    rcases h.rooted hs hsn with h' | h' | ⟨q, hq, rfl⟩
    · exact Or.inl h'
    · exact Or.inr (Or.inl h')
    · rcases List.mem_cons.1 hq with rfl | hq
      · exact absurd rfl hi
      · exact Or.inr (Or.inr ⟨q, hq, rfl⟩)

/-- Hoisting makes nothing wait, and moves nothing that waits. -/
theorem Awaits.hoisted (hg : g.WellFormed) (h : g.Awaits ws) (hs : g.get? space = some s)
    (hp : s.parent ≠ none) : (g.hoisted space unit).Awaits ws where
  nodup := h.nodup
  isRoot := by
    intro p hm
    obtain ⟨t, ht, hn, hr, hk⟩ := h.isRoot hm
    obtain ⟨t', ht', hd, hp'⟩ := hg.get?_hoisted unit hs ht
    have hne : p.decl ≠ space := by
      intro he
      rw [he, hs] at ht
      exact hp (Option.some.inj ht ▸ hn)
    rw [if_neg hne] at hd
    refine ⟨t', ht', ?_, ?_, ?_⟩
    · rw [hp', if_neg hne, hn, if_neg nofun]
    · rw [hd]
      exact hr
    · rw [hd]
      exact hk
  rooted := by
    intro i t ht hn
    obtain ⟨u, hu⟩ := exists_get?_of_hoisted ht
    obtain ⟨t', ht', hd, hp'⟩ := hg.get?_hoisted unit hs hu
    obtain rfl := Option.some.inj (ht.symm.trans ht')
    by_cases hi : i = space
    · rw [if_pos hi] at hd
      refine Or.inr (Or.inl ?_)
      rw [hd]
      exact Flags.has_union_right _ _
    · rw [if_neg hi] at hd hp'
      by_cases hc : u.parent = some space
      · rw [if_pos hc, hn] at hp'
        exact absurd hp' nofun
      · rw [if_neg hc] at hp'
        rw [hd]
        exact h.rooted hu (hp'.symm.trans hn)

end Graph

end Bindery
