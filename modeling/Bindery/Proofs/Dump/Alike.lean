import Bindery.Proofs.Dump.Contents
import Bindery.Proofs.Graph.Copy

/-!
# Graphs that store the same

Two graphs of dumps that store the same units, and of which the second has pending what the first
one has and perhaps more, differ in numbers only: the second is a copy of the first. `Match` pairs
the declarations that stand at the same place, and every declaration of the first graph has one
partner.
-/

namespace Bindery.Graph

open Relation

variable {g h : Graph} {i j j' : DeclId} {s t : Slot} {us : List (Tree Declaration)}
  {ws ws' : List (String × Option String × Tree Declaration)}

/-- What is pending in both graphs goes to the same place and says the same. -/
theorem Stores.pending_eq (hgs : g.Stores us ws) (hhs : h.Stores us (ws ++ ws')) {k : Nat}
    {p q : Pending} (hp : g.pending[k]? = some p) (hq : h.pending[k]? = some q) :
    q.unit = p.unit ∧ q.owner = p.owner ∧ h.declared? q.decl = g.declared? p.decl := by
  have hk : k < (ws.map fun w => (w.1, w.2.1, some w.2.2)).length := by
    rw [← hgs.pending, List.length_map]
    exact (List.getElem?_eq_some_iff.1 hp).1
  have he : (h.pending.map fun p => (p.unit, p.owner, h.declared? p.decl))[k]? =
      (g.pending.map fun p => (p.unit, p.owner, g.declared? p.decl))[k]? := by
    rw [hgs.pending, hhs.pending, List.map_append, List.getElem?_append_left hk]
  rw [List.getElem?_map, List.getElem?_map, hp, hq] at he
  simpa only [Option.map_some, Option.some.injEq, Prod.mk.injEq] using he

/-- The declarations stand at the same place below units or pending declarations of the same rank.
-/
inductive Match (g h : Graph) : DeclId → DeclId → Prop
  | unit {k : Nat} {u v : DeclId} (hu : g.units[k]? = some u) (hv : h.units[k]? = some v) :
      Match g h u v
  | pending {k : Nat} {p q : Pending} {i j : DeclId} (hp : g.pending[k]? = some p)
      (hq : h.pending[k]? = some q) (hi : p.decl = i) (hj : q.decl = j) : Match g h i j
  | child {i j c d : DeclId} {s t : Slot} {k : Nat} (hij : Match g h i j) (hs : g.get? i = some s)
      (ht : h.get? j = some t) (hc : s.children[k]? = some c) (hd : t.children[k]? = some d) :
      Match g h c d

namespace Match

theorem symm (m : Match g h i j) : Match h g j i := by
  induction m with
  | unit hu hv => exact .unit hv hu
  | pending hp hq hi hj => exact .pending hq hp hj hi
  | child _ hs ht hc hd ih => exact .child ih ht hs hd hc

/-- A declaration stands at a unit, at something pending, or below another declaration. -/
theorem place (hg : g.IsLoaded) (m : Match g h i j) : ∃ s, g.get? i = some s ∧
    (i ∈ g.units ∧ s.kind = .unit ∧ s.parent = none ∨
      (∃ p ∈ g.pending, p.decl = i) ∧ s.kind ≠ .unit ∧ s.parent = none ∨
      ∃ p, s.parent = some p) := by
  cases m with
  | unit hu hv =>
    have hm := List.mem_of_getElem? hu
    obtain ⟨s, hs, hk, hp, -⟩ := hg.exists_unit hm
    exact ⟨s, hs, Or.inl ⟨hm, hk, hp⟩⟩
  | pending hp hq hi hj =>
    have hm := List.mem_of_getElem? hp
    obtain ⟨s, hs, hn, -⟩ := hg.awaits.isRoot hm
    exact ⟨s, hi ▸ hs, Or.inr (Or.inl ⟨⟨_, hm, hi⟩, hg.awaits.kind_ne_unit hm hs, hn⟩)⟩
  | child hij hs ht hc hd =>
    obtain ⟨c, hcs, hp⟩ := (hg.mem_children hs _).1 (List.mem_of_getElem? hc)
    exact ⟨c, hcs, Or.inr (Or.inr ⟨_, hp⟩)⟩

theorem lt_size (hg : g.IsLoaded) (m : Match g h i j) : i < g.size := by
  obtain ⟨s, hs, -⟩ := m.place hg
  exact lt_size_of_get? hs

theorem not_isParent_top (hg : g.IsLoaded) (hi : i ∈ g.units ∨ ∃ p ∈ g.pending, p.decl = i)
    (c : DeclId) : ¬ g.IsParent c i := by
  intro hc
  rcases hi with hi | ⟨q, hq, rfl⟩
  · obtain ⟨s, hs, -, hn, -⟩ := hg.exists_unit hi
    exact not_isParent_of_parent_eq_none hs hn hc
  · obtain ⟨s, hs, hn, -⟩ := hg.awaits.isRoot hq
    exact not_isParent_of_parent_eq_none hs hn hc

theorem decl_ne_unit (hg : g.IsLoaded) (hi : i ∈ g.units) {p : Pending} (hp : p ∈ g.pending) :
    p.decl ≠ i := by
  rintro rfl
  obtain ⟨s, hs, hk, -⟩ := hg.exists_unit hi
  exact hg.awaits.kind_ne_unit hp hs hk

/-- A declaration has at most one partner. -/
theorem unique (hg : g.IsLoaded) (m : Match g h i j) : Match g h i j' → j = j' := by
  have hchild : ∀ {p s c} {k : Nat}, g.get? p = some s → s.children[k]? = some c →
      g.IsParent p c := fun hs hc => (hg.mem_children hs _).1 (List.mem_of_getElem? hc)
  induction m generalizing j' with
  | unit hu hv =>
    have hm := List.mem_of_getElem? hu
    rintro (⟨hu', hv'⟩ | ⟨hp, -, hi, -⟩ | ⟨-, hs, -, hc, -⟩)
    · obtain rfl := (List.getElem?_inj (List.getElem?_eq_some_iff.1 hu).1 hg.nodup_units).1
        (hu.trans hu'.symm)
      exact Option.some.inj (hv.symm.trans hv')
    · exact absurd hi (decl_ne_unit hg hm (List.mem_of_getElem? hp))
    · exact absurd (hchild hs hc) (not_isParent_top hg (Or.inl hm) _)
  | @pending k p q i j hp hq hi hj =>
    have hm := List.mem_of_getElem? hp
    rintro (⟨hu, -⟩ | @⟨k', p', q', _, _, hp', hq', hi', hj'⟩ | ⟨-, hs, -, hc, -⟩)
    · exact absurd hi (decl_ne_unit hg (List.mem_of_getElem? hu) hm)
    · have hk : (g.pending.map Pending.decl)[k]? = (g.pending.map Pending.decl)[k']? := by
        rw [List.getElem?_map, List.getElem?_map, hp, hp', Option.map_some, Option.map_some, hi,
          hi']
      have hlt : k < (g.pending.map Pending.decl).length := by
        rw [List.length_map]
        exact (List.getElem?_eq_some_iff.1 hp).1
      obtain rfl := (List.getElem?_inj hlt hg.awaits.nodup).1 hk
      obtain rfl := Option.some.inj (hq.symm.trans hq')
      exact hj.symm.trans hj'
    · exact absurd (hchild hs hc) (not_isParent_top hg (Or.inr ⟨p, hm, hi⟩) _)
  | @child i j c d s t k hij hs ht hc hd ih =>
    have hparent := hchild hs hc
    rintro (⟨hu, -⟩ | ⟨hp, -, hi, -⟩ | @⟨i', j', _, _, s', t', k', hij', hs', ht', hc', hd'⟩)
    · exact absurd hparent (not_isParent_top hg (Or.inl (List.mem_of_getElem? hu)) _)
    · exact absurd hparent (not_isParent_top hg (Or.inr ⟨_, List.mem_of_getElem? hp, hi⟩) _)
    · obtain rfl := hparent.unique (hchild hs' hc')
      obtain rfl := Option.some.inj (hs.symm.trans hs')
      obtain rfl := ih hij'
      obtain rfl := Option.some.inj (ht.symm.trans ht')
      obtain rfl := (List.getElem?_inj (List.getElem?_eq_some_iff.1 hc).1
        (hg.nodup_children hs)).1 (hc.trans hc'.symm)
      exact Option.some.inj (hd.symm.trans hd')

variable (hg : g.IsLoaded) (hh : h.IsLoaded) (hgs : g.Stores us ws) (hhs : h.Stores us (ws ++ ws'))
include hg hh hgs hhs

/-- Partners have the same tree below them. -/
theorem declaredAt_eq (m : Match g h i j) : h.declaredAt j = g.declaredAt i := by
  have hlt := m.lt_size hg
  have hlt' := m.symm.lt_size hh
  induction m with
  | @unit k u v hu hv =>
    have he : (g.units.map g.declared?)[k]? = (h.units.map h.declared?)[k]? := by
      rw [hgs.units, hhs.units]
    rw [List.getElem?_map, List.getElem?_map, hu, hv, Option.map_some, Option.map_some,
      hg.declared?_eq hlt, hh.declared?_eq hlt'] at he
    exact (Option.some.inj (Option.some.inj he)).symm
  | @pending k p q i j hp hq hi hj =>
    obtain ⟨-, -, he⟩ := hgs.pending_eq hhs hp hq
    rw [hi, hj, hg.declared?_eq hlt, hh.declared?_eq hlt'] at he
    exact Option.some.inj he
  | @child i j c d s t k hij hs ht hc hd ih =>
    have he := ih (lt_size_of_get? hs) (lt_size_of_get? ht)
    rw [hg.declaredAt_eq hs, hh.declaredAt_eq ht] at he
    have hchildren := congrArg (·[k]?) (Tree.node.inj he).2
    simp only [List.getElem?_map, hc, hd, Option.map_some, Option.some.injEq] at hchildren
    exact hchildren

/-- Partners say the same, and have the same number of children. -/
theorem slots_eq (m : Match g h i j) (hs : g.get? i = some s) (ht : h.get? j = some t) :
    t.toDeclaration = s.toDeclaration ∧ t.children.length = s.children.length := by
  have he := m.declaredAt_eq hg hh hgs hhs
  rw [hg.declaredAt_eq hs, hh.declaredAt_eq ht] at he
  obtain ⟨hd, hc⟩ := Tree.node.inj he
  have hlen := congrArg List.length hc
  rw [List.length_map, List.length_map] at hlen
  exact ⟨hd, hlen⟩

omit hhs in
/-- Children of partners are partners. -/
theorem exists_child (hhs : h.Stores us (ws ++ ws')) (m : Match g h i j) {k : Nat} {c : DeclId}
    (hs : g.get? i = some s) (ht : h.get? j = some t) (hc : s.children[k]? = some c) :
    ∃ d, t.children[k]? = some d ∧ Match g h c d := by
  obtain ⟨hk, -⟩ := List.getElem?_eq_some_iff.1 hc
  obtain ⟨-, hlen⟩ := m.slots_eq hg hh hgs hhs hs ht
  have hd : t.children[k]? = some (t.children.get ⟨k, hlen ▸ hk⟩) := List.getElem?_eq_getElem _
  exact ⟨_, hd, .child m hs ht hc hd⟩

end Match

/-- Every declaration has a partner. -/
theorem IsLoaded.exists_match (hg : g.IsLoaded) (hh : h.IsLoaded) (hgs : g.Stores us ws)
    (hhs : h.Stores us (ws ++ ws')) (hi : i < g.size) : ∃ j, Match g h i j := by
  have hulen : h.units.length = g.units.length := by
    rw [hhs.length_units, hgs.length_units]
  have hplen : g.pending.length ≤ h.pending.length := by
    rw [hhs.length_pending, hgs.length_pending, List.length_append]
    omega
  obtain ⟨r, t, ha, ht, hn⟩ := hg.exists_root hi
  induction ha with
  | refl =>
    rcases hg.awaits.rooted ht hn with hk | hr | ⟨p, hp, hpr⟩
    · obtain ⟨k, hk, hu⟩ := List.getElem_of_mem ((hg.mem_units ht).2 hk)
      exact ⟨_, .unit (List.getElem?_eq_some_iff.2 ⟨hk, hu⟩)
        (List.getElem?_eq_getElem (hulen ▸ hk))⟩
    · rw [(hg.fresh ht).isRemoved] at hr
      exact absurd hr nofun
    · obtain ⟨k, hk, hp⟩ := List.getElem_of_mem hp
      exact ⟨_, .pending (List.getElem?_eq_some_iff.2 ⟨hk, hp⟩)
        (List.getElem?_eq_getElem (hk.trans_le hplen)) hpr rfl⟩
  | @tail b c _ hp ih =>
    obtain ⟨j, m⟩ := ih (hg.parent_lt hp)
    obtain ⟨s, hs⟩ := exists_get?_of_lt (hg.parent_lt hp)
    obtain ⟨t, ht⟩ := exists_get?_of_lt (m.symm.lt_size hh)
    obtain ⟨k, hk, hc⟩ := List.getElem_of_mem ((hg.mem_children hs c).2 hp)
    obtain ⟨d, -, hd⟩ := m.exists_child hg hh hgs hhs hs ht (List.getElem?_eq_some_iff.2 ⟨hk, hc⟩)
    exact ⟨d, hd⟩

open Classical in
/-- The number of the partner; past the first graph, a number past the second one. -/
noncomputable def partner (g h : Graph) (i : DeclId) : DeclId :=
  if m : ∃ j, Match g h i j then m.choose else h.size + i

theorem Match.partner_eq (hg : g.IsLoaded) (m : Match g h i j) : g.partner h i = j := by
  have hm : ∃ j, Match g h i j := ⟨j, m⟩
  rw [partner, dif_pos hm]
  exact hm.choose_spec.unique hg m

theorem injective_partner (hg : g.IsLoaded) (hh : h.IsLoaded) :
    Function.Injective (g.partner h) := by
  intro i j hij
  by_cases hi : ∃ k, Match g h i k
  · obtain ⟨k, mi⟩ := hi
    rw [mi.partner_eq hg] at hij
    by_cases hj : ∃ l, Match g h j l
    · obtain ⟨l, mj⟩ := hj
      rw [mj.partner_eq hg] at hij
      subst hij
      exact mi.symm.unique hh mj.symm
    · rw [partner, dif_neg hj] at hij
      exact absurd hij (Nat.ne_of_lt ((mi.symm.lt_size hh).trans_le (Nat.le_add_right _ _)))
  · rw [partner, dif_neg hi] at hij
    by_cases hj : ∃ l, Match g h j l
    · obtain ⟨l, mj⟩ := hj
      rw [mj.partner_eq hg] at hij
      exact absurd hij.symm (Nat.ne_of_lt ((mj.symm.lt_size hh).trans_le (Nat.le_add_right _ _)))
    · rw [partner, dif_neg hj] at hij
      exact Nat.add_left_cancel hij

/-- The partner of a slot is the slot under its partner's number. -/
theorem Match.get?_eq (hg : g.IsLoaded) (hh : h.IsLoaded) (hgs : g.Stores us ws)
    (hhs : h.Stores us (ws ++ ws')) (m : Match g h i j) (hs : g.get? i = some s) :
    h.get? j = some (s.renumbered (g.partner h)) := by
  obtain ⟨t, ht⟩ := exists_get?_of_lt (m.symm.lt_size hh)
  obtain ⟨hdecl, hlen⟩ := m.slots_eq hg hh hgs hhs hs ht
  have hid : t.id = g.partner h s.id := by
    rw [hh.id_eq ht, hg.id_eq hs, m.partner_eq hg]
  have hchildren : t.children = s.children.map (g.partner h) := by
    refine List.ext_getElem? fun k => ?_
    rw [List.getElem?_map]
    cases hc : s.children[k]? with
    | none =>
      rw [List.getElem?_eq_none_iff] at hc
      rw [List.getElem?_eq_none (hlen ▸ hc), Option.map_none]
    | some c =>
      obtain ⟨d, hd, mc⟩ := m.exists_child hg hh hgs hhs hs ht hc
      rw [hd, Option.map_some, mc.partner_eq hg]
  have hparent : t.parent = s.parent.map (g.partner h) := by
    cases m with
    | unit hu hv =>
      obtain ⟨s', hs', -, hn, -⟩ := hg.exists_unit (List.mem_of_getElem? hu)
      obtain ⟨t', ht', -, hn', -⟩ := hh.exists_unit (List.mem_of_getElem? hv)
      rw [Option.some.inj (hs.symm.trans hs'), Option.some.inj (ht.symm.trans ht'), hn, hn',
        Option.map_none]
    | pending hp hq hi hj =>
      obtain ⟨s', hs', hn, -⟩ := hg.awaits.isRoot (List.mem_of_getElem? hp)
      obtain ⟨t', ht', hn', -⟩ := hh.awaits.isRoot (List.mem_of_getElem? hq)
      rw [hi] at hs'
      rw [hj] at ht'
      rw [Option.some.inj (hs.symm.trans hs'), Option.some.inj (ht.symm.trans ht'), hn, hn',
        Option.map_none]
    | child hij hs' ht' hc hd =>
      have hp := (hg.mem_children hs' _).1 (List.mem_of_getElem? hc)
      have hp' := (hh.mem_children ht' _).1 (List.mem_of_getElem? hd)
      rw [(isParent_iff_of_get? hs).1 hp, (isParent_iff_of_get? ht).1 hp', Option.map_some,
        hij.partner_eq hg]
  rw [ht]
  obtain ⟨d, id, parent, children⟩ := t
  simp only at hdecl hid hchildren hparent
  rw [hdecl, hid, hchildren, hparent]
  rfl

/-- What is pending in the first graph is pending in the second one, in the same order. -/
theorem IsLoaded.take_pending (hg : g.IsLoaded) (hgs : g.Stores us ws)
    (hhs : h.Stores us (ws ++ ws')) :
    h.pending.take g.pending.length = g.pending.map (Pending.renumbered (g.partner h)) := by
  refine List.ext_getElem? fun k => ?_
  rw [List.getElem?_map, List.getElem?_take]
  cases hp : g.pending[k]? with
  | none =>
    rw [List.getElem?_eq_none_iff] at hp
    rw [if_neg (not_lt_of_ge hp), Option.map_none]
  | some p =>
    have hk := (List.getElem?_eq_some_iff.1 hp).1
    have hlen : g.pending.length ≤ h.pending.length := by
      rw [hhs.length_pending, hgs.length_pending, List.length_append]
      omega
    have hq := List.getElem?_eq_getElem (hk.trans_le hlen)
    have hdecl := (Match.pending hp hq rfl rfl).partner_eq hg
    obtain ⟨hunit, howner, -⟩ := hgs.pending_eq hhs hp hq
    rw [if_pos hk, hq, Option.map_some, Option.some.injEq, Pending.renumbered, hdecl, ← hunit,
      ← howner]

/-- A graph of a dump that stores the same, and perhaps more that is pending, is a copy. -/
theorem IsLoaded.copy (hg : g.IsLoaded) (hh : h.IsLoaded) (hgs : g.Stores us ws)
    (hhs : h.Stores us (ws ++ ws')) :
    Copy (g.partner h) (h.pending.drop g.pending.length) g h := by
  refine .of_get? (injective_partner hg hh) (fun {i s} hs => ?_) ?_ ?_ ?_
  · obtain ⟨j, m⟩ := hg.exists_match hh hgs hhs (lt_size_of_get? hs)
    rw [m.partner_eq hg]
    exact m.get?_eq hg hh hgs hhs hs
  · refine List.ext_getElem? fun k => ?_
    rw [List.getElem?_map]
    cases hu : g.units[k]? with
    | none =>
      rw [List.getElem?_eq_none_iff, hgs.length_units, ← hhs.length_units] at hu
      rw [List.getElem?_eq_none hu, Option.map_none]
    | some u =>
      have hk := (List.getElem?_eq_some_iff.1 hu).1
      rw [hgs.length_units, ← hhs.length_units] at hk
      have hv := List.getElem?_eq_getElem hk
      rw [Option.map_some, (Match.unit hu hv).partner_eq hg, hv]
  · rw [hgs.size, hhs.size, List.map_append, List.sum_append]
    omega
  · rw [← hg.take_pending hgs hhs, List.take_append_drop]

end Bindery.Graph
