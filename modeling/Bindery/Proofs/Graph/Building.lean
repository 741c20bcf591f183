import Bindery.Proofs.Graph.Plant

/-!
# Building graphs

`Graph.Built`: what comes from the empty graph by new declarations, moves and removals, each of them
asked for where it may be. No such step is refused, and all that is built is a forest below units. A
new child is a new root that is moved below its parent, so that only roots come in, and everything
else is moving and cutting off.
-/

namespace Bindery

open Relation

/-- A step in the building of a graph. -/
inductive Operation where
  | addUnit (file : String)
  | addDetached (kind : Kind) (name : String)
  | addChild (parent : DeclId) (kind : Kind) (name : String)
  | reparent (id target : DeclId)
  | remove (id : DeclId)

namespace Operation

def perform? : Operation → Graph → Option Graph
  | .addUnit file, g => some (g.addUnit file).1
  | .addDetached kind name, g => some (g.addDetached kind name).1
  | .addChild parent kind name, g => (g.addChild? parent kind name).map Prod.fst
  | .reparent id target, g => g.reparent? id target
  | .remove id, g => g.remove? id

/-- Units come in as units only and are never moved, and nothing is moved to itself or to what is
below it. -/
def Fits : Operation → Graph → Prop
  | .addUnit _, _ => True
  | .addDetached kind _, _ => kind ≠ .unit
  | .addChild parent kind _, g => parent < g.size ∧ kind ≠ .unit
  | .reparent id target, g =>
    (∃ s, g.get? id = some s ∧ s.kind ≠ .unit) ∧ target < g.size ∧ ¬ g.IsAbove id target
  | .remove id, g => id < g.size

end Operation

namespace Graph

/-- The graphs that are built from the empty one. -/
inductive Built : Graph → Prop
  | empty : Built {}
  | step {g h : Graph} (hg : Built g) (op : Operation) (hfits : op.Fits g)
      (hperform : op.perform? g = some h) : Built h

variable {g h : Graph} {i p u x y id target : DeclId} {s t : Slot} {d : Declaration}

/-! ### New declarations -/

/-- A new root is planted as a tree without children. -/
theorem push_eq_plant (g : Graph) (d : Declaration) : g.push d none = g.plant (.node d []) := by
  simp [push, plant, Tree.slots, Tree.slotsList, Tree.rootIds]

theorem get?_push_of_get? (d : Declaration) (hs : g.get? i = some s) :
    (g.push d none).get? i = some s := by
  rw [get?_push, if_neg (lt_size_of_get? hs).ne, hs]

/-- A new child is a new root that is moved below its parent. -/
theorem IsForest.addChild?_eq (hg : g.IsForest) (hp : p < g.size) (kind : Kind) (name : String) :
    g.addChild? p kind name = some
      ((g.push { kind := kind, name := name } none).mapSlots (Slot.moved [g.size] p), g.size) := by
  set d : Declaration := { kind := kind, name := name }
  have hnum : (g.push d (some p)).IsNumbered := by
    intro j s hs
    rw [get?_push] at hs
    split at hs
    · next hj => exact hj ▸ (Option.some.inj hs) ▸ rfl
    · exact hg.id_eq hs
  have hold : g.mapSlots (fun s => if s.id = p then { s with children := s.children ++ [g.size] }
      else s) = g.mapSlots (Slot.moved [g.size] p) := by
    refine mapSlots_congr fun j s hs => ?_
    have hj : s.id ≠ g.size := by
      rw [hg.id_eq hs]
      exact (lt_size_of_get? hs).ne
    have hc : s.children.filter (· ∉ [g.size]) = s.children := by
      rw [List.filter_eq_self]
      intro c hc
      have := ((hg.mem_children hs c).1 hc).lt_size
      simpa using this.ne
    by_cases hsp : s.id = p
    · rw [if_pos hsp, Slot.moved, hc, if_neg (by simpa using hj), if_pos hsp]
    · rw [if_neg hsp, Slot.moved, hc, if_neg (by simpa using hj), if_neg hsp, List.append_nil]
  have hne : g.size ≠ p := hp.ne'
  have hlt : p < (g.push d (some p)).size := by
    rw [size_push]
    exact Nat.lt_succ_of_lt hp
  rw [addChild?, hnum.modify?_eq hlt]
  refine congrArg (fun k => some (k, g.size)) ?_
  rw [mapSlots, mapSlots, push, push]
  simp only [Array.map_push]
  rw [show g.slots.map _ = (g.mapSlots _).slots from rfl, hold]
  simp [mapSlots, Slot.moved, hne]

namespace IsRooted

variable (hg : g.IsRooted)
include hg

theorem push (hr : d.isRemoved = false) : (g.push d none).IsRooted where
  toIsForest := by
    rw [push_eq_plant]
    exact hg.toIsForest.plant ⟨trivial, by simpa [Tree.preorder, Tree.preorderList] using hr⟩
  parent_unit := by
    intro i s hs hk
    rw [get?_push] at hs
    split at hs
    · exact Option.some.inj hs ▸ rfl
    · exact hg.parent_unit hs hk
  kind_unit := by
    intro u hu
    obtain ⟨s, hs, hk⟩ := hg.kind_unit hu
    exact ⟨s, get?_push_of_get? d hs, hk⟩
  nodup_units := hg.nodup_units

/-- A root of the kind can become the last of the units, if it is none yet. -/
theorem withUnit (hs : g.get? u = some s) (hk : s.kind = .unit) (hu : u ∉ g.units) :
    { g with units := g.units ++ [u] }.IsRooted where
  id_eq := hg.id_eq
  mem_children := hg.mem_children
  nodup_children := hg.nodup_children
  parent_lt := hg.parent_lt
  acyclic := hg.acyclic
  parent_unit := hg.parent_unit
  kind_unit := by
    intro v hv
    rcases List.mem_append.1 hv with hv | hv
    · exact hg.kind_unit hv
    · obtain rfl := List.mem_singleton.1 hv
      exact ⟨s, hs, hk⟩
  nodup_units := by
    rw [← List.concat_eq_append]
    exact hg.nodup_units.concat hu

/-- Units can leave the list of units. -/
theorem withUnits {us : List DeclId} (hus : us.Sublist g.units) :
    { g with units := us }.IsRooted where
  id_eq := hg.id_eq
  mem_children := hg.mem_children
  nodup_children := hg.nodup_children
  parent_lt := hg.parent_lt
  acyclic := hg.acyclic
  parent_unit := hg.parent_unit
  kind_unit hu := hg.kind_unit (hus.subset hu)
  nodup_units := hg.nodup_units.sublist hus

/-- Anything but a unit can be moved to what is not below it. -/
theorem moved (hs : g.get? id = some s) (hk : s.kind ≠ .unit) (ht : target < g.size)
    (hna : ¬ g.IsAbove id target) : (g.mapSlots (Slot.moved [id] target)).IsRooted := by
  refine hg.mapSlots_of_forest (hg.toIsForest.moved (List.nodup_singleton id)
    (List.forall_mem_singleton.2 (lt_size_of_get? hs)) ht (List.forall_mem_singleton.2 hna))
    fun i t hi => ⟨rfl, fun htk htp => ?_⟩
  have hne : t.id ∉ [id] := by
    rw [hg.id_eq hi, List.mem_singleton]
    rintro rfl
    exact hk (Option.some.inj (hs.symm.trans hi) ▸ htk)
  rw [Slot.moved, if_neg hne]
  exact htp

end IsRooted

/-! ### Steps -/

theorem isRooted_empty : IsRooted {} where
  id_eq := nofun
  mem_children := nofun
  nodup_children := nofun
  parent_lt := by
    rintro p c ⟨s, hs, -⟩
    exact absurd hs nofun
  acyclic := acyclic_of_rank (fun i => i) fun p i ⟨s, hs, _⟩ => absurd hs nofun
  parent_unit := nofun
  kind_unit := nofun
  nodup_units := List.nodup_nil

/-- A step that may be asked for is not refused, and leaves a forest below units. -/
theorem IsRooted.exists_perform? (hg : g.IsRooted) (op : Operation) (hfits : op.Fits g) :
    ∃ h, op.perform? g = some h ∧ h.IsRooted := by
  have hremoved : ∀ (k : Kind) (n : String), ({ kind := k, name := n } : Declaration).isRemoved =
      false := by
    intro k n
    show Flags.none.has .removed = false
    decide
  cases op with
  | addUnit file =>
    have hpush := hg.push (hremoved .unit file)
    have hnew : (g.push { kind := .unit, name := file } none).get? g.size =
        some { kind := .unit, name := file, id := g.size } := by rw [get?_push, if_pos rfl]
    exact ⟨_, rfl, hpush.withUnit hnew rfl fun hu => absurd (hg.unit_lt hu) (lt_irrefl _)⟩
  | addDetached kind name => exact ⟨_, rfl, hg.push (hremoved kind name)⟩
  | addChild p kind name =>
    obtain ⟨hp, hk⟩ := hfits
    refine ⟨_, by rw [Operation.perform?, hg.addChild?_eq hp]; rfl, ?_⟩
    have hpush := hg.push (hremoved kind name)
    have hnew : (g.push { kind := kind, name := name } none).get? g.size =
        some { kind := kind, name := name, id := g.size } := by rw [get?_push, if_pos rfl]
    refine hpush.moved hnew hk ?_ fun ha => ?_
    · rw [size_push]
      exact Nat.lt_succ_of_lt hp
    -- nothing stands below a new declaration
    rcases ReflTransGen.cases_head ha with rfl | ⟨c, hc, -⟩
    · exact absurd hp (lt_irrefl _)
    · exact absurd ((hpush.mem_children hnew c).2 hc) List.not_mem_nil
  | reparent id target =>
    obtain ⟨⟨s, hs, hk⟩, ht, hna⟩ := hfits
    exact ⟨_, hg.reparent?_eq hs ht, hg.moved hs hk ht hna⟩
  | remove id =>
    obtain ⟨s, hs⟩ := exists_get?_of_lt hfits
    exact ⟨_, hg.remove?_eq_of_get? hs, (hg.dropped id).withUnits List.filter_sublist⟩

theorem Built.isRooted (hg : g.Built) : g.IsRooted := by
  induction hg with
  | empty => exact isRooted_empty
  | step _ op hfits hperform ih =>
    obtain ⟨k, hk, hroot⟩ := ih.exists_perform? op hfits
    exact Option.some.inj (hperform.symm.trans hk) ▸ hroot

/-! ### What is live after a removal -/

/-- A way down that comes by what is cut off begins there or below. -/
theorem IsForest.isAbove_dropped (hg : g.IsForest) : (g.mapSlots (Slot.dropped y)).IsAbove u x ↔
    g.IsAbove u x ∧ (g.IsAbove y x → g.IsAbove y u) := by
  constructor
  · intro ha
    induction ha with
    | refl => exact ⟨.refl, id⟩
    | tail _ hp ih =>
      obtain ⟨hne, hp⟩ := hg.isParent_dropped.1 hp
      refine ⟨ih.1.tail hp, fun hy => ?_⟩
      rcases ReflTransGen.cases_tail hy with rfl | ⟨q, hyq, hq⟩
      · exact absurd rfl hne
      · exact ih.2 (hq.unique hp ▸ hyq)
  · rintro ⟨ha, hy⟩
    induction ha with
    | refl => exact .refl
    | tail hup hp ih =>
      refine (ih fun hyp => hy (hyp.tail hp)).tail (hg.isParent_dropped.2 ⟨?_, hp⟩)
      rintro rfl
      exact hg.not_isAbove_of_isParent hp ((hy .refl).trans hup)

/-- A removal ends the life of what is at and below the declaration, and of nothing else. -/
theorem IsRooted.isLive_removed (hg : g.IsRooted) :
    IsLive { g.mapSlots (Slot.dropped y) with units := g.units.filter (· != y) } x ↔
      g.IsLive x ∧ ¬ g.IsAbove y x := by
  constructor
  · rintro ⟨u, hu, ha⟩
    obtain ⟨hu, hne⟩ := List.mem_filter.1 hu
    obtain ⟨hux, hyu⟩ := hg.isAbove_dropped.1 ha
    refine ⟨⟨u, hu, hux⟩, fun hyx => ?_⟩
    obtain rfl := hg.eq_of_isAbove_mem_units hu (hyu hyx)
    exact absurd hne (by simp)
  · rintro ⟨⟨u, hu, hux⟩, hyx⟩
    refine ⟨u, List.mem_filter.2 ⟨hu, ?_⟩, hg.isAbove_dropped.2 ⟨hux, fun h => absurd h hyx⟩⟩
    rw [bne_iff_ne]
    rintro rfl
    exact hyx hux

end Graph

end Bindery
