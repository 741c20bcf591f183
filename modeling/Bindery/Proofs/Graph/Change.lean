import Bindery.Proofs.Graph.Walk

/-!
# Changes of forests

What `detach?`, `reparent?`, `remove?`, `mark?` and `rename?` do to a forest, said for every slot at
once: each of them is one function on slots, applied by `mapSlots`. Moving declarations below a
target that is not below them keeps a forest, and so does cutting one off.
-/

namespace Bindery

namespace Slot

/-- The slot after `id` was cut off. -/
def without (id : DeclId) (s : Slot) : Slot :=
  { s with
    parent := if s.id = id then none else s.parent
    children := s.children.filter (· != id) }

/-- The slot after all of `ids` became the last children of `target`. -/
def moved (ids : List DeclId) (target : DeclId) (s : Slot) : Slot :=
  { s with
    parent := if s.id ∈ ids then some target else s.parent
    children := s.children.filter (· ∉ ids) ++ if s.id = target then ids else [] }

/-- The slot after `id` was cut off for good. -/
def dropped (id : DeclId) (s : Slot) : Slot :=
  { s.without id with flags := if s.id = id then s.flags ∪ .removed else s.flags }

def marked (f : Flags) (ids : List DeclId) (s : Slot) : Slot :=
  if s.id ∈ ids then { s with flags := s.flags ∪ f } else s

def renamed (name : String) (ids : List DeclId) (s : Slot) : Slot :=
  if s.id ∈ ids then { s with toDeclaration := (s.rename? name).getD s.toDeclaration } else s

@[simp] theorem id_moved (ids : List DeclId) (target : DeclId) (s : Slot) :
    (s.moved ids target).id = s.id := rfl

@[simp] theorem id_dropped (id : DeclId) (s : Slot) : (s.dropped id).id = s.id := rfl

@[simp] theorem kind_marked (f : Flags) (ids : List DeclId) (s : Slot) :
    (s.marked f ids).kind = s.kind := by
  unfold marked
  split <;> rfl

@[simp] theorem kind_renamed (name : String) (ids : List DeclId) (s : Slot) :
    (s.renamed name ids).kind = s.kind := by
  by_cases h : s.id ∈ ids <;> by_cases hn : s.name = name <;>
    simp [renamed, Declaration.rename?, h, hn]

@[simp] theorem moved_nil (target : DeclId) (s : Slot) : s.moved [] target = s := by
  simp [moved]

/-- Marking one declaration after the other is marking them all. -/
theorem marked_marked (f : Flags) (xs ys : List DeclId) (s : Slot) :
    (s.marked f xs).marked f ys = s.marked f (xs ++ ys) := by
  have hu : s.flags ∪ f ∪ f = s.flags ∪ f := Flags.union_eq_left (Flags.has_union_right _ _)
  by_cases hx : s.id ∈ xs <;> by_cases hy : s.id ∈ ys <;> simp [marked, hx, hy, hu]

theorem rename?_rename? (name : String) (d : Declaration) :
    (((d.rename? name).getD d).rename? name).getD ((d.rename? name).getD d) =
      (d.rename? name).getD d := by
  by_cases h : d.name = name <;> simp [Declaration.rename?, h]

theorem renamed_renamed (name : String) (xs ys : List DeclId) (s : Slot) :
    (s.renamed name xs).renamed name ys = s.renamed name (xs ++ ys) := by
  by_cases hx : s.id ∈ xs <;> by_cases hy : s.id ∈ ys <;>
    simp [renamed, hx, hy, rename?_rename?]

/-- Moving one declaration after the other is moving them all. -/
theorem moved_moved {xs ys : List DeclId} (target : DeclId) (h : List.Disjoint xs ys) (s : Slot) :
    (s.moved xs target).moved ys target = s.moved (xs ++ ys) target := by
  have hx : xs.filter (· ∉ ys) = xs := by
    rw [List.filter_eq_self]
    exact fun a ha => decide_eq_true fun hy => h ha hy
  have hc : (s.children.filter (· ∉ xs)).filter (· ∉ ys) =
      s.children.filter (· ∉ xs ++ ys) := by
    rw [List.filter_filter]
    refine List.filter_congr fun a _ => ?_
    by_cases h1 : a ∈ xs <;> by_cases h2 : a ∈ ys <;> simp [h1, h2]
  simp only [moved, List.filter_append, hc]
  congr 1
  · by_cases h1 : s.id ∈ xs <;> by_cases h2 : s.id ∈ ys <;> simp [h1, h2]
  · by_cases ht : s.id = target
    · simp only [ht, if_true, hx, List.append_assoc]
    · simp [ht]

end Slot

namespace Graph

open Relation

variable {g h : Graph} {i j p id space target unit : DeclId} {s t : Slot} {f : Slot → Slot}
  {ids : List DeclId}

/-- The graph with `f` done to every slot. -/
def mapSlots (g : Graph) (f : Slot → Slot) : Graph := { g with slots := g.slots.map f }

@[simp] theorem size_mapSlots (g : Graph) (f : Slot → Slot) : (g.mapSlots f).size = g.size := by
  simp [mapSlots, size]

@[simp] theorem units_mapSlots (g : Graph) (f : Slot → Slot) : (g.mapSlots f).units = g.units := rfl

@[simp] theorem get?_mapSlots (g : Graph) (f : Slot → Slot) (i : DeclId) :
    (g.mapSlots f).get? i = (g.get? i).map f := by
  simp [mapSlots, get?]

@[simp] theorem mapSlots_id (g : Graph) : g.mapSlots (fun s => s) = g := by
  simp [mapSlots]

theorem mapSlots_mapSlots (g : Graph) (f f' : Slot → Slot) :
    (g.mapSlots f).mapSlots f' = g.mapSlots fun s => f' (f s) := by
  simp [mapSlots]

theorem mapSlots_congr {f' : Slot → Slot} (h : ∀ i s, g.get? i = some s → f s = f' s) :
    g.mapSlots f = g.mapSlots f' := by
  have : g.slots.map f = g.slots.map f' := by
    refine Array.map_congr_left fun s hs => ?_
    obtain ⟨i, hi, rfl⟩ := Array.getElem_of_mem hs
    exact h i _ (Array.getElem?_eq_getElem hi)
  rw [mapSlots, mapSlots, this]

theorem mapSlots_eq_self (h : ∀ i s, g.get? i = some s → f s = s) : g.mapSlots f = g := by
  rw [mapSlots_congr h]
  simp [mapSlots]

/-- Every slot carries its own number. -/
def IsNumbered (g : Graph) : Prop := ∀ i s, g.get? i = some s → s.id = i

theorem IsNumbered.mapSlots (hn : g.IsNumbered) (hf : ∀ s, (f s).id = s.id) :
    (g.mapSlots f).IsNumbered := by
  intro i s hs
  rw [get?_mapSlots] at hs
  obtain ⟨u, hu, rfl⟩ := Option.map_eq_some_iff.1 hs
  exact (hf u).trans (hn i u hu)

theorem IsNumbered.eq_of_id (hn : g.IsNumbered) (hs : g.get? i = some s) (ht : g.get? j = some t)
    (h : t.id = i) : t = s := by
  rw [hn j t ht] at h
  rw [h, hs] at ht
  exact (Option.some.inj ht).symm

/-- A change of one slot. -/
theorem IsNumbered.modify?_eq (hn : g.IsNumbered) (hi : i < g.size) :
    g.modify? i f = some (g.mapSlots fun s => if s.id = i then f s else s) := by
  have hj : ∀ j (hj : j < g.slots.size), g.slots[j].id = j := fun j hj =>
    hn j _ (Array.getElem?_eq_getElem hj)
  rw [modify?_eq_some hi, Graph.mapSlots]
  congr 2
  refine Array.ext (by simp) fun j h1 h2 => ?_
  have h3 : j < g.slots.size := by simpa using h2
  rw [Array.getElem_modify, Array.getElem_map, hj j h3]
  simp only [eq_comm]

theorem IsForest.isNumbered (hg : g.IsForest) : g.IsNumbered := fun _ _ h => hg.id_eq h

namespace IsForest

variable (hg : g.IsForest)
include hg

theorem detach?_eq (hs : g.get? id = some s) :
    g.detach? id = some (g.mapSlots (Slot.without id)) := by
  have hfilter : ∀ j t, g.get? j = some t → s.parent ≠ some j →
      t.children.filter (· != id) = t.children := by
    intro j t ht hne
    rw [List.filter_eq_self]
    intro c hc
    rw [bne_iff_ne]
    rintro rfl
    exact hne ((isParent_iff_of_get? hs).1 ((hg.mem_children ht c).1 hc))
  cases hp : s.parent with
  | none =>
    have hg' : g.mapSlots (Slot.without id) = g := by
      refine mapSlots_eq_self fun j t ht => ?_
      rw [Slot.without, hfilter j t ht (by simp [hp])]
      by_cases hid : t.id = id
      · obtain rfl := hg.isNumbered.eq_of_id hs ht hid
        simp [← hp]
      · simp [hid]
    rw [hg']
    simp [detach?, hs, hp]
  | some p =>
    have hpi : g.IsParent p id := ⟨s, hs, hp⟩
    have hne : p ≠ id := hg.ne_of_isParent hpi
    have hn : (g.mapSlots fun s => if s.id = id then { s with parent := none } else s).IsNumbered :=
      hg.isNumbered.mapSlots fun s => by split <;> rfl
    simp only [detach?, hs, hp, Option.bind_eq_bind, Option.bind_some,
      hg.isNumbered.modify?_eq (lt_size_of_get? hs),
      hn.modify?_eq (by simpa using hg.parent_lt hpi), mapSlots_mapSlots]
    refine congrArg some (mapSlots_congr fun j t ht => ?_)
    have hj := hg.id_eq ht
    by_cases hid : t.id = id
    · obtain rfl := hg.isNumbered.eq_of_id hs ht hid
      have hnp : t.id ≠ p := hid ▸ hne.symm
      simp [Slot.without, hid, Ne.symm hne,
        hfilter j t ht (by rw [hp, ← hj, Ne, Option.some.injEq]; exact hnp.symm)]
    · by_cases htp : t.id = p
      · simp [Slot.without, htp, hne]
      · simp [Slot.without, hid, htp,
          hfilter j t ht (by rw [hp, ← hj, Ne, Option.some.injEq]; exact Ne.symm htp)]

theorem reparent?_eq (hs : g.get? id = some s) (ht : target < g.size) :
    g.reparent? id target = some (g.mapSlots (Slot.moved [id] target)) := by
  have h1 : (g.mapSlots (Slot.without id)).IsNumbered := hg.isNumbered.mapSlots fun _ => rfl
  have h2 := h1.mapSlots (f := fun s => if s.id = id then { s with parent := some target } else s)
    fun s => by split <;> rfl
  rw [reparent?, hg.detach?_eq hs, Option.bind_eq_bind, Option.bind_some,
    h1.modify?_eq (by simpa using lt_size_of_get? hs), Option.bind_some,
    h2.modify?_eq (by simpa using ht), mapSlots_mapSlots, mapSlots_mapSlots]
  refine congrArg some (mapSlots_congr fun j u _ => ?_)
  have hc : u.children.filter (· != id) = u.children.filter fun c => !decide (c = id) :=
    List.filter_congr fun c _ => by by_cases h : c = id <;> simp [h]
  by_cases hi : u.id = id
  · rw [← hi] at hc ⊢
    by_cases hit : u.id = target
    · simp [Slot.without, Slot.moved, ← hit, hc]
    · simp [Slot.without, Slot.moved, hit, hc]
  · by_cases hit : u.id = target
    · have hti : target ≠ id := hit ▸ hi
      simp [Slot.without, Slot.moved, hit, hti, hc]
    · simp [Slot.without, Slot.moved, hi, hit, hc]

/-- What is cut off for good is no unit any more. -/
theorem remove?_eq_of_get? (hs : g.get? id = some s) : g.remove? id =
    some { g.mapSlots (Slot.dropped id) with units := g.units.filter (· != id) } := by
  have hn : IsNumbered { g.mapSlots (Slot.without id) with units := g.units.filter (· != id) } :=
    hg.isNumbered.mapSlots (f := Slot.without id) fun _ => rfl
  have hlt : id < { g.mapSlots (Slot.without id) with units := g.units.filter (· != id) }.size := by
    show id < (g.mapSlots (Slot.without id)).size
    rw [size_mapSlots]
    exact lt_size_of_get? hs
  rw [remove?, hg.detach?_eq hs, Option.bind_eq_bind, Option.bind_some]
  refine (hn.modify?_eq hlt).trans (congrArg some ?_)
  simp only [mapSlots, Array.map_map]
  congr 2
  funext u
  by_cases h : u.id = id <;> simp [Slot.dropped, Slot.without, h]

theorem remove?_eq (hs : g.get? id = some s) (hu : id ∉ g.units) :
    g.remove? id = some (g.mapSlots (Slot.dropped id)) := by
  have hunits : g.units.filter (· != id) = g.units := by
    rw [List.filter_eq_self]
    intro u hm
    rw [bne_iff_ne]
    rintro rfl
    exact hu hm
  rw [hg.remove?_eq_of_get? hs, hunits]
  rfl

theorem mark?_eq (hs : g.get? id = some s) (fl : Flags) :
    g.mark? id fl = some (g.mapSlots (Slot.marked fl [id]), !s.flags.has fl) := by
  simp only [mark?, hs, Option.bind_eq_bind, Option.bind_some]
  cases hm : s.toDeclaration.mark? fl with
  | none =>
    have hf := Declaration.mark?_eq_none.1 hm
    have : g.mapSlots (Slot.marked fl [id]) = g := by
      refine mapSlots_eq_self fun j t ht => ?_
      by_cases hid : t.id = id
      · obtain rfl := hg.isNumbered.eq_of_id hs ht hid
        rw [Slot.marked, if_pos (by simp [hid]), Flags.union_eq_left hf]
      · simp [Slot.marked, hid]
    simp [hf, this]
  | some d =>
    have hf : s.flags.has fl = false := by
      rw [← Bool.not_eq_true, ← Declaration.mark?_eq_none, hm]
      exact nofun
    have hd : d = { s.toDeclaration with flags := s.flags ∪ fl } := by
      simpa [Declaration.mark?, hf] using hm.symm
    have : (g.mapSlots fun t => if t.id = id then { t with toDeclaration := d } else t) =
        g.mapSlots (Slot.marked fl [id]) := by
      refine mapSlots_congr fun j t ht => ?_
      by_cases hid : t.id = id
      · obtain rfl := hg.isNumbered.eq_of_id hs ht hid
        simp [Slot.marked, hid, hd]
      · simp [Slot.marked, hid]
    simp [hf, hg.isNumbered.modify?_eq (lt_size_of_get? hs), this]

theorem rename?_eq (hs : g.get? id = some s) (name : String) :
    g.rename? id name = some (g.mapSlots (Slot.renamed name [id]), s.name != name) := by
  simp only [rename?, hs, Option.bind_eq_bind, Option.bind_some]
  cases hr : s.toDeclaration.rename? name with
  | none =>
    have hname := Declaration.rename?_eq_none.1 hr
    have : g.mapSlots (Slot.renamed name [id]) = g := by
      refine mapSlots_eq_self fun j t ht => ?_
      by_cases hid : t.id = id
      · obtain rfl := hg.isNumbered.eq_of_id hs ht hid
        rw [Slot.renamed, if_pos (by simp [hid]), hr, Option.getD_none]
      · simp [Slot.renamed, hid]
    simp [hname, this]
  | some d =>
    have hname : s.name ≠ name := fun h => by
      rw [Declaration.rename?_eq_none.2 h] at hr
      exact absurd hr nofun
    have : (g.mapSlots fun t => if t.id = id then { t with toDeclaration := d } else t) =
        g.mapSlots (Slot.renamed name [id]) := by
      refine mapSlots_congr fun j t ht => ?_
      by_cases hid : t.id = id
      · obtain rfl := hg.isNumbered.eq_of_id hs ht hid
        simp [Slot.renamed, hid, hr]
      · simp [Slot.renamed, hid]
    simp [hname, hg.isNumbered.modify?_eq (lt_size_of_get? hs), this]

end IsForest

end Graph

end Bindery
