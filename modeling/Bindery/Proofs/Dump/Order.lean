import Bindery.Proofs.Dump.Contents

/-!
# The order of a dump

In the graph of a dump the trees of its blocks stand one after the other, each of them in preorder,
so that the numbers of the declarations follow the text. `Graph.IsRow` is what the blocks keep;
`Graph.IsInOrder` is what it says of the walks, together with what every declaration of a dump has
by its kind and by its origin.
-/

namespace Bindery

open Dump

namespace Tree

/-- The slots of trees without parents that stand one after the other. -/
def rowSlots (start : DeclId) : List (Tree Declaration) → List Slot
  | [] => []
  | t :: ts => t.slots none start ++ rowSlots (start + t.size) ts

section

variable {α : Type}

theorem size_pos (t : Tree α) : 0 < t.size := by
  cases t
  exact Nat.succ_pos _

theorem rootIds_append (start : DeclId) (ts us : List (Tree α)) :
    rootIds start (ts ++ us) = rootIds start ts ++ rootIds (start + sizeList ts) us := by
  induction ts generalizing start with
  | nil => rfl
  | cons t ts ih =>
    rw [List.cons_append, rootIds, rootIds, ih, sizeList, Nat.add_assoc, List.cons_append]

theorem le_of_mem_rootIds {r : DeclId} (start : DeclId) (ts : List (Tree α))
    (hr : r ∈ rootIds start ts) : start ≤ r := by
  induction ts generalizing start with
  | nil => exact absurd hr List.not_mem_nil
  | cons t ts ih =>
    rcases List.mem_cons.1 hr with rfl | hr
    · exact le_rfl
    · exact (Nat.le_add_right _ _).trans (ih _ hr)

theorem pairwise_rootIds (start : DeclId) (ts : List (Tree α)) :
    (rootIds start ts).Pairwise (· < ·) := by
  induction ts generalizing start with
  | nil => exact List.Pairwise.nil
  | cons t ts ih =>
    refine List.pairwise_cons.2 ⟨fun r hr => ?_, ih _⟩
    exact (Nat.lt_add_of_pos_right t.size_pos).trans_le (le_of_mem_rootIds _ ts hr)

end

theorem rowSlots_append (start : DeclId) (ts us : List (Tree Declaration)) :
    rowSlots start (ts ++ us) = rowSlots start ts ++ rowSlots (start + sizeList ts) us := by
  induction ts generalizing start with
  | nil => rfl
  | cons t ts ih =>
    rw [List.cons_append, rowSlots, rowSlots, ih, sizeList, Nat.add_assoc, List.append_assoc]

theorem length_rowSlots (start : DeclId) (ts : List (Tree Declaration)) :
    (rowSlots start ts).length = sizeList ts := by
  induction ts generalizing start with
  | nil => rfl
  | cons t ts ih => rw [rowSlots, List.length_append, length_slots, ih, sizeList]

theorem map_toDeclaration_rowSlots (start : DeclId) (ts : List (Tree Declaration)) :
    (rowSlots start ts).map Slot.toDeclaration = preorderList ts := by
  induction ts generalizing start with
  | nil => rfl
  | cons t ts ih => rw [rowSlots, List.map_append, map_toDeclaration_slots, ih, preorderList]

theorem exists_slot_of_mem_rootIds {r : DeclId} (start : DeclId) (ts : List (Tree Declaration))
    (hr : r ∈ rootIds start ts) : ∃ s ∈ rowSlots start ts, s.id = r ∧ s.parent = none := by
  induction ts generalizing start with
  | nil => exact absurd hr List.not_mem_nil
  | cons t ts ih =>
    rcases List.mem_cons.1 hr with rfl | hr
    · cases t
      exact ⟨_, List.mem_append_left _ List.mem_cons_self, rfl, rfl⟩
    · obtain ⟨s, hs, h⟩ := ih _ hr
      exact ⟨s, List.mem_append_right _ hs, h⟩

end Tree

/-! ### What a dump says of a declaration -/

/-- What a declaration of a dump has by its kind. -/
structure Declaration.IsRead (d : Declaration) : Prop where
  type : d.type.isSome ↔ d.kind ∈ [Kind.alias, .function, .method, .property]
  parameters : d.parameters ≠ [] → d.kind ∈ [Kind.function, .method]
  value : d.value.isSome → d.kind = .item

namespace Dump

theorem Member.isRead_label (m : Member) : m.tree.label.IsRead := by
  cases m <;> constructor <;> simp [tree, Tree.label]

theorem EnumItem.isRead_label (i : EnumItem) : i.tree.label.IsRead := by
  constructor <;> simp [tree, Tree.label]

theorem Entry.isRead_label (e : Entry) : e.tree.label.IsRead := by
  cases e <;> constructor <;> simp [tree, Tree.label]

/-- The trees of a block, in the order of the dump. -/
def Block.trees (b : Block) : List (Tree Declaration) := b.units ++ b.waiting.map (·.2.2)

theorem isRead_synthesize {t : Tree Declaration} (ht : ∀ d ∈ t.preorder, d.IsRead) :
    ∀ d ∈ (synthesize t).preorder, d.IsRead := by
  intro d hd
  rw [synthesize, Tree.preorder_map, List.mem_map] at hd
  obtain ⟨e, he, rfl⟩ := hd
  exact ⟨(ht e he).type, (ht e he).parameters, (ht e he).value⟩

theorem Product.isRead_preorder (p : Product) {x : Option String × Tree Declaration}
    (hx : x ∈ p.trees) : ∀ d ∈ x.2.preorder, d.IsRead := by
  cases p with
  | extension owner members =>
    obtain ⟨m, -, rfl⟩ := List.mem_map.1 hx
    refine isRead_synthesize fun d hd => ?_
    rw [m.preorder, List.mem_singleton] at hd
    exact hd ▸ m.isRead_label
  | entry e =>
    obtain rfl := List.mem_singleton.1 hx
    exact isRead_synthesize
      (e.forall_preorder Entry.isRead_label Member.isRead_label EnumItem.isRead_label)

theorem Block.isRead_preorder (b : Block) {t : Tree Declaration} (ht : t ∈ b.trees) :
    ∀ d ∈ t.preorder, d.IsRead := by
  cases b with
  | unit file entries =>
    obtain rfl := List.mem_singleton.1 ht
    intro d hd
    rcases List.mem_cons.1 hd with rfl | hd
    · constructor <;> simp
    · exact Entry.forall_preorderList Entry.isRead_label Member.isRead_label
        EnumItem.isRead_label entries d hd
  | generated file products =>
    obtain ⟨w, hw, rfl⟩ := List.mem_map.1 ht
    obtain ⟨x, hx, rfl⟩ := List.mem_map.1 hw
    obtain ⟨p, -, hx⟩ := List.mem_flatMap.1 hx
    exact p.isRead_preorder hx

end Dump

namespace Graph

variable {g h : Graph} {i : DeclId} {s : Slot} {ts : List (Tree Declaration)} {b : Block}

/-! ### Numbers of laid out trees -/

namespace IsForest

mutual

/-- What is below the root of a laid out tree has the numbers that follow the root's. -/
theorem map_id_below_slots (hh : h.IsForest) (parent : Option DeclId) (start : DeclId) :
    ∀ t : Tree Declaration, (∀ s ∈ t.slots parent start, h.get? s.id = some s) →
      (h.below start).map Found.id = List.range' start t.size
  | .node d ts, hs => by
    rw [hh.below_eq (hs _ List.mem_cons_self), List.map_cons, List.map_flatMap,
      flatMap_below_rootIds hh start (start + 1) ts fun s hm => hs s (List.mem_cons_of_mem _ hm),
      Tree.size, List.range'_succ]

theorem flatMap_below_rootIds (hh : h.IsForest) (parent start : DeclId) :
    ∀ ts : List (Tree Declaration),
      (∀ s ∈ Tree.slotsList parent start ts, h.get? s.id = some s) →
        ((Tree.rootIds start ts).flatMap fun r => (h.below r).map Found.id) =
          List.range' start (Tree.sizeList ts)
  | [], _ => rfl
  | t :: ts, hs => by
    rw [Tree.rootIds, List.flatMap_cons,
      map_id_below_slots hh (some parent) start t fun s hm => hs s (List.mem_append_left _ hm),
      flatMap_below_rootIds hh parent (start + t.size) ts fun s hm =>
        hs s (List.mem_append_right _ hm), List.range'_append_1, Tree.sizeList]

end

theorem flatMap_below_row (hh : h.IsForest) (start : DeclId) (ts : List (Tree Declaration))
    (hs : ∀ s ∈ Tree.rowSlots start ts, h.get? s.id = some s) :
    ((Tree.rootIds start ts).flatMap fun r => (h.below r).map Found.id) =
      List.range' start (Tree.sizeList ts) := by
  induction ts generalizing start with
  | nil => rfl
  | cons t ts ih =>
    rw [Tree.rootIds, List.flatMap_cons,
      hh.map_id_below_slots none start t fun s hm => hs s (List.mem_append_left _ hm),
      ih _ fun s hm => hs s (List.mem_append_right _ hm), List.range'_append_1, Tree.sizeList]

theorem map_declaredAt_row (hh : h.IsForest) (start : DeclId) (ts : List (Tree Declaration))
    (hs : ∀ s ∈ Tree.rowSlots start ts, h.get? s.id = some s) :
    (Tree.rootIds start ts).map h.declaredAt = ts := by
  induction ts generalizing start with
  | nil => rfl
  | cons t ts ih =>
    rw [Tree.rootIds, List.map_cons,
      hh.declaredAt_slots none start t fun s hm => hs s (List.mem_append_left _ hm),
      ih _ fun s hm => hs s (List.mem_append_right _ hm)]

end IsForest

/-! ### Blocks one after the other -/

/-- The slots are those of `ts`, one after the other, and the roots of `ts` are the units and what
waits, both in their order. -/
structure IsRow (g : Graph) (ts : List (Tree Declaration)) : Prop where
  slots : g.slots.toList = Tree.rowSlots 0 ts
  units : g.units.Sublist (Tree.rootIds 0 ts)
  pending : (g.pending.map Pending.decl).Sublist (Tree.rootIds 0 ts)
  tops : (Tree.rootIds 0 ts).Perm (g.units ++ g.pending.map Pending.decl)

namespace IsRow

theorem empty : IsRow {} [] := ⟨rfl, .slnil, .slnil, .nil⟩

theorem size_eq (hr : g.IsRow ts) : g.size = Tree.sizeList ts := by
  rw [size, ← Array.length_toList, hr.slots, Tree.length_rowSlots]

theorem slots_plant (hr : g.IsRow ts) (t : Tree Declaration) :
    (g.plant t).slots.toList = Tree.rowSlots 0 (ts ++ [t]) := by
  show (g.slots ++ (t.slots none g.size).toArray).toList = _
  rw [Array.toList_append, hr.slots, Tree.rowSlots_append, Nat.zero_add, ← hr.size_eq,
    Tree.rowSlots, Tree.rowSlots, List.append_nil]

theorem rootIds_concat (hr : g.IsRow ts) (t : Tree Declaration) :
    Tree.rootIds 0 (ts ++ [t]) = Tree.rootIds 0 ts ++ [g.size] := by
  rw [Tree.rootIds_append, Nat.zero_add, ← hr.size_eq, Tree.rootIds, Tree.rootIds]

theorem addUnitTree (hr : g.IsRow ts) (file : String) (us : List (Tree Declaration)) :
    (g.addUnitTree file us).IsRow (ts ++ [.node { kind := .unit, name := file } us]) where
  slots := hr.slots_plant _
  units := by
    rw [hr.rootIds_concat]
    exact hr.units.append (List.Sublist.refl _)
  pending := by
    rw [hr.rootIds_concat]
    exact hr.pending.trans (List.sublist_append_left _ _)
  tops := by
    rw [hr.rootIds_concat]
    refine (hr.tops.append_right _).trans ?_
    show ((g.units ++ g.pending.map Pending.decl) ++ [g.size]).Perm
      ((g.units ++ [g.size]) ++ g.pending.map Pending.decl)
    rw [List.append_assoc, List.append_assoc]
    exact List.perm_append_comm.append_left _

theorem addPendingTree (hr : g.IsRow ts) (file : String) (x : Option String × Tree Declaration) :
    (g.addPendingTree file x).IsRow (ts ++ [x.2]) where
  slots := hr.slots_plant _
  units := by
    rw [hr.rootIds_concat]
    exact hr.units.trans (List.sublist_append_left _ _)
  pending := by
    rw [hr.rootIds_concat]
    show ((g.pending ++ [_]).map Pending.decl).Sublist _
    rw [List.map_append]
    exact hr.pending.append (List.Sublist.refl _)
  tops := by
    rw [hr.rootIds_concat]
    show (_ ++ [g.size]).Perm (g.units ++ (g.pending ++ [_]).map Pending.decl)
    rw [List.map_append, ← List.append_assoc]
    exact hr.tops.append_right _

theorem foldl_addPendingTree (file : String) (xs : List (Option String × Tree Declaration))
    (hr : g.IsRow ts) :
    (xs.foldl (Graph.addPendingTree · file) g).IsRow (ts ++ xs.map Prod.snd) := by
  induction xs generalizing g ts with
  | nil => simpa using hr
  | cons x xs ih =>
    rw [List.map_cons, List.append_cons]
    exact ih (hr.addPendingTree file x)

theorem addBlock (hr : g.IsRow ts) (hb : g.addBlock b = .ok h) : h.IsRow (ts ++ b.trees) := by
  cases b with
  | unit file entries =>
    rw [Graph.addBlock] at hb
    split at hb
    · cases hb
    · obtain rfl := Except.ok.inj hb
      exact hr.addUnitTree file _
  | generated file products =>
    obtain rfl := Except.ok.inj hb
    have h := hr.foldl_addPendingTree file (products.flatMap Product.trees)
    rwa [show (Block.generated file products).trees =
      (products.flatMap Product.trees).map Prod.snd by
        simp [Block.trees, Block.units, Block.waiting, Function.comp_def]]

/-- Every slot stands where its number says. -/
theorem get?_of_mem (hr : g.IsRow ts) (hg : g.IsForest) (hs : s ∈ Tree.rowSlots 0 ts) :
    g.get? s.id = some s := by
  rw [← hr.slots, Array.mem_toList_iff] at hs
  obtain ⟨j, hj⟩ := Array.getElem?_of_mem hs
  have hget : g.get? j = some s := hj
  rwa [hg.id_eq hget]

/-- Every slot is a declaration of one of the trees. -/
theorem exists_mem_preorder (hr : g.IsRow ts) (hs : g.get? i = some s) :
    ∃ t ∈ ts, s.toDeclaration ∈ t.preorder := by
  have hmem : s ∈ Tree.rowSlots 0 ts := by
    rw [← hr.slots, Array.mem_toList_iff]
    exact Array.mem_of_getElem? hs
  have hd := List.mem_map_of_mem (f := Slot.toDeclaration) hmem
  rwa [Tree.map_toDeclaration_rowSlots, Tree.preorderList_eq_flatMap, List.mem_flatMap] at hd

theorem exists_top (hr : g.IsRow ts) (hg : g.IsForest) {r : DeclId}
    (hm : r ∈ Tree.rootIds 0 ts) : ∃ s, g.get? r = some s ∧ s.parent = none := by
  obtain ⟨s, hs, rfl, hp⟩ := Tree.exists_slot_of_mem_rootIds 0 ts hm
  exact ⟨s, hr.get?_of_mem hg hs, hp⟩

theorem flatMap_below (hr : g.IsRow ts) (hg : g.IsForest) :
    ((Tree.rootIds 0 ts).flatMap fun r => (g.below r).map Found.id) = List.range g.size := by
  rw [hg.flatMap_below_row 0 ts fun s hs => hr.get?_of_mem hg hs, hr.size_eq,
    List.range_eq_range']

/-- Any of the tops, in their order, are walked through by growing numbers. -/
theorem pairwise_flatMap_below (hr : g.IsRow ts) (hg : g.IsForest) {rs : List DeclId}
    (hrs : rs.Sublist (Tree.rootIds 0 ts)) :
    ((rs.flatMap g.below).map Found.id).Pairwise (· < ·) := by
  rw [List.map_flatMap]
  have hsub := hrs.flatMap fun r => (g.below r).map Found.id
  rw [hr.flatMap_below hg] at hsub
  exact List.pairwise_lt_range.sublist hsub

theorem mapM_descendants? (hr : g.IsRow ts) (hg : g.IsForest) {rs : List DeclId}
    (hrs : rs.Sublist (Tree.rootIds 0 ts)) :
    ∃ parts, rs.mapM g.descendants? = some parts ∧ parts.flatten = rs.flatMap g.below := by
  refine ⟨rs.map g.below, mapM_eq_some_of_forall fun r hm => ?_, List.flatMap_def.symm⟩
  obtain ⟨s, hs, -⟩ := hr.exists_top hg (hrs.subset hm)
  exact hg.descendants?_eq (lt_size_of_get? hs)

end IsRow

/-! ### The whole graph -/

/-- The tops `rs`, which are the units and what waits, declare what `ts` says, and a walk through
them meets the declarations by their numbers. -/
structure IsInOrder (g : Graph) (ts : List (Tree Declaration)) (rs : List DeclId) : Prop where
  increasing : rs.Pairwise (· < ·)
  tops : rs.Perm (g.units ++ g.pending.map Pending.decl)
  units : g.units.Sublist rs
  pending : (g.pending.map Pending.decl).Sublist rs
  declared : rs.map g.declared? = ts.map some
  walk : ∃ parts, rs.mapM g.descendants? = some parts ∧
    parts.flatten.map Found.id = List.range g.size
  one_top : ∀ i < g.size, ∃! r, r ∈ rs ∧ g.IsAbove r i

/-- What is live was not made by the toolchain, and what waits was; both are met by growing
numbers. -/
structure IsParted (g : Graph) : Prop where
  live : ∃ live, g.live? = some live ∧ (live.map Found.id).Pairwise (· < ·) ∧
    ∀ i, i ∈ live.map Found.id ↔ ∃ s, g.get? i = some s ∧ s.flags.has .synthesized = false
  made : ∃ parts, (g.pending.map Pending.decl).mapM g.descendants? = some parts ∧
    ∀ i, i ∈ parts.flatten.map Found.id ↔ ∃ s, g.get? i = some s ∧ s.flags.has .synthesized
  roots : ∀ p ∈ g.pending, ∃ s, g.get? p.decl = some s ∧ s.parent = none
  increasing : (g.pending.map Pending.decl).Pairwise (· < ·)

end Graph

/-- A slot as a dump fills it: only a class may be without a body, and no pass has marked it. -/
structure Slot.IsRead (s : Slot) : Prop extends s.toDeclaration.IsRead where
  incomplete : s.flags.has .incomplete → s.kind = .record ∧ s.children = []
  unmarked : ∀ f ∈ [Flags.ignored, .valueType, .readOnly, .renamed, .removed], s.flags.has f = false

namespace Graph

variable {g : Graph} {i : DeclId} {s : Slot} {ts : List (Tree Declaration)}

theorem IsRow.isInOrder (hr : g.IsRow ts) (hg : g.IsForest) :
    g.IsInOrder ts (Tree.rootIds 0 ts) where
  increasing := Tree.pairwise_rootIds 0 ts
  tops := hr.tops
  units := hr.units
  pending := hr.pending
  declared := by
    conv_rhs => rw [← hg.map_declaredAt_row 0 ts fun s hs => hr.get?_of_mem hg hs, List.map_map]
    refine List.map_congr_left fun r hm => ?_
    obtain ⟨s, hs, -⟩ := hr.exists_top hg hm
    exact hg.declared?_eq (lt_size_of_get? hs)
  walk := by
    obtain ⟨parts, hparts, hflat⟩ := hr.mapM_descendants? hg (List.Sublist.refl _)
    exact ⟨parts, hparts, by rw [hflat, List.map_flatMap, hr.flatMap_below hg]⟩
  one_top := by
    intro i hi
    have hm := List.mem_range.2 hi
    rw [← hr.flatMap_below hg, List.mem_flatMap] at hm
    obtain ⟨r, hrm, hir⟩ := hm
    obtain ⟨s, hs, hn⟩ := hr.exists_top hg hrm
    have ha : g.IsAbove r i := (hg.mem_map_id_below (lt_size_of_get? hs)).1 hir
    refine ⟨r, ⟨hrm, ha⟩, fun q ⟨hqm, hq⟩ => ?_⟩
    obtain ⟨u, hu, hun⟩ := hr.exists_top hg hqm
    rcases hq.total ha with h | h
    · exact h.eq_of_parent_eq_none hs hn
    · exact (h.eq_of_parent_eq_none hu hun).symm

/-- What waits and what is below it is what the toolchain made. -/
theorem IsLoaded.exists_pending_isAbove_iff (hg : g.IsLoaded) :
    (∃ p ∈ g.pending, g.IsAbove p.decl i) ↔
      ∃ s, g.get? i = some s ∧ s.flags.has .synthesized := by
  constructor
  · rintro ⟨p, hp, ha⟩
    obtain ⟨t, ht, -⟩ := hg.awaits.isRoot hp
    obtain ⟨s, hs⟩ := exists_get?_of_lt (ha.lt_size (lt_size_of_get? ht))
    exact ⟨s, hs, by rw [hg.split.eq_of_isAbove hg.toIsForest ha ht hs, hg.split.waiting hp ht]⟩
  · rintro ⟨s, hs, hmade⟩
    by_contra hno
    push Not at hno
    have hlive := (hg.awaits.live_iff hg.toWellFormed hs).2 ⟨(hg.fresh hs).isRemoved, hno⟩
    rw [hg.live_iff hs, hmade] at hlive
    exact absurd hlive nofun

theorem IsRow.isParted (hr : g.IsRow ts) (hg : g.IsLoaded) : g.IsParted where
  live := by
    have hrooted := hg.toWellFormed.isRooted
    refine ⟨_, hrooted.live?_eq, hr.pairwise_flatMap_below hg.toIsForest hr.units, fun i => ?_⟩
    rw [hrooted.mem_map_id_live]
    constructor
    · intro hl
      obtain ⟨s, hs⟩ := exists_get?_of_lt (hrooted.live_lt hl)
      exact ⟨s, hs, (hg.live_iff hs).1 hl⟩
    · rintro ⟨s, hs, hn⟩
      exact (hg.live_iff hs).2 hn
  made := by
    obtain ⟨parts, hparts, hflat⟩ := hr.mapM_descendants? hg.toIsForest hr.pending
    refine ⟨parts, hparts, fun i => ?_⟩
    rw [hflat, List.map_flatMap, List.flatMap_map, List.mem_flatMap,
      ← hg.exists_pending_isAbove_iff]
    refine exists_congr fun p => and_congr_right fun hp => ?_
    obtain ⟨s, hs, -⟩ := hg.awaits.isRoot hp
    exact hg.mem_map_id_below (lt_size_of_get? hs)
  roots := fun p hp => hr.exists_top hg.toIsForest (hr.pending.subset (List.mem_map_of_mem hp))
  increasing := (Tree.pairwise_rootIds 0 ts).sublist hr.pending

theorem IsRow.isRead (hr : g.IsRow ts) (hg : g.IsLoaded)
    (hread : ∀ t ∈ ts, ∀ d ∈ t.preorder, d.IsRead) (hs : g.get? i = some s) : s.IsRead := by
  obtain ⟨t, ht, hd⟩ := hr.exists_mem_preorder hs
  have hfresh := hg.fresh hs
  refine ⟨hread t ht _ hd, fun hi => ?_, fun f hf => hfresh.unmarked f ?_⟩
  · have hk := hfresh.incomplete hi
    refine ⟨hk, List.eq_nil_iff_forall_not_mem.2 fun c hc => ?_⟩
    -- a class with a member has a body
    obtain ⟨u, hu, hp⟩ := (hg.mem_children hs c).1 hc
    have hcomplete := (hg.kind_parent hs hu hp).2 hk
    rw [Declaration.isComplete, hi] at hcomplete
    exact absurd hcomplete Bool.false_ne_true
  · simp only [List.mem_cons, List.not_mem_nil, or_false] at hf ⊢
    tauto

theorem isRow_ofDump {d : Dump} (h : ofDump d = .ok g) : g.IsRow (d.flatMap Block.trees) := by
  refine ofDump_induction (P := fun d g => g.IsRow (d.flatMap Block.trees)) .empty ?_ h
  intro d g b h hr hb
  rw [List.flatMap_append, List.flatMap_singleton]
  exact hr.addBlock hb

/-- The graph of a text has its declarations in the order of the text, the live ones apart from
what the toolchain made. -/
theorem isInOrder_of_ofText {origin text : String} (h : ofText origin text = .ok g) :
    ∃ d rs, Dump.ofText text.toList = .ok d ∧ g.IsInOrder (d.flatMap Block.trees) rs ∧
      g.IsParted ∧ ∀ i s, g.get? i = some s → s.IsRead := by
  have hg := isLoaded_ofText h
  unfold ofText at h
  split at h
  · next d hd =>
    have hr := isRow_ofDump h
    refine ⟨d, _, hd, hr.isInOrder hg.toIsForest, hr.isParted hg, fun i s hs => ?_⟩
    refine hr.isRead hg (fun t ht => ?_) hs
    obtain ⟨b, -, ht⟩ := List.mem_flatMap.1 ht
    exact b.isRead_preorder ht
  · exact absurd h nofun

/-- What the toolchain made stands between two units, and in the middle of the numbers. -/
theorem isInOrder_of_ofText_between :
    ∃ g, Graph.ofText "dump" "unit \"a\" \x7b namespace N \x7b class C; \x7d enum E \x7b A \x7d \x7d
        generated \"a\" \x7b fn f(); \x7d unit \"b\" \x7b \x7d" = .ok g ∧
      (∃ (rs : List DeclId) (parts : List (List Found)), rs.Pairwise (· < ·) ∧
        rs.Perm [0, 6, 5] ∧ rs.mapM g.descendants? = some parts ∧
        parts.flatten.map Found.id = List.range 7) ∧
      (∃ live, g.live? = some live ∧ live.map Found.id = [0, 1, 2, 3, 4, 6] ∧
        (live.map Found.id).Pairwise (· < ·)) ∧
      ∀ s, g.get? 2 = some s → s.children = [] := by
  refine Graph.exists_ofText (P := fun g => decide (g.size = 7 ∧ g.units = [0, 6] ∧
      g.pending.map Pending.decl = [5] ∧
      (g.get? 2).any (fun s => s.flags.has .incomplete) ∧
      g.live?.map (List.map Found.id) = some [0, 1, 2, 3, 4, 6]))
    (by decide +kernel) fun g hload h => ?_
  obtain ⟨hsize, hunits, hpending, hincomplete, hids⟩ := of_decide_eq_true h
  obtain ⟨d, rs, -, horder, hparted, hread⟩ := isInOrder_of_ofText hload
  obtain ⟨parts, hparts, hwalk⟩ := horder.walk
  obtain ⟨live, hlive, hinc, -⟩ := hparted.live
  rw [hlive, Option.map_some, Option.some.injEq] at hids
  refine ⟨⟨rs, parts, horder.increasing, ?_, hparts, hsize ▸ hwalk⟩, ⟨live, hlive, hids, hinc⟩,
    fun s hs => ?_⟩
  · have htops := horder.tops
    rwa [hunits, hpending] at htops
  · rw [hs, Option.any_some] at hincomplete
    exact ((hread 2 s hs).incomplete hincomplete).2

end Graph

end Bindery
