import Bindery.Dump.Load
import Bindery.Proofs.Graph.Plant

/-!
# Graphs of dumps

`Graph.IsLoaded`: what holds of the graph of a dump before any pass. It is well-formed, all of its
pending declarations wait, no declaration bears a mark of a pass, and those that the toolchain made
are just those that are not live.
-/

namespace Bindery

/-- No pass has changed the declaration; the two flags of a dump stand where a dump has them. -/
structure Declaration.IsFresh (d : Declaration) : Prop where
  initialName : d.initialName = none
  unmarked : ∀ f ∈ [Flags.ignored, .valueType, .readOnly, .removed, .renamed], d.flags.has f = false
  bitmask : d.flags.has .bitmask → d.kind = .enumeration
  incomplete : d.flags.has .incomplete → d.kind = .record

theorem Declaration.IsFresh.isRemoved {d : Declaration} (h : d.IsFresh) : d.isRemoved = false :=
  h.unmarked .removed (by decide)

theorem Declaration.IsFresh.synthesized {d : Declaration} (h : d.IsFresh) :
    IsFresh { d with flags := d.flags ∪ .synthesized } := by
  have hbit : ∀ f ∈ [Flags.ignored, .valueType, .readOnly, .removed, .renamed],
      f.IsBit ∧ Flags.has .synthesized f = false := by
    simp only [List.forall_mem_cons, List.not_mem_nil, false_imp_iff, implies_true, and_true]
    refine ⟨⟨Flags.isBit_ignored, ?_⟩, ⟨Flags.isBit_valueType, ?_⟩, ⟨Flags.isBit_readOnly, ?_⟩,
      ⟨Flags.isBit_removed, ?_⟩, Flags.isBit_renamed, ?_⟩ <;> decide
  have h1 : Flags.has .synthesized .bitmask = false := by decide
  have h2 : Flags.has .synthesized .incomplete = false := by decide
  refine ⟨h.initialName, fun f hf => ?_, ?_, ?_⟩
  · rw [(hbit f hf).1.has_union, h.unmarked f hf, (hbit f hf).2]
    rfl
  · rw [Flags.isBit_bitmask.has_union, h1, Bool.or_false]
    exact h.bitmask
  · rw [Flags.isBit_incomplete.has_union, h2, Bool.or_false]
    exact h.incomplete

/-- What a dump says itself, as against what the toolchain made. -/
structure Declaration.IsNative (d : Declaration) : Prop extends d.IsFresh where
  native : d.flags.has .synthesized = false

/-- Only the two flags of a dump matter for a declaration that nothing has changed. -/
theorem Declaration.IsNative.mk' {d : Declaration} (hn : d.initialName = none)
    (hf : d.flags = .none ∨ d.flags = .bitmask ∧ d.kind = .enumeration ∨
      d.flags = .incomplete ∧ d.kind = .record) : d.IsNative := by
  have h1 : Flags.has .bitmask .incomplete = false := by decide
  have h2 : Flags.has .incomplete .bitmask = false := by decide
  have h3 : Flags.has .none .incomplete = false := by decide
  have h4 : Flags.has .none .bitmask = false := by decide
  rcases hf with h | ⟨h, hk⟩ | ⟨h, hk⟩
  · exact ⟨⟨hn, by rw [h]; decide, by simp [h, h4], by simp [h, h3]⟩, by rw [h]; decide⟩
  · exact ⟨⟨hn, by rw [h]; decide, fun _ => hk, by simp [h, h1]⟩, by rw [h]; decide⟩
  · exact ⟨⟨hn, by rw [h]; decide, by simp [h, h2], fun _ => hk⟩, by rw [h]; decide⟩

namespace Dump

/-! ### Trees of entries -/

theorem Member.isNative_label (m : Member) : m.tree.label.IsNative := by
  cases m <;> exact .mk' rfl (Or.inl rfl)

theorem Member.label_kind (m : Member) : m.tree.label.kind.parents = [.record] := by
  cases m <;> rfl

theorem Member.edges (m : Member) (P : Declaration → Declaration → Prop) : m.tree.Edges P := by
  cases m <;> exact trivial

theorem Member.preorder (m : Member) : m.tree.preorder = [m.tree.label] := by
  cases m <;> rfl

namespace Entry

theorem label_kind (e : Entry) : e.tree.label.kind.parents = [.unit, .namespace] := by
  cases e <;> rfl

theorem isNative_label (e : Entry) : e.tree.label.IsNative := by
  cases e with
  | record name members =>
    cases members with
    | none => exact .mk' rfl (Or.inr (Or.inr ⟨rfl, rfl⟩))
    | some _ => exact .mk' rfl (Or.inl rfl)
  | enumeration name isBitmask items =>
    cases isBitmask with
    | false => exact .mk' rfl (Or.inl rfl)
    | true => exact .mk' rfl (Or.inr (Or.inl ⟨rfl, rfl⟩))
  | _ => exact .mk' rfl (Or.inl rfl)

mutual

theorem edges : ∀ e : Entry, e.tree.Edges Declaration.MayHold
  | .namespace name entries => by
    exact edgesList _ (Or.inr rfl) (isNative_label (.namespace name entries)).native entries
  | .record name members => by
    refine Tree.edgesList_iff.2 fun t ht => ?_
    obtain ⟨m, hm, rfl⟩ := List.mem_map.1 ht
    have hsome : members.isSome := by
      cases members with
      | none => exact absurd hm List.not_mem_nil
      | some _ => rfl
    refine ⟨⟨?_, fun _ => ?_, ?_⟩, m.edges _⟩
    · rw [m.label_kind]
      exact List.mem_singleton_self _
    · have h0 : Flags.has .none .incomplete = false := by decide
      simp [Declaration.isComplete, hsome, h0]
    · exact m.isNative_label.native.trans (isNative_label (.record name members)).native.symm
  | .enumeration name isBitmask items => by
    refine Tree.edgesList_iff.2 fun t ht => ?_
    obtain ⟨i, -, rfl⟩ := List.mem_map.1 ht
    have hi : i.tree.label.IsNative := .mk' rfl (Or.inl rfl)
    refine ⟨⟨List.mem_singleton_self _, nofun, ?_⟩, trivial⟩
    exact hi.native.trans (isNative_label (.enumeration name isBitmask items)).native.symm
  | .alias _ _ => trivial
  | .function _ _ _ => trivial

theorem edgesList (d : Declaration) (hk : d.kind = .unit ∨ d.kind = .namespace)
    (hd : d.flags.has .synthesized = false) :
    ∀ es : List Entry, Tree.EdgesList Declaration.MayHold d (trees es)
  | [] => trivial
  | e :: es => by
    refine ⟨⟨?_, fun h => ?_, ?_⟩, edges e, edgesList d hk hd es⟩
    · rw [e.label_kind]
      simpa using hk
    · rcases hk with hk | hk <;> exact absurd (hk.symm.trans h) nofun
    · rw [e.isNative_label.native, hd]

end

mutual

/-- All that is at and below an entry is the label of an entry, of a member or of an item. -/
theorem forall_preorder {P : Declaration → Prop} (hentry : ∀ e : Entry, P e.tree.label)
    (hmember : ∀ m : Member, P m.tree.label) (hitem : ∀ i : EnumItem, P i.tree.label) :
    ∀ e : Entry, ∀ d ∈ e.tree.preorder, P d
  | .namespace name entries => by
    intro d hd
    rcases List.mem_cons.1 hd with rfl | hd
    · exact hentry (.namespace name entries)
    · exact forall_preorderList hentry hmember hitem entries d hd
  | .record name members => by
    intro d hd
    rcases List.mem_cons.1 hd with rfl | hd
    · exact hentry (.record name members)
    · rw [Tree.preorderList_eq_flatMap, List.mem_flatMap] at hd
      obtain ⟨t, ht, hd⟩ := hd
      obtain ⟨m, -, rfl⟩ := List.mem_map.1 ht
      rw [m.preorder, List.mem_singleton] at hd
      exact hd ▸ hmember m
  | .enumeration name isBitmask items => by
    intro d hd
    rcases List.mem_cons.1 hd with rfl | hd
    · exact hentry (.enumeration name isBitmask items)
    · rw [Tree.preorderList_eq_flatMap, List.mem_flatMap] at hd
      obtain ⟨t, ht, hd⟩ := hd
      obtain ⟨i, -, rfl⟩ := List.mem_map.1 ht
      obtain rfl := List.mem_singleton.1 hd
      exact hitem i
  | .alias name target => by
    intro d hd
    exact List.mem_singleton.1 hd ▸ hentry (.alias name target)
  | .function name parameters returns => by
    intro d hd
    exact List.mem_singleton.1 hd ▸ hentry (.function name parameters returns)

theorem forall_preorderList {P : Declaration → Prop} (hentry : ∀ e : Entry, P e.tree.label)
    (hmember : ∀ m : Member, P m.tree.label) (hitem : ∀ i : EnumItem, P i.tree.label) :
    ∀ es : List Entry, ∀ d ∈ Tree.preorderList (trees es), P d
  | [] => nofun
  | e :: es => by
    intro d hd
    rcases List.mem_append.1 hd with hd | hd
    · exact forall_preorder hentry hmember hitem e d hd
    · exact forall_preorderList hentry hmember hitem es d hd

end

theorem isNative_item (i : EnumItem) : i.tree.label.IsNative := .mk' rfl (Or.inl rfl)

theorem isNative_preorder : ∀ e : Entry, ∀ d ∈ e.tree.preorder, d.IsNative :=
  forall_preorder isNative_label Member.isNative_label isNative_item

theorem isNative_preorderList :
    ∀ es : List Entry, ∀ d ∈ Tree.preorderList (trees es), d.IsNative :=
  forall_preorderList isNative_label Member.isNative_label isNative_item

theorem isNative_unit (file : String) (es : List Entry) :
    ∀ d ∈ (Tree.node { kind := .unit, name := file } (trees es)).preorder, d.IsNative := by
  intro d hd
  rcases List.mem_cons.1 hd with rfl | hd
  · exact .mk' rfl (Or.inl rfl)
  · exact isNative_preorderList es d hd

theorem isSound_unit (file : String) (es : List Entry) :
    (Tree.node { kind := .unit, name := file } (trees es)).IsSound where
  edges := edgesList _ (Or.inl rfl) (isNative_unit file es _ List.mem_cons_self).native es
  removed d hd := (isNative_unit file es d hd).isRemoved

end Entry

/-! ### Trees of blocks -/

/-- A tree that the toolchain made, and that may go below a declaration of kind `k`. -/
structure IsProduct (k : Kind) (t : Tree Declaration) : Prop extends t.IsSound where
  goal : k ∈ t.label.kind.parents
  fresh : ∀ d ∈ t.preorder, d.IsFresh ∧ d.flags.has .synthesized

theorem isProduct_synthesize {t : Tree Declaration} {k : Kind}
    (hedges : t.Edges Declaration.MayHold) (hgoal : k ∈ t.label.kind.parents)
    (hnative : ∀ d ∈ t.preorder, d.IsNative) : IsProduct k (synthesize t) := by
  have hfresh : ∀ d ∈ (synthesize t).preorder, d.IsFresh ∧ d.flags.has .synthesized := by
    intro d hd
    rw [synthesize, Tree.preorder_map, List.mem_map] at hd
    obtain ⟨e, he, rfl⟩ := hd
    exact ⟨(hnative e he).synthesized, Flags.has_union_right _ _⟩
  refine ⟨⟨Tree.Edges.map (fun a b h => ?_) t hedges, fun d hd => (hfresh d hd).1.isRemoved⟩, ?_,
    hfresh⟩
  · obtain ⟨h1, h2, -⟩ := h
    have h3 : Flags.has .synthesized .incomplete = false := by decide
    refine ⟨h1, fun hk => ?_, ?_⟩
    · simpa [Declaration.isComplete, Flags.isBit_incomplete.has_union, h3] using h2 hk
    · rw [Flags.has_union_right, Flags.has_union_right]
  · rw [synthesize, Tree.label_map]
    exact hgoal

theorem isProduct_of_mem (p : Product) {x : Option String × Tree Declaration}
    (hx : x ∈ p.trees) : IsProduct (if x.1.isSome then .record else .unit) x.2 := by
  cases p with
  | extension owner members =>
    obtain ⟨m, -, rfl⟩ := List.mem_map.1 hx
    refine isProduct_synthesize (m.edges _) ?_ fun d hd => ?_
    · rw [m.label_kind]
      exact List.mem_singleton_self _
    · rw [m.preorder, List.mem_singleton] at hd
      exact hd ▸ m.isNative_label
  | entry e =>
    obtain rfl := List.mem_singleton.1 hx
    refine isProduct_synthesize e.edges ?_ e.isNative_preorder
    rw [e.label_kind]
    exact List.mem_cons_self

end Dump

namespace Graph

variable {g h : Graph} {t : Tree Declaration} {i : DeclId} {s : Slot} {file : String}

structure IsLoaded (g : Graph) : Prop extends g.WellFormed where
  awaits : g.Awaits g.pending
  fresh : ∀ {i s}, g.get? i = some s → s.IsFresh
  split : g.IsSplit g.pending

namespace IsLoaded

/-- What the toolchain made is not live before it is attached, and everything else is. -/
theorem live_iff (hg : g.IsLoaded) (hs : g.get? i = some s) :
    g.IsLive i ↔ s.flags.has .synthesized = false := by
  rw [hg.split.live_iff hg.toWellFormed hg.awaits hs]
  exact and_iff_right (hg.fresh hs).isRemoved

theorem empty : IsLoaded {} where
  id_eq := nofun
  mem_children := nofun
  nodup_children := nofun
  parent_lt := by
    rintro p c ⟨s, hs, -⟩
    exact absurd hs nofun
  acyclic := acyclic_of_rank (fun i => i) fun p i ⟨s, hs, _⟩ => absurd hs nofun
  mem_units := nofun
  unit_lt := nofun
  nodup_units := List.nodup_nil
  nodup_names := List.nodup_nil
  kind_parent := nofun
  removed := nofun
  awaits := ⟨List.nodup_nil, nofun, nofun⟩
  fresh := nofun
  split := ⟨nofun, nofun, nofun⟩

theorem fresh_plant (hg : g.IsLoaded) (ht : t.IsSound) (hfresh : ∀ d ∈ t.preorder, d.IsFresh)
    (hs : (g.plant t).get? i = some s) : s.IsFresh := by
  rcases get?_plant_cases ht hs with ⟨hs, -⟩ | ⟨hm, -, -⟩
  · exact hg.fresh hs
  · refine hfresh _ ?_
    rw [← t.map_toDeclaration_slots none g.size]
    exact List.mem_map_of_mem hm

theorem origin_edge_plant (hg : g.IsLoaded) (ht : t.IsSound) {p c : DeclId} {s u : Slot}
    (hs : (g.plant t).get? p = some s) (hu : (g.plant t).get? c = some u)
    (hp : u.parent = some p) : u.flags.has .synthesized = s.flags.has .synthesized := by
  rcases get?_plant_cases ht hu with ⟨hu, -⟩ | ⟨hm, -, -⟩
  · obtain ⟨v, hv⟩ := exists_get?_of_lt (hg.parent_lt ⟨u, hu, hp⟩)
    obtain rfl := Option.some.inj (hs.symm.trans (get?_plant_of_get? hv t))
    exact hg.split.edge hv hu hp
  · obtain ⟨v, hv, rfl, -, hh⟩ := parent_planted ht hm hp
    obtain rfl := Option.some.inj (hs.symm.trans (get?_plant_of_mem ht hv))
    exact hh.2.2

theorem root_plant (ht : t.IsSound) (hs : (g.plant t).get? g.size = some s) :
    s.toDeclaration = t.label := by
  rcases get?_plant_cases ht hs with ⟨-, hlt⟩ | ⟨hm, hid, -⟩
  · exact absurd hlt (lt_irrefl _)
  · exact WellFormed.label_planted ht hm hid

theorem addUnitTree (hg : g.IsLoaded) (entries : List Dump.Entry) (hn : g.hasUnit file = false) :
    (g.addUnitTree file (Dump.Entry.trees entries)).IsLoaded := by
  have hnative := Dump.Entry.isNative_unit file entries
  have ht := Dump.Entry.isSound_unit file entries
  set t : Tree Declaration := .node { kind := .unit, name := file } (Dump.Entry.trees entries)
  have hnew : ∀ u ∈ g.units, g.name? u ≠ some t.label.name := by
    intro u hu hname
    rw [hasUnit, List.any_eq_false] at hn
    obtain ⟨s, hs, hsn⟩ := Option.map_eq_some_iff.1 hname
    refine hn u hu ?_
    rw [hs, Option.any_some, hsn]
    exact beq_self_eq_true file
  have haw : (g.plant t).Awaits (g.pending ++ []) :=
    hg.awaits.plant ht [] nofun List.nodup_nil (Or.inl rfl)
  rw [List.append_nil] at haw
  refine { hg.toWellFormed.plant_unit ht rfl hnew with
    awaits := ⟨haw.nodup, haw.isRoot, haw.rooted⟩
    fresh := hg.fresh_plant ht fun d hd => (hnative d hd).toIsFresh
    split := ⟨hg.origin_edge_plant ht, ?_, ?_⟩ }
  · intro u s hu hs
    rcases List.mem_append.1 hu with hu | hu
    · obtain ⟨v, hv, -⟩ := hg.exists_unit hu
      obtain rfl := Option.some.inj (hs.symm.trans (get?_plant_of_get? hv t))
      exact hg.split.unit hu hv
    · rw [List.mem_singleton.1 hu] at hs
      rw [root_plant ht hs]
      exact (hnative _ (List.mem_cons_self)).native
  · intro p s hp hs
    obtain ⟨v, hv, -⟩ := hg.awaits.isRoot hp
    obtain rfl := Option.some.inj (hs.symm.trans (get?_plant_of_get? hv t))
    exact hg.split.waiting hp hv

theorem addPendingTree (hg : g.IsLoaded) {x : Option String × Tree Declaration}
    (hx : Dump.IsProduct (if x.1.isSome then .record else .unit) x.2) :
    (g.addPendingTree file x).IsLoaded := by
  have ht := hx.toIsSound
  have hk : x.2.label.kind ≠ .unit := by
    intro hk
    have := hx.goal
    rw [hk] at this
    exact absurd this List.not_mem_nil
  have hsynth : ∀ {s}, (g.plant x.2).get? g.size = some s → s.flags.has .synthesized := by
    intro s hs
    rw [root_plant ht hs]
    refine (hx.fresh _ ?_).2
    cases x.2
    exact List.mem_cons_self
  have haw := hg.awaits.plant ht [{ unit := file, owner := x.1, decl := g.size }]
    (fun p hp => by
      obtain rfl := List.mem_singleton.1 hp
      exact ⟨rfl, hx.goal⟩) (List.nodup_singleton _) (Or.inr nofun)
  refine { (hg.toWellFormed.plant ht hk).withPending _ with
    awaits := ⟨haw.nodup, haw.isRoot, haw.rooted⟩
    fresh := hg.fresh_plant ht fun d hd => (hx.fresh d hd).1
    split := ⟨hg.origin_edge_plant ht, ?_, ?_⟩ }
  · intro u s hu hs
    obtain ⟨v, hv, -⟩ := hg.exists_unit hu
    obtain rfl := Option.some.inj (hs.symm.trans (get?_plant_of_get? hv x.2))
    exact hg.split.unit hu hv
  · intro p s hp hs
    rcases List.mem_append.1 hp with hp | hp
    · obtain ⟨v, hv, -⟩ := hg.awaits.isRoot hp
      obtain rfl := Option.some.inj (hs.symm.trans (get?_plant_of_get? hv x.2))
      exact hg.split.waiting hp hv
    · obtain rfl := List.mem_singleton.1 hp
      exact hsynth hs

theorem addBlock (hg : g.IsLoaded) {b : Dump.Block} (hb : g.addBlock b = .ok h) : h.IsLoaded := by
  cases b with
  | unit file entries =>
    rw [Graph.addBlock] at hb
    split at hb
    · exact absurd hb nofun
    · next hn =>
      obtain rfl := Except.ok.inj hb
      exact hg.addUnitTree entries (by simpa using hn)
  | generated file products =>
    obtain rfl := Except.ok.inj hb
    clear hb
    have hall : ∀ x ∈ products.flatMap Dump.Product.trees,
        Dump.IsProduct (if x.1.isSome then .record else .unit) x.2 := by
      intro x hx
      obtain ⟨p, -, hx⟩ := List.mem_flatMap.1 hx
      exact Dump.isProduct_of_mem p hx
    revert hall
    generalize products.flatMap Dump.Product.trees = xs
    intro hall
    induction xs generalizing g with
    | nil => exact hg
    | cons x xs ih =>
      exact ih (hg.addPendingTree (hall x List.mem_cons_self))
        fun y hy => hall y (List.mem_cons_of_mem x hy)

end IsLoaded

/-- What holds of the empty graph and is kept with every block holds of the graph of a dump. -/
theorem ofDump_induction {P : Dump → Graph → Prop} (hempty : P [] {})
    (hblock : ∀ {d g b h}, P d g → g.addBlock b = .ok h → P (d ++ [b]) h) {d : Dump}
    (h : ofDump d = .ok g) : P d g := by
  induction d using List.reverseRecOn generalizing g with
  | nil => exact Except.ok.inj h ▸ hempty
  | append_singleton d b ih =>
    rw [ofDump, List.foldlM_append] at h
    cases hk : ofDump d with
    | error e =>
      rw [show d.foldlM addBlock {} = _ from hk] at h
      exact absurd h nofun
    | ok k =>
      rw [show d.foldlM addBlock {} = _ from hk] at h
      refine hblock (ih hk) ?_
      change [b].foldlM addBlock k = .ok g at h
      simpa using h

theorem isLoaded_ofDump {d : Dump} (h : ofDump d = .ok g) : g.IsLoaded :=
  ofDump_induction (P := fun _ g => g.IsLoaded) .empty (fun hg hb => hg.addBlock hb) h

/-- Whatever text is accepted, its graph is well-formed and new. -/
theorem isLoaded_ofText {origin text : String} (h : ofText origin text = .ok g) : g.IsLoaded := by
  unfold ofText at h
  split at h
  · exact isLoaded_ofDump h
  · exact absurd h nofun

/-- Whether a text is accepted with a graph of some kind can be computed. -/
theorem exists_ofText {origin text : String} {P : Graph → Bool} {Q : Graph → Prop}
    (h : (Dump.ofText text.toList).toOption.any fun d => (ofDump d).toOption.any P)
    (hQ : ∀ g, ofText origin text = .ok g → P g → Q g) : ∃ g, ofText origin text = .ok g ∧ Q g := by
  unfold ofText at hQ ⊢
  cases hd : Dump.ofText text.toList with
  | error e =>
    rw [hd] at h
    exact absurd h nofun
  | ok d =>
    rw [hd] at h hQ
    replace h : (ofDump d).toOption.any P := h
    cases hg : ofDump d with
    | error e =>
      rw [hg] at h
      exact absurd h nofun
    | ok g =>
      rw [hg] at h
      exact ⟨g, hg, hQ g hg h⟩

/-- The characters of a text that is written out need not be computed. -/
theorem exists_ofText_ofList {origin : String} {cs : List Char} {P : Graph → Bool}
    {Q : Graph → Prop}
    (h : (Dump.ofText cs).toOption.any fun d => (ofDump d).toOption.any P)
    (hQ : ∀ g, ofText origin (String.ofList cs) = .ok g → P g → Q g) :
    ∃ g, ofText origin (String.ofList cs) = .ok g ∧ Q g :=
  exists_ofText (by rwa [String.toList_ofList]) hQ

end Graph

end Bindery
