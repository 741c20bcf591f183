import Bindery.Pipeline.Basic
import Bindery.Proofs.Dump.Load
import Bindery.Proofs.Dump.Words
import Bindery.Proofs.Pipeline.Trim

/-!
# Names of items after trimming

Trimming looks at one item after another, and at the names given so far. Where the items of each
enumeration have different names, `Graph.NamesItems`, it comes to a rule without an order,
`Graph.IsTrimmed`: two items of an enumeration have different rests, so what an item gets depends on
names from before only. Hence `Graph.Reorders`, another order of children, changes nothing, and the
items have different names again.
-/

namespace Bindery

open Dump (IsIdent)

/-! ### The rule -/

/-- The front of an item's name that says which enumeration it is of. -/
def Trim.itemPrefix (enumeration : String) : String :=
  if ['_'] <:+ enumeration.toList then enumeration else enumeration ++ "_"

theorem Trim.toList_itemPrefix (enumeration : String) :
    (itemPrefix enumeration).toList = stem enumeration := by
  have hlast : ['_'] <:+ enumeration.toList ↔ enumeration.toList.getLast? = some '_' := by
    rw [List.getLast?_eq_some_iff]
    exact exists_congr fun _ => eq_comm
  unfold itemPrefix stem
  simp only [hlast]
  split
  · rfl
  · rw [String.toList_append]
    rfl

namespace Graph

variable {g h : Graph} {e i j : DeclId} {s t : Slot} {rest : String} {es xs : List DeclId}
  {name : DeclId → String}

/-- A live enumeration. -/
def IsEnumeration (g : Graph) (e : DeclId) : Prop :=
  g.IsLive e ∧ ∃ t, g.get? e = some t ∧ t.kind = .enumeration

/-- The items of each live enumeration have different names, all of them identifiers. -/
structure NamesItems (g : Graph) : Prop where
  isIdent : ∀ {e s}, g.IsEnumeration e → g.IsItem e s → IsIdent s.name
  eq_of_name : ∀ {e s t}, g.IsEnumeration e → g.IsItem e s → g.IsItem e t → s.name = t.name →
    s.id = t.id

/-- Whether all items have identifiers as names, and different ones if they have the same parent. -/
def namesAllItems (g : Graph) : Bool :=
  g.slots.all fun s => s.kind != .item ||
    ((s.name.toList.head?.any Dump.isIdentStart && s.name.toList.all Dump.isIdentChar) &&
      g.slots.all fun t => t.kind != .item || t.parent != s.parent || s.name != t.name ||
        s.id == t.id)

theorem namesItems_of_namesAllItems (h : g.namesAllItems) : g.NamesItems := by
  have hall : ∀ {e s}, g.IsItem e s → _ := fun {e s} hs => Array.all_eq_true_iff_forall_mem.1 h s
    (Array.mem_of_getElem? hs.get?)
  constructor
  · intro e s _ hs
    have := hall hs
    rw [hs.kind] at this
    exact Dump.isIdent_of_all (Bool.and_eq_true_iff.1 this).1
  · intro e s t _ hs ht hname
    have := hall hs
    rw [hs.kind] at this
    have := Array.all_eq_true_iff_forall_mem.1 (Bool.and_eq_true_iff.1 this).2 t
      (Array.mem_of_getElem? ht.get?)
    simpa [ht.kind, ht.parent, hs.parent, hname] using this

/-- `rest` is what is left of the name of item `i`: neither the item nor its enumeration is ignored,
`rest` can begin a name, and no item of the enumeration has it. -/
structure IsTrimmed (g : Graph) (i : DeclId) (rest : String) (e s : Slot) : Prop where
  isEnumeration : g.IsEnumeration e.id
  get? : g.get? e.id = some e
  isItem : g.IsItem e.id s
  id_eq : s.id = i
  kept : e.isIgnored = false ∧ s.isIgnored = false
  name_eq : s.name = Trim.itemPrefix e.name ++ rest
  ne_empty : rest ≠ ""
  head : ∀ c ∈ rest.toList.head?, c.isDigit = false
  free : ∀ t, g.IsItem e.id t → t.name ≠ rest

theorem isTrimmed_iff : g.IsTrimmed i rest t s ↔ g.IsEnumeration t.id ∧ g.get? t.id = some t ∧
    g.IsItem t.id s ∧ s.id = i ∧ t.isIgnored = false ∧ Trim.HasRest t.name s rest ∧
    ∀ u, g.IsItem t.id u → u.name ≠ rest := by
  have hrest : Trim.HasRest t.name s rest ↔ s.isIgnored = false ∧
      s.name = Trim.itemPrefix t.name ++ rest ∧ rest ≠ "" ∧
      ∀ c ∈ rest.toList.head?, c.isDigit = false := by
    rw [Trim.HasRest, Trim.rest?_eq_some_iff, ← Trim.toList_itemPrefix, ← String.toList_append,
      String.toList_inj]
    refine and_congr_right fun _ => and_congr_right fun _ => ?_
    rw [ne_eq, ← String.toList_eq_nil_iff]
    cases rest.toList <;> simp
  rw [hrest]
  constructor
  · rintro ⟨he, ht, hs, hi, ⟨hte, hse⟩, hn, hr, hd, hf⟩
    exact ⟨he, ht, hs, hi, hte, ⟨hse, hn, hr, hd⟩, hf⟩
  · rintro ⟨he, ht, hs, hi, hte, ⟨hse, hn, hr, hd⟩, hf⟩
    exact ⟨he, ht, hs, hi, ⟨hte, hse⟩, hn, hr, hd, hf⟩

theorem IsItem.eq_of_id (hs : g.IsItem e s) (ht : g.IsItem i t) (h : s.id = t.id) : s = t := by
  have := hs.get?
  rw [h, ht.get?] at this
  exact (Option.some.inj this).symm

/-- The item of the rule, and its enumeration. -/
theorem IsTrimmed.eq_of_isItem {u v : Slot} (h : g.IsTrimmed s.id rest u v) (hs : g.IsItem e s) :
    v = s ∧ u.id = e := by
  obtain rfl := h.isItem.eq_of_id hs h.id_eq
  exact ⟨rfl, h.isItem.isParent.unique hs.isParent⟩

/-- Which items get which names, where the items of an enumeration have different names. -/
theorem TrimsIn.mem_iff (h : g.TrimsIn es xs name) (hg : g.IsNumbered) (hn : g.NamesItems)
    (hes : ∀ e, e ∈ es ↔ g.IsEnumeration e) (i : DeclId) (rest : String) :
    i ∈ xs ∧ name i = rest ↔ ∃ e s, g.IsTrimmed i rest e s := by
  simp only [isTrimmed_iff]
  constructor
  · rintro ⟨hi, rfl⟩
    obtain ⟨e, he, t, s, ht, hig, hsi, hs, hr, hfree⟩ := h.rest i hi
    obtain rfl := hg e t ht
    exact ⟨t, s, (hes _).1 he, ht, hs, hsi, hig, hr, hfree⟩
  · rintro ⟨e, s, he, hge, hs, rfl, hig, hr, hfree⟩
    rcases h.kept e.id ((hes _).2 he) e s rest hge hig hs hr with ⟨t, ht, htr⟩ | ⟨t, ht, htx, htr⟩
    · exact absurd htr (hfree t ht)
    -- the item that got the name had the same rest, so it is the same item
    obtain ⟨e', -, u, v, hu, -, hvt, hv, hvr, -⟩ := h.rest t.id htx
    obtain rfl := hv.eq_of_id ht hvt
    obtain rfl := hv.isParent.unique ht.isParent
    rw [Option.some.inj (hu.symm.trans hge), htr] at hvr
    have hid : s.id = v.id := hn.eq_of_name he hs ht (Trim.rest?_injective hr.2 hvr.2)
    rw [hid]
    exact ⟨htx, htr⟩

/-! ### The names after it -/

theorem isEnumeration_calledIn :
    (g.mapSlots (Slot.calledIn xs name)).IsEnumeration e ↔ g.IsEnumeration e := by
  rw [IsEnumeration, IsEnumeration, isLive_mapSlots_of_keepsPlace (keepsPlace_calledIn xs name)]
  simp [Slot.kind_calledIn]

theorem IsItem.exists_of_calledIn (ht : (g.mapSlots (Slot.calledIn xs name)).IsItem e t) :
    ∃ s, g.IsItem e s ∧ t = s.calledIn xs name := by
  obtain ⟨hget, hp, hk⟩ := ht
  obtain ⟨s, hs, rfl⟩ := get?_mapSlots_eq_some hget
  obtain ⟨hid, hparent, -⟩ := keepsPlace_calledIn xs name s
  rw [hid] at hs
  rw [Slot.kind_calledIn] at hk
  exact ⟨s, ⟨hs, hparent.symm.trans hp, hk⟩, rfl⟩

/-- Behind the stem of an identifier stands one, unless it begins with a digit. -/
theorem IsTrimmed.isIdent {e : Slot} (h : g.IsTrimmed i rest e s) (hn : g.NamesItems) :
    IsIdent rest := by
  have hall := (hn.isIdent h.isEnumeration h.isItem).forall_mem
  rw [h.name_eq, String.toList_append, List.forall_mem_append] at hall
  have hne : rest.toList ≠ [] := fun h0 => h.ne_empty (String.toList_eq_nil_iff.1 h0)
  have hhead := h.head
  obtain ⟨c, r, hr⟩ := List.exists_cons_of_ne_nil hne
  rw [hr] at hall hhead
  obtain ⟨hc, hr'⟩ := List.forall_mem_cons.1 hall.2
  exact ⟨c, r, hr, Dump.isIdentStart_of_isIdentChar hc (hhead c rfl), hr'⟩

/-- Trimming keeps names identifiers and different. -/
theorem NamesItems.calledIn (hn : g.NamesItems)
    (hxs : ∀ i rest, i ∈ xs ∧ name i = rest ↔ ∃ e s, g.IsTrimmed i rest e s) :
    (g.mapSlots (Slot.calledIn xs name)).NamesItems := by
  -- an item that gets a name gets one that no item of the enumeration has
  have hfree : ∀ {e s t}, g.IsItem e s → g.IsItem e t → s.id ∈ xs → t.name ≠ name s.id := by
    intro e s t hs ht hx
    obtain ⟨u, v, h⟩ := (hxs s.id _).1 ⟨hx, rfl⟩
    obtain ⟨-, rfl⟩ := h.eq_of_isItem hs
    exact h.free t ht
  constructor
  · intro e t he ht
    obtain ⟨s, hs, rfl⟩ := ht.exists_of_calledIn
    rw [isEnumeration_calledIn] at he
    rw [Slot.name_calledIn]
    split
    · next hx =>
      obtain ⟨u, s', h⟩ := (hxs s.id _).1 ⟨hx, rfl⟩
      exact h.isIdent hn
    · exact hn.isIdent he hs
  · intro e t t' he ht ht' hname
    obtain ⟨s, hs, rfl⟩ := ht.exists_of_calledIn
    obtain ⟨s', hs', rfl⟩ := ht'.exists_of_calledIn
    rw [isEnumeration_calledIn] at he
    rw [Slot.name_calledIn, Slot.name_calledIn] at hname
    rw [(keepsPlace_calledIn xs name s).1, (keepsPlace_calledIn xs name s').1]
    split at hname <;> split at hname
    · next hx hx' =>
      obtain ⟨u, v, h⟩ := (hxs s.id _).1 ⟨hx, rfl⟩
      obtain ⟨u', v', h'⟩ := (hxs s'.id _).1 ⟨hx', rfl⟩
      obtain ⟨rfl, rfl⟩ := h.eq_of_isItem hs
      obtain ⟨rfl, hu⟩ := h'.eq_of_isItem hs'
      have hgu := h'.get?
      rw [hu, h.get?] at hgu
      obtain rfl := Option.some.inj hgu
      exact hn.eq_of_name he hs hs' (by rw [h.name_eq, h'.name_eq, hname])
    · next hx _ => exact absurd hname.symm (hfree hs hs' hx)
    · next _ hx' => exact absurd hname (hfree hs' hs hx')
    · exact hn.eq_of_name he hs hs' hname

/-! ### Another order -/

/-- The same declarations in the same places, with other orders of units and of children. -/
structure Reorders (g h : Graph) : Prop where
  units : h.units.Perm g.units
  size : h.size = g.size
  slot : ∀ i s, g.get? i = some s → ∃ cs, cs.Perm s.children ∧
    h.get? i = some { s with children := cs }

namespace Reorders

theorem symm (h' : g.Reorders h) : h.Reorders g := by
  refine ⟨h'.units.symm, h'.size.symm, fun i t ht => ?_⟩
  obtain ⟨s, hs⟩ := exists_get?_of_lt (h'.size ▸ lt_size_of_get? ht)
  obtain ⟨cs, hcs, ht'⟩ := h'.slot i s hs
  obtain rfl := Option.some.inj (ht.symm.trans ht')
  exact ⟨s.children, hcs.symm, hs⟩

theorem isParent_of {p c : DeclId} (h' : g.Reorders h) (hpc : g.IsParent p c) : h.IsParent p c := by
  obtain ⟨s, hs, hp⟩ := hpc
  obtain ⟨cs, -, ht⟩ := h'.slot c s hs
  exact ⟨_, ht, hp⟩

theorem isParent_eq (h' : g.Reorders h) : h.IsParent = g.IsParent := by
  funext p c
  exact propext ⟨h'.symm.isParent_of, h'.isParent_of⟩

theorem isLive_iff (h' : g.Reorders h) : h.IsLive i ↔ g.IsLive i := by
  rw [IsLive, IsAbove, h'.isParent_eq]
  simp only [h'.units.mem_iff]
  rfl

theorem isRooted (h' : g.Reorders h) (hg : g.IsRooted) : h.IsRooted where
  id_eq := by
    intro i t ht
    obtain ⟨cs, -, hs⟩ := h'.symm.slot i t ht
    exact (hg.id_eq hs :)
  mem_children := by
    intro p t ht c
    obtain ⟨cs, hcs, hs⟩ := h'.symm.slot p t ht
    rw [← hcs.mem_iff, h'.isParent_eq]
    exact hg.mem_children hs c
  nodup_children := by
    intro p t ht
    obtain ⟨cs, hcs, hs⟩ := h'.symm.slot p t ht
    exact hcs.nodup_iff.1 (hg.nodup_children hs)
  parent_lt := by
    rw [h'.isParent_eq, h'.size]
    exact hg.parent_lt
  acyclic := by
    rw [h'.isParent_eq]
    exact hg.acyclic
  parent_unit := by
    intro i t ht hk
    obtain ⟨cs, -, hs⟩ := h'.symm.slot i t ht
    exact (hg.parent_unit hs hk :)
  kind_unit := by
    intro u hu
    obtain ⟨s, hs, hk⟩ := hg.kind_unit (h'.units.mem_iff.1 hu)
    obtain ⟨cs, -, ht⟩ := h'.slot u s hs
    exact ⟨_, ht, hk⟩
  nodup_units := h'.units.nodup_iff.2 hg.nodup_units

theorem isItem_of (h' : g.Reorders h) (hs : g.IsItem e s) :
    ∃ cs, h.IsItem e { s with children := cs } := by
  obtain ⟨cs, -, ht⟩ := h'.slot s.id s hs.get?
  exact ⟨cs, ht, hs.parent, hs.kind⟩

theorem isEnumeration_of (h' : g.Reorders h) (he : g.IsEnumeration e) : h.IsEnumeration e := by
  obtain ⟨hl, t, ht, hk⟩ := he
  obtain ⟨cs, -, ht'⟩ := h'.slot e t ht
  exact ⟨h'.isLive_iff.2 hl, _, ht', hk⟩

theorem namesItems (h' : g.Reorders h) (hn : g.NamesItems) : h.NamesItems where
  isIdent := by
    intro e t he ht
    obtain ⟨cs, hs⟩ := h'.symm.isItem_of ht
    exact (hn.isIdent (h'.symm.isEnumeration_of he) hs :)
  eq_of_name := by
    intro e t t' he ht ht' hname
    obtain ⟨cs, hs⟩ := h'.symm.isItem_of ht
    obtain ⟨cs', hs'⟩ := h'.symm.isItem_of ht'
    exact (hn.eq_of_name (h'.symm.isEnumeration_of he) hs hs' hname :)

theorem isTrimmed_of (h' : g.Reorders h) {e : Slot} (hr : g.IsTrimmed i rest e s) :
    ∃ e s, h.IsTrimmed i rest e s := by
  obtain ⟨cs, -, he⟩ := h'.slot e.id e hr.get?
  obtain ⟨cs', hs⟩ := h'.isItem_of hr.isItem
  refine ⟨{ e with children := cs }, { s with children := cs' }, ?_⟩
  refine ⟨h'.isEnumeration_of hr.isEnumeration, he, hs, hr.id_eq, hr.kept, hr.name_eq, hr.ne_empty,
    hr.head, fun t ht => ?_⟩
  obtain ⟨ds, ht⟩ := h'.symm.isItem_of ht
  exact (hr.free _ ht :)

theorem isTrimmed_iff (h' : g.Reorders h) :
    (∃ e s, h.IsTrimmed i rest e s) ↔ ∃ e s, g.IsTrimmed i rest e s :=
  ⟨fun ⟨_, _, hr⟩ => h'.symm.isTrimmed_of hr, fun ⟨_, _, hr⟩ => h'.isTrimmed_of hr⟩

end Reorders

end Graph

/-! ### The pass -/

namespace Trim

variable {w : Work}

/-- The items that trimming gives names to are those that the rule says. -/
theorem exists_run (hg : w.graph.IsRooted) (hn : w.graph.NamesItems) :
    ∃ ids name w', run w = some (.ok ids.length, w') ∧ ids.Nodup ∧
      (∀ i rest, i ∈ ids ∧ name i = rest ↔ ∃ e s, w.graph.IsTrimmed i rest e s) ∧
      w'.graph = w.graph.mapSlots (Slot.calledIn ids name) := by
  obtain ⟨res, w', hw', hok, herr⟩ := Step.runs_iff.1 (runs_run_named (E := fun _ _ => False) hg)
  cases res with
  | error e => exact (herr e rfl).elim
  | ok n =>
    obtain ⟨es, xs, name, hes, hxs, hgraph, rfl, -⟩ := hok n rfl
    exact ⟨xs, name, w', hw', hxs.nodup, hxs.mem_iff hg.isNumbered hn hes, hgraph⟩

end Trim

theorem Slot.calledIn_congr {xs ys : List DeclId} {name name' : DeclId → String}
    (h : ∀ i rest, i ∈ xs ∧ name i = rest ↔ i ∈ ys ∧ name' i = rest) :
    Slot.calledIn xs name = Slot.calledIn ys name' := by
  have hmem : ∀ i, i ∈ xs ↔ i ∈ ys := fun i =>
    ⟨fun hi => ((h i _).1 ⟨hi, rfl⟩).1, fun hi => ((h i _).2 ⟨hi, rfl⟩).1⟩
  funext s
  unfold Slot.calledIn
  simp only [hmem]
  split
  · next hi => rw [((h s.id _).1 ⟨(hmem _).2 hi, rfl⟩).2]
  · rfl

namespace Pass

variable {w : Work}

/-- Trimming gives exactly the names that the rule says, which are different identifiers again, and
changes nothing else; the order of declarations does not matter. -/
theorem trims_by_rule (hg : w.graph.IsRooted) (hn : w.graph.NamesItems) (scope : Scope) :
    ∃ ids name w', Pass.trim.run scope w = some (.ok ids.length, w') ∧ ids.Nodup ∧
      (∀ i rest, i ∈ ids ∧ name i = rest ↔ ∃ e s, w.graph.IsTrimmed i rest e s) ∧
      w'.graph = w.graph.mapSlots (Slot.calledIn ids name) ∧ w'.graph.NamesItems ∧
      ∀ v : Work, w.graph.Reorders v.graph → ∃ v',
        Pass.trim.run scope v = some (.ok ids.length, v') ∧
        v'.graph = v.graph.mapSlots (Slot.calledIn ids name) := by
  obtain ⟨ids, name, w', hw', hnd, hids, hgraph⟩ := Trim.exists_run hg hn
  refine ⟨ids, name, w', hw', hnd, hids, hgraph, hgraph ▸ hn.calledIn hids, fun v hv => ?_⟩
  obtain ⟨ids', name', v', hv', hnd', hids', hgraph'⟩ :=
    Trim.exists_run (hv.isRooted hg) (hv.namesItems hn)
  have hsame : ∀ i rest, i ∈ ids' ∧ name' i = rest ↔ i ∈ ids ∧ name i = rest := fun i rest => by
    rw [hids', hv.isTrimmed_iff, hids]
  have hperm : ids'.Perm ids := (List.perm_ext_iff_of_nodup hnd' hnd).2 fun i =>
    ⟨fun hi => ((hsame i _).1 ⟨hi, rfl⟩).1, fun hi => ((hsame i _).2 ⟨hi, rfl⟩).1⟩
  rw [hperm.length_eq] at hv'
  exact ⟨v', hv', Slot.calledIn_congr hsame ▸ hgraph'⟩

/-- An item keeps its name if another one had what is left of it, also where that one is trimmed. -/
theorem trims_by_rule_clash :
    ∃ (g : Graph) (ids : List DeclId) (name : DeclId → String) (w : Work),
      Graph.ofText "dump" "unit \"a\" \x7b enum E \x7b E_E_A, E_A, E_1, E_B, C \x7d \x7d" =
        .ok g ∧
      Pass.trim.run ⟨0⟩ { graph := g } = some (.ok ids.length, w) ∧
      (∀ i rest, i ∈ ids ∧ name i = rest ↔ ∃ e s, g.IsTrimmed i rest e s) ∧
      w.graph.NamesItems ∧
      w.graph.slots.toList.map (·.name) = ["a", "E", "E_E_A", "A", "E_1", "B", "C"] := by
  have hrun : ∃ g, Graph.ofText "dump"
      "unit \"a\" \x7b enum E \x7b E_E_A, E_A, E_1, E_B, C \x7d \x7d" = .ok g ∧
      g.namesAllItems ∧ (Pass.trim.run ⟨0⟩ { graph := g }).map (fun r =>
        r.2.graph.slots.toList.map (·.name)) = some ["a", "E", "E_E_A", "A", "E_1", "B", "C"] := by
    refine Graph.exists_ofText (P := fun g => decide (g.namesAllItems ∧
      (Pass.trim.run ⟨0⟩ { graph := g }).map (fun r => r.2.graph.slots.toList.map (·.name)) =
        some ["a", "E", "E_E_A", "A", "E_1", "B", "C"])) (by decide +kernel) fun g _ h => ?_
    exact of_decide_eq_true h
  obtain ⟨g, hg, hall, hnames⟩ := hrun
  obtain ⟨ids, name, w, hw, -, hids, -, hn, -⟩ := @trims_by_rule { graph := g }
    (Graph.isLoaded_ofText hg).toWellFormed.isRooted (Graph.namesItems_of_namesAllItems hall) ⟨0⟩
  rw [hw] at hnames
  exact ⟨g, ids, name, w, hg, hw, hids, hn, Option.some.inj hnames⟩

end Pass

end Bindery
