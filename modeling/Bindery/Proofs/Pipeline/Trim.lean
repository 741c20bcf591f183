import Bindery.Pipeline.Trim
import Bindery.Proofs.Graph.Preservation
import Bindery.Proofs.Pipeline.Logic

/-!
# What trimming does

Trimming never fails. It gives new names to enum items that are not ignored, and changes nothing
else: `Graph.ItemsRenamed`. `Graph.Trims` lists these items, each of them once, as no item stands in
two enumerations; the result of trimming is the length of that list. `Graph.TrimsIn` also says which
items these are and what names they get: the loop over the items of an enumeration decides with the
names taken so far, `Trim.Renames`.
-/

namespace Bindery

open Step

/-- The name that a declaration had first. -/
def Declaration.firstName (d : Declaration) : String := d.initialName.getD d.name

/-- The declaration under another name. -/
def Declaration.called (d : Declaration) (name : String) : Declaration :=
  { d with name := name, initialName := some d.firstName, flags := d.flags ∪ .renamed }

theorem Declaration.rename?_eq (d : Declaration) (name : String) :
    d.rename? name = if d.name = name then none else some (d.called name) := rfl

theorem Declaration.called_called (d : Declaration) (m n : String) :
    (d.called m).called n = d.called n := by
  have : d.flags ∪ .renamed ∪ .renamed = d.flags ∪ .renamed :=
    Flags.union_eq_left (Flags.has_union_right _ _)
  simp [called, firstName, this]

/-- The slot is as it was, or an item that is not ignored under another name. -/
def Slot.ItemRenamed (s t : Slot) : Prop :=
  t = s ∨ s.kind = .item ∧ s.isIgnored = false ∧
    ∃ name, t = { s with toDeclaration := s.called name }

namespace Slot.ItemRenamed

variable {s t : Slot}

theorem place (h : s.ItemRenamed t) :
    t.id = s.id ∧ t.parent = s.parent ∧ t.children = s.children ∧ t.kind = s.kind := by
  rcases h with rfl | ⟨-, -, n, rfl⟩ <;> exact ⟨rfl, rfl, rfl, rfl⟩

theorem keepsNature (h : s.ItemRenamed t) : s.KeepsNature t := by
  rcases h with rfl | ⟨hk, -, name, rfl⟩
  · exact ⟨rfl, rfl, rfl, fun _ => rfl⟩
  · have h1 : Flags.has .renamed .incomplete = false := by decide
    have h2 : Flags.has .renamed .removed = false := by decide
    refine ⟨rfl, ?_, ?_, fun hu => absurd (hk.symm.trans hu) nofun⟩
    · simp [Declaration.isComplete, Declaration.called, Flags.isBit_incomplete.has_union, h1]
    · simp [Declaration.isRemoved, Declaration.called, Flags.isBit_removed.has_union, h2]

end Slot.ItemRenamed

namespace Graph

variable {g h : Graph} {i : DeclId} {s : Slot}

/-- The graph but for other names of items that are not ignored. -/
def ItemsRenamed (g h : Graph) : Prop :=
  ∃ f : Slot → Slot, (∀ s : Slot, s.ItemRenamed (f s)) ∧ h = g.mapSlots f

namespace ItemsRenamed

theorem isRooted (hg : g.IsRooted) (hgh : g.ItemsRenamed h) : h.IsRooted := by
  obtain ⟨f, hf, rfl⟩ := hgh
  refine hg.mapSlots_of_keepsPlace (fun s => ?_) fun i s _ => (hf s).place.2.2.2
  obtain ⟨h1, h2, h3, -⟩ := (hf s).place
  exact ⟨h1, h2, h3⟩

theorem size_eq (h' : g.ItemsRenamed h) : h.size = g.size := by
  obtain ⟨f, -, rfl⟩ := h'
  exact size_mapSlots g f

end ItemsRenamed

end Graph

/-! ### The items that are trimmed -/

/-- The slot under the name that `name` says, if it is one of `ids`. -/
def Slot.calledIn (ids : List DeclId) (name : DeclId → String) (s : Slot) : Slot :=
  if s.id ∈ ids then { s with toDeclaration := s.called (name s.id) } else s

theorem Slot.kind_calledIn (ids : List DeclId) (name : DeclId → String) (s : Slot) :
    (s.calledIn ids name).kind = s.kind := by
  unfold calledIn
  split <;> rfl

theorem Slot.name_calledIn (ids : List DeclId) (name : DeclId → String) (s : Slot) :
    (s.calledIn ids name).name = if s.id ∈ ids then name s.id else s.name := by
  unfold calledIn
  split <;> rfl

/-- The later name counts. -/
theorem Slot.calledIn_calledIn (xs ys : List DeclId) (name name' : DeclId → String) (s : Slot) :
    (s.calledIn xs name).calledIn ys name' =
      s.calledIn (xs ++ ys) fun i => if i ∈ ys then name' i else name i := by
  by_cases hx : s.id ∈ xs <;> by_cases hy : s.id ∈ ys <;>
    simp [calledIn, hx, hy, Declaration.called_called]

namespace Graph

variable {g h : Graph} {ids : List DeclId}

/-- The graph with other names for `ids`, which are items that are not ignored. -/
structure Trims (g : Graph) (ids : List DeclId) (h : Graph) : Prop where
  nodup : ids.Nodup
  item : ∀ i ∈ ids, ∃ s, g.get? i = some s ∧ s.kind = .item ∧ s.isIgnored = false
  eq : ∃ name, h = g.mapSlots (Slot.calledIn ids name)

namespace Trims

theorem itemsRenamed (hg : g.IsNumbered) (h' : g.Trims ids h) : g.ItemsRenamed h := by
  obtain ⟨-, hitem, name, rfl⟩ := h'
  refine ⟨fun s => if s.kind = .item ∧ s.isIgnored = false then s.calledIn ids name else s,
    fun s => ?_, mapSlots_congr fun i s hs => ?_⟩
  · show s.ItemRenamed (if s.kind = .item ∧ s.isIgnored = false then _ else s)
    split
    · next hc =>
      unfold Slot.calledIn
      split
      · exact Or.inr ⟨hc.1, hc.2, _, rfl⟩
      · exact Or.inl rfl
    · exact Or.inl rfl
  · by_cases hi : s.id ∈ ids
    · obtain ⟨t, ht, hk⟩ := hitem s.id hi
      rw [hg i s hs, hs] at ht
      rw [if_pos (Option.some.inj ht ▸ hk)]
    · have : s.calledIn ids name = s := if_neg hi
      rw [this, ite_self]

end Trims

end Graph

theorem Step.runs_discard {α : Type} {p : Step α} {w : Work} {Q : Unit → Work → Prop}
    {E : PipelineError → Work → Prop} (h : Runs p w (fun _ w' => Q () w') E) :
    Runs (discard p) w Q E := by
  show Runs (p >>= fun _ => pure ()) w Q E
  exact runs_bind h

namespace Trim

variable {name rest enumeration : String} {p : List Char}

/-! ### Rests of names -/

theorem stem_ne_nil (enumeration : String) : stem enumeration ≠ [] := by
  simp only [stem]
  split
  · next hlast =>
    intro hnil
    simp [hnil] at hlast
  · simp

/-- A name is trimmed to what stands behind the stem, if that begins like a name. -/
theorem rest?_eq_some_iff : rest? p name = some rest ↔
    name.toList = p ++ rest.toList ∧ ∃ c s, rest.toList = c :: s ∧ c.isDigit = false := by
  unfold rest?
  constructor
  · intro h
    split at h
    · next hp =>
      obtain ⟨s, hs⟩ := List.isPrefixOf_iff_prefix.1 hp
      rw [← hs, List.drop_left] at h
      cases s with
      | nil => nomatch h
      | cons c s =>
        obtain ⟨hc, hrest⟩ := Option.ite_none_left_eq_some.1 h
        rw [← Option.some.inj hrest, String.toList_ofList]
        exact ⟨hs.symm, c, s, rfl, by simpa using hc⟩
    · nomatch h
  · rintro ⟨hname, c, s, hs, hc⟩
    rw [if_pos (List.isPrefixOf_iff_prefix.2 ⟨_, hname.symm⟩), hname, List.drop_left, hs]
    simp [hc, ← hs]

theorem rest?_ne (h : rest? (stem enumeration) name = some rest) : name ≠ rest := by
  rintro rfl
  have hlen := congrArg List.length (rest?_eq_some_iff.1 h).1
  have hpos := List.length_pos_of_ne_nil (stem_ne_nil enumeration)
  rw [List.length_append] at hlen
  omega

/-- Different names have different rests. -/
theorem rest?_injective {name' : String} (h : rest? p name = some rest)
    (h' : rest? p name' = some rest) : name = name' := by
  rw [rest?_eq_some_iff] at h h'
  exact String.toList_inj.1 (h.1.trans h'.1.symm)

/-- What is left of the name of an item that is not ignored. -/
def HasRest (enumeration : String) (s : Slot) (rest : String) : Prop :=
  s.isIgnored = false ∧ rest? (stem enumeration) s.name = some rest

end Trim

/-! ### The items of one enumeration -/

namespace Graph

variable {g : Graph} {e i : DeclId} {s : Slot} {xs : List DeclId} {name : DeclId → String}

/-- `s` is the slot of an item right below `e`. -/
structure IsItem (g : Graph) (e : DeclId) (s : Slot) : Prop where
  get? : g.get? s.id = some s
  parent : s.parent = some e
  kind : s.kind = .item

theorem IsItem.isParent (h : g.IsItem e s) : g.IsParent e s.id := ⟨s, h.get?, h.parent⟩

/-- The items among the children of a declaration. -/
theorem IsRooted.mem_items {ys : List Found} {x : Found} (hg : g.IsRooted)
    (hs : g.get? e = some s) (hids : ys.map Found.id = s.children)
    (hget : ∀ y ∈ ys, g.get? y.id = some y.slot) :
    x ∈ ys.filter (·.slot.kind == .item) ↔ x.slot.id = x.id ∧ g.IsItem e x.slot := by
  rw [List.mem_filter, beq_iff_eq]
  constructor
  · rintro ⟨hx, hk⟩
    have hxs := hget x hx
    have hid := hg.id_eq hxs
    have hc : x.id ∈ s.children := hids ▸ List.mem_map_of_mem hx
    have hp := (isParent_iff_of_get? hxs).1 ((hg.mem_children hs x.id).1 hc)
    exact ⟨hid, hid ▸ hxs, hp, hk⟩
  · obtain ⟨i, t⟩ := x
    rintro ⟨hid, ht⟩
    obtain rfl : t.id = i := hid
    have hc : t.id ∈ ys.map Found.id := hids ▸ (hg.mem_children hs _).2 ht.isParent
    obtain ⟨⟨j, u⟩, hy, rfl⟩ := List.mem_map.1 hc
    obtain rfl := Option.some.inj (ht.get?.symm.trans (hget _ hy))
    exact ⟨hy, ht.kind⟩

theorem keepsPlace_calledIn (xs : List DeclId) (name : DeclId → String) :
    Slot.KeepsPlace (Slot.calledIn xs name) := fun s => by
  unfold Slot.calledIn
  split <;> exact ⟨rfl, rfl, rfl⟩

theorem IsRooted.calledIn (hg : g.IsRooted) (xs : List DeclId) (name : DeclId → String) :
    (g.mapSlots (Slot.calledIn xs name)).IsRooted :=
  hg.mapSlots_of_keepsPlace (keepsPlace_calledIn xs name) fun _ s _ => s.kind_calledIn xs name

/-- A declaration that gets no name stays as it is. -/
theorem IsNumbered.get?_calledIn (hg : g.IsNumbered) (hi : i ∉ xs) :
    (g.mapSlots (Slot.calledIn xs name)).get? i = g.get? i := by
  rw [get?_mapSlots]
  cases hs : g.get? i with
  | none => rfl
  | some s => exact congrArg some (if_neg (hg i s hs ▸ hi))

end Graph

namespace Trim

variable {w : Work} {id e : DeclId} {s : Slot} {E : PipelineError → Work → Prop}
  {enumeration : String} {taken : List String} {ids xs : List DeclId} {name : DeclId → String}

/-- Of the items `ids`, `xs` get the names that are left of theirs, as far as these are not in
`taken` nor given before. -/
structure Renames (g : Graph) (enumeration : String) (taken : List String) (ids xs : List DeclId)
    (name : DeclId → String) : Prop where
  sublist : xs.Sublist ids
  rest : ∀ i ∈ xs, ∀ s, g.get? i = some s → HasRest enumeration s (name i) ∧ name i ∉ taken
  kept : ∀ i ∈ ids, ∀ s rest, g.get? i = some s → HasRest enumeration s rest →
    rest ∈ taken ∨ ∃ j ∈ xs, name j = rest

namespace Renames

variable {g h : Graph} {rest : String}

/-- An item that keeps its name, as what is left of it is taken if there is something left. -/
theorem keep (hr : Renames g enumeration taken ids xs name) (hs : g.get? id = some s)
    (hkept : ∀ rest, HasRest enumeration s rest → rest ∈ taken) :
    Renames g enumeration taken (id :: ids) xs name := by
  refine ⟨hr.sublist.cons id, hr.rest, List.forall_mem_cons.2 ⟨fun t rest ht h => ?_, hr.kept⟩⟩
  rw [← Option.some.inj (hs.symm.trans ht)] at h
  exact .inl (hkept rest h)

/-- An item that gets the name `rest`, which counts as taken for the items after it. -/
theorem give (hr : Renames h enumeration (rest :: taken) ids xs name)
    (hget : ∀ i ∈ ids, h.get? i = g.get? i) (hid : id ∉ ids) (hs : g.get? id = some s)
    (hrest : HasRest enumeration s rest) (htaken : rest ∉ taken) :
    Renames g enumeration taken (id :: ids) (id :: xs) fun i =>
      if i ∈ xs then name i else rest := by
  have hidx : id ∉ xs := fun hx => hid (hr.sublist.subset hx)
  refine ⟨hr.sublist.cons_cons id, List.forall_mem_cons.2 ⟨fun t ht => ?_, fun i hi t ht => ?_⟩,
    List.forall_mem_cons.2 ⟨fun t r ht hr' => ?_, fun i hi t r ht hr' => ?_⟩⟩
  · rw [if_neg hidx, ← Option.some.inj (hs.symm.trans ht)]
    exact ⟨hrest, htaken⟩
  · rw [if_pos hi]
    obtain ⟨hr', hnot⟩ := hr.rest i hi t ((hget i (hr.sublist.subset hi)).trans ht)
    exact ⟨hr', fun hm => hnot (List.mem_cons_of_mem rest hm)⟩
  · rw [← Option.some.inj (hs.symm.trans ht)] at hr'
    refine .inr ⟨id, List.mem_cons_self, ?_⟩
    rw [if_neg hidx, Option.some.inj (hrest.2.symm.trans hr'.2)]
  · rcases hr.kept i hi t r ((hget i hi).trans ht) hr' with hm | ⟨j, hj, hjr⟩
    · rcases List.mem_cons.1 hm with rfl | hm
      · exact .inr ⟨id, List.mem_cons_self, if_neg hidx⟩
      · exact .inl hm
    · exact .inr ⟨j, List.mem_cons_of_mem id hj, (if_pos hj).trans hjr⟩

end Renames

theorem runs_trimItem (hg : w.graph.IsRooted) (hs : w.graph.get? id = some s)
    (enumeration : String) (taken : List String) :
    Runs (trimItem enumeration taken id) w
      (fun x w' => ((∀ rest, HasRest enumeration s rest → rest ∈ taken) ∧ x = (taken, 0) ∧
          w'.graph = w.graph ∨
        ∃ rest, HasRest enumeration s rest ∧ rest ∉ taken ∧ x = (rest :: taken, 1) ∧
          w'.graph = w.graph.mapSlots (Slot.calledIn [id] fun _ => rest)) ∧
        w'.passes = w.passes) E := by
  refine runs_bind (runs_read hs ?_)
  dsimp only
  cases hrest : if s.isIgnored then none else rest? (stem enumeration) s.name with
  | none =>
    refine runs_pure ⟨.inl ⟨fun rest h => ?_, rfl, rfl⟩, rfl⟩
    rw [h.1, if_neg Bool.false_ne_true, h.2] at hrest
    nomatch hrest
  | some rest =>
    have h : HasRest enumeration s rest := by simpa [HasRest] using hrest
    refine runs_ite (fun ht => ?_) fun ht => ?_
    · refine runs_bind (runs_log fun log => runs_pure ⟨.inl ⟨fun rest' h' => ?_, rfl, rfl⟩, rfl⟩)
      rw [← Option.some.inj (h.2.symm.trans h'.2)]
      exact List.contains_iff_mem.1 ht
    · refine runs_bind (runs_discard ?_)
      refine runs_changeWith (f := fun g => g.rename? id rest) (hg.rename?_eq hs rest) ?_
      refine runs_pure ⟨.inr ⟨rest, h, fun hm => ht (List.contains_iff_mem.2 hm), rfl, ?_⟩, rfl⟩
      refine Graph.mapSlots_congr fun j t hj => ?_
      unfold Slot.renamed Slot.calledIn
      by_cases hid : t.id = id
      · obtain rfl := hg.isNumbered.eq_of_id hs hj hid
        simp [hid, Declaration.rename?_eq, rest?_ne h.2]
      · simp [hid]

theorem runs_trimItems (enumeration : String) : ∀ (ids : List DeclId) (taken : List String)
    {w : Work}, w.graph.IsRooted → ids.Nodup → (∀ i ∈ ids, i < w.graph.size) →
    Runs (trimItems enumeration taken ids) w
      (fun n w' => ∃ xs name, Renames w.graph enumeration taken ids xs name ∧
        w'.graph = w.graph.mapSlots (Slot.calledIn xs name) ∧ n = xs.length ∧
        w'.passes = w.passes) E
  | [], _, w, _, _, _ => runs_pure ⟨[], fun _ => "", ⟨.refl _, nofun, nofun⟩,
      (Graph.mapSlots_eq_self fun _ _ _ => rfl).symm, rfl, rfl⟩
  | id :: ids, taken, w, hg, hnd, hlt => by
    obtain ⟨s, hs⟩ := Graph.exists_get?_of_lt (hlt id List.mem_cons_self)
    obtain ⟨hid, hnd⟩ := List.nodup_cons.1 hnd
    replace hlt := fun i hi => hlt i (List.mem_cons_of_mem id hi)
    refine runs_bind ((runs_trimItem hg hs enumeration taken).mono (fun x v hv => ?_)
      fun _ _ he => he)
    obtain ⟨⟨hkept, rfl, hgraph⟩ | ⟨rest, hrest, htaken, rfl, hgraph⟩, hpass⟩ := hv
    · refine runs_bind ((runs_trimItems enumeration ids taken (hgraph ▸ hg) hnd
        (hgraph ▸ hlt)).mono (fun n v' hv' => ?_) fun _ _ he => he)
      obtain ⟨xs, name, h, hgraph', rfl, hpass'⟩ := hv'
      rw [hgraph] at h hgraph'
      exact runs_pure ⟨xs, name, h.keep hs hkept, hgraph', Nat.zero_add _, hpass'.trans hpass⟩
    · have hsize : v.graph.size = w.graph.size := by rw [hgraph, Graph.size_mapSlots]
      refine runs_bind ((runs_trimItems enumeration ids (rest :: taken)
        (hgraph ▸ hg.calledIn [id] _) hnd (hsize ▸ hlt)).mono (fun n v' hv' => ?_)
        fun _ _ he => he)
      obtain ⟨xs, name, h, hgraph', rfl, hpass'⟩ := hv'
      have hget : ∀ i ∈ ids, v.graph.get? i = w.graph.get? i := fun i hi => by
        rw [hgraph, hg.isNumbered.get?_calledIn]
        rw [List.mem_singleton]
        rintro rfl
        exact hid hi
      refine runs_pure ⟨id :: xs, _, h.give hget hid hs hrest htaken, ?_, ?_, hpass'.trans hpass⟩
      · rw [hgraph', hgraph, Graph.mapSlots_mapSlots]
        exact congrArg _ (funext fun t => t.calledIn_calledIn [id] xs _ _)
      · rw [List.length_cons, Nat.add_comm]

end Trim

/-! ### The items of all enumerations -/

namespace Graph

open Trim

variable {g : Graph} {e : DeclId} {es es' xs ys : List DeclId} {name name' : DeclId → String}

/-- The items `xs` of the enumerations `es` get the names that are left of theirs, none of which is
the name of an item there. All other names that could be left are such names, or are given. -/
structure TrimsIn (g : Graph) (es xs : List DeclId) (name : DeclId → String) : Prop where
  nodup : xs.Nodup
  rest : ∀ i ∈ xs, ∃ e ∈ es, ∃ t s, g.get? e = some t ∧ t.isIgnored = false ∧ s.id = i ∧
    g.IsItem e s ∧ HasRest t.name s (name i) ∧ ∀ s', g.IsItem e s' → s'.name ≠ name i
  kept : ∀ e ∈ es, ∀ t s rest, g.get? e = some t → t.isIgnored = false → g.IsItem e s →
    HasRest t.name s rest → (∃ s', g.IsItem e s' ∧ s'.name = rest) ∨
      ∃ s', g.IsItem e s' ∧ s'.id ∈ xs ∧ name s'.id = rest

namespace TrimsIn

theorem nil (g : Graph) (name : DeclId → String) : g.TrimsIn [] [] name :=
  ⟨List.nodup_nil, nofun, nofun⟩

theorem item (h : g.TrimsIn es xs name) : ∀ i ∈ xs, ∃ s, g.get? i = some s ∧ s.kind = .item ∧
    s.isIgnored = false := by
  intro i hi
  obtain ⟨e, -, t, s, -, -, rfl, hs, hr, -⟩ := h.rest i hi
  exact ⟨s, hs.get?, hs.kind, hr.1⟩

theorem exists_parent (h : g.TrimsIn es xs name) : ∀ i ∈ xs, ∃ e ∈ es, g.IsParent e i := by
  intro i hi
  obtain ⟨e, he, t, s, -, -, rfl, hs, -⟩ := h.rest i hi
  exact ⟨e, he, hs.isParent⟩

theorem trims (h : g.TrimsIn es xs name) : g.Trims xs (g.mapSlots (Slot.calledIn xs name)) :=
  ⟨h.nodup, h.item, name, rfl⟩

/-- Items of one enumeration after those of others. -/
theorem append (hx : g.TrimsIn es xs name) (hy : g.TrimsIn es' ys name')
    (hdisj : List.Disjoint es es') :
    g.TrimsIn (es ++ es') (xs ++ ys) fun i => if i ∈ ys then name' i else name i := by
  have hxy : List.Disjoint xs ys := by
    intro i hi hi'
    obtain ⟨e, he, hp⟩ := hx.exists_parent i hi
    obtain ⟨e', he', hp'⟩ := hy.exists_parent i hi'
    exact hdisj he (hp.unique hp' ▸ he')
  have hname : ∀ i ∈ xs, (if i ∈ ys then name' i else name i) = name i := fun i hi =>
    if_neg fun hi' => hxy hi hi'
  refine ⟨hx.nodup.append hy.nodup hxy, fun i hi => ?_, fun e he t s rest ht hig hs hr => ?_⟩
  · rcases List.mem_append.1 hi with hi | hi
    · obtain ⟨e, he, h⟩ := hx.rest i hi
      simp only [hname i hi]
      exact ⟨e, List.mem_append_left _ he, h⟩
    · obtain ⟨e, he, h⟩ := hy.rest i hi
      simp only [if_pos hi]
      exact ⟨e, List.mem_append_right _ he, h⟩
  · rcases List.mem_append.1 he with he | he
    · refine (hx.kept e he t s rest ht hig hs hr).imp_right ?_
      rintro ⟨s', hs', hm, hn⟩
      exact ⟨s', hs', List.mem_append_left _ hm, (hname _ hm).trans hn⟩
    · refine (hy.kept e he t s rest ht hig hs hr).imp_right ?_
      rintro ⟨s', hs', hm, hn⟩
      exact ⟨s', hs', List.mem_append_right _ hm, (if_pos hm).trans hn⟩

/-- Trimming items of other enumerations before does not matter. -/
theorem of_calledIn (hg : g.IsNumbered) (hx : g.TrimsIn es xs name)
    (hy : (g.mapSlots (Slot.calledIn xs name)).TrimsIn [e] ys name') (he : e ∉ es) (hex : e ∉ xs) :
    g.TrimsIn [e] ys name' := by
  have hitem : ∀ s, (g.mapSlots (Slot.calledIn xs name)).IsItem e s ↔ g.IsItem e s := by
    have hnot : ∀ i, g.IsParent e i → i ∉ xs := by
      intro i hp hi
      obtain ⟨e', he', hp'⟩ := hx.exists_parent i hi
      exact he (hp.unique hp' ▸ he')
    intro s
    constructor
    · rintro ⟨hs, hp, hk⟩
      have hi : s.id ∉ xs :=
        hnot _ ((isParent_mapSlots_of_keepsPlace (keepsPlace_calledIn xs name)).1 ⟨s, hs, hp⟩)
      exact ⟨(hg.get?_calledIn hi).symm.trans hs, hp, hk⟩
    · rintro ⟨hs, hp, hk⟩
      exact ⟨(hg.get?_calledIn (hnot _ ⟨s, hs, hp⟩)).trans hs, hp, hk⟩
  obtain ⟨hnd, hrest, hkept⟩ := hy
  rw [List.forall_mem_singleton] at hkept
  simp only [List.mem_singleton, exists_eq_left, hitem, hg.get?_calledIn hex] at hrest hkept
  exact ⟨hnd, by simpa using hrest, List.forall_mem_singleton.2 hkept⟩

end TrimsIn

end Graph

namespace Trim

variable {w : Work} {id : DeclId} {s : Slot} {E : PipelineError → Work → Prop}

/-- Names for items of one enumeration, none of which is the name of an item there. -/
theorem Renames.trimsIn {g : Graph} {items : List Found} {xs : List DeclId}
    {name : DeclId → String} (hr : Renames g s.name (items.map (·.slot.name))
      (items.map Found.id) xs name) (hs : g.get? id = some s) (hig : s.isIgnored = false)
    (hnd : (items.map Found.id).Nodup)
    (hitems : ∀ x, x ∈ items ↔ x.slot.id = x.id ∧ g.IsItem id x.slot) :
    g.TrimsIn [id] xs name := by
  have hfound : ∀ t, g.IsItem id t → ⟨t.id, t⟩ ∈ items := fun t ht => (hitems _).2 ⟨rfl, ht⟩
  have hxs : ∀ i ∈ xs, ∃ t, t.id = i ∧ g.IsItem id t := by
    intro i hi
    obtain ⟨x, hx, rfl⟩ := List.mem_map.1 (hr.sublist.subset hi)
    exact ⟨x.slot, (hitems x).1 hx⟩
  refine ⟨hnd.sublist hr.sublist, fun i hi => ?_, List.forall_mem_singleton.2 ?_⟩
  · obtain ⟨t, rfl, ht⟩ := hxs i hi
    obtain ⟨hrest, hnot⟩ := hr.rest t.id hi t ht.get?
    refine ⟨id, List.mem_singleton_self id, s, t, hs, hig, rfl, ht, hrest, fun s' hs' he => ?_⟩
    exact hnot (he ▸ List.mem_map_of_mem (hfound s' hs'))
  · intro u t rest hu _ ht hrest
    rw [← Option.some.inj (hs.symm.trans hu)] at hrest
    refine (hr.kept t.id (List.mem_map_of_mem (hfound t ht)) t rest ht.get? hrest).imp ?_ ?_
    · intro hm
      obtain ⟨x, hx, rfl⟩ := List.mem_map.1 hm
      exact ⟨x.slot, ((hitems x).1 hx).2, rfl⟩
    · rintro ⟨j, hj, hjr⟩
      obtain ⟨t', rfl, ht'⟩ := hxs j hj
      exact ⟨t', ht', hj, hjr⟩

theorem runs_trimEnumeration (hg : w.graph.IsRooted) (hs : w.graph.get? id = some s) :
    Runs (trimEnumeration id) w
      (fun n w' => ∃ xs name, w.graph.TrimsIn [id] xs name ∧
        w'.graph = w.graph.mapSlots (Slot.calledIn xs name) ∧ n = xs.length ∧
        w'.passes = w.passes) E := by
  refine runs_bind (runs_read hs (runs_ite (fun hig => ?_) fun hig => ?_))
  · refine runs_pure ⟨[], fun _ => "", ⟨List.nodup_nil, nofun, ?_⟩,
      (Graph.mapSlots_eq_self fun _ _ _ => rfl).symm, rfl, rfl⟩
    rw [List.forall_mem_singleton]
    intro t _ _ ht hig'
    rw [← Option.some.inj (hs.symm.trans ht), hig] at hig'
    nomatch hig'
  · obtain ⟨ys, hys, hids, hget⟩ := hg.children?_eq hs
    set items := ys.filter (·.slot.kind == .item)
    have hsub : (items.map Found.id).Sublist s.children := hids ▸ List.filter_sublist.map _
    have hnd := (hg.nodup_children hs).sublist hsub
    refine runs_bind (runs_read hys ((runs_trimItems s.name (items.map Found.id)
      (items.map (·.slot.name)) hg hnd fun i hi => ?_).mono (fun n w' h => ?_) fun _ _ he => he))
    · exact ((hg.mem_children hs i).1 (hsub.subset hi)).lt_size
    · obtain ⟨xs, name, h, hgraph, hn, hpass⟩ := h
      have hitems := fun x => hg.mem_items (x := x) hs hids hget
      exact ⟨xs, name, h.trimsIn hs (by simpa using hig) hnd hitems, hgraph, hn, hpass⟩

/-- Trimming succeeds, and counts the items of live enumerations that get other names. -/
theorem runs_run_named (hg : w.graph.IsRooted) :
    Runs run w
      (fun n w' => ∃ es xs name,
        (∀ e, e ∈ es ↔ w.graph.IsLive e ∧ ∃ t, w.graph.get? e = some t ∧ t.kind = .enumeration) ∧
        w.graph.TrimsIn es xs name ∧ w'.graph = w.graph.mapSlots (Slot.calledIn xs name) ∧
        n = xs.length ∧ w'.passes = w.passes) E := by
  obtain ⟨enums, henums, hnd, hmem⟩ := hg.liveWhere?_spec (·.kind == .enumeration)
  simp only [beq_iff_eq] at hmem
  refine runs_bind (runs_read henums (runs_bind ?_))
  -- what is trimmed so far stands in the enumerations that are done
  let I (done rest : List DeclId) (n : Nat) (v : Work) : Prop := done ++ rest = enums ∧
    ∃ xs name, w.graph.TrimsIn done xs name ∧
      v.graph = w.graph.mapSlots (Slot.calledIn xs name) ∧ n = xs.length ∧ v.passes = w.passes
  have hstep : ∀ done e rest n v, I done (e :: rest) n v →
      Runs (trimEnumeration e) v (fun m v' => I (done ++ [e]) rest (n + m) v') E := by
    rintro done e rest n v ⟨hl, xs, name, hxs, hv, hn, hpass⟩
    obtain ⟨hlive, s, hs, hk⟩ := (hmem e).1 (by simp [← hl])
    have hed : e ∉ done := fun hm => by
      rw [← hl] at hnd
      exact (List.nodup_append.1 hnd).2.2 e hm e List.mem_cons_self rfl
    have hex : e ∉ xs := fun hm => by
      obtain ⟨t, ht, hkt, -⟩ := hxs.item e hm
      rw [Option.some.inj (ht.symm.trans hs), hk] at hkt
      nomatch hkt
    have hsv : v.graph.get? e = some s := by
      rw [hv, hg.isNumbered.get?_calledIn hex, hs]
    refine (runs_trimEnumeration (hv ▸ hg.calledIn xs name) hsv).mono (fun m v' h => ?_)
      fun _ _ he => he
    obtain ⟨ys, name', hys, hv', hm, hpass'⟩ := h
    rw [hv] at hys hv'
    refine ⟨by simp [← hl], xs ++ ys, _, hxs.append (.of_calledIn hg.isNumbered hxs hys hed hex)
      (List.disjoint_singleton.2 hed), ?_, ?_, hpass'.trans hpass⟩
    · rw [hv', Graph.mapSlots_mapSlots]
      exact congrArg _ (funext fun t => t.calledIn_calledIn xs ys name name')
    · rw [hn, hm, List.length_append]
  refine (runs_sum I hstep enums [] 0 w ⟨rfl, [], fun _ => "", .nil _ _,
    (Graph.mapSlots_eq_self fun _ _ _ => rfl).symm, rfl, rfl⟩).mono (fun n v h => ?_)
    fun _ _ he => he
  obtain ⟨-, xs, name, hxs, hv, hn, hpass⟩ := h
  rw [Nat.zero_add] at hn
  refine runs_ite (fun _ => ?_) fun _ => ?_
  · exact runs_bind (runs_log fun _ => runs_pure ⟨enums, xs, name, hmem, hxs, hv, hn, hpass⟩)
  · exact runs_pure ⟨enums, xs, name, hmem, hxs, hv, hn, hpass⟩

/-- Trimming succeeds, gives names to items that are not ignored, and counts them. -/
theorem runs_run_counted (hg : w.graph.IsRooted) :
    Runs run w (fun n w' => (∃ ids, w.graph.Trims ids w'.graph ∧ n = ids.length) ∧
      w'.passes = w.passes) E := by
  refine (runs_run_named hg).mono (fun n w' h => ?_) fun _ _ he => he
  obtain ⟨es, xs, name, -, hxs, hw', hn, hpass⟩ := h
  exact ⟨⟨xs, hw' ▸ hxs.trims, hn⟩, hpass⟩

/-- Trimming succeeds, and does no more than give names to items that are not ignored. -/
theorem runs_run (hg : w.graph.IsRooted) :
    Runs run w (fun _ w' => w.graph.ItemsRenamed w'.graph ∧ w'.passes = w.passes) E := by
  refine (runs_run_counted hg).mono (fun _ w' h => ?_) fun _ _ he => he
  obtain ⟨⟨ids, htrims, -⟩, hpass⟩ := h
  exact ⟨htrims.itemsRenamed hg.isNumbered, hpass⟩

end Trim

end Bindery
