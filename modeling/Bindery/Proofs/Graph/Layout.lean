import Bindery.Graph.Layout
import Mathlib.Data.List.Nodup
import Mathlib.Order.Nat

/-!
# Laid out trees

`IsLayout`: what the slots of trees that are laid out one after the other have in common. Their
numbers follow each other, parents come before their children, and parents and children agree.
-/

namespace Bindery

namespace Tree

variable {α β : Type} {P Q : α → α → Prop}

mutual

/-- `P` holds between every label and those right below it. -/
def Edges (P : α → α → Prop) : Tree α → Prop
  | .node a ts => EdgesList P a ts

def EdgesList (P : α → α → Prop) (a : α) : List (Tree α) → Prop
  | [] => True
  | t :: ts => P a t.label ∧ Edges P t ∧ EdgesList P a ts

end

@[simp] theorem label_map (f : α → β) (t : Tree α) : (t.map f).label = f t.label := by
  cases t
  rfl

mutual

theorem Edges.map {P : β → β → Prop} {f : α → β} (hf : ∀ a b, Q a b → P (f a) (f b)) :
    ∀ t : Tree α, t.Edges Q → (t.map f).Edges P
  | .node a ts, h => by
    rw [Edges] at h
    rw [map, Edges]
    exact EdgesList.map hf a ts h

theorem EdgesList.map {P : β → β → Prop} {f : α → β} (hf : ∀ a b, Q a b → P (f a) (f b)) (a : α) :
    ∀ ts : List (Tree α), EdgesList Q a ts → EdgesList P (f a) (mapList f ts)
  | [], _ => trivial
  | t :: ts, h => by
    rw [EdgesList] at h
    obtain ⟨ha, ht, hts⟩ := h
    rw [mapList, EdgesList, label_map]
    exact ⟨hf a t.label ha, Edges.map hf t ht, EdgesList.map hf a ts hts⟩

end

theorem edgesList_iff {a : α} {ts : List (Tree α)} :
    EdgesList P a ts ↔ ∀ t ∈ ts, P a t.label ∧ t.Edges P := by
  induction ts with
  | nil => simp [EdgesList]
  | cons t ts ih => rw [EdgesList, ih, List.forall_mem_cons, and_assoc]

end Tree

/-- Slots that stand one after the other from `start` on. The ones of `roots` are below `parent` and
satisfy `R`, the others are below one of the slots, with `P` between the two. -/
structure IsLayout (P : Declaration → Declaration → Prop) (R : Declaration → Prop)
    (parent : Option DeclId) (start : DeclId) (roots : List DeclId) (l : List Slot) : Prop where
  ids : l.map Slot.id = List.range' start l.length
  root : ∀ s ∈ l, s.id ∈ roots → s.parent = parent ∧ R s.toDeclaration
  inner : ∀ s ∈ l, s.id ∉ roots →
    ∃ t ∈ l, s.parent = some t.id ∧ t.id < s.id ∧ P t.toDeclaration s.toDeclaration
  mem_children : ∀ s ∈ l, ∀ c, c ∈ s.children ↔ ∃ u ∈ l, u.id = c ∧ u.parent = some s.id
  nodup_children : ∀ s ∈ l, s.children.Nodup
  nodup_roots : roots.Nodup
  exists_root : ∀ r ∈ roots, ∃ s ∈ l, s.id = r

namespace IsLayout

variable {P : Declaration → Declaration → Prop} {R : Declaration → Prop} {parent : Option DeclId}
  {start : DeclId} {roots roots' : List DeclId} {l l' : List Slot} {s u : Slot} {d : Declaration}

theorem mem_range (h : IsLayout P R parent start roots l) (hs : s ∈ l) :
    start ≤ s.id ∧ s.id < start + l.length := by
  have : s.id ∈ l.map Slot.id := List.mem_map_of_mem hs
  rwa [h.ids, List.mem_range'_1] at this

theorem root_range (h : IsLayout P R parent start roots l) {r : DeclId} (hr : r ∈ roots) :
    start ≤ r ∧ r < start + l.length := by
  obtain ⟨s, hs, rfl⟩ := h.exists_root r hr
  exact h.mem_range hs

/-- Parents are the common one or come from the slots themselves. -/
theorem parent_cases (h : IsLayout P R parent start roots l) (hs : s ∈ l) {p : DeclId}
    (hp : s.parent = some p) :
    parent = some p ∧ s.id ∈ roots ∨ start ≤ p ∧ p < start + l.length := by
  by_cases hr : s.id ∈ roots
  · exact Or.inl ⟨(h.root s hs hr).1 ▸ hp, hr⟩
  · obtain ⟨t, ht, htp, -, -⟩ := h.inner s hs hr
    obtain rfl := Option.some.inj (htp.symm.trans hp)
    exact Or.inr (h.mem_range ht)

/-- A number that is neither the common parent's nor one of the slots has no slot below it. -/
theorem parent_ne (h : IsLayout P R parent start roots l) (hs : s ∈ l) {p : DeclId}
    (hp : parent ≠ some p) (hrange : p < start ∨ start + l.length ≤ p) : s.parent ≠ some p := by
  intro hsp
  rcases h.parent_cases hs hsp with ⟨hpar, -⟩ | ⟨h1, h2⟩
  · exact hp hpar
  · exact hrange.elim (not_lt_of_ge h1) (not_le_of_gt h2)

theorem nil : IsLayout P R parent start [] [] :=
  ⟨rfl, List.forall_mem_nil _, List.forall_mem_nil _, List.forall_mem_nil _,
    List.forall_mem_nil _, List.nodup_nil, List.forall_mem_nil _⟩

/-- A slot before those of its children. -/
theorem node (h : IsLayout P (P d) (some start) (start + 1) roots l)
    (hp : ∀ p, parent = some p → p < start) (hR : R d) :
    IsLayout P R parent start [start] ({ d with id := start, parent, children := roots } :: l) := by
  have hlt : ∀ u ∈ l, start < u.id := fun u hu => (h.mem_range hu).1
  constructor
  case ids => simp [h.ids, List.range'_succ]
  case root =>
    intro s hs hm
    rcases List.mem_cons.1 hs with rfl | hs
    · exact ⟨rfl, hR⟩
    · rw [List.mem_singleton] at hm
      exact absurd (hm ▸ hlt s hs) (lt_irrefl start)
  case inner =>
    intro s hs hm
    rcases List.mem_cons.1 hs with rfl | hs
    · exact absurd (List.mem_singleton_self start) hm
    · by_cases hr : s.id ∈ roots
      · obtain ⟨hsp, hPs⟩ := h.root s hs hr
        exact ⟨_, List.mem_cons_self, hsp, hlt s hs, hPs⟩
      · obtain ⟨t, ht, h'⟩ := h.inner s hs hr
        exact ⟨t, List.mem_cons_of_mem _ ht, h'⟩
  case mem_children =>
    intro s hs c
    simp only [List.mem_cons, exists_eq_or_imp]
    rcases List.mem_cons.1 hs with rfl | hs
    · constructor
      · intro hc
        obtain ⟨u, hu, rfl⟩ := h.exists_root c hc
        exact Or.inr ⟨u, hu, rfl, (h.root u hu hc).1⟩
      · rintro (⟨-, hps⟩ | ⟨u, hu, rfl, hus⟩)
        · exact absurd (hp start hps) (lt_irrefl start)
        · rcases h.parent_cases hu hus with ⟨-, hr⟩ | ⟨h1, -⟩
          · exact hr
          · exact absurd h1 (Nat.not_succ_le_self start)
    · rw [h.mem_children s hs c]
      refine ⟨Or.inr, ?_⟩
      rintro (⟨-, hps⟩ | h')
      · exact absurd ((hp s.id hps).trans (hlt s hs)) (lt_irrefl _)
      · exact h'
  case nodup_children =>
    intro s hs
    rcases List.mem_cons.1 hs with rfl | hs
    · exact h.nodup_roots
    · exact h.nodup_children s hs
  case nodup_roots => exact List.nodup_singleton start
  case exists_root =>
    intro r hr
    rw [List.mem_singleton] at hr
    exact ⟨_, List.mem_cons_self, hr.symm⟩

/-- Slots after others, below the same parent. -/
theorem append (h : IsLayout P R parent start roots l)
    (h' : IsLayout P R parent (start + l.length) roots' l')
    (hp : ∀ p, parent = some p → p < start) :
    IsLayout P R parent start (roots ++ roots') (l ++ l') := by
  have hlt : ∀ {s}, s ∈ l → s.id < start + l.length := fun hs => (h.mem_range hs).2
  have hge : ∀ {s}, s ∈ l' → start + l.length ≤ s.id := fun hs => (h'.mem_range hs).1
  have hnot : ∀ {s}, s ∈ l → s.id ∉ roots' := fun hs hr =>
    not_lt_of_ge (h'.root_range hr).1 (hlt hs)
  have hnot' : ∀ {s}, s ∈ l' → s.id ∉ roots := fun hs hr =>
    not_lt_of_ge (hge hs) (h.root_range hr).2
  have hpar : ∀ {i}, start ≤ i → parent ≠ some i := fun hi hpi => not_lt_of_ge hi (hp _ hpi)
  constructor
  case ids => rw [List.map_append, h.ids, h'.ids, List.length_append, List.range'_append_1]
  case root =>
    intro s hs hm
    rcases List.mem_append.1 hs with hs | hs
    · exact h.root s hs ((List.mem_append.1 hm).resolve_right (hnot hs))
    · exact h'.root s hs ((List.mem_append.1 hm).resolve_left (hnot' hs))
  case inner =>
    intro s hs hm
    rw [List.mem_append, not_or] at hm
    rcases List.mem_append.1 hs with hs | hs
    · obtain ⟨t, ht, htp⟩ := h.inner s hs hm.1
      exact ⟨t, List.mem_append_left _ ht, htp⟩
    · obtain ⟨t, ht, htp⟩ := h'.inner s hs hm.2
      exact ⟨t, List.mem_append_right _ ht, htp⟩
  case mem_children =>
    intro s hs c
    simp only [List.mem_append, or_and_right, exists_or]
    -- children are among the slots that their parent is among
    rcases List.mem_append.1 hs with hs | hs
    · rw [h.mem_children s hs c]
      refine ⟨Or.inl, fun hc => hc.resolve_right ?_⟩
      rintro ⟨u, hu, -, hus⟩
      exact h'.parent_ne hu (hpar (h.mem_range hs).1) (Or.inl (hlt hs)) hus
    · rw [h'.mem_children s hs c]
      refine ⟨Or.inr, fun hc => hc.resolve_left ?_⟩
      rintro ⟨u, hu, -, hus⟩
      exact h.parent_ne hu (hpar ((Nat.le_add_right _ _).trans (hge hs))) (Or.inr (hge hs)) hus
  case nodup_children =>
    intro s hs
    rcases List.mem_append.1 hs with hs | hs
    · exact h.nodup_children s hs
    · exact h'.nodup_children s hs
  case nodup_roots =>
    refine List.nodup_append.2 ⟨h.nodup_roots, h'.nodup_roots, ?_⟩
    rintro a ha b hb rfl
    exact not_lt_of_ge (h'.root_range hb).1 (h.root_range ha).2
  case exists_root =>
    intro r hr
    rcases List.mem_append.1 hr with hr | hr
    · obtain ⟨s, hs, rfl⟩ := h.exists_root r hr
      exact ⟨s, List.mem_append_left _ hs, rfl⟩
    · obtain ⟨s, hs, rfl⟩ := h'.exists_root r hr
      exact ⟨s, List.mem_append_right _ hs, rfl⟩

end IsLayout

namespace Tree

variable {P : Declaration → Declaration → Prop}

mutual

theorem isLayout_slots {R : Declaration → Prop} (parent : Option DeclId) (start : DeclId)
    (hp : ∀ p, parent = some p → p < start) :
    ∀ t : Tree Declaration, t.Edges P → R t.label →
      IsLayout P R parent start [start] (slots parent start t)
  | .node d ts, h, hR => by
    rw [Edges] at h
    rw [slots]
    exact .node (isLayout_slotsList d start (start + 1) start.lt_succ_self ts h) hp hR

theorem isLayout_slotsList (d : Declaration) (parent start : DeclId) (hp : parent < start) :
    ∀ ts : List (Tree Declaration), EdgesList P d ts →
      IsLayout P (P d) (some parent) start (rootIds start ts) (slotsList parent start ts)
  | [], _ => .nil
  | t :: ts, h => by
    rw [EdgesList] at h
    obtain ⟨hPt, ht, hts⟩ := h
    have hp' : ∀ q, some parent = some q → q < start := fun q hq => Option.some.inj hq ▸ hp
    have h1 := isLayout_slots (R := P d) (some parent) start hp' t ht hPt
    have h2 := isLayout_slotsList d parent (start + t.size) (Nat.lt_add_right _ hp) ts hts
    rw [← length_slots (some parent) start t] at h2
    have h3 := h1.append h2 hp'
    rw [length_slots, List.singleton_append] at h3
    rw [slotsList, rootIds]
    exact h3

end

mutual

/-- A laid out tree says the same as the tree. -/
theorem map_toDeclaration_slots (parent : Option DeclId) (start : DeclId) :
    ∀ t : Tree Declaration, (slots parent start t).map Slot.toDeclaration = t.preorder
  | .node d ts => by
    simp [slots, preorder, map_toDeclaration_slotsList start (start + 1) ts]

theorem map_toDeclaration_slotsList (parent start : DeclId) :
    ∀ ts : List (Tree Declaration),
      (slotsList parent start ts).map Slot.toDeclaration = preorderList ts
  | [] => rfl
  | t :: ts => by
    simp [slotsList, preorderList, map_toDeclaration_slots (some parent) start t,
      map_toDeclaration_slotsList parent (start + t.size) ts]

end

end Tree

end Bindery
