import Bindery.Proofs.Graph.Forest

/-!
# Walks over forests

In a forest every walk of `Bindery.Graph.Walk` has an answer. `treeAt` and `below` are the answers
of `subtree?` and `descendants?`, with the equations that a recursive walk would have; `below` lists
each declaration at or below a slot once. `unitOf?` finds the unit above a declaration.
-/

namespace Bindery

open Relation

theorem Tree.preorderList_eq_flatMap {α : Type} (ts : List (Tree α)) :
    preorderList ts = ts.flatMap preorder := by
  induction ts with
  | nil => rfl
  | cons t ts ih => rw [preorderList, ih, List.flatMap_cons]

theorem Tree.mapList_eq_map {α β : Type} (f : α → β) (ts : List (Tree α)) :
    mapList f ts = ts.map (Tree.map f) := by
  induction ts with
  | nil => rfl
  | cons t ts ih => rw [mapList, ih, List.map_cons]

theorem Tree.map_map {α β γ : Type} (f : α → β) (f' : β → γ) (t : Tree α) :
    (t.map f).map f' = t.map fun x => f' (f x) := by
  cases t with
  | node a ts =>
    simp only [map, mapList_eq_map, List.map_map]
    exact congrArg _ (List.map_congr_left fun t _ => map_map f f' t)

/-- A walk over a list that finds something everywhere has an answer. -/
theorem mapM_eq_some_of_forall {α β : Type} {f : α → Option β} {h : α → β} :
    ∀ {l : List α}, (∀ a ∈ l, f a = some (h a)) → l.mapM f = some (l.map h)
  | [], _ => rfl
  | a :: l, H => by
    have ha := H a List.mem_cons_self
    have hl := mapM_eq_some_of_forall fun b hb => H b (List.mem_cons_of_mem a hb)
    simp [List.mapM_cons, ha, hl]

theorem mapM_cons_eq_some_iff {α β : Type} {f : α → Option β} {a : α} {l : List α} {bs : List β} :
    (a :: l).mapM f = some bs ↔ ∃ b cs, f a = some b ∧ l.mapM f = some cs ∧ b :: cs = bs := by
  simp [List.mapM_cons, Option.bind_eq_some_iff]

namespace Graph

variable {g : Graph} {i p q r u x y : DeclId} {s t : Slot}

theorem find?_of_get? (h : g.get? i = some s) : g.find? i = some ⟨i, s⟩ := by
  rw [find?, h, Option.map_some]

/-! ### The way down -/

/-- The tree at `i`, if there is one. -/
def treeAt (g : Graph) (i : DeclId) : Tree Found := (g.subtree? i).getD default

/-- What stands at and below `i`, in preorder. -/
def below (g : Graph) (i : DeclId) : List Found := (g.treeAt i).preorder

theorem treeWithin?_succ (h : g.get? i = some s) (fuel : Nat) :
    g.treeWithin? (fuel + 1) i =
      (s.children.mapM (g.treeWithin? fuel)).map (Tree.node ⟨i, s⟩) := by
  rw [treeWithin?, find?_of_get? h, Option.bind_eq_bind, Option.bind_some]
  cases s.children.mapM (g.treeWithin? fuel) <;> rfl

namespace IsForest

variable (hg : g.IsForest)
include hg

/-- There is a tree at every slot, which does not depend on the bound of the walk. -/
theorem exists_treeWithin? {rank : DeclId → Nat} (hlt : ∀ i < g.size, rank i < g.size)
    (hrank : ∀ p i, g.IsParent p i → rank p < rank i) (hi : i < g.size) :
    ∃ t, ∀ fuel, g.size ≤ fuel + rank i → g.treeWithin? fuel i = some t := by
  induction i using hg.induction_up with
  | step i ih =>
    obtain ⟨s, hs⟩ := exists_get?_of_lt hi
    have hc : ∀ c ∈ s.children, g.IsParent i c := fun c h => (hg.mem_children hs c).1 h
    choose f hf using fun c (h : g.IsParent i c) => ih c h h.lt_size
    refine ⟨.node ⟨i, s⟩ (s.children.attach.map fun c => f c.1 (hc c.1 c.2)), fun fuel hfuel => ?_⟩
    obtain ⟨fuel, rfl⟩ : ∃ n, fuel = n + 1 := by
      have := hlt i hi
      exact ⟨fuel - 1, by omega⟩
    have hm : s.children.attach.mapM (fun c => g.treeWithin? fuel c.1) =
        some (s.children.attach.map fun c => f c.1 (hc c.1 c.2)) := by
      refine mapM_eq_some_of_forall fun c _ => hf c.1 (hc c.1 c.2) fuel ?_
      have := hrank i c.1 (hc c.1 c.2)
      omega
    have hu : s.children.mapM (g.treeWithin? fuel) =
        s.children.attach.mapM (fun c => g.treeWithin? fuel c.1) := by
      show _ = s.children.attach.mapM (g.treeWithin? fuel ∘ Subtype.val)
      rw [← List.mapM_map, List.attach_map_subtype_val]
    rw [treeWithin?_succ hs, hu, hm, Option.map_some]

theorem subtree?_eq (hi : i < g.size) : g.subtree? i = some (g.treeAt i) := by
  obtain ⟨rank, hlt, hrank⟩ := hg.exists_rank
  obtain ⟨t, ht⟩ := hg.exists_treeWithin? hlt hrank hi
  have h : g.subtree? i = some t := ht _ (by omega)
  rw [treeAt, h, Option.getD_some]

theorem treeAt_eq (hs : g.get? i = some s) :
    g.treeAt i = .node ⟨i, s⟩ (s.children.map g.treeAt) := by
  obtain ⟨rank, hlt, hrank⟩ := hg.exists_rank
  have hc : ∀ c ∈ s.children, g.treeWithin? g.size c = some (g.treeAt c) := by
    intro c hc
    have hp : g.IsParent i c := (hg.mem_children hs c).1 hc
    obtain ⟨t, ht⟩ := hg.exists_treeWithin? hlt hrank hp.lt_size
    rw [ht _ (by omega), ← hg.subtree?_eq hp.lt_size]
    exact (ht _ (by omega)).symm
  have h : g.subtree? i = some (.node ⟨i, s⟩ (s.children.map g.treeAt)) := by
    rw [subtree?, treeWithin?_succ hs, mapM_eq_some_of_forall hc, Option.map_some]
  rw [hg.subtree?_eq (lt_size_of_get? hs)] at h
  exact Option.some.inj h

theorem below_eq (hs : g.get? i = some s) :
    g.below i = ⟨i, s⟩ :: s.children.flatMap g.below := by
  rw [below, hg.treeAt_eq hs, Tree.preorder, Tree.preorderList_eq_flatMap, List.flatMap_map]
  rfl

theorem descendants?_eq (hi : i < g.size) : g.descendants? i = some (g.below i) := by
  rw [descendants?, hg.subtree?_eq hi, Option.map_some]
  rfl

/-- At and below `i` stands what has `i` above it. -/
theorem mem_below {x : Found} (hi : i < g.size) :
    x ∈ g.below i ↔ g.IsAbove i x.id ∧ g.get? x.id = some x.slot := by
  induction i using hg.induction_up with
  | step i ih =>
    obtain ⟨s, hs⟩ := exists_get?_of_lt hi
    rw [hg.below_eq hs, List.mem_cons, List.mem_flatMap]
    constructor
    · rintro (rfl | ⟨c, hc, hx⟩)
      · exact ⟨.refl, hs⟩
      · have hp : g.IsParent i c := (hg.mem_children hs c).1 hc
        obtain ⟨ha, hx⟩ := (ih c hp hp.lt_size).1 hx
        exact ⟨ReflTransGen.head hp ha, hx⟩
    · rintro ⟨ha, hx⟩
      rcases ReflTransGen.cases_head ha with rfl | ⟨c, hp, hc⟩
      · obtain ⟨id, slot⟩ := x
        obtain rfl : s = slot := Option.some.inj (hs.symm.trans hx)
        exact Or.inl rfl
      · exact Or.inr ⟨c, (hg.mem_children hs c).2 hp, (ih c hp hp.lt_size).2 ⟨hc, hx⟩⟩

theorem mem_map_id_below (hi : i < g.size) : x ∈ (g.below i).map Found.id ↔ g.IsAbove i x := by
  rw [List.mem_map]
  constructor
  · rintro ⟨y, hy, rfl⟩
    exact ((hg.mem_below hi).1 hy).1
  · intro ha
    obtain ⟨t, ht⟩ := exists_get?_of_lt (ha.lt_size hi)
    exact ⟨⟨x, t⟩, (hg.mem_below hi).2 ⟨ha, ht⟩, rfl⟩

/-- Different declarations neither of which is above the other have nothing below them in common. -/
theorem disjoint_below (hx : x < g.size) (hy : y < g.size) (hxy : ¬ g.IsAbove x y)
    (hyx : ¬ g.IsAbove y x) :
    List.Disjoint ((g.below x).map Found.id) ((g.below y).map Found.id) := by
  intro i hi hj
  rw [hg.mem_map_id_below hx] at hi
  rw [hg.mem_map_id_below hy] at hj
  exact (hi.total hj).elim hxy hyx

/-- Siblings are not above each other. -/
theorem not_isAbove_sibling (hx : g.IsParent p x) (hy : g.IsParent p y) (hne : x ≠ y) :
    ¬ g.IsAbove x y := by
  intro ha
  rcases ReflTransGen.cases_tail ha with rfl | ⟨q, hxq, hq⟩
  · exact hne rfl
  · obtain rfl := hq.unique hy
    exact hg.not_isAbove_of_isParent hx hxq

theorem nodup_flatMap_below {l : List DeclId} (hl : l.Nodup) (hlt : ∀ x ∈ l, x < g.size)
    (hnd : ∀ x ∈ l, ((g.below x).map Found.id).Nodup)
    (hne : ∀ x ∈ l, ∀ y ∈ l, x ≠ y → ¬ g.IsAbove x y) :
    ((l.flatMap g.below).map Found.id).Nodup := by
  rw [List.map_flatMap, List.nodup_flatMap]
  refine ⟨hnd, hl.imp_of_mem fun {x y} hx hy hxy => ?_⟩
  exact hg.disjoint_below (hlt x hx) (hlt y hy) (hne x hx y hy hxy) (hne y hy x hx (Ne.symm hxy))

theorem nodup_below (hi : i < g.size) : ((g.below i).map Found.id).Nodup := by
  induction i using hg.induction_up with
  | step i ih =>
    obtain ⟨s, hs⟩ := exists_get?_of_lt hi
    have hc : ∀ c ∈ s.children, g.IsParent i c := fun c h => (hg.mem_children hs c).1 h
    rw [hg.below_eq hs, List.map_cons, List.nodup_cons]
    constructor
    · rw [List.mem_map]
      rintro ⟨x, hx, hxi⟩
      obtain ⟨c, hcm, hx⟩ := List.mem_flatMap.1 hx
      have ha := ((hg.mem_below (hc c hcm).lt_size).1 hx).1
      rw [hxi] at ha
      exact hg.not_isAbove_of_isParent (hc c hcm) ha
    · exact hg.nodup_flatMap_below (hg.nodup_children hs) (fun c h => (hc c h).lt_size)
        (fun c h => ih c (hc c h) (hc c h).lt_size)
        (fun x hx y hy => hg.not_isAbove_sibling (hc x hx) (hc y hy))

/-! ### Children -/

theorem children?_eq (hs : g.get? i = some s) :
    ∃ xs, g.children? i = some xs ∧ xs.map Found.id = s.children ∧
      ∀ x ∈ xs, g.get? x.id = some x.slot := by
  have hc : ∀ c ∈ s.children, g.find? c = some ⟨c, (g.get? c).getD default⟩ := by
    intro c hc
    obtain ⟨t, ht⟩ := exists_get?_of_lt ((hg.mem_children hs c).1 hc).lt_size
    rw [find?_of_get? ht, ht, Option.getD_some]
  refine ⟨s.children.map fun c => ⟨c, (g.get? c).getD default⟩, ?_, ?_, ?_⟩
  · show (g.get? i).bind (fun s => s.children.mapM g.find?) = _
    rw [hs, Option.bind_some]
    exact mapM_eq_some_of_forall hc
  · rw [List.map_map]
    exact List.map_id _
  · intro x hx
    obtain ⟨c, hcm, rfl⟩ := List.mem_map.1 hx
    obtain ⟨t, ht⟩ := exists_get?_of_lt ((hg.mem_children hs c).1 hcm).lt_size
    rw [ht, Option.getD_some]

/-! ### The way up -/

/-- The walk upwards has an answer, and meets a unit just if there is one. -/
theorem exists_aboveWithin? {rank : DeclId → Nat}
    (hrank : ∀ p i, g.IsParent p i → rank p < rank i) (fuel : Nat) (hi : i < g.size)
    (hf : rank i < fuel) : ∃ xs, g.aboveWithin? fuel (some i) = some xs ∧
      (∀ x, xs.find? (·.slot.kind == .unit) = some x →
        g.IsAbove x.id i ∧ g.get? x.id = some x.slot ∧ x.slot.kind = .unit) ∧
      (xs.find? (·.slot.kind == .unit) = none →
        ∀ u s, g.IsAbove u i → g.get? u = some s → s.kind ≠ .unit) := by
  induction fuel generalizing i with
  | zero => omega
  | succ fuel ih =>
    obtain ⟨s, hs⟩ := exists_get?_of_lt hi
    rw [aboveWithin?, find?_of_get? hs]
    by_cases hk : s.kind = .unit
    · refine ⟨[⟨i, s⟩], by simp [hk], ?_, by simp [hk]⟩
      intro x hx
      simp only [hk, beq_self_eq_true, List.find?_cons_of_pos, Option.some.injEq] at hx
      subst hx
      exact ⟨.refl, hs, hk⟩
    · cases hp : s.parent with
      | none =>
        refine ⟨[⟨i, s⟩], by simp [hk, hp, aboveWithin?], by simp [hk], fun _ u t ha ht => ?_⟩
        obtain rfl := ha.eq_of_parent_eq_none hs hp
        obtain rfl : s = t := Option.some.inj (hs.symm.trans ht)
        exact hk
      | some p =>
        have hpi : g.IsParent p i := ⟨s, hs, hp⟩
        have hlt : rank p < fuel := by
          have := hrank p i hpi
          omega
        obtain ⟨xs, hxs, hsome, hnone⟩ := ih (hg.parent_lt hpi) hlt
        refine ⟨⟨i, s⟩ :: xs, by simp [hk, hp, hxs], ?_, ?_⟩
        · intro x hx
          simp only [List.find?_cons, beq_eq_false_iff_ne.2 hk] at hx
          obtain ⟨ha, hx⟩ := hsome x hx
          exact ⟨ha.tail hpi, hx⟩
        · intro hx u t ha ht
          simp only [List.find?_cons, beq_eq_false_iff_ne.2 hk] at hx
          rcases ReflTransGen.cases_tail ha with rfl | ⟨q, huq, hq⟩
          · obtain rfl : s = t := Option.some.inj (hs.symm.trans ht)
            exact hk
          · obtain rfl := hq.unique hpi
            exact hnone hx u t huq ht

theorem exists_above? (hi : i < g.size) : ∃ xs, g.above? (some i) = some xs ∧
    (∀ x, xs.find? (·.slot.kind == .unit) = some x →
      g.IsAbove x.id i ∧ g.get? x.id = some x.slot ∧ x.slot.kind = .unit) ∧
    (xs.find? (·.slot.kind == .unit) = none →
      ∀ u s, g.IsAbove u i → g.get? u = some s → s.kind ≠ .unit) := by
  obtain ⟨rank, hlt, hrank⟩ := hg.exists_rank
  exact hg.exists_aboveWithin? hrank (g.size + 1) hi (Nat.lt_succ_of_lt (hlt i hi))

theorem exists_qualifiedName? (hi : i < g.size) : ∃ n, g.qualifiedName? i = some n := by
  obtain ⟨s, hs⟩ := exists_get?_of_lt hi
  have h : ∃ xs, g.above? s.parent = some xs := by
    cases hp : s.parent with
    | none => exact ⟨[], rfl⟩
    | some p =>
      obtain ⟨xs, hxs, -⟩ := hg.exists_above? (hg.parent_lt ⟨s, hs, hp⟩)
      exact ⟨xs, hxs⟩
  obtain ⟨xs, hxs⟩ := h
  exact ⟨_, by simp [qualifiedName?, hs, hxs]; rfl⟩

theorem exists_unitOf? (hi : i < g.size) : ∃ o, g.unitOf? i = some o ∧
    (∀ u, o = some u → g.IsAbove u i ∧ ∃ s, g.get? u = some s ∧ s.kind = .unit) ∧
    (o = none → ∀ u s, g.IsAbove u i → g.get? u = some s → s.kind ≠ .unit) := by
  obtain ⟨xs, hxs, hsome, hnone⟩ := hg.exists_above? hi
  refine ⟨(xs.find? (·.slot.kind == .unit)).map Found.id, by simp [unitOf?, hxs], ?_, ?_⟩
  · intro u hu
    obtain ⟨x, hx, rfl⟩ := Option.map_eq_some_iff.1 hu
    obtain ⟨ha, hs, hk⟩ := hsome x hx
    exact ⟨ha, _, hs, hk⟩
  · intro hn
    exact hnone (Option.map_eq_none_iff.1 hn)

end IsForest

end Graph

end Bindery
