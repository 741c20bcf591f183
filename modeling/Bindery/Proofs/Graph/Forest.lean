import Bindery.Graph.Walk
import Mathlib.Data.Finset.Card
import Mathlib.Logic.Relation

/-!
# Forests

`Graph.IsForest`: every slot carries its own number, parents and children agree, and no declaration
stands above itself. In a forest the ways up are finite, which gives a `rank` below the number of
slots that grows from a parent to its children, and with it a root above every declaration.
-/

namespace Bindery.Graph

open Relation

variable {g : Graph} {i p q r x y : DeclId} {s t : Slot}

def IsParent (g : Graph) (p c : DeclId) : Prop := ∃ s, g.get? c = some s ∧ s.parent = some p

/-- `r` is `x` itself or stands somewhere above it. -/
abbrev IsAbove (g : Graph) : DeclId → DeclId → Prop := ReflTransGen g.IsParent

structure IsForest (g : Graph) : Prop where
  id_eq : ∀ {i s}, g.get? i = some s → s.id = i
  mem_children : ∀ {p s}, g.get? p = some s → ∀ c, c ∈ s.children ↔ g.IsParent p c
  nodup_children : ∀ {p s}, g.get? p = some s → s.children.Nodup
  parent_lt : ∀ {p c}, g.IsParent p c → p < g.size
  acyclic : ∀ i, ¬ TransGen g.IsParent i i

/-! ### Slots and parents -/

theorem lt_size_of_get? (h : g.get? i = some s) : i < g.size := by
  simp only [get?, Array.getElem?_eq_some_iff] at h
  exact h.1

theorem exists_get?_of_lt (h : i < g.size) : ∃ s, g.get? i = some s :=
  Option.isSome_iff_exists.1 (by rwa [get?, isSome_getElem?])

theorem get?_eq_none_iff : g.get? i = none ↔ g.size ≤ i := by
  simp [get?, size]

theorem IsParent.lt_size (h : g.IsParent p i) : i < g.size := by
  obtain ⟨s, hs, -⟩ := h
  exact lt_size_of_get? hs

theorem isParent_iff_of_get? (h : g.get? i = some s) : g.IsParent p i ↔ s.parent = some p := by
  constructor
  · rintro ⟨t, ht, hp⟩
    rw [h] at ht
    obtain rfl := Option.some.inj ht
    exact hp
  · exact fun hp => ⟨s, h, hp⟩

/-- A declaration has at most one parent. -/
theorem IsParent.unique (hp : g.IsParent p i) (hq : g.IsParent q i) : p = q := by
  obtain ⟨s, hs, hp⟩ := hp
  rw [isParent_iff_of_get? hs, hp] at hq
  exact Option.some.inj hq

theorem not_isParent_of_parent_eq_none (h : g.get? i = some s) (hs : s.parent = none) :
    ¬ g.IsParent p i := by
  rw [isParent_iff_of_get? h, hs]
  exact nofun

/-- Nothing but itself stands above a declaration without a parent. -/
theorem IsAbove.eq_of_parent_eq_none (ha : g.IsAbove r i) (h : g.get? i = some s)
    (hs : s.parent = none) : r = i := by
  rcases ReflTransGen.cases_tail ha with rfl | ⟨p, -, hp⟩
  · rfl
  · exact absurd hp (not_isParent_of_parent_eq_none h hs)

/-- Of two declarations above the same one, one is above the other. -/
theorem IsAbove.total (hx : g.IsAbove x i) (hy : g.IsAbove y i) :
    g.IsAbove x y ∨ g.IsAbove y x := by
  have hu : Relator.RightUnique (Function.swap g.IsParent) :=
    fun _ _ _ hp hq => IsParent.unique hp hq
  rcases ReflTransGen.total_of_right_unique hu hx.swap hy.swap with h | h
  · exact Or.inr h.swap
  · exact Or.inl h.swap

theorem IsAbove.lt_size (ha : g.IsAbove r i) (hr : r < g.size) : i < g.size := by
  rcases ReflTransGen.cases_tail ha with rfl | ⟨p, -, hp⟩
  · exact hr
  · exact hp.lt_size

namespace IsForest

variable (hg : g.IsForest)
include hg

theorem ne_of_isParent (h : g.IsParent p i) : p ≠ i := by
  rintro rfl
  exact hg.acyclic p (TransGen.single h)

/-- Nothing stands above its own parent. -/
theorem not_isAbove_of_isParent (h : g.IsParent p i) : ¬ g.IsAbove i p := fun ha =>
  hg.acyclic p (TransGen.head' h ha)

/-! ### Rank -/

open Classical in
/-- A number below the size for every declaration, which grows on the way down. -/
theorem exists_rank : ∃ rank : DeclId → Nat, (∀ i < g.size, rank i < g.size) ∧
    ∀ p i, g.IsParent p i → rank p < rank i := by
  let above (i : DeclId) : Finset DeclId := (Finset.range g.size).filter (TransGen g.IsParent · i)
  refine ⟨fun i => (above i).card, fun i hi => ?_, fun p i hp => ?_⟩
  · have hsub : above i ⊂ Finset.range g.size := by
      refine Finset.filter_ssubset.2 ⟨i, Finset.mem_range.2 hi, hg.acyclic i⟩
    simpa using Finset.card_lt_card hsub
  · refine Finset.card_lt_card ((Finset.ssubset_iff_of_subset fun a ha => ?_).2 ⟨p, ?_, ?_⟩)
    · simp only [above, Finset.mem_filter] at ha ⊢
      exact ⟨ha.1, ha.2.tail hp⟩
    · simpa [above] using ⟨hg.parent_lt hp, TransGen.single hp⟩
    · simpa [above] using fun _ => hg.acyclic p

/-- Induction from the parents down to their children. -/
theorem induction_down {motive : DeclId → Prop}
    (step : ∀ i, (∀ p, g.IsParent p i → motive p) → motive i) (i : DeclId) : motive i := by
  obtain ⟨rank, -, hrank⟩ := hg.exists_rank
  induction hn : rank i using Nat.strong_induction_on generalizing i with
  | _ n ih => exact step i fun p hp => ih (rank p) (hn ▸ hrank p i hp) p rfl

/-- Induction from the children up to their parents. -/
theorem induction_up {motive : DeclId → Prop}
    (step : ∀ i, (∀ c, g.IsParent i c → motive c) → motive i) (i : DeclId) : motive i := by
  obtain ⟨rank, hlt, hrank⟩ := hg.exists_rank
  induction hn : g.size - rank i using Nat.strong_induction_on generalizing i with
  | _ n ih =>
    refine step i fun c hc => ih (g.size - rank c) ?_ c rfl
    have h1 := hrank i c hc
    have h2 := hlt c hc.lt_size
    omega

/-- Above every declaration there is one without a parent. -/
theorem exists_root (hi : i < g.size) :
    ∃ r t, g.IsAbove r i ∧ g.get? r = some t ∧ t.parent = none := by
  induction i using hg.induction_down with
  | step i ih =>
    obtain ⟨s, hs⟩ := exists_get?_of_lt hi
    cases hp : s.parent with
    | none => exact ⟨i, s, .refl, hs, hp⟩
    | some p =>
      have hpi : g.IsParent p i := ⟨s, hs, hp⟩
      obtain ⟨r, t, hr, ht, hn⟩ := ih p hpi (hg.parent_lt hpi)
      exact ⟨r, t, hr.tail hpi, ht, hn⟩

end IsForest

/-- A rank that grows on the way down keeps a graph free of cycles. -/
theorem acyclic_of_rank (rank : DeclId → Nat) (h : ∀ p i, g.IsParent p i → rank p < rank i) (i) :
    ¬ TransGen g.IsParent i i := by
  have key : ∀ {a b}, TransGen g.IsParent a b → rank a < rank b := by
    intro a b hab
    induction hab with
    | single hp => exact h _ _ hp
    | tail _ hp ih => exact lt_trans ih (h _ _ hp)
  exact fun hi => lt_irrefl _ (key hi)

end Bindery.Graph
