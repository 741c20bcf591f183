import Bindery.Proofs.Graph.Rooted

/-!
# Walks with a stack

`Visits` is a walk with a stack of the slots that it has still to go to, without a bound: it takes
the first of them and puts its children in front of the others, until there are none. On every graph
it lists what the walk down a tree answers, and comes to no end where that one has no answer: a way
down that is longer than the number of slots leads round in a circle.
-/

namespace Bindery.Graph

variable {g : Graph} {i : DeclId} {s : Slot} {t : Tree Found} {n m : Nat}

/-- A walk that goes to the slots of `todo`, the first of them first, lists `xs` and comes to an
end. -/
inductive Visits (g : Graph) : List DeclId → List Found → Prop where
  | nil : g.Visits [] []
  | cons {i : DeclId} {s : Slot} {todo : List DeclId} {xs : List Found} (hs : g.get? i = some s)
      (h : g.Visits (s.children ++ todo) xs) : g.Visits (i :: todo) (⟨i, s⟩ :: xs)

/-! ### The bound on the depth -/

theorem get?_of_treeWithin? (h : g.treeWithin? n i = some t) : ∃ s, g.get? i = some s := by
  cases n with
  | zero => exact absurd h nofun
  | succ n =>
    cases hs : g.get? i with
    | none => simp [treeWithin?, find?, hs] at h
    | some s => exact ⟨s, rfl⟩

theorem mapM_mono {α β : Type} {f f' : α → Option β} (h : ∀ a b, f a = some b → f' a = some b) :
    ∀ {l : List α} {bs : List β}, l.mapM f = some bs → l.mapM f' = some bs
  | [], _, hl => hl
  | a :: l, bs, hl => by
    obtain ⟨b, cs, hb, hcs, rfl⟩ := mapM_cons_eq_some_iff.1 hl
    exact mapM_cons_eq_some_iff.2 ⟨b, cs, h a b hb, mapM_mono h hcs, rfl⟩

/-- A tree that is found is found with a larger bound. -/
theorem treeWithin?_mono (hnm : n ≤ m) (h : g.treeWithin? n i = some t) :
    g.treeWithin? m i = some t := by
  induction n generalizing m i t with
  | zero => exact absurd h nofun
  | succ n ih =>
    obtain ⟨m, rfl⟩ := Nat.exists_eq_add_of_le' (Nat.zero_lt_of_lt hnm)
    obtain ⟨s, hs⟩ := get?_of_treeWithin? h
    rw [treeWithin?_succ hs] at h ⊢
    obtain ⟨ts, hts, rfl⟩ := Option.map_eq_some_iff.1 h
    rw [mapM_mono (fun c u hu => ih (Nat.le_of_succ_le_succ hnm) hu) hts, Option.map_some]

/-- The slots whose trees are less than `n` deep. -/
def shallow (g : Graph) (n : Nat) : Finset DeclId :=
  (Finset.range g.size).filter fun i => (g.treeWithin? n i).isSome

theorem mem_shallow : i ∈ g.shallow n ↔ ∃ t, g.treeWithin? n i = some t := by
  rw [shallow, Finset.mem_filter, Finset.mem_range, Option.isSome_iff_exists, and_iff_right_iff_imp]
  rintro ⟨t, ht⟩
  obtain ⟨s, hs⟩ := get?_of_treeWithin? ht
  exact lt_size_of_get? hs

theorem shallow_mono : Monotone g.shallow := fun _ _ hnm _ hi => by
  obtain ⟨t, ht⟩ := mem_shallow.1 hi
  exact mem_shallow.2 ⟨t, treeWithin?_mono hnm ht⟩

theorem mapM_isSome_iff {α β : Type} {f : α → Option β} {l : List α} :
    (∃ bs, l.mapM f = some bs) ↔ ∀ a ∈ l, ∃ b, f a = some b := by
  induction l with
  | nil => simp
  | cons a l ih =>
    rw [List.forall_mem_cons, ← ih]
    constructor
    · rintro ⟨bs, h⟩
      obtain ⟨b, cs, hb, hcs, -⟩ := mapM_cons_eq_some_iff.1 h
      exact ⟨⟨b, hb⟩, cs, hcs⟩
    · rintro ⟨⟨b, hb⟩, cs, hcs⟩
      exact ⟨b :: cs, mapM_cons_eq_some_iff.2 ⟨b, cs, hb, hcs, rfl⟩⟩

/-- A tree is one level deeper than the trees of the children. -/
theorem mem_shallow_succ :
    i ∈ g.shallow (n + 1) ↔ ∃ s, g.get? i = some s ∧ ∀ c ∈ s.children, c ∈ g.shallow n := by
  simp only [mem_shallow, ← mapM_isSome_iff]
  constructor
  · rintro ⟨t, ht⟩
    obtain ⟨s, hs⟩ := get?_of_treeWithin? ht
    rw [treeWithin?_succ hs] at ht
    obtain ⟨ts, hts, -⟩ := Option.map_eq_some_iff.1 ht
    exact ⟨s, hs, ts, hts⟩
  · rintro ⟨s, hs, ts, hts⟩
    exact ⟨_, by rw [treeWithin?_succ hs, hts, Option.map_some]⟩

/-- Once no slot comes in, none does: so the number of slots bounds the depth of all trees. -/
theorem shallow_subset (n : Nat) : g.shallow n ⊆ g.shallow (g.size + 1) := by
  have hstab : ∀ m, (g.shallow m).card = (g.shallow (m + 1)).card →
      (g.shallow (m + 1)).card = (g.shallow (m + 2)).card := by
    intro m hm
    have heq := Finset.eq_of_subset_of_card_le (shallow_mono m.le_succ) hm.symm.le
    congr 1
    ext i
    rw [mem_shallow_succ, mem_shallow_succ, ← heq]
  have hbound : ∀ m, (g.shallow m).card ≤ g.size + 1 := fun m =>
    (Finset.card_filter_le _ _).trans (by simp)
  rcases le_total n (g.size + 1) with hn | hn
  · exact shallow_mono hn
  · have hcard := Nat.stabilises_of_monotone (f := fun m => (g.shallow m).card)
      (fun _ _ h => Finset.card_le_card (shallow_mono h)) hbound hstab hn
    exact (Finset.eq_of_subset_of_card_le (shallow_mono hn) hcard.le).symm.subset

theorem subtree?_of_treeWithin? (h : g.treeWithin? n i = some t) : g.subtree? i = some t := by
  obtain ⟨u, hu⟩ := mem_shallow.1 (shallow_subset n (mem_shallow.2 ⟨t, h⟩))
  have h1 := treeWithin?_mono (Nat.le_add_right n (g.size + 1)) h
  have h2 := treeWithin?_mono (Nat.le_add_left (g.size + 1) n) hu
  rw [Option.some.inj (h1.symm.trans h2)]
  exact hu

/-! ### The same answers -/

/-- Trees are listed one after the other, before the walk goes to anything else. -/
theorem Visits.append {f : DeclId → Option (Tree Found)}
    (hf : ∀ {i t todo xs}, f i = some t → g.Visits todo xs →
      g.Visits (i :: todo) (t.preorder ++ xs)) {todo : List DeclId} {xs : List Found}
    (h : g.Visits todo xs) : ∀ {ids : List DeclId} {ts : List (Tree Found)},
      ids.mapM f = some ts → g.Visits (ids ++ todo) (Tree.preorderList ts ++ xs)
  | [], ts, hts => by
    obtain rfl := Option.some.inj hts
    exact h
  | i :: ids, ts, hts => by
    obtain ⟨t, us, ht, hus, rfl⟩ := mapM_cons_eq_some_iff.1 hts
    rw [List.cons_append, Tree.preorderList, List.append_assoc]
    exact hf ht (h.append hf hus)

theorem Visits.of_treeWithin? : ∀ (n : Nat) {i : DeclId} {t : Tree Found} {todo : List DeclId}
    {xs : List Found}, g.treeWithin? n i = some t → g.Visits todo xs →
      g.Visits (i :: todo) (t.preorder ++ xs)
  | 0, _, _, _, _, ht, _ => absurd ht nofun
  | n + 1, i, t, todo, xs, ht, h => by
    obtain ⟨s, hs⟩ := get?_of_treeWithin? ht
    rw [treeWithin?_succ hs] at ht
    obtain ⟨ts, hts, rfl⟩ := Option.map_eq_some_iff.1 ht
    exact .cons hs (h.append (Visits.of_treeWithin? n) hts)

/-- A walk that comes to an end has gone down trees. -/
theorem Visits.exists_trees {todo : List DeclId} {xs : List Found} (h : g.Visits todo xs) :
    ∃ n ts, todo.mapM (g.treeWithin? n) = some ts ∧ Tree.preorderList ts = xs := by
  induction h with
  | nil => exact ⟨0, [], rfl, rfl⟩
  | @cons i s todo xs hs _ ih =>
    obtain ⟨n, ts, hts, rfl⟩ := ih
    rw [List.mapM_append] at hts
    obtain ⟨cs, hcs, hts⟩ := Option.bind_eq_some_iff.1 hts
    obtain ⟨us, hus, hts⟩ := Option.bind_eq_some_iff.1 hts
    obtain rfl := Option.some.inj hts
    refine ⟨n + 1, .node ⟨i, s⟩ cs :: us, ?_, ?_⟩
    · have hus' := mapM_mono (fun _ _ hu => treeWithin?_mono n.le_succ hu) hus
      refine mapM_cons_eq_some_iff.2 ⟨_, us, ?_, hus', rfl⟩
      rw [treeWithin?_succ hs, hcs, Option.map_some]
    · simp [Tree.preorderList_eq_flatMap, Tree.preorder]

/-- The walk with a stack lists what the tree says, and comes to an end only where there is one. -/
theorem visits_singleton_iff {xs : List Found} :
    g.Visits [i] xs ↔ g.descendants? i = some xs := by
  constructor
  · intro h
    obtain ⟨n, ts, hts, rfl⟩ := h.exists_trees
    obtain ⟨t, us, ht, hus, rfl⟩ := mapM_cons_eq_some_iff.1 hts
    obtain rfl := Option.some.inj hus
    rw [descendants?, subtree?_of_treeWithin? ht, Option.map_some]
    simp [Tree.preorderList]
  · intro h
    obtain ⟨t, ht, rfl⟩ := Option.map_eq_some_iff.1 h
    rw [← List.append_nil t.preorder]
    exact Visits.of_treeWithin? _ ht .nil

end Bindery.Graph
