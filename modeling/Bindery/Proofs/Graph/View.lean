import Bindery.Graph.Listing
import Bindery.Proofs.Graph.Walk

/-!
# Views of graphs

`Graph.View ι f g h`: the graph `h` has every slot of `g`, changed by `f`, under the number that `ι`
gives it, and the same units. It may have more slots, which nothing in the view leads to. A walk
that has an answer in `g` has the same one in `h`, but for the numbers and the change.
-/

namespace Bindery

variable {α β γ δ : Type}

/-- A walk over renamed elements, if every element has the renamed answer. -/
theorem mapM_map_eq_some {p : α → Option β} {q : γ → Option δ} {ι : α → γ} {φ : β → δ} :
    ∀ {l : List α} {bs : List β}, (∀ a ∈ l, ∀ b, p a = some b → q (ι a) = some (φ b)) →
      l.mapM p = some bs → (l.map ι).mapM q = some (bs.map φ)
  | [], bs, _, h => by
    obtain rfl : [] = bs := Option.some.inj h
    rfl
  | a :: l, bs, H, h => by
    simp only [List.mapM_cons, Option.pure_def, Option.bind_eq_bind, Option.bind_eq_some_iff,
      Option.some.injEq] at h
    obtain ⟨b, hb, cs, hcs, rfl⟩ := h
    have hq := H a List.mem_cons_self b hb
    have ih := mapM_map_eq_some (fun c hc => H c (List.mem_cons_of_mem a hc)) hcs
    simp [List.mapM_cons, hq, ih]

/-- What was found, as it is seen in another graph. -/
def Found.seen (ι : DeclId → DeclId) (f : Slot → Slot) (x : Found) : Found := ⟨ι x.id, f x.slot⟩

namespace Graph

variable {ι : DeclId → DeclId} {f : Slot → Slot} {g h : Graph} {i : DeclId} {s : Slot}

structure View (ι : DeclId → DeclId) (f : Slot → Slot) (g h : Graph) : Prop where
  injective : Function.Injective ι
  get?_eq : ∀ {i s}, g.get? i = some s → h.get? (ι i) = some (f s)
  units_eq : h.units = g.units.map ι
  size_le : g.size ≤ h.size
  parent_eq : ∀ s, (f s).parent = s.parent.map ι
  children_eq : ∀ s, (f s).children = s.children.map ι
  kind_eq : ∀ s, (f s).kind = s.kind
  name_eq : ∀ s, (f s).name = s.name
  type_eq : ∀ s, (f s).type = s.type
  isComplete_eq : ∀ s, (f s).isComplete = s.isComplete

namespace View

theorem refl (g : Graph) : View id id g g where
  injective := Function.injective_id
  get?_eq hs := hs
  units_eq := (List.map_id _).symm
  size_le := le_rfl
  parent_eq s := (congrFun Option.map_id s.parent).symm
  children_eq s := (List.map_id s.children).symm
  kind_eq _ := rfl
  name_eq _ := rfl
  type_eq _ := rfl
  isComplete_eq _ := rfl

variable (V : View ι f g h)
include V

theorem find?_eq {x : Found} (hx : g.find? i = some x) :
    h.find? (ι i) = some (x.seen ι f) := by
  obtain ⟨s, hs, rfl⟩ := Option.map_eq_some_iff.1 hx
  exact find?_of_get? (V.get?_eq hs)

/-! ### The way down -/

theorem treeWithin?_eq {n : Nat} : ∀ {m : Nat} {i : DeclId} {t : Tree Found}, n ≤ m →
    g.treeWithin? n i = some t → h.treeWithin? m (ι i) = some (t.map (Found.seen ι f)) := by
  induction n with
  | zero => exact fun _ h => absurd h nofun
  | succ n ih =>
    intro m i t hm ht
    obtain ⟨m, rfl⟩ : ∃ k, m = k + 1 := ⟨m - 1, by omega⟩
    cases hs : g.get? i with
    | none => simp [treeWithin?, find?, hs] at ht
    | some s =>
      rw [treeWithin?_succ hs] at ht
      obtain ⟨ts, hts, rfl⟩ := Option.map_eq_some_iff.1 ht
      have hch := mapM_map_eq_some (fun c _ u hu => ih (Nat.le_of_succ_le_succ hm) hu) hts
      rw [treeWithin?_succ (V.get?_eq hs), V.children_eq, hch, Option.map_some, Tree.map,
        Tree.mapList_eq_map]
      rfl

theorem subtree?_eq {t : Tree Found} (ht : g.subtree? i = some t) :
    h.subtree? (ι i) = some (t.map (Found.seen ι f)) :=
  V.treeWithin?_eq (Nat.succ_le_succ V.size_le) ht

theorem forest?_eq {ts : List (Tree Found)} (hts : g.forest? = some ts) :
    h.forest? = some (ts.map (Tree.map (Found.seen ι f))) := by
  rw [forest?, V.units_eq]
  exact mapM_map_eq_some (fun u _ t ht => V.subtree?_eq ht) hts

theorem live?_eq {xs : List Found} (hxs : g.live? = some xs) :
    h.live? = some (xs.map (Found.seen ι f)) := by
  obtain ⟨ts, hts, rfl⟩ := Option.map_eq_some_iff.1 hxs
  rw [live?, V.forest?_eq hts, Option.map_some, ← Tree.mapList_eq_map, Tree.preorderList_mapList]

theorem descendants?_eq {xs : List Found} (hxs : g.descendants? i = some xs) :
    h.descendants? (ι i) = some (xs.map (Found.seen ι f)) := by
  obtain ⟨t, ht, rfl⟩ := Option.map_eq_some_iff.1 hxs
  rw [descendants?, V.subtree?_eq ht, Option.map_some, Tree.preorder_map]

theorem children?_eq {xs : List Found} (hxs : g.children? i = some xs) :
    h.children? (ι i) = some (xs.map (Found.seen ι f)) := by
  obtain ⟨s, hs, hxs⟩ := Option.bind_eq_some_iff.1 hxs
  show (h.get? (ι i)).bind (fun s => s.children.mapM h.find?) = _
  rw [V.get?_eq hs, Option.bind_some, V.children_eq]
  exact mapM_map_eq_some (fun c _ x hx => V.find?_eq hx) hxs

omit V in
/-- A choice by what the change does not touch. -/
theorem map_id_filter {p : Slot → Bool} (hp : ∀ s, p (f s) = p s) (xs : List Found) :
    ((xs.map (Found.seen ι f)).filter fun x => p x.slot).map Found.id =
      ((xs.filter fun x => p x.slot).map Found.id).map ι := by
  rw [List.filter_map, List.map_map, List.map_map]
  have hcomp : (fun x : Found => p x.slot) ∘ Found.seen ι f = fun x => p x.slot :=
    funext fun x => hp x.slot
  rw [hcomp]
  rfl

theorem liveWhere?_eq {p : Slot → Bool} (hp : ∀ s, p (f s) = p s) {ids : List DeclId}
    (hids : g.liveWhere? p = some ids) : h.liveWhere? p = some (ids.map ι) := by
  obtain ⟨xs, hxs, rfl⟩ := Option.map_eq_some_iff.1 hids
  rw [liveWhere?, V.live?_eq hxs, Option.map_some, map_id_filter hp]

theorem childrenWhere?_eq {p : Slot → Bool} (hp : ∀ s, p (f s) = p s) {ids : List DeclId}
    (hids : g.childrenWhere? i p = some ids) : h.childrenWhere? (ι i) p = some (ids.map ι) := by
  obtain ⟨xs, hxs, rfl⟩ := Option.map_eq_some_iff.1 hids
  rw [childrenWhere?, V.children?_eq hxs, Option.map_some, map_id_filter hp]

/-! ### The way up -/

theorem aboveWithin?_eq {n : Nat} : ∀ {m : Nat} {i : Option DeclId} {xs : List Found}, n ≤ m →
    g.aboveWithin? n i = some xs →
      h.aboveWithin? m (i.map ι) = some (xs.map (Found.seen ι f)) := by
  induction n with
  | zero =>
    intro m i xs _ hxs
    cases i with
    | some i => exact absurd hxs nofun
    | none =>
      obtain rfl : [] = xs := by simpa [aboveWithin?] using hxs
      simp [aboveWithin?]
  | succ n ih =>
    intro m i xs hm hxs
    obtain ⟨m, rfl⟩ : ∃ k, m = k + 1 := ⟨m - 1, by omega⟩
    cases i with
    | none =>
      obtain rfl : [] = xs := by simpa [aboveWithin?] using hxs
      simp [aboveWithin?]
    | some i =>
      obtain ⟨x, hx, hxs⟩ := Option.bind_eq_some_iff.1 hxs
      show (h.find? (ι i)).bind _ = _
      rw [V.find?_eq hx, Option.bind_some]
      have hk : (x.seen ι f).slot.kind = x.slot.kind := V.kind_eq x.slot
      rw [hk]
      split at hxs
      · next hu =>
        obtain rfl : [x] = xs := Option.some.inj hxs
        rw [if_pos hu]
        rfl
      · next hu =>
        obtain ⟨ys, hys, hxs⟩ := Option.bind_eq_some_iff.1 hxs
        obtain rfl : x :: ys = xs := Option.some.inj hxs
        have hp : (x.seen ι f).slot.parent = x.slot.parent.map ι := V.parent_eq x.slot
        rw [if_neg hu, hp, ih (Nat.le_of_succ_le_succ hm) hys]
        rfl

theorem above?_eq {i : Option DeclId} {xs : List Found} (hxs : g.above? i = some xs) :
    h.above? (i.map ι) = some (xs.map (Found.seen ι f)) :=
  V.aboveWithin?_eq (Nat.succ_le_succ V.size_le) hxs

theorem qualifiedName?_eq {n : String} (hn : g.qualifiedName? i = some n) :
    h.qualifiedName? (ι i) = some n := by
  obtain ⟨s, hs, hn⟩ := Option.bind_eq_some_iff.1 hn
  obtain ⟨xs, hxs, hn⟩ := Option.bind_eq_some_iff.1 hn
  obtain rfl := Option.some.inj hn
  have hkind : (fun x : Found => x.slot.kind != .unit) ∘ Found.seen ι f =
      fun x => x.slot.kind != .unit := funext fun x => congrArg (· != Kind.unit) (V.kind_eq x.slot)
  have hname : (fun x : Found => x.slot.name) ∘ Found.seen ι f = fun x => x.slot.name :=
    funext fun x => V.name_eq x.slot
  show (h.get? (ι i)).bind _ = _
  rw [V.get?_eq hs, Option.bind_some, V.parent_eq, V.above?_eq hxs, V.name_eq]
  simp only [Option.bind_eq_bind, Option.bind_some, List.filter_map, List.map_map, hkind, hname]
  rfl

theorem unitOf?_eq {o : Option DeclId} (ho : g.unitOf? i = some o) :
    h.unitOf? (ι i) = some (o.map ι) := by
  obtain ⟨xs, hxs, ho⟩ := Option.bind_eq_some_iff.1 ho
  obtain rfl := Option.some.inj ho
  have hkind : (fun x : Found => x.slot.kind == .unit) ∘ Found.seen ι f =
      fun x => x.slot.kind == .unit := funext fun x => congrArg (· == Kind.unit) (V.kind_eq x.slot)
  show (h.above? ((some i).map ι)).bind _ = _
  rw [V.above?_eq hxs, Option.bind_some, List.find?_map, hkind, Option.map_map, Option.map_map]
  rfl

end View

end Graph

end Bindery
