import Bindery.Proofs.Graph.Preservation
import Bindery.Proofs.Graph.View

/-!
# What hoisting leaves where it was

Hoisting takes a namespace out from between its unit and what it declares. Seen from the unit, that
moves the block below the namespace to the end, and takes the namespace's name off the front of
every name in it; everything else stands where it stood, and is found where it was found.
-/

namespace Bindery

open Relation

/-- The slot after `space` was emptied onto `unit`, which has the children `cs` then, and was cut
off. -/
def Slot.hoisted (space unit : DeclId) (cs : List DeclId) (s : Slot) : Slot :=
  { s with
    flags := if s.id = space then s.flags ∪ .removed else s.flags
    parent := if s.id = space then none
      else if s.parent = some space then some unit else s.parent
    children := if s.id = unit then cs else if s.id = space then [] else s.children }

/-- A namespace that is cut off is no class without a body. -/
theorem Slot.isComplete_hoisted (space unit : DeclId) (cs : List DeclId) (s : Slot) :
    (s.hoisted space unit cs).isComplete = s.isComplete := by
  have hbit : Flags.removed.has .incomplete = false := by decide
  unfold Declaration.isComplete hoisted
  dsimp only
  split
  · rw [Flags.isBit_incomplete.has_union, hbit, Bool.or_false]
  · rfl

namespace Graph

variable {g : Graph} {c i p r space u unit v : DeclId} {s t : Slot} {A B : List DeclId}

/-! ### Paths -/

/-- The names from below the unit down to `i`. -/
def path? (g : Graph) (i : DeclId) : Option (List String) := do
  let s ← g.get? i
  let above ← g.above? s.parent
  return ((above.filter (·.slot.kind != .unit)).map (·.slot.name)).reverse ++ [s.name]

theorem qualifiedName?_eq (g : Graph) (i : DeclId) :
    g.qualifiedName? i = (g.path? i).map ("::".intercalate ·) := by
  unfold qualifiedName? path?
  cases g.get? i with
  | none => rfl
  | some s =>
    simp only [Option.bind_eq_bind, Option.bind_some]
    cases g.above? s.parent <;> rfl

theorem aboveWithin?_mono {n m : Nat} {o : Option DeclId} {xs : List Found} (hnm : n ≤ m)
    (hxs : g.aboveWithin? n o = some xs) : g.aboveWithin? m o = some xs := by
  have h := (View.refl g).aboveWithin?_eq hnm hxs
  have hseen : Found.seen id id = id := rfl
  rwa [Option.map_id, hseen, List.map_id] at h

theorem path?_of_root (ht : g.get? i = some t) (hp : t.parent = none) :
    g.path? i = some [t.name] := by
  simp [path?, ht, hp, above?, aboveWithin?]

/-- The way up ends at a unit, and otherwise goes on from the parent. -/
theorem IsForest.above?_eq (hg : g.IsForest) (hs : g.get? i = some s) :
    g.above? (some i) =
      if s.kind = .unit then some [⟨i, s⟩] else (g.above? s.parent).map (⟨i, s⟩ :: ·) := by
  obtain ⟨xs, hxs, -⟩ := hg.exists_above? (lt_size_of_get? hs)
  have hfound := hxs
  rw [above?, aboveWithin?, find?_of_get? hs, Option.bind_eq_bind, Option.bind_some] at hfound
  dsimp only at hfound
  split at hfound
  · next hk => rw [hxs, if_pos hk, ← hfound]; rfl
  · next hk =>
    obtain ⟨ys, hys, hxy⟩ := Option.bind_eq_some_iff.1 hfound
    have hup : g.above? s.parent = some ys := aboveWithin?_mono (Nat.le_succ _) hys
    rw [hxs, if_neg hk, hup, ← hxy]
    rfl

/-- A path goes on from the parent's, unless that is a unit. -/
theorem IsForest.path?_of_parent (hg : g.IsForest) (ht : g.get? i = some t) (hp : t.parent = some p)
    (hs : g.get? p = some s) :
    g.path? i = if s.kind = .unit then some [t.name] else (g.path? p).map (· ++ [t.name]) := by
  have hup := hg.above?_eq hs
  split at hup
  · next hk => simp [path?, ht, hp, hup, hk]
  · next hk =>
    cases hys : g.above? s.parent with
    | none => simp [path?, ht, hp, hs, hup, hys, hk]
    | some ys => simp [path?, ht, hp, hs, hup, hys, hk]

/-! ### Parents -/

section
variable (hg : g.IsRooted) (hs : g.get? space = some s)
include hg hs

theorem isParent_hoisted : (g.hoisted space unit).IsParent p c ↔
    c ≠ space ∧ (g.IsParent space c ∧ p = unit ∨ g.IsParent p c ∧ p ≠ space) := by
  constructor
  · rintro ⟨t', ht', hp⟩
    obtain ⟨t, ht⟩ := exists_get?_of_hoisted ht'
    obtain ⟨t'', ht'', -, hparent⟩ := hg.get?_hoisted unit hs ht
    obtain rfl := Option.some.inj (ht'.symm.trans ht'')
    rw [hp] at hparent
    split at hparent
    · nomatch hparent
    · next hc =>
      refine ⟨hc, ?_⟩
      split at hparent
      · next htp => exact .inl ⟨⟨t, ht, htp⟩, Option.some.inj hparent⟩
      · next htp => exact .inr ⟨⟨t, ht, hparent.symm⟩, fun h => htp (h ▸ hparent.symm)⟩
  · rintro ⟨hc, h⟩
    have hparent : ∀ {t q}, g.get? c = some t → t.parent = some q →
        (g.hoisted space unit).IsParent (if q = space then unit else q) c := by
      intro t q ht htq
      obtain ⟨t', ht', -, hp'⟩ := hg.get?_hoisted unit hs ht
      refine ⟨t', ht', ?_⟩
      rw [hp', if_neg hc, htq]
      simp only [Option.some.injEq]
      split <;> rfl
    rcases h with ⟨⟨t, ht, htp⟩, rfl⟩ | ⟨⟨t, ht, htp⟩, hne⟩
    · simpa using hparent ht htp
    · simpa [hne] using hparent ht htp

/-- Below a unit stands what stood below it, except for the namespace that was hoisted. -/
theorem isAbove_hoisted (hp : s.parent = some unit) (hunit : unit ∈ g.units) (hu : u ∈ g.units) :
    (g.hoisted space unit).IsAbove u i ↔ g.IsAbove u i ∧ i ≠ space := by
  have hspace : g.IsParent unit space := ⟨s, hs, hp⟩
  have hne : ∀ v ∈ g.units, v ≠ space := by
    rintro v hv rfl
    exact hg.not_isParent_mem_units hv hspace
  constructor
  · intro ha
    induction ha with
    | refl => exact ⟨.refl, hne u hu⟩
    | tail _ hedge ih =>
      obtain ⟨hc, ⟨hpc, rfl⟩ | ⟨hpc, -⟩⟩ := (isParent_hoisted hg hs).1 hedge
      · exact ⟨(ih.1.tail hspace).tail hpc, hc⟩
      · exact ⟨ih.1.tail hpc, hc⟩
  · rintro ⟨ha, hi⟩
    induction ha with
    | refl => exact .refl
    | @tail p c hup hpc ih =>
      by_cases hpe : p = space
      · -- the unit takes the place of the namespace
        subst hpe
        obtain rfl : u = unit := by
          rcases ReflTransGen.cases_tail hup with rfl | ⟨v, huv, hv⟩
          · exact absurd rfl (hne _ hu)
          · exact hg.eq_of_isAbove_mem_units hunit (hv.unique hspace ▸ huv)
        exact .single ((isParent_hoisted hg hs).2 ⟨hi, .inl ⟨hpc, rfl⟩⟩)
      · exact (ih hpe).tail ((isParent_hoisted hg hs).2 ⟨hi, .inr ⟨hpc, hpe⟩⟩)

theorem isLive_hoisted (hp : s.parent = some unit) (hunit : unit ∈ g.units) :
    (g.hoisted space unit).IsLive i ↔ g.IsLive i ∧ i ≠ space := by
  have hunits : (g.hoisted space unit).units = g.units := rfl
  constructor
  · rintro ⟨u, hu, ha⟩
    rw [hunits] at hu
    obtain ⟨ha, hi⟩ := (isAbove_hoisted hg hs hp hunit hu).1 ha
    exact ⟨⟨u, hu, ha⟩, hi⟩
  · rintro ⟨⟨u, hu, ha⟩, hi⟩
    exact ⟨u, hunits ▸ hu, (isAbove_hoisted hg hs hp hunit hu).2 ⟨ha, hi⟩⟩

end

/-! ### Slots -/

/-- `space` is a namespace right below the listed unit `u`, where it stands between `A` and `B`. -/
structure HasSpace (g : Graph) (u : DeclId) (A : List DeclId) (space : DeclId) (B : List DeclId)
    (s : Slot) : Prop where
  mem_units : u ∈ g.units
  children : ∃ t, g.get? u = some t ∧ t.children = A ++ space :: B
  get? : g.get? space = some s
  kind : s.kind = .namespace

/-- A namespace right below a unit stands somewhere among the unit's children. -/
theorem IsRooted.exists_hasSpace (hg : g.IsRooted) (hs : g.get? space = some s)
    (hk : s.kind = .namespace) (hp : s.parent = some u) (hu : u ∈ g.units) :
    ∃ A B, g.HasSpace u A space B s := by
  obtain ⟨t, ht⟩ := exists_get?_of_lt (hg.unit_lt hu)
  obtain ⟨A, B, hc⟩ := List.append_of_mem ((hg.mem_children ht space).2 ⟨s, hs, hp⟩)
  exact ⟨A, B, hu, ⟨t, ht, hc⟩, hs, hk⟩

namespace HasSpace

variable (h : g.HasSpace u A space B s) (hg : g.IsRooted)
include h hg

theorem isParent : g.IsParent u space := by
  obtain ⟨t, ht, hc⟩ := h.children
  exact (hg.mem_children ht space).1 (by simp [hc])

theorem parent_eq : s.parent = some u := (isParent_iff_of_get? h.get?).1 (h.isParent hg)

theorem ne_unit : space ≠ u := (hg.ne_of_isParent (h.isParent hg)).symm

theorem nodup : (A ++ space :: B).Nodup := by
  obtain ⟨t, ht, hc⟩ := h.children
  exact hc ▸ hg.nodup_children ht

/-- Nothing but its place changes about a declaration, and nothing at all about most. -/
theorem hoisted_eq : g.hoisted space u =
    g.mapSlots (Slot.hoisted space u (A ++ B ++ s.children)) := by
  have hnd := h.nodup hg
  have hA : space ∉ A := fun hm =>
    (List.nodup_append.1 hnd).2.2 _ hm _ List.mem_cons_self rfl
  have hB : space ∉ B := (List.nodup_cons.1 (List.nodup_append.1 hnd).2.1).1
  have hchild : ∀ {j t c}, g.get? j = some t → c ∈ t.children → g.IsParent j c :=
    fun ht hc => (hg.mem_children ht _).1 hc
  have hS : space ∉ s.children := fun hm => hg.ne_of_isParent (hchild h.get? hm) rfl
  have hfilter : ∀ {cs : List DeclId}, space ∉ cs → cs.filter (· != space) = cs := fun hcs =>
    List.filter_eq_self.2 fun c hc => bne_iff_ne.2 fun he => hcs (he ▸ hc)
  rw [Graph.hoisted_eq h.get?, mapSlots_mapSlots]
  refine mapSlots_congr fun i t ht => ?_
  have hparent : t.id ∈ s.children ↔ t.parent = some space := by
    rw [hg.id_eq ht, hg.mem_children h.get?, isParent_iff_of_get? ht]
  -- only the namespace's own children are its children
  have hkept : i ≠ space → t.children.filter (· ∉ s.children) = t.children := fun hi =>
    List.filter_eq_self.2 fun c hc => decide_eq_true fun hcs =>
      hi ((hchild ht hc).unique (hchild h.get? hcs))
  have hchildren : ((t.children.filter (· ∉ s.children)) ++
      if t.id = u then s.children else []).filter (· != space) =
      if t.id = u then A ++ B ++ s.children else if t.id = space then [] else t.children := by
    rw [hg.id_eq ht]
    by_cases hiu : i = u
    · obtain ⟨U, hU, hc⟩ := h.children
      obtain rfl := Option.some.inj (ht.symm.trans (hiu ▸ hU))
      rw [hkept (hiu ▸ (h.ne_unit hg).symm), if_pos hiu, if_pos hiu, hc, List.filter_append,
        List.filter_append, hfilter hA, List.filter_cons_of_neg (by simp), hfilter hB, hfilter hS]
    · rw [if_neg hiu, if_neg hiu, List.append_nil]
      by_cases his : i = space
      · obtain rfl := Option.some.inj (ht.symm.trans (his ▸ h.get?))
        simpa [his] using fun c hc _ => hc
      · rw [hkept his, if_neg his]
        exact hfilter fun hm => hiu ((hchild ht hm).unique (h.isParent hg))
  simp only [Slot.dropped, Slot.without, Slot.moved, Slot.hoisted, hchildren, hparent]

theorem get?_hoisted (ht : g.get? i = some t) : (g.hoisted space u).get? i =
    some (t.hoisted space u (A ++ B ++ s.children)) := by
  rw [h.hoisted_eq hg]
  exact get?_mapSlots_of_get? _ ht

/-! ### The way down -/

theorem isRooted_hoisted : (g.hoisted space u).IsRooted := by
  obtain ⟨U, hU, hk⟩ := hg.kind_unit h.mem_units
  exact hg.hoisted h.get? hU hk

/-- What neither is the unit nor the namespace has below it what it had. -/
theorem below_hoisted (hi : i < g.size) (hu : i ≠ u) (hs : i ≠ space) :
    ((g.hoisted space u).below i).map Found.id = (g.below i).map Found.id := by
  induction i using hg.induction_up with
  | step i ih =>
    obtain ⟨t, ht⟩ := exists_get?_of_lt hi
    have hc : ∀ c ∈ t.children, g.IsParent i c := fun c hc => (hg.mem_children ht c).1 hc
    have hchildren : (t.hoisted space u (A ++ B ++ s.children)).children = t.children := by
      simp only [Slot.hoisted, hg.id_eq ht, if_neg hu, if_neg hs]
    rw [hg.below_eq ht, (h.isRooted_hoisted hg).below_eq (h.get?_hoisted hg ht), hchildren,
      List.map_cons, List.map_cons, List.map_flatMap, List.map_flatMap]
    refine congrArg _ (List.flatMap_congr fun c hm => ih c (hc c hm) (hc c hm).lt_size ?_ ?_)
    · rintro rfl
      exact hg.not_isParent_mem_units h.mem_units (hc c hm)
    · rintro rfl
      exact hu ((hc c hm).unique (h.isParent hg))

/-- The block below the namespace goes to the end of the unit's. -/
theorem below_unit : ∃ a b c, (g.below u).map Found.id = u :: (a ++ space :: c ++ b) ∧
    (g.below space).map Found.id = space :: c ∧
    ((g.hoisted space u).below u).map Found.id = u :: (a ++ b ++ c) := by
  obtain ⟨U, hU, hc⟩ := h.children
  let blocks (l : List DeclId) : List DeclId := l.flatMap fun x => (g.below x).map Found.id
  have hspace : (g.below space).map Found.id = space :: blocks s.children := by
    rw [hg.below_eq h.get?, List.map_cons, List.map_flatMap]
  have hkept : ∀ l : List DeclId, (∀ x ∈ l, (∃ p, g.IsParent p x) ∧ x ≠ space) →
      (l.flatMap fun x => ((g.hoisted space u).below x).map Found.id) = blocks l := fun l hl =>
    List.flatMap_congr fun x hx => by
      obtain ⟨⟨p, hp⟩, hne⟩ := hl x hx
      refine h.below_hoisted hg hp.lt_size ?_ hne
      rintro rfl
      exact hg.not_isParent_mem_units h.mem_units hp
  have hnd := h.nodup hg
  have hsibling : ∀ x, x ∈ A ∨ x ∈ B → (∃ p, g.IsParent p x) ∧ x ≠ space := fun x hx => by
    refine ⟨⟨u, (hg.mem_children hU x).1 (by grind)⟩, ?_⟩
    rintro rfl
    grind
  have hcs : (U.hoisted space u (A ++ B ++ s.children)).children = A ++ B ++ s.children := by
    simp only [Slot.hoisted, hg.id_eq hU, if_true]
  refine ⟨blocks A, blocks B, blocks s.children, ?_, hspace, ?_⟩
  · rw [hg.below_eq hU, hc, List.map_cons, List.map_flatMap, List.flatMap_append,
      List.flatMap_cons, hspace, List.append_assoc]
  · rw [(h.isRooted_hoisted hg).below_eq (h.get?_hoisted hg hU), hcs, List.map_cons,
      List.map_flatMap, List.flatMap_append, List.flatMap_append,
      hkept A fun x hx => hsibling x (.inl hx), hkept B fun x hx => hsibling x (.inr hx),
      hkept s.children fun x hx => ?_]
    have hp := (hg.mem_children h.get? x).1 hx
    exact ⟨⟨space, hp⟩, (hg.ne_of_isParent hp).symm⟩

/-- What is live keeps its order but for that. -/
theorem live?_hoisted : ∃ a b c L R,
    (g.descendants? u).map (List.map Found.id) = some (u :: (a ++ space :: c ++ b)) ∧
    (g.descendants? space).map (List.map Found.id) = some (space :: c) ∧
    g.live?.map (List.map Found.id) = some (L ++ u :: (a ++ space :: c ++ b) ++ R) ∧
    (g.hoisted space u).live?.map (List.map Found.id) = some (L ++ u :: (a ++ b ++ c) ++ R) := by
  obtain ⟨a, b, c, hgu, hgs, hhu⟩ := h.below_unit hg
  obtain ⟨l, r, hlr⟩ := List.append_of_mem h.mem_units
  have hnd := hlr ▸ hg.nodup_units
  have hkept : ∀ vs : List DeclId, (∀ v ∈ vs, v ∈ g.units ∧ v ≠ u) →
      (vs.flatMap fun v => ((g.hoisted space u).below v).map Found.id) =
        vs.flatMap fun v => (g.below v).map Found.id := fun vs hvs =>
    List.flatMap_congr fun v hv => by
      obtain ⟨hm, hne⟩ := hvs v hv
      refine h.below_hoisted hg (hg.unit_lt hm) hne ?_
      rintro rfl
      exact hg.not_isParent_mem_units hm (h.isParent hg)
  have hunits : (g.hoisted space u).units = l ++ u :: r := hlr
  have hflat : ∀ f : DeclId → List DeclId,
      (l ++ u :: r).flatMap f = l.flatMap f ++ f u ++ r.flatMap f := fun f => by simp
  refine ⟨a, b, c, l.flatMap fun v => (g.below v).map Found.id,
    r.flatMap fun v => (g.below v).map Found.id, ?_, ?_, ?_, ?_⟩
  · rw [hg.descendants?_eq (hg.unit_lt h.mem_units), Option.map_some, hgu]
  · rw [hg.descendants?_eq (lt_size_of_get? h.get?), Option.map_some, hgs]
  · rw [hg.live?_eq, hlr, Option.map_some, List.map_flatMap, hflat, hgu]
  · rw [(h.isRooted_hoisted hg).live?_eq, hunits, Option.map_some, List.map_flatMap, hflat, hhu,
      hkept l fun v hv => ?_, hkept r fun v hv => ?_]
    all_goals
      rw [hlr]
      grind

/-! ### The way up -/

/-- A name below the namespace loses the namespace's at its front. -/
theorem path?_hoisted_below (ha : g.IsAbove space i) (hi : i ≠ space) :
    ∃ l, l ≠ [] ∧ g.path? i = some (s.name :: l) ∧ (g.hoisted space u).path? i = some l := by
  have hh := h.isRooted_hoisted hg
  induction ha with
  | refl => exact absurd rfl hi
  | @tail p i ha hpi ih =>
    obtain ⟨t, ht, htp⟩ := hpi
    have htn : (t.hoisted space u (A ++ B ++ s.children)).parent =
        if p = space then some u else some p := by
      simp only [Slot.hoisted, hg.id_eq ht, if_neg hi, htp, Option.some.injEq]
    have ht' := h.get?_hoisted hg ht
    by_cases hp : p = space
    · obtain ⟨U, hU, hk⟩ := hg.kind_unit h.mem_units
      subst hp
      rw [if_pos rfl] at htn
      refine ⟨[t.name], by simp, ?_, ?_⟩
      · rw [hg.path?_of_parent ht htp h.get?, if_neg (by simp [h.kind]),
          hg.path?_of_parent h.get? (h.parent_eq hg) hU, if_pos hk]
        rfl
      · rw [hh.path?_of_parent ht' htn (h.get?_hoisted hg hU)]
        exact if_pos hk
    · rw [if_neg hp] at htn
      obtain ⟨l, hl, hgp, hhp⟩ := ih hp
      obtain ⟨P, hP⟩ := exists_get?_of_lt (hg.parent_lt ⟨t, ht, htp⟩)
      have hPk : P.kind ≠ .unit := fun hk => by
        rw [hg.eq_of_isAbove_unit hP hk ha] at hp
        exact hp rfl
      refine ⟨l ++ [t.name], by simp, ?_, ?_⟩
      · rw [hg.path?_of_parent ht htp hP, if_neg hPk, hgp]
        rfl
      · rw [hh.path?_of_parent ht' htn (h.get?_hoisted hg hP)]
        exact (if_neg hPk).trans (by rw [hhp]; rfl)

/-- What does not stand below the namespace keeps its name. -/
theorem path?_hoisted (hi : i < g.size) (hna : g.IsAbove space i → i = space) :
    (g.hoisted space u).path? i = g.path? i := by
  have hh := h.isRooted_hoisted hg
  induction i using hg.induction_down with
  | step i ih =>
    obtain ⟨t, ht⟩ := exists_get?_of_lt hi
    have ht' := h.get?_hoisted hg ht
    by_cases hspace : i = space
    · obtain ⟨U, hU, hk⟩ := hg.kind_unit h.mem_units
      subst hspace
      obtain rfl := Option.some.inj (ht.symm.trans h.get?)
      rw [hg.path?_of_parent ht (h.parent_eq hg) hU, if_pos hk]
      exact (path?_of_root ht' (by simp only [Slot.hoisted, hg.id_eq ht, if_true]) :)
    have hparent : (t.hoisted space u (A ++ B ++ s.children)).parent = t.parent := by
      simp only [Slot.hoisted, hg.id_eq ht, if_neg hspace]
      exact if_neg fun hp => hspace (hna (.single ⟨t, ht, hp⟩))
    cases hp : t.parent with
    | none =>
      rw [path?_of_root ht hp]
      exact (path?_of_root ht' (hparent.trans hp) :)
    | some p =>
      have hpi : g.IsParent p i := ⟨t, ht, hp⟩
      obtain ⟨P, hP⟩ := exists_get?_of_lt (hg.parent_lt hpi)
      have hih := ih p hpi (hg.parent_lt hpi) fun ha => absurd (hna (ha.tail hpi)) hspace
      rw [hg.path?_of_parent ht hp hP, hh.path?_of_parent ht' (hparent.trans hp)
        (h.get?_hoisted hg hP), hih]
      rfl

/-! ### Searches -/

section
variable {q : Slot → Bool}
  (hq : ∀ t, q (Slot.hoisted space u (A ++ B ++ s.children) t) = q t)
include hq

theorem exists_slot_hoisted : (∃ t, (g.hoisted space u).get? i = some t ∧ q t) ↔
    ∃ t, g.get? i = some t ∧ q t := by
  rw [h.hoisted_eq hg, get?_mapSlots]
  cases g.get? i with
  | none => simp
  | some t => simp only [Option.map_some, Option.some.injEq, exists_eq_left', hq]

/-- What does not look at places finds the same among what is live, if not for the namespace. -/
theorem perm_liveWhere? (hs : q s = false) : ∃ ids ids', g.liveWhere? q = some ids ∧
    (g.hoisted space u).liveWhere? q = some ids' ∧ ids.Perm ids' := by
  obtain ⟨ids, hids, hnd, hmem⟩ := hg.liveWhere?_spec q
  obtain ⟨ids', hids', hnd', hmem'⟩ := (h.isRooted_hoisted hg).liveWhere?_spec q
  refine ⟨ids, ids', hids, hids', (List.perm_ext_iff_of_nodup hnd hnd').2 fun i => ?_⟩
  rw [hmem, hmem', isLive_hoisted hg h.get? (h.parent_eq hg) h.mem_units,
    h.exists_slot_hoisted hg hq]
  refine and_congr_left fun ⟨t, ht, hqt⟩ => (and_iff_left ?_).symm
  rintro rfl
  rw [← Option.some.inj (ht.symm.trans h.get?), hqt] at hs
  nomatch hs

theorem perm_childrenWhere? (hc : c < g.size) (hcu : c ≠ u) (hcs : c ≠ space) :
    ∃ ids ids', g.childrenWhere? c q = some ids ∧
      (g.hoisted space u).childrenWhere? c q = some ids' ∧ ids.Perm ids' := by
  have hc' : c < (g.hoisted space u).size := by
    rwa [h.hoisted_eq hg, size_mapSlots]
  obtain ⟨ids, hids, hnd, hmem⟩ := hg.childrenWhere?_spec hc q
  obtain ⟨ids', hids', hnd', hmem'⟩ := (h.isRooted_hoisted hg).childrenWhere?_spec hc' q
  refine ⟨ids, ids', hids, hids', (List.perm_ext_iff_of_nodup hnd hnd').2 fun i => ?_⟩
  rw [hmem, hmem', h.exists_slot_hoisted hg hq, isParent_hoisted hg h.get?]
  refine and_congr_left fun _ => ⟨fun hp => ⟨?_, .inr ⟨hp, hcs⟩⟩, ?_⟩
  · rintro rfl
    exact hcu (hp.unique (h.isParent hg))
  · rintro ⟨-, ⟨-, hcu'⟩ | ⟨hp, -⟩⟩
    · exact absurd hcu' hcu
    · exact hp

end

end HasSpace

end Graph

end Bindery
