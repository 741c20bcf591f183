import Bindery.Proofs.Dump.Load
import Bindery.Proofs.Graph.Liveness
import Bindery.Proofs.Pipeline.Selector
import Mathlib.Data.Set.Card

/-!
# Searches, exactly

What a selector finds in a forest below units, said of the way up from every declaration: the unit
that owns it, or its parent. `Selector.selected` is the set of what is asked for. A search for any
number of declarations lists that set in preorder; a search for one succeeds if the set has one
member, and tells otherwise whether there is none, or how many there are. Where the declaration is
looked for below another one that has to be found first, a failure to find that one comes first.
-/

namespace Bindery

open Relation Lookup

variable {α β : Type} {g : Graph} {c i u : DeclId} {s : Slot} {q : Slot → Bool} {scope : Scope}
  {ids : List DeclId} {K M : Set DeclId} {d : String} {r : Except PipelineError (List DeclId)}

namespace Selector

/-- The selector of the declaration below which this one looks, if it has to be found first. -/
def container? : Selector → Option Selector
  | .member _ owner _ => some (.record owner)
  | .alias space _ => some (.namespace (some space))
  | _ => none

/-- What the selector asks of a declaration, apart from its place. -/
def Fits (sel : Selector) (s : Slot) : Prop :=
  s.kind = sel.kind ∧
    match sel with
    | .namespace name => ∀ n, name = some n → s.name = n
    | .record name => s.name = name ∧ s.flags.has .incomplete = false
    | .member _ _ name | .function name | .enumeration name | .alias _ name => s.name = name
    | .enumerationsWithSuffix suffix | .itemsWithSuffix suffix => suffix.toList <:+ s.name.toList
    | .enumerationsContaining part => part.toList <:+: s.name.toList
    | .templateProperties template => ∃ args, s.type = some (.specialization template args)

/-- Where the selector looks: right below `owner`, in a class right below `owner`, or in any listed
unit. -/
def Reaches (sel : Selector) (g : Graph) (owner i : DeclId) : Prop :=
  match sel with
  | .namespace _ | .member _ _ _ | .alias _ _ => g.IsParent owner i
  | .templateProperties _ => ∃ c, g.IsParent c i ∧ g.IsParent owner c ∧
      ∃ s, g.get? c = some s ∧ s.kind = .record
  | _ => g.IsOwned i

/-- What the selector is for; `owner` is what its container was resolved to, or else the main
unit. -/
def selected (sel : Selector) (g : Graph) (owner : DeclId) : Set DeclId :=
  {i | sel.Reaches g owner i ∧ ∃ s, g.get? i = some s ∧ sel.Fits s}

theorem isUnique_of_container? {sel k : Selector} (hk : sel.container? = some k) :
    sel.isUnique := by
  cases sel <;> first | rfl | exact absurd hk nofun

end Selector

/-! ### Searches for one declaration -/

/-- The answer to a search for the one member of `M`, which messages call `d`. -/
structure IsAnswer (M : Set DeclId) (d : String) (r : Except PipelineError (List DeclId)) :
    Prop where
  finite : M.Finite
  ok : ∀ i, r = .ok [i] ↔ M = {i}
  noMatch : r = .error (.noMatch d) ↔ M = ∅
  ambiguous : ∀ n, r = .error (.ambiguous d n) ↔ 2 ≤ n ∧ M.ncard = n

/-- The answer to a search for the one member of `M c`, where `c` is the one member of `K`. -/
structure IsAnswerIn (K : Set DeclId) (e : String) (M : DeclId → Set DeclId) (d : String)
    (r : Except PipelineError (List DeclId)) : Prop where
  finite : K.Finite
  found : ∀ c, K = {c} → IsAnswer (M c) d r
  noMatch : K = ∅ → r = .error (.noMatch e)
  ambiguous : 2 ≤ K.ncard → r = .error (.ambiguous e K.ncard)

theorem isAnswer_empty (d : String) : IsAnswer ∅ d (.error (.noMatch d)) where
  finite := Set.finite_empty
  ok i := by simp [Set.ext_iff]
  noMatch := by simp
  ambiguous n := by simp; omega

theorem isAnswer_singleton (i : DeclId) (d : String) : IsAnswer {i} d (.ok [i]) where
  finite := Set.finite_singleton i
  ok j := by simp
  noMatch := by simp
  ambiguous n := by simp; omega

theorem isAnswer_of_two_le (hM : 2 ≤ M.ncard) (d : String) :
    IsAnswer M d (.error (.ambiguous d M.ncard)) where
  finite := Set.finite_of_ncard_pos (by omega)
  ok i := by
    simp only [reduceCtorEq, false_iff]
    rintro rfl
    simp at hM
  noMatch := by
    simp only [Except.error.injEq, reduceCtorEq, false_iff]
    rintro rfl
    simp at hM
  ambiguous n := by
    simp only [Except.error.injEq, PipelineError.ambiguous.injEq, true_and]
    omega

theorem ncard_eq_length (hnd : ids.Nodup) (hmem : ∀ i, i ∈ ids ↔ i ∈ M) :
    M.ncard = ids.length := by
  obtain rfl : {i | i ∈ ids} = M := Set.ext hmem
  rw [← List.toFinset_card_of_nodup hnd, ← Set.ncard_coe_finset, List.coe_toFinset]

/-- A list without repetition is searched as the set of its members. -/
theorem findSingle_cases (hnd : ids.Nodup) (hmem : ∀ i, i ∈ ids ↔ i ∈ M) (d : String) :
    M = ∅ ∧ findSingle ids d = .error (.noMatch d) ∨
      (∃ i, M = {i} ∧ findSingle ids d = .ok i) ∨
        2 ≤ M.ncard ∧ findSingle ids d = .error (.ambiguous d M.ncard) := by
  rcases ids with _ | ⟨a, _ | ⟨b, l⟩⟩
  · refine .inl ⟨Set.eq_empty_of_forall_notMem fun i hi => ?_, rfl⟩
    exact absurd ((hmem i).2 hi) List.not_mem_nil
  · refine .inr (.inl ⟨a, Set.ext fun i => ?_, rfl⟩)
    rw [← hmem i, List.mem_singleton, Set.mem_singleton_iff]
  · have hcard := ncard_eq_length hnd hmem
    refine .inr (.inr ⟨by simp [hcard], ?_⟩)
    rw [findSingle_of_one_lt (by simp), hcard]

theorem isAnswer_findSingle (hnd : ids.Nodup) (hmem : ∀ i, i ∈ ids ↔ i ∈ M) (d : String) :
    IsAnswer M d ((findSingle ids d).map ([·])) := by
  rcases findSingle_cases hnd hmem d with ⟨rfl, h⟩ | ⟨i, rfl, h⟩ | ⟨hM, h⟩
  · exact h ▸ isAnswer_empty d
  · exact h ▸ isAnswer_singleton i d
  · exact h ▸ isAnswer_of_two_le hM d

/-! ### Searches in sequence -/

namespace Lookup

theorem run_bind_ok {x : Lookup α} {a : α} (h : x.run = some (.ok a)) (f : α → Lookup β) :
    (x >>= f).run = (f a).run := by
  show x.run.bind (ExceptT.bindCont f) = _
  rw [h]
  rfl

theorem run_bind_error {x : Lookup α} {e : PipelineError} (h : x.run = some (.error e))
    (f : α → Lookup β) : (x >>= f).run = some (.error e) := by
  show x.run.bind (ExceptT.bindCont f) = _
  rw [h]
  rfl

theorem run_singleton {x : Lookup α} {a : Except PipelineError α} (h : x.run = some a) :
    (do return [← x] : Lookup (List α)).run = some (a.map ([·])) := by
  cases a with
  | error e => exact run_bind_error h _
  | ok a => exact run_bind_ok h _

theorem run_one {x : Option (List DeclId)} (h : x = some ids) (d : String) :
    (do return [← findSingle (← x) d] : Lookup (List DeclId)).run =
      some ((findSingle ids d).map ([·])) := by
  subst h
  exact run_singleton (x := liftM (findSingle ids d)) rfl

/-- The second search depends on what the first one has found, and is not made otherwise. -/
theorem exists_isAnswerIn {x : Lookup DeclId} {e : String} {N : DeclId → Set DeclId}
    (hx : x.run = some (findSingle ids e)) (hnd : ids.Nodup) (hmem : ∀ i, i ∈ ids ↔ i ∈ K)
    {f : DeclId → Lookup (List DeclId)}
    (hf : ∀ c ∈ K, ∃ r, (f c).run = some r ∧ IsAnswer (N c) d r) :
    ∃ r, (x >>= f).run = some r ∧ IsAnswerIn K e N d r := by
  rcases findSingle_cases hnd hmem e with ⟨rfl, h⟩ | ⟨a, rfl, h⟩ | ⟨hK, h⟩ <;> rw [h] at hx
  · refine ⟨_, run_bind_error hx f, Set.finite_empty, fun c hc => ?_, fun _ => rfl, fun h => ?_⟩
    · exact absurd hc.symm (Set.singleton_ne_empty c)
    · simp at h
  · obtain ⟨r, hr, hans⟩ := hf a rfl
    refine ⟨r, (run_bind_ok hx f).trans hr, Set.finite_singleton a, fun c hc => ?_, fun h => ?_,
      fun h => ?_⟩
    · rwa [← Set.singleton_injective hc]
    · exact absurd h (Set.singleton_ne_empty a)
    · simp at h
  · refine ⟨_, run_bind_error hx f, Set.finite_of_ncard_pos (by omega), fun c hc => ?_, fun h => ?_,
      fun _ => rfl⟩
    · rw [hc, Set.ncard_singleton] at hK
      omega
    · rw [h, Set.ncard_empty] at hK
      omega

end Lookup

/-! ### Searches in a graph -/

namespace Selector

theorem answersTo_iff {k : Kind} {name : String} :
    answersTo k name s ↔ s.kind = k ∧ s.name = name := by
  simp [answersTo]

theorem endsWith_iff {suffix name : String} :
    endsWith suffix name ↔ suffix.toList <:+ name.toList :=
  List.isSuffixOf_iff_suffix

theorem contains_iff {part name : String} : contains part name ↔ part.toList <:+: name.toList :=
  Text.contains_iff_cut?

theorem any_isSpecializationOf_iff {type : Option TypeRef} {template : String} :
    type.any (·.isSpecializationOf template) ↔
      ∃ args, type = some (.specialization template args) := by
  rcases type with _ | t
  · simp
  · cases t <;> simp [TypeRef.isSpecializationOf]

end Selector

namespace Graph

theorem sublist_of_liveWhere? {live : List Found} (hlive : g.live? = some live)
    (hids : g.liveWhere? q = some ids) : ids.Sublist (live.map Found.id) := by
  rw [liveWhere?, hlive, Option.map_some, Option.some.injEq] at hids
  exact hids ▸ List.filter_sublist.map _

theorem IsForest.sublist_of_childrenWhere? (hg : g.IsForest) (hs : g.get? u = some s)
    (hids : g.childrenWhere? u q = some ids) : ids.Sublist s.children := by
  obtain ⟨xs, hxs, hchildren, -⟩ := hg.children?_eq hs
  rw [childrenWhere?, hxs, Option.map_some, Option.some.injEq] at hids
  rw [← hids, ← hchildren]
  exact List.filter_sublist.map _

/-- The children stand among what is below in their order. -/
theorem IsForest.children_sublist (hg : g.IsForest) (hs : g.get? u = some s) :
    s.children.Sublist ((g.below u).map Found.id) := by
  rw [hg.below_eq hs, List.map_cons, List.map_flatMap]
  refine List.Sublist.trans ?_ (List.sublist_cons_self _ _)
  have heads : (s.children.flatMap ([·])).Sublist
      (s.children.flatMap fun c => (g.below c).map Found.id) := by
    refine List.Sublist.flatMap_right _ fun c hc => ?_
    obtain ⟨t, ht⟩ := exists_get?_of_lt ((hg.mem_children hs c).1 hc).lt_size
    rw [hg.below_eq ht, List.map_cons, List.singleton_sublist]
    exact List.mem_cons_self
  rwa [List.flatMap_singleton'] at heads

namespace IsRooted

variable (hg : g.IsRooted)
include hg

/-- A search through all that is live finds what the selector asks for wherever it is owned. -/
theorem exists_liveWhere?_selected (sel : Selector) (owner : DeclId)
    (hreach : ∀ i, sel.Reaches g owner i ↔ g.IsOwned i) (hq : ∀ s, q s ↔ sel.Fits s) :
    ∃ ids, g.liveWhere? q = some ids ∧ ids.Nodup ∧ ∀ i, i ∈ ids ↔ i ∈ sel.selected g owner := by
  obtain ⟨ids, hids, hnd, hmem⟩ := hg.liveWhere?_spec q
  refine ⟨ids, hids, hnd, fun i => ?_⟩
  simp only [hmem, Selector.selected, Set.mem_ofPred_eq, hreach, hg.isOwned_iff, hq]

/-- A search through children finds what the selector asks for right below its owner. -/
theorem exists_childrenWhere?_selected (sel : Selector) {owner : DeclId} (howner : owner < g.size)
    (hreach : ∀ i, sel.Reaches g owner i ↔ g.IsParent owner i) (hq : ∀ s, q s ↔ sel.Fits s) :
    ∃ ids, g.childrenWhere? owner q = some ids ∧ ids.Nodup ∧
      ∀ i, i ∈ ids ↔ i ∈ sel.selected g owner := by
  obtain ⟨ids, hids, hnd, hmem⟩ := hg.childrenWhere?_spec howner q
  refine ⟨ids, hids, hnd, fun i => ?_⟩
  simp only [hmem, Selector.selected, Set.mem_ofPred_eq, hreach, hq]

theorem exists_resolveClass (name : String) (owner : DeclId) :
    ∃ ids, (g.resolveClass name).run =
        some (findSingle ids (Selector.record name).description) ∧ ids.Nodup ∧
      ∀ i, i ∈ ids ↔ i ∈ (Selector.record name).selected g owner := by
  obtain ⟨ids, hids, h⟩ := hg.exists_liveWhere?_selected (.record name) owner
    (q := fun s => s.kind == .record && s.name == name && s.isComplete) (fun _ => .rfl) fun s => by
      simp [Selector.Fits, Selector.kind, Declaration.isComplete, and_assoc]
  refine ⟨ids, ?_, h⟩
  rw [resolveClass, hids]
  rfl

theorem exists_resolveNamespace (hu : scope.unit < g.size) (name : Option String) :
    ∃ ids, (Selector.resolveNamespace g scope name).run =
        some (findSingle ids (Selector.namespace name).description) ∧ ids.Nodup ∧
      ∀ i, i ∈ ids ↔ i ∈ (Selector.namespace name).selected g scope.unit := by
  obtain ⟨ids, hids, h⟩ := hg.exists_childrenWhere?_selected (.namespace name) hu
    (q := fun s => s.kind == .namespace && name.all (s.name == ·)) (fun _ => .rfl) fun s => by
      simp [Selector.Fits, Selector.kind, Option.all_eq_true]
  refine ⟨ids, ?_, h⟩
  rw [Selector.resolveNamespace, hids]
  rfl

end IsRooted

/-- What is found in one class after the other is found in preorder. -/
theorem IsForest.sublist_below (hg : g.IsForest) {classes : List DeclId}
    {parts : List (List DeclId)} {p : Slot → Bool} (hs : g.get? u = some s)
    (hclasses : g.childrenWhere? u p = some classes)
    (hparts : classes.mapM (fun c => g.childrenWhere? c q) = some parts) :
    parts.flatten.Sublist ((g.below u).map Found.id) := by
  have hsub := hg.sublist_of_childrenWhere? hs hclasses
  have hpart : ∀ {cs : List DeclId} {ps : List (List DeclId)}, (∀ c ∈ cs, g.IsParent u c) →
      cs.mapM (fun c => g.childrenWhere? c q) = some ps →
      ps.flatten.Sublist (cs.flatMap fun c => (g.below c).map Found.id) := by
    intro cs
    induction cs with
    | nil =>
      intro ps _ h
      obtain rfl := Option.some.inj h
      exact List.Sublist.refl _
    | cons c cs ih =>
      intro ps hcs h
      obtain ⟨hc, hcs⟩ := List.forall_mem_cons.1 hcs
      obtain ⟨ids, qs, hids, hqs, rfl⟩ := mapM_cons_eq_some_iff.1 h
      obtain ⟨t, ht⟩ := exists_get?_of_lt hc.lt_size
      exact ((hg.sublist_of_childrenWhere? ht hids).trans (hg.children_sublist ht)).append
        (ih hcs hqs)
  refine (hpart (fun c hc => (hg.mem_children hs c).1 (hsub.subset hc)) hparts).trans ?_
  rw [hg.below_eq hs, List.map_cons, List.map_flatMap]
  exact (hsub.flatMap _).trans (List.sublist_cons_self _ _)

end Graph

namespace Selector

section

variable (hg : g.IsRooted)
include hg

/-- A search for one declaration below another one that has to be found first. -/
theorem exists_isAnswerIn_of_container {sel k : Selector} (hu : scope.unit ∈ g.units)
    (hk : sel.container? = some k) :
    ∃ r, (sel.resolve g scope).run = some r ∧
      IsAnswerIn (k.selected g scope.unit) k.description (sel.selected g) sel.description r := by
  cases sel with
  | member kind owner name =>
    obtain rfl := Option.some.inj hk
    obtain ⟨ids, hids, hnd, hmem⟩ := hg.exists_resolveClass owner scope.unit
    refine exists_isAnswerIn hids hnd hmem fun c hc => ?_
    obtain ⟨-, s, hs, -⟩ := hc
    obtain ⟨xs, hxs, hxnd, hxmem⟩ := hg.exists_childrenWhere?_selected
      (.member kind owner name) (Graph.lt_size_of_get? hs) (fun _ => .rfl)
      (fun _ => answersTo_iff)
    exact ⟨_, run_one hxs _, isAnswer_findSingle hxnd hxmem _⟩
  | «alias» space name =>
    obtain rfl := Option.some.inj hk
    obtain ⟨ids, hids, hnd, hmem⟩ := hg.exists_resolveNamespace (hg.unit_lt hu) (some space)
    refine exists_isAnswerIn hids hnd hmem fun c hc => ?_
    obtain ⟨-, s, hs, -⟩ := hc
    obtain ⟨xs, hxs, hxnd, hxmem⟩ := hg.exists_childrenWhere?_selected
      (.alias space name) (Graph.lt_size_of_get? hs) (fun _ => .rfl)
      (fun _ => answersTo_iff)
    exact ⟨_, run_one hxs _, isAnswer_findSingle hxnd hxmem _⟩
  | _ => exact absurd hk nofun

theorem exists_isAnswer {sel : Selector} (hu : scope.unit ∈ g.units) (hone : sel.isUnique)
    (hk : sel.container? = none) :
    ∃ r, (sel.resolve g scope).run = some r ∧
      IsAnswer (sel.selected g scope.unit) sel.description r := by
  cases sel with
  | «namespace» name =>
    obtain ⟨ids, hids, hnd, hmem⟩ := hg.exists_resolveNamespace (hg.unit_lt hu) name
    exact ⟨_, run_singleton hids, isAnswer_findSingle hnd hmem _⟩
  | record name =>
    obtain ⟨ids, hids, hnd, hmem⟩ := hg.exists_resolveClass name scope.unit
    exact ⟨_, run_singleton hids, isAnswer_findSingle hnd hmem _⟩
  | function name =>
    obtain ⟨ids, hids, hnd, hmem⟩ := hg.exists_liveWhere?_selected (.function name)
      scope.unit (fun _ => .rfl) (fun _ => answersTo_iff)
    exact ⟨_, run_one hids _, isAnswer_findSingle hnd hmem _⟩
  | enumeration name =>
    obtain ⟨ids, hids, hnd, hmem⟩ := hg.exists_liveWhere?_selected (.enumeration name)
      scope.unit (fun _ => .rfl) (fun _ => answersTo_iff)
    exact ⟨_, run_one hids _, isAnswer_findSingle hnd hmem _⟩
  | member _ _ _ | «alias» _ _ => exact absurd hk nofun
  | _ => exact absurd hone Bool.false_ne_true

/-- A search for any number of declarations lists them in preorder. -/
theorem exists_listed {sel : Selector} (hu : scope.unit ∈ g.units) (hset : sel.isUnique = false) :
    ∃ live ids, g.live? = some live ∧ (sel.resolve g scope).run = some (.ok ids) ∧ ids.Nodup ∧
      ids.Sublist (live.map Found.id) ∧ ∀ i, i ∈ ids ↔ i ∈ sel.selected g scope.unit := by
  have hlive : ∀ {q : Slot → Bool}, (∀ i, sel.Reaches g scope.unit i ↔ g.IsOwned i) →
      (∀ s, q s ↔ sel.Fits s) → ∃ live ids, g.live? = some live ∧
        (liftM (g.liveWhere? q) : Lookup (List DeclId)).run = some (.ok ids) ∧ ids.Nodup ∧
        ids.Sublist (live.map Found.id) ∧ ∀ i, i ∈ ids ↔ i ∈ sel.selected g scope.unit := by
    intro q hreach hq
    obtain ⟨ids, hids, hnd, hmem⟩ := hg.exists_liveWhere?_selected sel scope.unit hreach hq
    exact ⟨_, ids, hg.live?_eq, by rw [hids]; rfl, hnd,
      Graph.sublist_of_liveWhere? hg.live?_eq hids, hmem⟩
  cases sel with
  | enumerationsWithSuffix suffix =>
    exact hlive (fun _ => .rfl) fun s => by simp [Fits, kind, endsWith_iff]
  | enumerationsContaining part =>
    exact hlive (fun _ => .rfl) fun s => by simp [Fits, kind, contains_iff]
  | itemsWithSuffix suffix =>
    exact hlive (fun _ => .rfl) fun s => by simp [Fits, kind, endsWith_iff]
  | templateProperties template =>
    obtain ⟨s, hs, -⟩ := hg.kind_unit hu
    obtain ⟨classes, parts, hclasses, hparts, hnd, hmem⟩ :=
      hg.templateProperties_spec (hg.unit_lt hu) template
    refine ⟨_, parts.flatten, hg.live?_eq, ?_, hnd, ?_, fun i => ?_⟩
    · rw [resolve, hclasses]
      show (liftM (classes.mapM _) >>= _ : Lookup (List DeclId)).run = _
      rw [hparts]
      rfl
    · refine (hg.sublist_below hs hclasses hparts).trans ?_
      rw [List.map_flatMap]
      exact List.sublist_flatten_of_mem (List.mem_map_of_mem hu)
    · rw [hmem]
      constructor
      · rintro ⟨s, hs, hk, ⟨c, t, hp, hc, ht, htk⟩, htype⟩
        exact ⟨⟨c, hp, hc, t, ht, htk⟩, s, hs, hk, any_isSpecializationOf_iff.1 htype⟩
      · rintro ⟨⟨c, hp, hc, t, ht, htk⟩, s, hs, hk, hargs⟩
        exact ⟨s, hs, hk, ⟨c, t, hp, hc, ht, htk⟩, any_isSpecializationOf_iff.2 hargs⟩
  | _ => exact absurd hset.symm Bool.false_ne_true

/-- Every search in a forest below units comes to an answer, and to the right one: all that is asked
for, in preorder and each declaration once, or the only one, or how many there are. -/
theorem resolve_of_isRooted (hu : scope.unit ∈ g.units) (sel : Selector) :
    ∃ r, (sel.resolve g scope).run = some r ∧
      (sel.isUnique = false → ∃ live ids, g.live? = some live ∧ r = .ok ids ∧ ids.Nodup ∧
        ids.Sublist (live.map Found.id) ∧ ∀ i, i ∈ ids ↔ i ∈ sel.selected g scope.unit) ∧
      (sel.isUnique → sel.container? = none →
        IsAnswer (sel.selected g scope.unit) sel.description r) ∧
      ∀ k, sel.container? = some k →
        IsAnswerIn (k.selected g scope.unit) k.description (sel.selected g) sel.description r := by
  cases hk : sel.container? with
  | some k =>
    obtain ⟨r, hr, hans⟩ := exists_isAnswerIn_of_container hg hu hk
    refine ⟨r, hr, fun hset => ?_, fun _ => nofun, fun k' hk' => Option.some.inj hk' ▸ hans⟩
    rw [isUnique_of_container? hk] at hset
    contradiction
  | none =>
    cases hone : sel.isUnique with
    | true =>
      obtain ⟨r, hr, hans⟩ := exists_isAnswer hg hu hone hk
      exact ⟨r, hr, nofun, fun _ _ => hans, nofun⟩
    | false =>
      obtain ⟨live, ids, hlive, hr, h⟩ := exists_listed hg hu hone
      exact ⟨_, hr, fun _ => ⟨live, ids, hlive, rfl, h⟩, nofun, nofun⟩

end

/-- The declared class alone does not count, both methods of the class do, and there is no function
at all. -/
theorem resolve_of_isRooted_overloaded :
    ∃ g, Graph.ofText "dump" "unit \"a\" \x7b class C; class C \x7b
        field x : V<int>; method m(); method m(); \x7d \x7d" = .ok g ∧ 0 ∈ g.units ∧
      (Selector.record "C").selected g 0 = {2} ∧
      ((Selector.member .method "C" "m").selected g 2).ncard = 2 ∧
      (Selector.function "m").selected g 0 = ∅ ∧
      ∀ i, i ∈ (Selector.templateProperties "V").selected g 0 ↔ i = 3 := by
  refine Graph.exists_ofText (P := fun g => decide (0 ∈ g.units ∧
      ((Selector.record "C").resolve g ⟨0⟩).run = some (.ok [2]) ∧
      ((Selector.member .method "C" "m").resolve g ⟨0⟩).run =
        some (.error (.ambiguous (Selector.member .method "C" "m").description 2)) ∧
      ((Selector.function "m").resolve g ⟨0⟩).run =
        some (.error (.noMatch (Selector.function "m").description)) ∧
      ((Selector.templateProperties "V").resolve g ⟨0⟩).run = some (.ok [3])))
    (by decide +kernel) fun g hload h => ?_
  obtain ⟨hu, hrecord, hmember, hfunction, htemplate⟩ := of_decide_eq_true h
  have hg := (Graph.isLoaded_ofText hload).toWellFormed.isRooted
  have hscope : (Scope.mk 0).unit ∈ g.units := hu
  obtain ⟨_, h1, -, hans1, -⟩ := resolve_of_isRooted hg hscope (.record "C")
  obtain ⟨_, h2, -, -, hans2⟩ := resolve_of_isRooted hg hscope (.member .method "C" "m")
  obtain ⟨_, h3, -, hans3, -⟩ := resolve_of_isRooted hg hscope (.function "m")
  obtain ⟨_, h4, hset, -⟩ := resolve_of_isRooted hg hscope (.templateProperties "V")
  obtain rfl := Option.some.inj (h1.symm.trans hrecord)
  obtain rfl := Option.some.inj (h2.symm.trans hmember)
  obtain rfl := Option.some.inj (h3.symm.trans hfunction)
  obtain rfl := Option.some.inj (h4.symm.trans htemplate)
  obtain ⟨_, ids, -, hids, -, -, hmem⟩ := hset rfl
  obtain rfl := Except.ok.inj hids
  have hclass := ((hans1 rfl rfl).ok 2).1 rfl
  exact ⟨hu, hclass, (((hans2 (.record "C") rfl).found 2 hclass).ambiguous 2).1 rfl |>.2,
    (hans3 rfl rfl).noMatch.1 rfl, fun i => (hmem i).symm.trans List.mem_singleton⟩

end Selector

end Bindery
