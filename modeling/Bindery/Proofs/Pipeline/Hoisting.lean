import Bindery.Proofs.Dump.Load
import Bindery.Proofs.Graph.Hoisting
import Bindery.Proofs.Pipeline.Rule

/-!
# Hoisting, exactly

What hoisting a namespace that stands right below a unit does to slots, to the order of what is
live, to qualified names, and to searches: those that look at all that is live find the same
declarations as before, or fail as before.
-/

namespace Bindery

open Step Lookup Relation

variable {g : Graph} {space u : DeclId} {s : Slot} {A B : List DeclId} {w : Work}
  {ids ids' : List DeclId}

namespace Selector

/-- The same declarations in any order, or the same failure. -/
inductive Agree : Except PipelineError (List DeclId) → Except PipelineError (List DeclId) → Prop
  | ok {xs ys : List DeclId} (h : xs.Perm ys) : Agree (.ok xs) (.ok ys)
  | error (e : PipelineError) : Agree (.error e) (.error e)

theorem Agree.refl : ∀ r, Agree r r
  | .ok xs => .ok (.refl xs)
  | .error e => .error e

end Selector

/-- A search for one declaration does not depend on the order of candidates. -/
theorem findSingle_perm (h : ids.Perm ids') (d : String) :
    findSingle ids d = findSingle ids' d := by
  rcases ids with _ | ⟨i, _ | ⟨j, l⟩⟩
  · rw [List.nil_perm.1 h]
  · rw [List.singleton_perm.1 h]
  · have hlen := h.length_eq
    rcases ids' with _ | ⟨i', _ | ⟨j', l'⟩⟩
    · nomatch hlen
    · nomatch hlen
    · simp [findSingle, hlen]

/-- A search goes on in the same way if it does so with what it has found. -/
theorem Lookup.bind_congr {α β : Type} {x : Lookup α} {f f' : α → Lookup β}
    (h : ∀ a, x.run = some (.ok a) → f a = f' a) : x >>= f = x >>= f' := by
  have hrun : ∀ f : α → Lookup β, (x >>= f).run = x.run.bind (ExceptT.bindCont f) := fun _ => rfl
  refine ExceptT.ext ?_
  rw [hrun, hrun]
  cases hx : x.run with
  | none => rfl
  | some r =>
    cases r with
    | error e => rfl
    | ok a =>
      show (f a).run = (f' a).run
      rw [h a hx]

namespace Graph

/-- The search for the one candidate, with the candidates in any order. -/
theorem one_congr {x y : Option (List DeclId)} (hx : x = some ids) (hy : y = some ids')
    (h : ids.Perm ids') (d : String) :
    (do return [← findSingle (← x) d] : Lookup (List DeclId)) =
      do return [← findSingle (← y) d] := by
  subst hx hy
  show (do return [← findSingle ids d] : Lookup (List DeclId)) = do return [← findSingle ids' d]
  rw [findSingle_perm h]

namespace HasSpace

variable (h : g.HasSpace u A space B s) (hg : g.IsRooted)
include h hg

theorem resolveClass_hoisted (name : String) :
    (g.hoisted space u).resolveClass name = g.resolveClass name := by
  obtain ⟨ids, ids', hids, hids', hperm⟩ := h.perm_liveWhere? hg
    (q := fun t => t.kind == .record && t.name == name && t.isComplete)
    (fun t => by rw [Slot.isComplete_hoisted]; rfl) (by rw [h.kind]; rfl)
  rw [resolveClass, resolveClass, hids, hids']
  show (liftM (findSingle ids' _) : Lookup DeclId) = liftM (findSingle ids _)
  rw [findSingle_perm hperm]

/-- A class is neither the unit nor the namespace. -/
theorem ne_of_resolveClass {c : DeclId} {owner : String}
    (hc : (g.resolveClass owner).run = some (.ok c)) : c < g.size ∧ c ≠ u ∧ c ≠ space := by
  obtain ⟨r, hr, hok, -⟩ := hg.resolveClass_spec owner
  obtain rfl := Option.some.inj (hc.symm.trans hr)
  obtain ⟨-, t, ht, htk, -⟩ := (hok c rfl c).2 rfl
  refine ⟨lt_size_of_get? ht, ?_, ?_⟩
  · rintro rfl
    obtain ⟨U, hU, hk⟩ := hg.kind_unit h.mem_units
    rw [Option.some.inj (ht.symm.trans hU), hk] at htk
    cases htk
  · rintro rfl
    rw [Option.some.inj (ht.symm.trans h.get?), h.kind] at htk
    cases htk

/-- Where one declaration is selected, the search is the same. -/
theorem resolve_hoisted_of_isUnique {sel : Selector} (hsel : sel.isGraphWide)
    (hone : sel.isUnique) (scope scope' : Scope) :
    sel.resolve (g.hoisted space u) scope' = sel.resolve g scope := by
  have hanswers : ∀ (k : Kind) (name : String) (t : Slot),
      Selector.answersTo k name (t.hoisted space u (A ++ B ++ s.children)) =
        Selector.answersTo k name t := fun _ _ _ => rfl
  have hspace : ∀ {k : Kind} {name : String}, k ≠ .namespace →
      Selector.answersTo k name s = false := fun hk => by
    rw [Selector.answersTo, h.kind, beq_eq_false_iff_ne.2 (Ne.symm hk), Bool.false_and]
  cases sel with
  | record name =>
    show (do return [← (g.hoisted space u).resolveClass name] : Lookup _) = _
    rw [h.resolveClass_hoisted hg]
    rfl
  | member kind owner name =>
    show ((g.hoisted space u).resolveClass owner >>= _) = (g.resolveClass owner >>= _)
    rw [h.resolveClass_hoisted hg]
    refine Lookup.bind_congr fun c hc => ?_
    obtain ⟨hlt, hcu, hcs⟩ := h.ne_of_resolveClass hg hc
    obtain ⟨ids, ids', hids, hids', hperm⟩ :=
      h.perm_childrenWhere? hg (hanswers kind.kind name) hlt hcu hcs
    exact one_congr hids' hids hperm.symm _
  | function name =>
    obtain ⟨ids, ids', hids, hids', hperm⟩ :=
      h.perm_liveWhere? hg (hanswers .function name) (hspace (by decide))
    exact one_congr hids' hids hperm.symm _
  | enumeration name =>
    obtain ⟨ids, ids', hids, hids', hperm⟩ :=
      h.perm_liveWhere? hg (hanswers .enumeration name) (hspace (by decide))
    exact one_congr hids' hids hperm.symm _
  | «namespace» _ | «alias» _ _ => exact absurd hsel Bool.false_ne_true
  | _ => exact absurd hone Bool.false_ne_true

/-- Searches that look at all that is live do not notice. -/
theorem resolve_hoisted {sel : Selector} (hsel : sel.isGraphWide) (scope scope' : Scope) :
    ∃ r r', (sel.resolve g scope).run = some r ∧
      (sel.resolve (g.hoisted space u) scope').run = some r' ∧ Selector.Agree r r' := by
  by_cases hone : sel.isUnique
  · have hu : (⟨u⟩ : Scope).unit < g.size := hg.unit_lt h.mem_units
    obtain ⟨r, hr, -⟩ := hg.resolve_spec hu sel
    refine ⟨r, r, ?_, ?_, .refl r⟩
    · rwa [Selector.resolve_eq_of_isGraphWide hsel g scope ⟨u⟩]
    · rwa [h.resolve_hoisted_of_isUnique hg hsel hone ⟨u⟩]
  have hspace : ∀ {k : Kind} {b : Bool}, k ≠ .namespace → (s.kind == k && b) = false := fun hk => by
    rw [h.kind, beq_eq_false_iff_ne.2 (Ne.symm hk), Bool.false_and]
  have hset : ∀ {q : Slot → Bool}, (∀ t, q (t.hoisted space u (A ++ B ++ s.children)) = q t) →
      q s = false → ∃ r r', (g.liveWhere? q).map Except.ok = some r ∧
        ((g.hoisted space u).liveWhere? q).map Except.ok = some r' ∧ Selector.Agree r r' :=
    fun hq hqs => by
      obtain ⟨ids, ids', hids, hids', hperm⟩ := h.perm_liveWhere? hg hq hqs
      exact ⟨_, _, congrArg _ hids, congrArg _ hids', .ok hperm⟩
  cases sel with
  | enumerationsWithSuffix suffix =>
    exact hset (q := fun t => t.kind == .enumeration && Selector.endsWith suffix t.name)
      (fun _ => rfl) (hspace (by decide))
  | enumerationsContaining part =>
    exact hset (q := fun t => t.kind == .enumeration && Selector.contains part t.name)
      (fun _ => rfl) (hspace (by decide))
  | itemsWithSuffix suffix =>
    exact hset (q := fun t => t.kind == .item && Selector.endsWith suffix t.name)
      (fun _ => rfl) (hspace (by decide))
  | templateProperties _ => exact absurd hsel Bool.false_ne_true
  | _ => exact absurd rfl hone

end HasSpace

/-! ### Hoisting -/

/-- `h` is `g` with `space`, which stood between `A` and `B`, hoisted onto the unit `u`. -/
structure HoistsTo (g h : Graph) (u : DeclId) (A : List DeclId) (space : DeclId) (B : List DeclId)
    (s : Slot) : Prop where
  /-- What the namespace declared stands behind the unit's other children, and the namespace is cut
  off. Nothing else changes. -/
  eq_mapSlots : h = g.mapSlots (Slot.hoisted space u (A ++ B ++ s.children))
  /-- The namespace is not live any more, and the block below it is at the end of the unit's. -/
  live : ∃ a b c L R,
    (g.descendants? u).map (List.map Found.id) = some (u :: (a ++ space :: c ++ b)) ∧
    (g.descendants? space).map (List.map Found.id) = some (space :: c) ∧
    g.live?.map (List.map Found.id) = some (L ++ u :: (a ++ space :: c ++ b) ++ R) ∧
    h.live?.map (List.map Found.id) = some (L ++ u :: (a ++ b ++ c) ++ R)
  /-- What stood below the namespace loses its name at the front. -/
  name_below : ∀ i, g.IsAbove space i → i ≠ space →
    ∃ n, g.qualifiedName? i = some (s.name ++ "::" ++ n) ∧ h.qualifiedName? i = some n
  /-- All other names stay. -/
  name_kept : ∀ i < g.size, (g.IsAbove space i → i = space) →
    ∃ n, g.qualifiedName? i = some n ∧ h.qualifiedName? i = some n
  searches : ∀ sel : Selector, sel.isGraphWide → ∀ scope scope' : Scope, ∃ r r',
    (sel.resolve g scope).run = some r ∧ (sel.resolve h scope').run = some r' ∧
      Selector.Agree r r'

theorem HasSpace.hoistsTo (h : g.HasSpace u A space B s) (hg : g.IsRooted) :
    g.HoistsTo (g.hoisted space u) u A space B s where
  eq_mapSlots := h.hoisted_eq hg
  live := h.live?_hoisted hg
  name_below := by
    intro i ha hi
    obtain ⟨l, hl, hgl, hhl⟩ := h.path?_hoisted_below hg ha hi
    refine ⟨"::".intercalate l, ?_, ?_⟩
    · rw [qualifiedName?_eq, hgl, Option.map_some, String.intercalate_cons_of_ne_nil hl]
    · rw [qualifiedName?_eq, hhl, Option.map_some]
  name_kept := by
    intro i hi hna
    obtain ⟨n, hn⟩ := hg.exists_qualifiedName? hi
    refine ⟨n, hn, ?_⟩
    rw [qualifiedName?_eq, h.path?_hoisted hg hi hna, ← qualifiedName?_eq, hn]
  searches := fun _ hsel scope scope' => h.resolve_hoisted hg hsel scope scope'

end Graph

namespace Rule

/-- Hoisting a namespace that stands right below a listed unit succeeds, and does no more than it
should. -/
theorem hoist_of_hasSpace (hg : w.graph.IsRooted) (h : w.graph.HasSpace u A space B s) :
    ∃ w', hoist space w = some (.ok (), w') ∧ w.graph.HoistsTo w'.graph u A space B s := by
  obtain ⟨U, hU, hUk⟩ := hg.kind_unit h.mem_units
  have habove : w.graph.IsAbove u space := .single (h.isParent hg)
  obtain ⟨res, w', hw', hok, herr⟩ := runs_iff.1 (runs_hoist hg h.get? h.kind)
  cases res with
  | error e => exact absurd ⟨u, h.mem_units, habove⟩ (herr e rfl).2.2
  | ok x =>
    obtain ⟨unit, t, ht, htk, ha, hgraph, -⟩ := hok x rfl
    obtain rfl := hg.unit_unique ht htk hU hUk ha habove
    exact ⟨w', hw', hgraph ▸ h.hoistsTo hg⟩

/-- The namespace stands between an enumeration and a function, and declares another namespace. -/
theorem hoist_of_hasSpace_nested : ∃ (g : Graph) (s : Slot) (w : Work),
    Graph.ofText "dump" ("unit \"a\" \x7b enum E \x7b A \x7d namespace N \x7b class C \x7b " ++
      "field f : int; \x7d namespace M \x7b class D; \x7d \x7d fn g(); \x7d") = .ok g ∧
    hoist 3 { graph := g } = some (.ok (), w) ∧ g.HoistsTo w.graph 0 [1] 3 [8] s ∧
    w.graph.live?.map (List.map Found.id) = some [0, 1, 2, 8, 4, 5, 6, 7] ∧
    g.qualifiedName? 7 = some "N::M::D" ∧ w.graph.qualifiedName? 7 = some "M::D" := by
  have hrun : ∃ g, Graph.ofText "dump"
      ("unit \"a\" \x7b enum E \x7b A \x7d namespace N \x7b class C \x7b " ++
        "field f : int; \x7d namespace M \x7b class D; \x7d \x7d fn g(); \x7d") = .ok g ∧
      g.units = [0] ∧ (g.get? 0).map Slot.children = some [1, 3, 8] ∧
      (g.get? 3).map (·.kind) = some .namespace ∧ g.qualifiedName? 7 = some "N::M::D" ∧
      (hoist 3 { graph := g }).map (fun r => (r.2.graph.live?.map (List.map Found.id),
        r.2.graph.qualifiedName? 7)) = some (some [0, 1, 2, 8, 4, 5, 6, 7], some "M::D") := by
    refine Graph.exists_ofText (P := fun g => decide (g.units = [0] ∧
      (g.get? 0).map Slot.children = some [1, 3, 8] ∧
      (g.get? 3).map (·.kind) = some .namespace ∧ g.qualifiedName? 7 = some "N::M::D" ∧
      (hoist 3 { graph := g }).map (fun r => (r.2.graph.live?.map (List.map Found.id),
        r.2.graph.qualifiedName? 7)) = some (some [0, 1, 2, 8, 4, 5, 6, 7], some "M::D")))
      (by decide +kernel) fun g _ h => of_decide_eq_true h
  obtain ⟨g, hg, hunits, hchildren, hkind, hname, hrun⟩ := hrun
  obtain ⟨t, ht, hc⟩ := Option.map_eq_some_iff.1 hchildren
  obtain ⟨s, hs, hk⟩ := Option.map_eq_some_iff.1 hkind
  obtain ⟨w, hw, hoists⟩ := @hoist_of_hasSpace 3 0 s [1] [8] { graph := g }
    (Graph.isLoaded_ofText hg).toWellFormed.isRooted
    ⟨by simp [hunits], ⟨t, ht, hc⟩, hs, hk⟩
  rw [hw, Option.map_some, Option.some.injEq, Prod.mk.injEq] at hrun
  exact ⟨g, s, w, hg, hw, hoists, hrun.1, hname, hrun.2⟩

end Rule

end Bindery
