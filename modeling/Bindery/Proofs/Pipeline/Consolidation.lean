import Bindery.Proofs.Dump.Load
import Bindery.Proofs.Graph.Hoisting
import Bindery.Proofs.Pipeline.Move

/-!
# Consolidation of namespaces

Hoisting takes a namespace out from between its unit and what it declares, and leaves everything
else at or below units where it was. So the namespaces that are left below the main unit are those
that stood below the one that was hoisted.
-/

namespace Bindery

open Step Relation

namespace Graph

variable {g h : Graph} {a c i p space u unit : DeclId} {s : Slot} {k : Kind} {q : Slot → Bool}

/-- What is at and below `i` of a kind. -/
def descendantsOfKind? (g : Graph) (i : DeclId) (k : Kind) : Option (List DeclId) :=
  (g.descendants? i).map fun xs => (xs.filter fun x => x.slot.kind == k).map Found.id

/-- There is a slot of the number, which holds a declaration of the kind. -/
def IsOfKind (g : Graph) (k : Kind) (i : DeclId) : Prop := ∃ s, g.get? i = some s ∧ s.kind = k

theorem IsForest.descendantsOfKind?_spec (hg : g.IsForest) (hu : u < g.size) (k : Kind) :
    ∃ ids, g.descendantsOfKind? u k = some ids ∧
      ∀ i, i ∈ ids ↔ g.IsAbove u i ∧ g.IsOfKind k i := by
  refine ⟨_, by rw [descendantsOfKind?, hg.descendants?_eq hu, Option.map_some], fun i => ?_⟩
  simp only [List.mem_map, List.mem_filter, beq_iff_eq, hg.mem_below hu]
  constructor
  · rintro ⟨x, ⟨⟨ha, hs⟩, hk⟩, rfl⟩
    exact ⟨ha, x.slot, hs, hk⟩
  · rintro ⟨ha, s, hs, hk⟩
    exact ⟨⟨i, s⟩, ⟨⟨ha, hs⟩, hk⟩, rfl⟩

theorem IsForest.membersOfKind?_spec (hg : g.IsForest) (hp : p < g.size) (k : Kind) :
    ∃ ids, g.membersOfKind? p k = some ids ∧ ids.Nodup ∧
      ∀ i, i ∈ ids ↔ g.IsParent p i ∧ g.IsOfKind k i := by
  obtain ⟨ids, hids, hnd, hmem⟩ := hg.childrenWhere?_spec hp (·.kind == k)
  refine ⟨ids, hids, hnd, fun i => (hmem i).trans ?_⟩
  simp only [beq_iff_eq, IsOfKind]

theorem Keeps.isOfKind_iff (hk : g.Keeps h) : h.IsOfKind k i ↔ g.IsOfKind k i := by
  constructor
  · rintro ⟨t, ht, rfl⟩
    obtain ⟨s, hs, hst⟩ := hk.exists_slot ht
    exact ⟨s, hs, hst.kind.symm⟩
  · rintro ⟨s, hs, rfl⟩
    obtain ⟨t, ht, hst⟩ := hk.slot hs
    exact ⟨t, ht, hst.kind⟩

/-! ### Namespaces in namespaces -/

/-- What stands above a namespace is one, unless it is a unit. -/
theorem WellFormed.isSpace_of_isAbove (hg : g.WellFormed) (hp : g.IsParent p a)
    (ha : g.IsAbove a i) (hi : g.IsOfKind .namespace i) : g.IsOfKind .namespace a := by
  induction ha using ReflTransGen.head_induction_on generalizing p with
  | refl => exact hi
  | @head a b hab _ ih =>
    obtain ⟨t, ht, htk⟩ := ih hab
    obtain ⟨s, hs⟩ := exists_get?_of_lt (hg.parent_lt hab)
    have hkind := (hg.kind_parent hs ht ((isParent_iff_of_get? ht).1 hab)).1
    rw [htk, Kind.parents, List.mem_cons, List.mem_singleton] at hkind
    rcases hkind with hk | hk
    · exact absurd hp (not_isParent_of_parent_eq_none hs (hg.isRooted.parent_unit hs hk))
    · exact ⟨s, hs, hk⟩

/-- After the one namespace right below a unit is hoisted, there are others below the unit just if
it declares one. -/
theorem WellFormed.exists_space_hoisted_iff (hg : g.WellFormed) (hs : g.get? space = some s)
    (hp : s.parent = some unit) (hunit : unit ∈ g.units)
    (hone : ∀ i, g.IsParent unit i ∧ g.IsOfKind .namespace i ↔ i = space) :
    (∃ i, (g.hoisted space unit).IsAbove unit i ∧
        (g.hoisted space unit).IsOfKind .namespace i) ↔
      ∃ i, g.IsParent space i ∧ g.IsOfKind .namespace i := by
  have hspace : g.IsParent unit space := ⟨s, hs, hp⟩
  simp only [isAbove_hoisted hg.isRooted hs hp hunit hunit, (Keeps.hoisted hg hs).isOfKind_iff]
  constructor
  · rintro ⟨i, ⟨ha, hi⟩, hk⟩
    -- the way down to the namespace goes through the hoisted one, and on through another one
    rcases ReflTransGen.cases_head ha with rfl | ⟨a, hua, hai⟩
    · obtain ⟨t, ht, htk⟩ := hk
      rw [(hg.mem_units ht).1 hunit] at htk
      nomatch htk
    · obtain rfl := (hone a).1 ⟨hua, hg.isSpace_of_isAbove hua hai hk⟩
      rcases ReflTransGen.cases_head hai with rfl | ⟨b, hab, hbi⟩
      · exact absurd rfl hi
      · exact ⟨b, hab, hg.isSpace_of_isAbove hab hbi hk⟩
  · rintro ⟨i, hsi, hk⟩
    exact ⟨i, ⟨(ReflTransGen.single hspace).tail hsi, (hg.ne_of_isParent hsi).symm⟩, hk⟩

/-- Hoisting leaves alone which declarations are live, except for the namespace. -/
theorem WellFormed.perm_liveWhere?_hoisted (hg : g.WellFormed) (hs : g.get? space = some s)
    (hk : s.kind = .namespace) (hp : s.parent = some unit) (hunit : unit ∈ g.units) :
    ∃ ids ids', g.liveWhere? (·.kind != .namespace) = some ids ∧
      (g.hoisted space unit).liveWhere? (·.kind != .namespace) = some ids' ∧ ids'.Perm ids := by
  obtain ⟨A, B, hspace⟩ := hg.isRooted.exists_hasSpace hs hk hp hunit
  obtain ⟨ids, ids', hids, hids', hperm⟩ := hspace.perm_liveWhere? hg.isRooted
    (q := (·.kind != .namespace)) (fun _ => rfl) (by rw [hk]; rfl)
  exact ⟨ids, ids', hids, hids', hperm.symm⟩

end Graph

namespace Pass

variable {g : Graph} {scope : Scope} {w : Work} {n : Nat} {name origin text header : String}
  {phase : Phase}

open Bindery.Graph

theorem runs_consolidation (hg : g.WellFormed) (hunit : scope.unit ∈ g.units) (name : String)
    (phase : Phase) :
    Runs ((table name phase Tables.namespaceConsolidation).run scope) { graph := g }
      (fun n w => ∃ space, (∀ i, g.IsParent scope.unit i ∧ g.IsOfKind .namespace i ↔ i = space) ∧
        w.graph = g.hoisted space scope.unit ∧ n = 1)
      fun _ _ => True := by
  let r : Rule := ⟨.namespace none, .hoist, ""⟩
  have happly := r.runs_apply_of_mem_units (w := { graph := g }) hg.isRooted hunit
  refine runs_bind (happly.mono (fun n w h => runs_bind (runs_pure (runs_pure ?_)))
    fun _ _ _ => trivial)
  obtain ⟨ids, -, hmem, hone, -, hw, hn, -⟩ := h
  obtain ⟨space, rfl⟩ := hone rfl
  refine ⟨space, fun i => ?_, hw, ?_⟩
  · rw [← List.mem_singleton, hmem i]
    constructor
    · rintro ⟨hp, s, hs, hk⟩
      exact ⟨s, hs, hk, hp, nofun⟩
    · rintro ⟨s, hs, hk, hp, -⟩
      exact ⟨hp, s, hs, hk⟩
  · obtain ⟨s, hs, -⟩ := (hmem space).1 (List.mem_singleton_self space)
    rw [hn]
    simp [Action.changes, Action.alters, hs]

/-- A consolidation that succeeds hoists the one namespace right below the main unit. No namespace
is left below the unit just if that one declared none, and nothing else is lost or doubled. -/
theorem isFlat_iff_of_consolidation (hload : Graph.ofText origin text = .ok g)
    (hscope : (Scope.primary g header).run = some (.ok scope))
    (hrun : (table name phase Tables.namespaceConsolidation).run scope { graph := g }
      = some (.ok n, w)) :
    n = 1 ∧ ∃ space, g.membersOfKind? scope.unit .namespace = some [space] ∧
      (w.graph.descendantsOfKind? scope.unit .namespace = some [] ↔
        g.membersOfKind? space .namespace = some []) ∧
      ∃ ids ids', g.liveWhere? (·.kind != .namespace) = some ids ∧
        w.graph.liveWhere? (·.kind != .namespace) = some ids' ∧ ids'.Perm ids := by
  have hg := (Graph.isLoaded_ofText hload).toWellFormed
  obtain ⟨r, hr, hok, -⟩ := hg.primary_spec header
  obtain rfl := Option.some.inj (hscope.symm.trans hr)
  have hunit := (hok scope rfl).1
  obtain ⟨r, w', hr', hok', -⟩ := runs_iff.1
    (runs_consolidation hg hunit name phase)
  obtain ⟨rfl, rfl⟩ := Prod.mk.inj (Option.some.inj (hrun.symm.trans hr'))
  obtain ⟨space, hone, hw, hn⟩ := hok' n rfl
  obtain ⟨hparent, s, hs, hk⟩ := (hone space).2 rfl
  have hp := (isParent_iff_of_get? hs).1 hparent
  obtain ⟨spaces, hspaces, hnd, hmem⟩ := hg.membersOfKind?_spec (hg.unit_lt hunit) .namespace
  obtain ⟨inner, hinner, -, hmem'⟩ := hg.membersOfKind?_spec (lt_size_of_get? hs) .namespace
  have hh := hg.hoisted hs hk hunit
  have hkeeps : g.Keeps (g.hoisted space scope.unit) := .hoisted hg hs
  have hunit' : scope.unit ∈ (g.hoisted space scope.unit).units := hkeeps.units ▸ hunit
  obtain ⟨left, hleft, hmem''⟩ := hh.descendantsOfKind?_spec (hh.unit_lt hunit') .namespace
  refine ⟨hn, space, ?_, ?_, hw ▸ hg.perm_liveWhere?_hoisted hs hk hp hunit⟩
  · have hperm : spaces.Perm [space] := (List.perm_ext_iff_of_nodup hnd
      (List.nodup_singleton space)).2 fun i => by rw [hmem, hone, List.mem_singleton]
    rw [hspaces, List.perm_singleton.1 hperm]
  · rw [hw, hleft, hinner, Option.some.injEq, Option.some.injEq,
      List.eq_nil_iff_forall_not_mem, List.eq_nil_iff_forall_not_mem, ← not_exists, ← not_exists]
    simp only [hmem', hmem'']
    exact not_congr (hg.exists_space_hoisted_iff hs hp hunit hone)

/-- Whether the pass succeeds for the unit of the file `header`, and leaves a graph that passes the
test. -/
def leaves (p : Pass) (header : String) (test : DeclId → Graph → Bool) (g : Graph) : Bool :=
  match (Scope.primary g header).run with
  | some (.ok scope) =>
    match p.run scope { graph := g } with
    | some (.ok _, w) => test scope.unit w.graph
    | _ => false
  | _ => false

theorem exists_of_leaves {p : Pass} {test : DeclId → Graph → Bool} (h : p.leaves header test g) :
    ∃ scope n w, (Scope.primary g header).run = some (.ok scope) ∧
      p.run scope { graph := g } = some (.ok n, w) ∧ test scope.unit w.graph := by
  unfold leaves at h
  split at h
  · next scope hscope =>
    split at h
    · next n w hrun => exact ⟨scope, n, w, hscope, hrun, h⟩
    · nomatch h
  · nomatch h

theorem isFlat_iff_of_consolidation_flat :
    ∃ g, Graph.ofText "dump" "unit \"a\" \x7b namespace A \x7b fn f(); \x7d \x7d" = .ok g ∧
      ∃ scope w, (Scope.primary g "a").run = some (.ok scope) ∧
        (table "hoist" .preprocess Tables.namespaceConsolidation).run scope { graph := g }
          = some (.ok 1, w) ∧
        w.graph.descendantsOfKind? scope.unit .namespace = some [] := by
  let p := table "hoist" .preprocess Tables.namespaceConsolidation
  let test (g : Graph) (u : DeclId) (_ : Graph) : Bool :=
    g.membersOfKind? u .namespace == some [1] && g.membersOfKind? 1 .namespace == some []
  refine Graph.exists_ofText (P := fun g => p.leaves "a" (test g) g) (by decide +kernel)
    fun g hg hleaves => ?_
  obtain ⟨scope, n, w, hscope, hrun, htest⟩ := exists_of_leaves hleaves
  obtain ⟨hone, hnone⟩ : g.membersOfKind? scope.unit .namespace = some [1] ∧
      g.membersOfKind? 1 .namespace = some [] := by simpa [test] using htest
  obtain ⟨rfl, space, hspace, hflat, -⟩ := isFlat_iff_of_consolidation hg hscope hrun
  obtain rfl : space = 1 := by simpa [hone] using hspace.symm
  exact ⟨scope, w, hscope, hrun, hflat.2 hnone⟩

/-- A namespace in the one that is hoisted stays below the unit. -/
theorem nested_left_by_consolidation :
    ∃ g, Graph.ofText "dump"
        "unit \"imgui.h\" \x7b namespace A \x7b namespace B \x7b fn f(); \x7d \x7d \x7d" = .ok g ∧
      ∃ scope n w, (Scope.primary g "imgui.h").run = some (.ok scope) ∧
        (table "namespace-consolidation" .preprocess Tables.namespaceConsolidation).run scope
          { graph := g } = some (.ok n, w) ∧
        w.graph.descendantsOfKind? scope.unit .namespace = some [2] := by
  let p := table "namespace-consolidation" .preprocess Tables.namespaceConsolidation
  let test (u : DeclId) (h : Graph) : Bool := h.descendantsOfKind? u .namespace == some [2]
  refine Graph.exists_ofText (P := p.leaves "imgui.h" test) (by decide +kernel)
    fun g hg hleaves => ?_
  obtain ⟨scope, n, w, hscope, hrun, htest⟩ := exists_of_leaves hleaves
  exact ⟨scope, n, w, hscope, hrun, by simpa [test] using htest⟩

end Pass

end Bindery
