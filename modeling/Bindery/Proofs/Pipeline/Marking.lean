import Bindery.Pipeline.Basic
import Bindery.Proofs.Dump.Load
import Bindery.Proofs.Pipeline.Rule
import Bindery.Proofs.Pipeline.View

/-!
# Tables that mark

A rule that marks sets one flag on what its selector finds. No selector reads that flag, so all
rules of a table find what they would find in the graph before the first of them. That makes the
order of the rules irrelevant, and a second run has nothing left to do.
-/

namespace Bindery

open Step Finset

variable {g h : Graph} {i : DeclId} {s : Slot} {scope : Scope} {w : Work} {r : Rule}
  {rules rules' : List Rule} {ids : List DeclId} {f : Flags} {m m' : DeclId → Flags}

/-- The slot with the flags that `m` says for it. -/
def Slot.flagged (m : DeclId → Flags) (s : Slot) : Slot := { s with flags := s.flags ∪ m s.id }

theorem Slot.keepsPlace_flagged (m : DeclId → Flags) : Slot.KeepsPlace (Slot.flagged m) :=
  fun _ => ⟨rfl, rfl, rfl⟩

namespace Graph

/-- The graph with more flags, which `m` says for every declaration. -/
def flagged (g : Graph) (m : DeclId → Flags) : Graph := g.mapSlots (Slot.flagged m)

def flagsAt (g : Graph) (i : DeclId) : Flags := ((g.get? i).map (·.flags)).getD .none

/-- How many flags the declarations of `g` have in `h` that they have not in `g`, bit by bit. -/
def added (g h : Graph) : Nat := ∑ i ∈ range g.size, (g.flagsAt i).added (h.flagsAt i)

theorem flagsAt_of_get? (hs : g.get? i = some s) : g.flagsAt i = s.flags := by
  rw [flagsAt, hs, Option.map_some, Option.getD_some]

@[simp] theorem size_flagged (g : Graph) (m : DeclId → Flags) : (g.flagged m).size = g.size :=
  size_mapSlots _ _

theorem flagged_flagged (g : Graph) (m m' : DeclId → Flags) :
    (g.flagged m).flagged m' = g.flagged fun i => m i ∪ m' i := by
  rw [flagged, flagged, mapSlots_mapSlots]
  refine congrArg g.mapSlots (funext fun s => ?_)
  simp only [Slot.flagged, Flags.union_assoc]

@[simp] theorem flagged_none (g : Graph) : g.flagged (fun _ => .none) = g :=
  mapSlots_eq_self fun _ s _ => by rw [Slot.flagged, Flags.union_none]

theorem IsRooted.flagged (hg : g.IsRooted) (m : DeclId → Flags) : (g.flagged m).IsRooted :=
  hg.mapSlots_of_keepsPlace (Slot.keepsPlace_flagged m) fun _ _ _ => rfl

/-- A graph looks the same with more flags, if no class loses its body. -/
theorem view_flagged (hm : ∀ i, (m i).has .incomplete = false) :
    View id (Slot.flagged m) g (g.flagged m) where
  injective := Function.injective_id
  get?_eq hs := get?_mapSlots_of_get? _ hs
  units_eq := (List.map_id _).symm
  size_le := (size_flagged g m).ge
  parent_eq s := (congrFun Option.map_id s.parent).symm
  children_eq _ := (List.map_id _).symm
  kind_eq _ := rfl
  name_eq _ := rfl
  type_eq _ := rfl
  isComplete_eq s := by
    show (!(s.flags ∪ m s.id).has .incomplete) = _
    rw [Flags.isBit_incomplete.has_union, hm, Bool.or_false]
    rfl

/-! ### Counting -/

@[simp] theorem added_self (g : Graph) : g.added g = 0 := by
  simp [added]

theorem IsNumbered.flagsAt_flagged (hg : g.IsNumbered) (m : DeclId → Flags) (hi : i < g.size) :
    (g.flagged m).flagsAt i = g.flagsAt i ∪ m i := by
  obtain ⟨s, hs⟩ := exists_get?_of_lt hi
  have hs' : (g.flagged m).get? i = some (s.flagged m) := get?_mapSlots_of_get? _ hs
  rw [flagsAt_of_get? hs, flagsAt_of_get? hs', Slot.flagged, hg i s hs]

theorem IsNumbered.added_flagged (hg : g.IsNumbered) (m : DeclId → Flags) :
    g.added (g.flagged m) = ∑ i ∈ range g.size, (g.flagsAt i).added (g.flagsAt i ∪ m i) :=
  sum_congr rfl fun i hi => by rw [hg.flagsAt_flagged m (mem_range.1 hi)]

/-- Flags that are set one after the other are counted once. -/
theorem IsNumbered.added_flagged_flagged (hg : g.IsNumbered) (m m' : DeclId → Flags) :
    g.added ((g.flagged m).flagged m') =
      g.added (g.flagged m) + (g.flagged m).added ((g.flagged m).flagged m') := by
  have hm : (g.flagged m).IsNumbered := hg.mapSlots fun _ => rfl
  rw [hm.added_flagged, hg.added_flagged, flagged_flagged, hg.added_flagged, size_flagged,
    ← sum_add_distrib]
  refine sum_congr rfl fun i hi => ?_
  rw [hg.flagsAt_flagged m (mem_range.1 hi), Flags.added_union_union, Flags.union_assoc]

end Graph

theorem Scope.Fits.flagged (hg : scope.Fits g) (m : DeclId → Flags) :
    scope.Fits (g.flagged m) where
  isRooted := hg.isRooted.flagged m
  unit_lt := by
    rw [Graph.size_flagged]
    exact hg.unit_lt

/-! ### One rule -/

namespace Action

theorem isBit_of_flag? {a : Action} (h : a.flag? = some f) :
    f.IsBit ∧ f.has .incomplete = false := by
  cases a <;> cases h
  · exact ⟨Flags.isBit_ignored, by decide⟩
  · exact ⟨Flags.isBit_valueType, by decide⟩
  · exact ⟨Flags.isBit_bitmask, by decide⟩
  · exact ⟨Flags.isBit_readOnly, by decide⟩

theorem change_of_flag? {a : Action} (h : a.flag? = some f) (ids : List DeclId) :
    a.change ids = Slot.flagged fun i => if i ∈ ids then f else .none := by
  funext s
  rw [change_eq_marked h]
  by_cases hs : s.id ∈ ids <;> simp [Slot.marked, Slot.flagged, hs]

theorem alters_of_flag? {a : Action} (h : a.flag? = some f) (s : Slot) :
    a.alters s = !s.flags.has f := by
  cases a <;> cases h <;> rfl

/-- The declarations that a marking action changes are counted by their new bits. -/
theorem changes_of_flag? {a : Action} (h : a.flag? = some f) (hg : g.IsNumbered)
    (hnd : ids.Nodup) (hlt : ∀ i ∈ ids, i < g.size) :
    a.changes g ids = g.added (g.flagged fun i => if i ∈ ids then f else .none) := by
  have halters : ∀ i ∈ ids, (g.get? i).any a.alters = !(g.flagsAt i).has f := fun i hi => by
    obtain ⟨s, hs⟩ := Graph.exists_get?_of_lt (hlt i hi)
    rw [hs, Graph.flagsAt_of_get? hs, Option.any_some, alters_of_flag? h]
  have hcount : ∀ i ∈ range g.size,
      (g.flagsAt i).added (g.flagsAt i ∪ if i ∈ ids then f else .none) =
        if i ∈ ids ∧ ¬ (g.flagsAt i).has f then 1 else 0 := fun i _ => by
    by_cases hi : i ∈ ids
    · rw [if_pos hi, (isBit_of_flag? h).1.added_union]
      by_cases hf : (g.flagsAt i).has f <;> simp [hf, hi]
    · simp [hi]
  have hset : (range g.size).filter (fun i => i ∈ ids ∧ ¬ (g.flagsAt i).has f) =
      (ids.filter fun i => !(g.flagsAt i).has f).toFinset := by
    ext i
    simp only [mem_filter, mem_range, List.mem_toFinset, List.mem_filter, Bool.not_eq_true',
      Bool.not_eq_true]
    exact ⟨fun h => h.2, fun h => ⟨hlt i h.1, h⟩⟩
  rw [hg.added_flagged, sum_congr rfl hcount, ← card_filter, hset,
    List.toFinset_card_of_nodup (hnd.filter _), ← List.countP_eq_length_filter]
  exact List.countP_congr fun i hi => by rw [halters i hi]

end Action

namespace Rule

/-- What the rule finds, if it does not fail. -/
def targets (r : Rule) (g : Graph) (scope : Scope) : List DeclId :=
  match (r.selector.resolve g scope).run with
  | some (.ok ids) => ids
  | _ => []

/-- The flag that the rule sets on a declaration. -/
def mark (r : Rule) (g : Graph) (scope : Scope) (i : DeclId) : Flags :=
  if i ∈ r.targets g scope then r.action.flag?.getD .none else .none

/-- The flags that the rules together set on a declaration. -/
def marks (rules : List Rule) (g : Graph) (scope : Scope) (i : DeclId) : Flags :=
  rules.foldl (fun f r => f ∪ r.mark g scope i) .none

theorem marks_concat (rules : List Rule) (r : Rule) (g : Graph) (scope : Scope) (i : DeclId) :
    marks (rules ++ [r]) g scope i = marks rules g scope i ∪ r.mark g scope i := by
  rw [marks, List.foldl_append]
  rfl

theorem marks_perm (hp : rules'.Perm rules) (g : Graph) (scope : Scope) :
    marks rules' g scope = marks rules g scope := by
  funext i
  refine hp.foldl_eq' (fun x _ y _ f => ?_) _
  rw [Flags.union_assoc, Flags.union_assoc, Flags.union_comm (y.mark _ _ _)]

theorem has_marks (hf : f.IsBit) (rules : List Rule) (g : Graph) (scope : Scope) (i : DeclId) :
    (marks rules g scope i).has f = rules.any fun r => (r.mark g scope i).has f := by
  induction rules using List.reverseRecOn with
  | nil => exact hf.has_none
  | append_singleton rules r ih =>
    rw [marks_concat, hf.has_union, ih, List.any_append, List.any_cons, List.any_nil, Bool.or_false]

/-- A word has all flags that rules set if it has those of each rule. -/
theorem has_marks_iff : f.has (marks rules g scope i) ↔ ∀ r ∈ rules, f.has (r.mark g scope i) := by
  induction rules using List.reverseRecOn with
  | nil => exact iff_of_true f.has_none nofun
  | append_singleton rules r ih =>
    rw [marks_concat, Flags.has_union_iff, ih, List.forall_mem_append, List.forall_mem_singleton]

theorem has_mark_of_mem (hr : r ∈ rules) : (marks rules g scope i).has (r.mark g scope i) :=
  has_marks_iff.1 (Flags.has_self _) r hr

theorem incomplete_marks (hm : ∀ r ∈ rules, r.action.flag?.isSome) (g : Graph) (scope : Scope)
    (i : DeclId) : (marks rules g scope i).has .incomplete = false := by
  rw [has_marks Flags.isBit_incomplete, List.any_eq_false]
  intro r hr
  obtain ⟨f, hf⟩ := Option.isSome_iff_exists.1 (hm r hr)
  rw [mark, hf, Option.getD_some]
  split
  · simp [(Action.isBit_of_flag? hf).2]
  · simp [Flags.isBit_incomplete.has_none]

/-- More flags do not change what a rule finds. -/
theorem resolve_flagged (hg : scope.Fits g) (hm : ∀ i, (m i).has .incomplete = false)
    (sel : Selector) : (sel.resolve (g.flagged m) scope).run = (sel.resolve g scope).run := by
  obtain ⟨res, hres, -⟩ := hg.isRooted.resolve_spec hg.unit_lt sel
  have hview := (Graph.view_flagged hm).resolve sel res hres
  have hmap : res.map (List.map id) = res := by
    cases res with
    | error e => rfl
    | ok ids => exact congrArg Except.ok (List.map_id ids)
  rw [hmap] at hview
  rw [hres]
  exact hview

theorem accepts_flagged (hg : scope.Fits g) (hm : ∀ i, (m i).has .incomplete = false) :
    r.Accepts (g.flagged m) scope ↔ r.Accepts g scope := by
  rw [Accepts, resolve_flagged hg hm, Accepts]

theorem mark_flagged (hg : scope.Fits g) (hm : ∀ i, (m i).has .incomplete = false) :
    r.mark (g.flagged m) scope = r.mark g scope := by
  funext i
  rw [mark, targets, resolve_flagged hg hm, mark, targets]

theorem marks_flagged (hg : scope.Fits g) (hm : ∀ i, (m i).has .incomplete = false)
    (rules : List Rule) : marks rules (g.flagged m) scope = marks rules g scope := by
  funext i
  simp only [marks, mark_flagged hg hm]

/-- A rule that marks sets its flag on what it finds, if it is accepted. -/
theorem runs_apply_marking (hg : scope.Fits w.graph) (hr : r.action.flag?.isSome) :
    Runs (r.apply scope) w
      (fun n w' => r.Accepts w.graph scope ∧ w'.graph = w.graph.flagged (r.mark w.graph scope) ∧
        n = w.graph.added w'.graph)
      fun _ _ => ¬ r.Accepts w.graph scope := by
  obtain ⟨f, hf⟩ := Option.isSome_iff_exists.1 hr
  have ha : r.action ≠ .hoist := fun ha => by
    rw [ha] at hr
    exact absurd hr (by decide)
  refine runs_apply_of_accepts hg.isRooted hg.unit_lt r (fun ids hids hnd hmem _ happ => ?_)
    fun hnot _ => hnot
  have hmark : r.mark w.graph scope = fun i => if i ∈ ids then f else .none := by
    funext i
    rw [mark, targets, hids, hf, Option.getD_some]
  have hlt : ∀ i ∈ ids, i < w.graph.size := fun i hi => by
    obtain ⟨s, hs, -⟩ := (hmem i).1 hi
    exact Graph.lt_size_of_get? hs
  refine (runs_sum_applyTo hg.isRooted r ha hnd fun i hi => ?_).mono (fun n w' h => ?_)
    fun _ _ he => he
  · obtain ⟨s, hs, hk, -⟩ := (hmem i).1 hi
    exact ⟨s, hs, hk ▸ happ (List.ne_nil_of_mem hi)⟩
  · obtain ⟨hw', hn, -⟩ := h
    rw [Action.change_of_flag? hf, ← hmark] at hw'
    rw [Action.changes_of_flag? hf hg.isRooted.isNumbered hnd hlt, ← hmark] at hn
    refine ⟨⟨ids, hids, happ⟩, hw', ?_⟩
    rw [hw']
    exact hn

/-- All rules of a table that marks find what they find in the graph before the first one. -/
theorem runs_table_marking (hg : scope.Fits w.graph) (hm : ∀ r ∈ rules, r.action.flag?.isSome) :
    Runs (sum (·.apply scope) rules) w
      (fun n w' => (∀ r ∈ rules, r.Accepts w.graph scope) ∧
        w'.graph = w.graph.flagged (marks rules w.graph scope) ∧ n = w.graph.added w'.graph)
      fun _ _ => ∃ r ∈ rules, ¬ r.Accepts w.graph scope := by
  have hnum := hg.isRooted.isNumbered
  let I (done rest : List Rule) (n : Nat) (v : Work) : Prop := done ++ rest = rules ∧
    (∀ r ∈ done, r.Accepts w.graph scope) ∧
    v.graph = w.graph.flagged (marks done w.graph scope) ∧ n = w.graph.added v.graph
  have hstep : ∀ done r rest n v, I done (r :: rest) n v →
      Runs (r.apply scope) v (fun k v' => I (done ++ [r]) rest (n + k) v')
        fun _ _ => ∃ r ∈ rules, ¬ r.Accepts w.graph scope := by
    rintro done r rest n v ⟨hl, hdone, hv, hn⟩
    have hr : r ∈ rules := by simp [← hl]
    have hinc : ∀ i, (marks done w.graph scope i).has .incomplete = false :=
      incomplete_marks (fun r' hr' => hm r' (hl ▸ List.mem_append_left _ hr')) _ _
    have hvg : scope.Fits v.graph := hv ▸ hg.flagged _
    refine (runs_apply_marking hvg (hm r hr)).mono (fun k v' h => ?_) fun _ _ h => ?_
    · obtain ⟨hacc, hv', hk⟩ := h
      rw [hv] at hacc hv' hk
      rw [mark_flagged hg hinc] at hv'
      refine ⟨by simp [← hl], ?_, ?_, ?_⟩
      · intro r' hr'
        rcases List.mem_append.1 hr' with hr' | hr'
        · exact hdone r' hr'
        · rw [List.mem_singleton.1 hr']
          exact (accepts_flagged hg hinc).1 hacc
      · rw [hv', Graph.flagged_flagged]
        exact congrArg w.graph.flagged (funext fun i => (marks_concat done r _ _ i).symm)
      · rw [hn, hk, hv, hv', ← hnum.added_flagged_flagged]
    · rw [hv, accepts_flagged hg hinc] at h
      exact ⟨r, hr, h⟩
  refine (runs_sum I hstep rules [] 0 w ⟨rfl, nofun, ?_, ?_⟩).mono (fun n w' h => ?_)
    fun _ _ h => h
  · exact (Graph.flagged_none w.graph).symm
  · exact (Graph.added_self w.graph).symm
  · obtain ⟨-, hacc, hw', hn⟩ := h
    exact ⟨hacc, hw', (Nat.zero_add n).symm.trans hn⟩

theorem exists_marked (hg : scope.Fits w.graph) (hm : ∀ r ∈ rules, r.action.flag?.isSome)
    (hacc : ∀ r ∈ rules, r.Accepts w.graph scope) :
    ∃ w', sum (·.apply scope) rules w = some (.ok (w.graph.added w'.graph), w') ∧
      w'.graph = w.graph.flagged (marks rules w.graph scope) := by
  obtain ⟨res, w', hw', hok, herr⟩ := runs_iff.1 (runs_table_marking hg hm)
  cases res with
  | error e =>
    obtain ⟨r, hr, hnot⟩ := herr e rfl
    exact absurd (hacc r hr) hnot
  | ok n =>
    obtain ⟨-, hgraph, hn⟩ := hok n rfl
    exact ⟨w', hn ▸ hw', hgraph⟩

theorem exists_error_of_not_accepts (hg : scope.Fits w.graph)
    (hm : ∀ r ∈ rules, r.action.flag?.isSome) (hr : r ∈ rules)
    (hnot : ¬ r.Accepts w.graph scope) :
    ∃ e w', sum (·.apply scope) rules w = some (.error e, w') := by
  obtain ⟨res, w', hw', hok, -⟩ := runs_iff.1 (runs_table_marking hg hm)
  cases res with
  | error e => exact ⟨e, w', hw'⟩
  | ok n => exact absurd ((hok n rfl).1 r hr) hnot

end Rule

namespace Pass

/-- A table that marks adds to the flags of each declaration those of the rules that find it in the
first graph, and counts the bits that this sets. The order of its rules does not matter, neither
does it for whether it fails; and once it is done, it has nothing left to do. -/
theorem marks_in_any_order (hg : w.graph.IsRooted) (hu : scope.unit < w.graph.size)
    (hm : ∀ r ∈ rules, r.action.flag?.isSome) (name : String) (phase : Phase) :
    ∃ res w', (table name phase rules).run scope w = some (res, w') ∧
      (∀ n, res = .ok n → (∀ r ∈ rules, r.Accepts w.graph scope) ∧
        w'.graph = w.graph.flagged (Rule.marks rules w.graph scope) ∧
        n = w.graph.added w'.graph ∧
        (∀ rules', rules'.Perm rules → ∀ v : Work, v.graph = w.graph → ∃ v',
          (table name phase rules').run scope v = some (.ok n, v') ∧ v'.graph = w'.graph) ∧
        ∀ v : Work, v.graph = w'.graph → ∃ v',
          (table name phase rules).run scope v = some (.ok 0, v') ∧ v'.graph = w'.graph) ∧
      ∀ e, res = .error e → ∀ rules', rules'.Perm rules → ∀ v : Work, v.graph = w.graph →
        ∃ e' v', (table name phase rules').run scope v = some (.error e', v') := by
  have hfits : scope.Fits w.graph := ⟨hg, hu⟩
  have hinc := Rule.incomplete_marks hm w.graph scope
  by_cases hacc : ∀ r ∈ rules, r.Accepts w.graph scope
  · obtain ⟨w', hw', hgraph⟩ := Rule.exists_marked hfits hm hacc
    refine ⟨.ok (w.graph.added w'.graph), w', hw', ?_, nofun⟩
    rintro _ ⟨⟩
    refine ⟨hacc, hgraph, rfl, fun rules' hp v hv => ?_, fun v hv => ?_⟩
    · obtain ⟨v', hv', hgraph'⟩ := Rule.exists_marked (hv ▸ hfits)
        (fun r hr => hm r (hp.mem_iff.1 hr)) fun r hr => hv ▸ hacc r (hp.mem_iff.1 hr)
      have hsame : v'.graph = w'.graph := by rw [hgraph', hv, Rule.marks_perm hp, hgraph]
      rw [hv, hsame] at hv'
      exact ⟨v', hv', hsame⟩
    · -- nothing that the rules read has changed, and the flags that they set are set
      have hvg : v.graph = w.graph.flagged (Rule.marks rules w.graph scope) := hv.trans hgraph
      obtain ⟨v', hv', hgraph'⟩ := Rule.exists_marked (hvg ▸ hfits.flagged _) hm fun r hr => by
        rw [hvg, Rule.accepts_flagged hfits hinc]
        exact hacc r hr
      have hsame : v'.graph = v.graph := by
        rw [hgraph', hvg, Rule.marks_flagged hfits hinc, Graph.flagged_flagged]
        simp only [Flags.union_self]
      rw [hsame, Graph.added_self] at hv'
      exact ⟨v', hv', hsame.trans hv⟩
  · push Not at hacc
    obtain ⟨r, hr, hnot⟩ := hacc
    obtain ⟨e, w', hw'⟩ := Rule.exists_error_of_not_accepts hfits hm hr hnot
    refine ⟨.error e, w', hw', nofun, fun _ _ rules' hp v hv => ?_⟩
    exact Rule.exists_error_of_not_accepts (hv ▸ hfits) (fun r hr => hm r (hp.mem_iff.1 hr))
      (hp.mem_iff.2 hr) (hv ▸ hnot)

/-- Two rules set the same flag on one of two enumerations, and a third rule ignores it. -/
theorem marks_in_any_order_overlapping :
    ∃ (rules : List Rule) (g : Graph) (w : Work),
      rules = [⟨.enumerationsContaining "E", .markBitmask, ""⟩,
        ⟨.enumerationsWithSuffix "Flags", .markBitmask, ""⟩, ⟨.enumeration "EFlags", .ignore, ""⟩] ∧
      Graph.ofText "dump" "unit \"a\" \x7b enum EFlags \x7b A \x7d enum E \x7b B \x7d \x7d" =
        .ok g ∧
      (table "flags" .postprocess rules).run ⟨0⟩ { graph := g } = some (.ok 3, w) ∧
      (∃ v, (table "flags" .postprocess rules.reverse).run ⟨0⟩ { graph := g } = some (.ok 3, v) ∧
        v.graph = w.graph) ∧
      ∃ v, (table "flags" .postprocess rules).run ⟨0⟩ { graph := w.graph } = some (.ok 0, v) ∧
        v.graph = w.graph := by
  let rules : List Rule := [⟨.enumerationsContaining "E", .markBitmask, ""⟩,
    ⟨.enumerationsWithSuffix "Flags", .markBitmask, ""⟩, ⟨.enumeration "EFlags", .ignore, ""⟩]
  have hrun : ∃ g, Graph.ofText "dump"
      "unit \"a\" \x7b enum EFlags \x7b A \x7d enum E \x7b B \x7d \x7d" = .ok g ∧ 0 < g.size ∧
      ∃ w, (table "flags" .postprocess rules).run ⟨0⟩ { graph := g } = some (.ok 3, w) := by
    refine Graph.exists_ofText (P := fun g => decide (0 < g.size ∧
      ((table "flags" .postprocess rules).run ⟨0⟩ { graph := g }).map Prod.fst = some (.ok 3)))
      (by decide +kernel) fun g _ h => ?_
    obtain ⟨hsize, hrun⟩ := of_decide_eq_true h
    obtain ⟨⟨res, w⟩, hr, rfl⟩ := Option.map_eq_some_iff.1 hrun
    exact ⟨hsize, w, hr⟩
  obtain ⟨g, hg, hsize, w, hr⟩ := hrun
  obtain ⟨res, w', hr', hok, -⟩ := @marks_in_any_order ⟨0⟩ { graph := g } rules
    (Graph.isLoaded_ofText hg).toWellFormed.isRooted hsize (by decide) "flags" .postprocess
  obtain ⟨rfl, rfl⟩ := Prod.mk.inj (Option.some.inj (hr.symm.trans hr'))
  obtain ⟨-, -, -, hperm, hagain⟩ := hok 3 rfl
  exact ⟨rules, g, w, rfl, hg, hr, hperm rules.reverse rules.reverse_perm _ rfl, hagain _ rfl⟩

end Pass

end Bindery
