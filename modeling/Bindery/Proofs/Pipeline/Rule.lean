import Bindery.Pipeline.Rule
import Bindery.Proofs.Graph.Preservation
import Bindery.Proofs.Pipeline.Logic
import Bindery.Proofs.Pipeline.Selector

/-!
# What a rule does

In a forest below units a rule either fails and leaves the graph as it was, or does its action to
exactly the declarations that its selector selects. The result counts those that this changed.
-/

namespace Bindery

open Step PipelineError Lookup Relation

variable {g : Graph} {i u x space unit : DeclId} {s t : Slot} {scope : Scope}
  {ids : List DeclId} {w : Work} {a : Action}

/-- The graph is a forest below units, and the scope's unit has a slot in it. -/
structure Scope.Fits (scope : Scope) (g : Graph) : Prop where
  isRooted : g.IsRooted
  unit_lt : scope.unit < g.size

namespace Action

/-- Whether the action changes anything about a declaration. -/
def alters (a : Action) (s : Slot) : Bool :=
  match a with
  | .rename name => s.name != name
  | .hoist => true
  | a => a.flag?.any (!s.flags.has ·)

/-- The change of slots if the action is done to `ids`, unless it is hoisting. -/
def change (a : Action) (ids : List DeclId) : Slot → Slot :=
  match a with
  | .ignore => Slot.marked .ignored ids
  | .markValueType => Slot.marked .valueType ids
  | .markBitmask => Slot.marked .bitmask ids
  | .markReadOnly => Slot.marked .readOnly ids
  | .rename name => Slot.renamed name ids
  | .hoist => fun s => s

/-- The graph after the action was done to `ids`, which hoisting empties onto `unit`. -/
def applied (a : Action) (unit : DeclId) (g : Graph) (ids : List DeclId) : Graph :=
  match a with
  | .hoist => ids.foldl (fun h space => h.hoisted space unit) g
  | a => g.mapSlots (a.change ids)

/-- How many of `ids` the action changes. -/
def changes (a : Action) (g : Graph) (ids : List DeclId) : Nat :=
  ids.countP fun i => (g.get? i).any a.alters

theorem eq_of_requiredKind? {k l : Kind} (h : a.requiredKind? = some k) (hl : a.appliesTo l) :
    l = k := by
  rw [appliesTo, h, Option.all_some, beq_iff_eq] at hl
  exact hl.symm

theorem applied_of_ne_hoist (h : a ≠ .hoist) (unit : DeclId) (g : Graph) (ids : List DeclId) :
    a.applied unit g ids = g.mapSlots (a.change ids) := by
  cases a <;> first | rfl | exact absurd rfl h

theorem keepsPlace_change (a : Action) (ids : List DeclId) : Slot.KeepsPlace (a.change ids) := by
  cases a with
  | rename name => exact Slot.keepsPlace_renamed _ _
  | hoist => exact fun _ => ⟨rfl, rfl, rfl⟩
  | _ => exact Slot.keepsPlace_marked _ _

theorem change_change (a : Action) (xs ys : List DeclId) (s : Slot) :
    a.change ys (a.change xs s) = a.change (xs ++ ys) s := by
  cases a with
  | rename name => exact Slot.renamed_renamed _ _ _ _
  | hoist => rfl
  | _ => exact Slot.marked_marked _ _ _ _

theorem change_of_notMem (a : Action) (h : s.id ∉ ids) : a.change ids s = s := by
  cases a with
  | rename name => exact if_neg h
  | hoist => rfl
  | _ => exact if_neg h

theorem change_eq_marked {f : Flags} (h : a.flag? = some f) (ids : List DeclId) :
    a.change ids = Slot.marked f ids := by
  cases a <;> cases h <;> rfl

theorem kind_change (a : Action) (ids : List DeclId) (s : Slot) :
    (a.change ids s).kind = s.kind := by
  cases a with
  | rename name => exact Slot.kind_renamed _ _ _
  | hoist => rfl
  | _ => exact Slot.kind_marked _ _ _

theorem change_nil (a : Action) : a.change [] = fun s => s :=
  funext fun _ => a.change_of_notMem List.not_mem_nil

@[simp] theorem applied_nil (a : Action) (unit : DeclId) (g : Graph) :
    a.applied unit g [] = g := by
  cases a <;> simp [applied, change_nil]

/-- An action keeps what well-formedness reads, if it is not done to a unit. -/
theorem keepsNature_change (a : Action) (h : s.id ∈ ids → s.kind ≠ .unit) :
    s.KeepsNature (a.change ids s) := by
  have hmark : ∀ f : Flags, f.has .incomplete = false → f.has .removed = false →
      s.KeepsNature (s.marked f ids) := by
    intro f h1 h2
    unfold Slot.marked
    split
    · refine ⟨rfl, ?_, ?_, fun _ => rfl⟩
      · simp [Declaration.isComplete, Flags.isBit_incomplete.has_union, h1]
      · simp [Declaration.isRemoved, Flags.isBit_removed.has_union, h2]
    · exact ⟨rfl, rfl, rfl, fun _ => rfl⟩
  cases a with
  | ignore => exact hmark _ (by decide) (by decide)
  | markValueType => exact hmark _ (by decide) (by decide)
  | markBitmask => exact hmark _ (by decide) (by decide)
  | markReadOnly => exact hmark _ (by decide) (by decide)
  | hoist => exact ⟨rfl, rfl, rfl, fun _ => rfl⟩
  | rename name =>
    show s.KeepsNature (s.renamed name ids)
    unfold Slot.renamed
    split
    · next hm =>
      have h1 : Flags.has .renamed .incomplete = false := by decide
      have h2 : Flags.has .renamed .removed = false := by decide
      cases hr : s.rename? name with
      | none => exact ⟨rfl, rfl, rfl, fun _ => rfl⟩
      | some d =>
        obtain ⟨-, rfl⟩ : s.name ≠ name ∧ _ = d := by
          simpa [Declaration.rename?, Option.ite_none_left_eq_some] using hr
        refine ⟨rfl, ?_, ?_, fun hk => absurd hk (h hm)⟩
        · simp [Declaration.isComplete, Flags.isBit_incomplete.has_union, h1]
        · simp [Declaration.isRemoved, Flags.isBit_removed.has_union, h2]
    · exact ⟨rfl, rfl, rfl, fun _ => rfl⟩

end Action

namespace Graph

theorem IsRooted.changed (hg : g.IsRooted) (a : Action) (ids : List DeclId) :
    (g.mapSlots (a.change ids)).IsRooted :=
  hg.mapSlots_of_keepsPlace (a.keepsPlace_change ids) fun _ s _ => a.kind_change ids s

end Graph

namespace Selector

theorem isUnique_of_kind {sel : Selector} (h : sel.kind = .namespace) : sel.isUnique := by
  cases sel with
  | member k _ _ => cases k <;> exact absurd h nofun
  | «namespace» _ => rfl
  | _ => exact absurd h nofun

theorem isParent_of_selects {sel : Selector} (h : sel.kind = .namespace)
    (hi : sel.Selects g scope i) : g.IsParent scope.unit i := by
  obtain ⟨s, -, -, hi⟩ := hi
  cases sel with
  | member k _ _ => cases k <;> exact absurd h nofun
  | «namespace» _ => exact hi.1
  | _ => exact absurd h nofun

theorem kind_ne_unit (sel : Selector) : sel.kind ≠ .unit := by
  cases sel with
  | member k _ _ => cases k <;> exact nofun
  | _ => exact nofun

end Selector

namespace Rule

theorem runs_mark (hg : w.graph.IsRooted) (hs : w.graph.get? x = some s) {f : Flags}
    {Q : Bool → Work → Prop} {E : PipelineError → Work → Prop}
    (h : Q (!s.flags.has f) { w with graph := w.graph.mapSlots (Slot.marked f [x]) }) :
    Runs (Step.changeWith (·.mark? x f)) w Q E :=
  runs_changeWith (f := fun g => g.mark? x f) (hg.mark?_eq hs f) h

/-- Marking and renaming. -/
theorem runs_perform (hg : w.graph.IsRooted) (hs : w.graph.get? x = some s) (ha : a ≠ .hoist)
    {Q : Bool → Work → Prop} {E : PipelineError → Work → Prop}
    (h : Q (a.alters s) { w with graph := w.graph.mapSlots (a.change [x]) }) :
    Runs (perform a x) w Q E := by
  cases a with
  | rename name =>
    exact runs_changeWith (f := fun g => g.rename? x name) (hg.rename?_eq hs name) h
  | hoist => exact absurd rfl ha
  | _ => exact runs_mark hg hs h

/-- Moving children below a declaration without a parent, one after the other. -/
theorem runs_reparent (hg : w.graph.IsForest) (hs : w.graph.get? space = some s)
    (ht : w.graph.get? unit = some t) (htp : t.parent = none) (body : DeclId → Step PUnit)
    (hbody : ∀ (v : Work) i, v.graph.IsForest → i < v.graph.size → unit < v.graph.size →
      ∀ {Q : PUnit → Work → Prop} {E : PipelineError → Work → Prop},
        (∀ log, Q () { v with graph := v.graph.mapSlots (Slot.moved [i] unit), log := log }) →
        Runs (body i) v Q E)
    {E : PipelineError → Work → Prop} :
    Runs (s.children.forM body) w
      (fun _ w' => w'.graph = w.graph.mapSlots (Slot.moved s.children unit) ∧
        w'.passes = w.passes) E := by
  have hnd := hg.nodup_children hs
  -- what is done so far has been moved all at once
  let I (done rest : List DeclId) (v : Work) : Prop := done ++ rest = s.children ∧
    v.graph = w.graph.mapSlots (Slot.moved done unit) ∧ v.passes = w.passes
  have hstep : ∀ done i rest v, I done (i :: rest) v →
      Runs (body i) v (fun _ v' => I (done ++ [i]) rest v') E := by
    rintro done i rest v ⟨hl, hv, hpass⟩
    have hchild : ∀ j ∈ s.children, w.graph.IsParent space j := fun j hj =>
      (hg.mem_children hs j).1 hj
    have hdone : ∀ j ∈ done, w.graph.IsParent space j := fun j hj =>
      hchild j (hl ▸ List.mem_append_left _ hj)
    have hi : w.graph.IsParent space i := hchild i (by simp [← hl])
    have hforest : v.graph.IsForest := by
      rw [hv]
      refine hg.moved (List.Nodup.sublist (List.sublist_append_left done _) (hl ▸ hnd))
        (fun j hj => (hdone j hj).lt_size) (Graph.lt_size_of_get? ht) fun j hj ha => ?_
      obtain rfl := ha.eq_of_parent_eq_none ht htp
      exact Graph.not_isParent_of_parent_eq_none ht htp (hdone j hj)
    have hsize : v.graph.size = w.graph.size := by rw [hv, Graph.size_mapSlots]
    have hdisj : List.Disjoint done [i] := by
      rw [← hl] at hnd
      rw [List.disjoint_singleton]
      intro hid
      exact (List.nodup_append.1 hnd).2.2 i hid i (by simp) rfl
    refine hbody v i hforest (hsize ▸ hi.lt_size) (hsize ▸ Graph.lt_size_of_get? ht)
      fun log => ⟨by simp [← hl], ?_, hpass⟩
    show v.graph.mapSlots _ = _
    rw [hv, Graph.mapSlots_mapSlots]
    exact congrArg _ (funext fun s => Slot.moved_moved unit hdisj s)
  refine (runs_forM I hstep s.children [] w ⟨rfl, ?_, rfl⟩).mono (fun _ w' h => ?_)
    fun _ _ he => he
  · rw [Graph.mapSlots_eq_self fun _ t _ => Slot.moved_nil unit t]
  · exact ⟨h.2.1, h.2.2⟩

/-- Hoisting a namespace: nothing is moved before its unit is known. -/
theorem runs_hoist (hg : w.graph.IsRooted) (hs : w.graph.get? space = some s)
    (hk : s.kind = .namespace) :
    Runs (hoist space) w
      (fun _ w' => ∃ unit t, w.graph.get? unit = some t ∧ t.kind = .unit ∧
        w.graph.IsAbove unit space ∧ w'.graph = w.graph.hoisted space unit ∧
        w'.passes = w.passes)
      fun _ w' => w'.graph = w.graph ∧ w'.passes = w.passes ∧ ¬ w.graph.IsLive space := by
  have hlt := Graph.lt_size_of_get? hs
  obtain ⟨o, ho, hsome, hnone⟩ := hg.exists_unitOf? hlt
  refine runs_bind (runs_read ho ?_)
  cases o with
  | none =>
    obtain ⟨n, hn⟩ := hg.exists_qualifiedName? hlt
    refine runs_bind (runs_read hn (runs_fail ⟨rfl, rfl, ?_⟩))
    rintro ⟨u, hu, ha⟩
    obtain ⟨v, hv, hvk⟩ := hg.kind_unit hu
    exact hnone rfl u v ha hv hvk
  | some unit =>
    obtain ⟨ha, t, ht, htk⟩ := hsome unit rfl
    refine runs_bind (runs_read ht (runs_bind (runs_read hs (runs_bind ?_))))
    refine (runs_reparent hg.toIsForest hs ht (hg.parent_unit ht htk) _
      fun v i hv hi hvu Q E hQ => ?_).mono (fun _ w' h => ?_) fun _ _ he => he
    · obtain ⟨n, hn⟩ := hv.exists_qualifiedName? hi
      obtain ⟨c, hc⟩ := Graph.exists_get?_of_lt hi
      refine runs_bind (runs_read hn (runs_bind (runs_log fun log => ?_)))
      exact runs_change (hv.reparent?_eq hc hvu) (hQ log)
    · obtain ⟨hw', hpass⟩ := h
      have hg' := hg.moved_children hs ht htk
      have hs' := Graph.get?_mapSlots_of_get? (Slot.moved s.children unit) hs
      have hnu : space ∉ (w.graph.mapSlots (Slot.moved s.children unit)).units := fun hm => by
        obtain ⟨v, hv, hvk⟩ := hg.kind_unit hm
        rw [Option.some.inj (hs.symm.trans hv), hvk] at hk
        exact absurd hk nofun
      refine runs_change (g := (w.graph.hoisted space unit)) ?_ ⟨unit, t, ht, htk, ha, rfl, hpass⟩
      rw [hw', hg'.remove?_eq hs' hnu, Graph.hoisted_eq hs]

/-- One application: refused for a declaration of another kind, otherwise done. -/
theorem runs_applyTo (hg : w.graph.IsRooted) (hs : w.graph.get? x = some s) (r : Rule)
    {Q : Bool → Work → Prop} {E : PipelineError → Work → Prop}
    (h : r.action.appliesTo s.kind → Runs (perform r.action x) w (fun b w' => ∀ log,
      Q b { w' with log := log }) E)
    (hE : r.action.appliesTo s.kind = false → ∀ e, E e w) : Runs (r.applyTo x) w Q E := by
  obtain ⟨n, hn⟩ := hg.exists_qualifiedName? (Graph.lt_size_of_get? hs)
  refine runs_bind (runs_read hs (runs_bind (runs_read hn (runs_ite (fun ha => ?_) fun ha => ?_))))
  · refine runs_bind ((h ha).mono (fun b w' hb => ?_) fun _ _ he => he)
    refine runs_ite (fun _ => ?_) fun _ => ?_
    · exact runs_bind (runs_log fun log => runs_pure (hb log))
    · exact runs_bind (runs_log fun log => runs_pure (hb log))
  · exact runs_fail (hE (by simpa using ha) _)

theorem runs_applyTo_counted (hg : w.graph.IsRooted) (hs : w.graph.get? x = some s) (r : Rule)
    (ha : r.action ≠ .hoist) (hk : r.action.appliesTo s.kind) {Q : Nat → Work → Prop}
    {E : PipelineError → Work → Prop} (h : ∀ log, Q (if r.action.alters s then 1 else 0)
      { w with graph := w.graph.mapSlots (r.action.change [x]), log := log }) :
    Runs (do return if ← r.applyTo x then 1 else 0) w Q E := by
  refine runs_bind (runs_applyTo hg hs r (fun _ => ?_) fun hf => ?_)
  · exact runs_perform hg hs ha fun log => runs_pure (h log)
  · rw [hk] at hf
    exact absurd hf nofun

/-- The first target is refused if the action is not for its kind. -/
theorem runs_sum_refused (hg : w.graph.IsRooted) (hs : w.graph.get? i = some s) (r : Rule)
    (hf : r.action.appliesTo s.kind = false) (ids : List DeclId) {Q : Nat → Work → Prop}
    {E : PipelineError → Work → Prop} (hE : ∀ e, E e w) :
    Runs (sum (fun i => do return if ← r.applyTo i then 1 else 0) (i :: ids)) w Q E := by
  refine runs_bind (runs_bind (runs_applyTo hg hs r (fun h => ?_) fun _ => hE))
  rw [hf] at h
  exact absurd h nofun

/-- Marking and renaming all targets. -/
theorem runs_sum_applyTo (hg : w.graph.IsRooted) (r : Rule) (ha : r.action ≠ .hoist)
    (hnd : ids.Nodup) (hk : ∀ i ∈ ids, ∃ s, w.graph.get? i = some s ∧
      r.action.appliesTo s.kind) {E : PipelineError → Work → Prop} :
    Runs (sum (fun i => do return if ← r.applyTo i then 1 else 0) ids) w
      (fun n w' => w'.graph = w.graph.mapSlots (r.action.change ids) ∧
        n = r.action.changes w.graph ids ∧ w'.passes = w.passes) E := by
  let I (done rest : List DeclId) (n : Nat) (v : Work) : Prop := done ++ rest = ids ∧
    v.graph = w.graph.mapSlots (r.action.change done) ∧
    n = r.action.changes w.graph done ∧ v.passes = w.passes
  have hstep : ∀ done i rest n v, I done (i :: rest) n v →
      Runs (do return if ← r.applyTo i then 1 else 0) v
        (fun m v' => I (done ++ [i]) rest (n + m) v') E := by
    rintro done i rest n v ⟨hl, hv, hn, hpass⟩
    obtain ⟨s, hs, hki⟩ := hk i (by simp [← hl])
    have hid := hg.id_eq hs
    have hsi : v.graph.get? i = some s := by
      rw [hv, Graph.get?_mapSlots_of_get? _ hs, r.action.change_of_notMem]
      rw [← hl] at hnd
      intro hm
      exact (List.nodup_append.1 hnd).2.2 i (hid ▸ hm) i (by simp) rfl
    have hvg : v.graph.IsRooted := hv ▸ hg.changed r.action done
    refine runs_applyTo_counted hvg hsi r ha hki fun log => ⟨by simp [← hl], ?_, ?_, hpass⟩
    · show v.graph.mapSlots _ = _
      rw [hv, Graph.mapSlots_mapSlots]
      exact congrArg _ (funext fun t => r.action.change_change done [i] t)
    · rw [hn, Action.changes, Action.changes, List.countP_append]
      simp [List.countP_cons, hs]
  refine (runs_sum I hstep ids [] 0 w ⟨rfl, ?_, rfl, rfl⟩).mono (fun n w' h => ?_)
    fun _ _ he => he
  · rw [r.action.change_nil, Graph.mapSlots_id]
  · obtain ⟨-, h1, h2, h3⟩ := h
    exact ⟨h1, by rwa [Nat.zero_add] at h2, h3⟩

/-- The rule finds something that its action is for, or nothing without failing. -/
def Accepts (r : Rule) (g : Graph) (scope : Scope) : Prop :=
  ∃ ids, (r.selector.resolve g scope).run = some (.ok ids) ∧
    (ids ≠ [] → r.action.appliesTo r.selector.kind)

/-- A rule that is not accepted fails before it changes anything; of one that is, it is enough to
know what it does to its targets. -/
theorem runs_apply_of_accepts (hg : w.graph.IsRooted) (hu : scope.unit < w.graph.size) (r : Rule)
    {Q : Nat → Work → Prop} {E : PipelineError → Work → Prop}
    (h : ∀ ids, (r.selector.resolve w.graph scope).run = some (.ok ids) → ids.Nodup →
      (∀ i, i ∈ ids ↔ r.selector.Selects w.graph scope i) →
      (r.selector.isUnique → ∃ i, ids = [i]) → (ids ≠ [] → r.action.appliesTo r.selector.kind) →
      Runs (sum (fun i => do return if ← r.applyTo i then 1 else 0) ids) w Q E)
    (hE : ¬ r.Accepts w.graph scope → ∀ e, E e w) : Runs (r.apply scope) w Q E := by
  obtain ⟨res, hres, hfinds, -⟩ := hg.resolve_spec hu r.selector
  refine runs_bind (runs_look hres (fun ids hids => ?_) fun e he => hE ?_ e)
  · subst hids
    obtain ⟨hnd, hmem, huniq⟩ := hfinds ids rfl
    by_cases happ : ids ≠ [] → r.action.appliesTo r.selector.kind
    · exact h ids hres hnd hmem huniq happ
    · have hnot : ¬ r.Accepts w.graph scope := by
        rintro ⟨ids', hids', happ'⟩
        obtain rfl := Except.ok.inj (Option.some.inj (hres.symm.trans hids'))
        exact happ happ'
      obtain ⟨hne, hkind⟩ := Classical.not_imp.1 happ
      obtain ⟨i, rest, rfl⟩ := List.exists_cons_of_ne_nil hne
      obtain ⟨s, hs, hk, -⟩ := (hmem i).1 List.mem_cons_self
      exact runs_sum_refused hg hs r (hk ▸ Bool.eq_false_iff.2 hkind) rest (hE hnot)
  · rintro ⟨ids, hids, -⟩
    rw [he] at hres
    exact absurd (Option.some.inj (hres.symm.trans hids)) nofun

/-- A rule either fails and changes nothing, or does its action to what its selector selects. -/
theorem runs_apply (hg : w.graph.IsRooted) (hu : scope.unit < w.graph.size) (r : Rule) :
    Runs (r.apply scope) w
      (fun n w' => ∃ (ids : List DeclId) (unit : DeclId), ids.Nodup ∧
        (∀ i, i ∈ ids ↔ r.selector.Selects w.graph scope i) ∧
        (r.selector.isUnique → ∃ i, ids = [i]) ∧
        (ids ≠ [] → r.action.appliesTo r.selector.kind) ∧
        (r.action = .hoist → ids ≠ [] → w.graph.IsAbove unit scope.unit ∧
          ∃ t, w.graph.get? unit = some t ∧ t.kind = .unit) ∧
        w'.graph = r.action.applied unit w.graph ids ∧
        n = r.action.changes w.graph ids ∧ w'.passes = w.passes)
      fun _ w' => w'.graph = w.graph ∧ w'.passes = w.passes := by
  refine runs_apply_of_accepts hg hu r (fun ids _ hnd hmem huniq happ => ?_) fun _ _ => ⟨rfl, rfl⟩
  by_cases hids : ids = []
  · subst hids
    exact runs_pure ⟨[], 0, hnd, hmem, huniq, happ, fun _ h => absurd rfl h,
      (r.action.applied_nil _ _).symm, rfl, rfl⟩
  have hap := happ hids
  by_cases ha : r.action = .hoist
  · have hns : r.selector.kind = .namespace :=
      Action.eq_of_requiredKind? (by rw [ha]; rfl) hap
    obtain ⟨space, rfl⟩ : ∃ space, ids = [space] := huniq (Selector.isUnique_of_kind hns)
    have hselects := (hmem space).1 (List.mem_singleton_self space)
    have hp : w.graph.IsParent scope.unit space := Selector.isParent_of_selects hns hselects
    obtain ⟨s, hs, hk, -⟩ := hselects
    refine runs_bind (runs_bind (runs_applyTo hg hs r (fun _ => ?_) fun hf => ?_))
    · rw [ha]
      refine runs_bind ((runs_hoist hg hs (hk.trans hns)).mono (fun _ w' h => ?_)
        fun _ _ h => ⟨h.1, h.2.1⟩)
      obtain ⟨unit, t, ht, htk, hunit, hw', hpass⟩ := h
      refine runs_pure fun log => runs_pure (runs_pure ⟨[space], unit, hnd, hmem, huniq,
        fun _ => ha ▸ hap, fun _ _ => ⟨?_, t, ht, htk⟩, hw', ?_, hpass⟩)
      · rcases ReflTransGen.cases_tail hunit with rfl | ⟨q, huq, hq⟩
        · rw [Option.some.inj (ht.symm.trans hs), hk, hns] at htk
          exact absurd htk nofun
        · exact hq.unique hp ▸ huq
      · simp [Action.changes, Action.alters, hs]
    · rw [hk, hap] at hf
      exact absurd hf nofun
  · refine (runs_sum_applyTo hg r ha hnd fun i hi => ?_).mono (fun n w' h => ?_) fun _ _ he => he
    · obtain ⟨s, hs, hk, -⟩ := (hmem i).1 hi
      exact ⟨s, hs, hk ▸ hap⟩
    · exact ⟨ids, 0, hnd, hmem, huniq, happ, fun h => absurd h ha,
        (r.action.applied_of_ne_hoist ha _ _ _).symm ▸ h.1, h.2⟩

/-- With a listed unit as its scope, a rule hoists onto that unit. -/
theorem runs_apply_of_mem_units (hg : w.graph.IsRooted) (hu : scope.unit ∈ w.graph.units)
    (r : Rule) :
    Runs (r.apply scope) w
      (fun n w' => ∃ ids : List DeclId, ids.Nodup ∧
        (∀ i, i ∈ ids ↔ r.selector.Selects w.graph scope i) ∧
        (r.selector.isUnique → ∃ i, ids = [i]) ∧
        (ids ≠ [] → r.action.appliesTo r.selector.kind) ∧
        w'.graph = r.action.applied scope.unit w.graph ids ∧
        n = r.action.changes w.graph ids ∧ w'.passes = w.passes)
      fun _ w' => w'.graph = w.graph ∧ w'.passes = w.passes := by
  refine (runs_apply hg (hg.unit_lt hu) r).mono (fun n w' h => ?_) fun _ _ he => he
  obtain ⟨ids, unit, hnd, hmem, huniq, happ, hunit, hw', hn, hpass⟩ := h
  refine ⟨ids, hnd, hmem, huniq, happ, ?_, hn, hpass⟩
  rw [hw']
  by_cases ha : r.action = .hoist
  · by_cases hids : ids = []
    · rw [hids, Action.applied_nil, Action.applied_nil]
    · rw [hg.eq_of_isAbove_mem_units hu (hunit ha hids).1]
  · rw [Action.applied_of_ne_hoist ha, Action.applied_of_ne_hoist ha]

end Rule

end Bindery
