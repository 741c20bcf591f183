import Bindery.Pipeline.Tables
import Bindery.Proofs.Pipeline.Marking
import Bindery.Proofs.Pipeline.Trim

/-!
# Marks of enumerations after trimming

The rules for enumerations look at names, and trimming changes names. As it only drops the front of
an item's name, what such a rule finds after it was found before it, so the marks are there already:
running the rules again does nothing. The rules find their targets without a scope.
-/

namespace Bindery

open Step Lookup

variable {g h : Graph} {i : DeclId} {s t : Slot} {w : Work} {scope : Scope} {r : Rule}
  {rules : List Rule} {es xs : List DeclId} {name : DeclId → String}

namespace Step

variable {β : Type} {f f' : β → Step Nat} {l : List β}

theorem sum_congr (h : ∀ x ∈ l, f x = f' x) : sum f l = sum f' l := by
  induction l with
  | nil => rfl
  | cons x l ih =>
    rw [sum, sum, h x List.mem_cons_self, ih fun y hy => h y (List.mem_cons_of_mem x hy)]

theorem sum_eq_zero (h : ∀ x ∈ l, f x w = some (.ok 0, w)) : sum f l w = some (.ok 0, w) := by
  induction l with
  | nil => rfl
  | cons x l ih =>
    show Step.bind (f x) _ w = _
    rw [Step.bind, h x List.mem_cons_self]
    show Step.bind (sum f l) _ w = _
    rw [Step.bind, ih fun y hy => h y (List.mem_cons_of_mem x hy)]
    rfl

end Step

/-! ### Tables without a scope -/

namespace Rule

/-- A rule that marks all live declarations of a form. -/
structure MarksLiveSet (r : Rule) : Prop where
  isLiveSet : r.selector.isLiveSet
  marks : r.action.flag?.isSome
  applies : r.action.appliesTo r.selector.kind

namespace MarksLiveSet

theorem isGraphWide (hr : r.MarksLiveSet) : r.selector.isGraphWide :=
  Selector.isGraphWide_of_isLiveSet hr.isLiveSet

theorem resolves (hr : r.MarksLiveSet) (hg : g.IsRooted) (scope : Scope) :
    (r.selector.resolve g scope).run = some (.ok (r.targets g scope)) ∧
      ∀ i, i ∈ r.targets g scope ↔ r.selector.Selects g scope i := by
  obtain ⟨res, hres, hok, herr⟩ := hg.resolve_spec_of_isLiveSet hr.isLiveSet scope
  cases res with
  | error e => exact (herr e rfl).elim
  | ok ids =>
    have htargets : r.targets g scope = ids := by rw [targets, hres]
    exact ⟨htargets.symm ▸ hres, htargets.symm ▸ (hok ids rfl).2⟩

theorem accepts (hr : r.MarksLiveSet) (hg : g.IsRooted) (scope : Scope) : r.Accepts g scope :=
  ⟨_, (hr.resolves hg scope).1, fun _ => hr.applies⟩

theorem mark_eq (hr : r.MarksLiveSet) (g : Graph) (scope scope' : Scope) :
    r.mark g scope = r.mark g scope' := by
  funext i
  rw [mark, mark, targets, targets,
    Selector.resolve_eq_of_isGraphWide hr.isGraphWide g scope scope']

theorem apply_eq (hr : r.MarksLiveSet) (scope scope' : Scope) : r.apply scope = r.apply scope' := by
  unfold apply
  simp only [Selector.resolve_eq_of_isGraphWide hr.isGraphWide _ scope scope']

/-- Without declarations there is nothing to mark. -/
theorem apply_of_size_eq_zero (hr : r.MarksLiveSet) (hg : w.graph.IsRooted)
    (hw : w.graph.size = 0) (scope : Scope) : r.apply scope w = some (.ok 0, w) := by
  obtain ⟨hres, hmem⟩ := hr.resolves hg scope
  have hnil : r.targets w.graph scope = [] := by
    refine List.eq_nil_iff_forall_not_mem.2 fun i hi => ?_
    obtain ⟨s, hs, -⟩ := (hmem i).1 hi
    exact absurd (Graph.lt_size_of_get? hs) (hw ▸ Nat.not_lt_zero i)
  rw [hnil] at hres
  show Step.bind (Step.look _) _ w = _
  rw [Step.bind, Step.look, hres]
  rfl

end MarksLiveSet

/-- A table of such rules succeeds for any scope. -/
theorem exists_marked_of_marksLiveSet (hg : w.graph.IsRooted) (hr : ∀ r ∈ rules, r.MarksLiveSet)
    (scope : Scope) : ∃ w', sum (·.apply scope) rules w = some (.ok (w.graph.added w'.graph), w') ∧
      w'.graph = w.graph.flagged (marks rules w.graph scope) := by
  rcases Nat.eq_zero_or_pos w.graph.size with hw | hw
  · have hgraph : w.graph.flagged (marks rules w.graph scope) = w.graph :=
      Graph.mapSlots_eq_self fun i s hs =>
        absurd (Graph.lt_size_of_get? hs) (hw ▸ Nat.not_lt_zero i)
    refine ⟨w, ?_, hgraph.symm⟩
    rw [Graph.added_self]
    exact sum_eq_zero fun r hm => (hr r hm).apply_of_size_eq_zero hg hw scope
  · have hfits : (⟨0⟩ : Scope).Fits w.graph := ⟨hg, hw⟩
    obtain ⟨w', hw', hgraph⟩ := exists_marked hfits (fun r hm => (hr r hm).marks)
      fun r hm => (hr r hm).accepts hg _
    have hmarks : marks rules w.graph ⟨0⟩ = marks rules w.graph scope := funext fun i =>
      List.foldl_ext _ _ _ fun f r hm => by rw [(hr r hm).mark_eq w.graph ⟨0⟩ scope]
    rw [sum_congr fun r hm => (hr r hm).apply_eq scope ⟨0⟩]
    exact ⟨w', hw', hmarks ▸ hgraph⟩

theorem MarksLiveSet.mark_of_selects (hr : r.MarksLiveSet) (hg : g.IsRooted)
    (hsel : r.selector.Selects g scope i) : r.mark g scope i = r.action.flag?.getD .none :=
  if_pos (((hr.resolves hg scope).2 i).2 hsel)

theorem MarksLiveSet.mark_of_not_selects (hr : r.MarksLiveSet) (hg : g.IsRooted)
    (hsel : ¬ r.selector.Selects g scope i) : r.mark g scope i = .none :=
  if_neg fun hi => hsel (((hr.resolves hg scope).2 i).1 hi)

end Rule

theorem Tables.marksLiveSet_of_mem (hr : r ∈ Tables.enumerations) : r.MarksLiveSet := by
  simp only [Tables.enumerations, List.mem_append, List.mem_map, List.mem_cons, List.not_mem_nil,
    or_false] at hr
  obtain ⟨suffix, -, rfl⟩ | rfl | rfl := hr
  all_goals exact ⟨rfl, rfl, rfl⟩

/-! ### Shorter names -/

namespace Graph

/-- A change that leaves every declaration where it is, and its name but for the front of an item's
name. -/
structure Shortens (g : Graph) (f : Slot → Slot) : Prop where
  place : Slot.KeepsPlace f
  kind : ∀ s, (f s).kind = s.kind
  name_suffix : ∀ {i s}, g.get? i = some s → (f s).name.toList <:+ s.name.toList
  name_eq : ∀ {i s}, g.get? i = some s → s.kind ≠ .item → (f s).name = s.name

theorem TrimsIn.name_suffix (h : g.TrimsIn es xs name) (hg : g.IsNumbered)
    (hs : g.get? i = some s) : (s.calledIn xs name).name.toList <:+ s.name.toList := by
  rw [Slot.name_calledIn]
  split
  · next hx =>
    obtain ⟨e, -, t, u, -, -, hid, hu, hr, -⟩ := h.rest s.id hx
    obtain rfl := hg.eq_of_id hs (hg i s hs ▸ hid ▸ hu.get?) (hid.trans (hg i s hs))
    exact ⟨_, (Trim.rest?_eq_some_iff.1 hr.2).1.symm⟩
  · exact List.suffix_rfl

theorem TrimsIn.calledIn_of_kind_ne (h : g.TrimsIn es xs name) (hg : g.IsNumbered)
    (hs : g.get? i = some s) (hk : s.kind ≠ .item) : s.calledIn xs name = s := by
  refine if_neg fun hx => hk ?_
  obtain ⟨t, ht, htk, -⟩ := h.item s.id hx
  rw [hg i s hs, hs] at ht
  rwa [Option.some.inj ht]

/-- Trimming after marking. -/
theorem TrimsIn.shortens_flagged {m : DeclId → Flags} (h : (g.flagged m).TrimsIn es xs name)
    (hg : g.IsNumbered) : g.Shortens fun s => (s.flagged m).calledIn xs name where
  place s := keepsPlace_calledIn xs name (s.flagged m)
  kind s := Slot.kind_calledIn xs name (s.flagged m)
  name_suffix hs := h.name_suffix (hg.mapSlots fun _ => rfl) (get?_mapSlots_of_get? _ hs)
  name_eq hs hk := by
    rw [h.calledIn_of_kind_ne (hg.mapSlots fun _ => rfl) (get?_mapSlots_of_get? _ hs) hk]
    rfl

end Graph

namespace Slot

/-- A name costs no flag. -/
theorem has_calledIn {f : Flags} (h : s.flags.has f) : (s.calledIn xs name).flags.has f := by
  unfold calledIn
  split
  · exact Flags.has_union_of_has _ h
  · exact h

theorem isIgnored_calledIn : (s.calledIn xs name).isIgnored = s.isIgnored := by
  have hbit : Flags.renamed.has .ignored = false := by decide
  unfold calledIn
  split
  · rw [Declaration.isIgnored, Declaration.called, Flags.isBit_ignored.has_union, hbit,
      Bool.or_false]
    rfl
  · rfl

theorem flagged_eq_self {m : DeclId → Flags} (h : s.flags.has (m s.id)) : s.flagged m = s := by
  unfold flagged
  rw [Flags.union_eq_left h]

theorem isIgnored_flagged (m : DeclId → Flags) (s : Slot) :
    (s.flagged m).isIgnored = (s.isIgnored || (m s.id).has .ignored) :=
  Flags.isBit_ignored.has_union _ _

end Slot

/-! ### Enumerations -/

/-- Whether the name marks the bounds or the size of a range, and is no value's. -/
def IsSentinel (name : String) : Prop :=
  ∃ suffix ∈ ["_BEGIN", "_END", "_COUNT", "_SIZE", "_OFFSET"], suffix.toList <:+ name.toList

namespace Tables

theorem cases_of_mem (hr : r ∈ enumerations) :
    (∃ suffix ∈ sentinelSuffixes, r = ⟨.itemsWithSuffix suffix, .ignore, "sentinel"⟩) ∨
      r.selector.kind = .enumeration := by
  simp only [enumerations, List.mem_append, List.mem_map, List.mem_cons, List.not_mem_nil,
    or_false] at hr
  obtain ⟨suffix, hs, rfl⟩ | rfl | rfl := hr
  · exact .inl ⟨suffix, hs, rfl⟩
  · exact .inr rfl
  · exact .inr rfl

/-- The rules for enumerations ignore just the items that are sentinels. -/
theorem ignored_marks (hg : g.IsRooted) (hs : g.get? i = some s) (hk : s.kind = .item)
    (hl : g.IsLive i) (scope : Scope) :
    (Rule.marks enumerations g scope i).has .ignored ↔ IsSentinel s.name := by
  rw [Rule.has_marks Flags.isBit_ignored, List.any_eq_true]
  constructor
  · rintro ⟨r, hr, hmark⟩
    by_cases hsel : r.selector.Selects g scope i
    · rcases cases_of_mem hr with ⟨suffix, hsuffix, rfl⟩ | hkind
      · obtain ⟨t, ht, -, -, hend⟩ := hsel
        obtain rfl := Option.some.inj (hs.symm.trans ht)
        exact ⟨suffix, hsuffix, List.isSuffixOf_iff_suffix.1 hend⟩
      · obtain ⟨t, ht, htk, -⟩ := hsel
        obtain rfl := Option.some.inj (hs.symm.trans ht)
        exact absurd (hk.symm.trans (htk.trans hkind)) nofun
    · rw [(marksLiveSet_of_mem hr).mark_of_not_selects hg hsel,
        Flags.isBit_ignored.has_none] at hmark
      exact absurd hmark Bool.false_ne_true
  · rintro ⟨suffix, hsuffix, hend⟩
    have hr : ⟨.itemsWithSuffix suffix, .ignore, "sentinel"⟩ ∈ enumerations :=
      List.mem_append_left _ (List.mem_map_of_mem hsuffix)
    refine ⟨_, hr, ?_⟩
    rw [(marksLiveSet_of_mem hr).mark_of_selects hg
      ⟨s, hs, hk, hl, List.isSuffixOf_iff_suffix.2 hend⟩]
    exact Flags.has_self _

/-- What a rule for enumerations finds where names of items have lost their fronts, it finds with
the whole names too. -/
theorem selects_of_shortens {f : Slot → Slot} (hr : r ∈ enumerations) (hf : g.Shortens f)
    (hsel : r.selector.Selects (g.mapSlots f) scope i) : r.selector.Selects g scope i := by
  simp only [enumerations, List.mem_append, List.mem_map, List.mem_cons, List.not_mem_nil,
    or_false] at hr
  obtain ⟨suffix, -, rfl⟩ | rfl | rfl := hr
  all_goals
    obtain ⟨t, ht, htk, hl, hend⟩ := hsel
    obtain ⟨s, hs, rfl⟩ := Graph.get?_mapSlots_eq_some ht
    rw [hf.kind] at htk
    rw [Graph.isLive_mapSlots_of_keepsPlace hf.place] at hl
  · refine ⟨s, hs, htk, hl, List.isSuffixOf_iff_suffix.2 ?_⟩
    exact (List.isSuffixOf_iff_suffix.1 hend).trans (hf.name_suffix hs)
  all_goals
    rw [hf.name_eq hs fun h => absurd (htk.symm.trans h) nofun] at hend
    exact ⟨s, hs, htk, hl, hend⟩

/-- If the marks are there and names of items lose their fronts, the same marks add nothing. -/
theorem flagged_of_shortens {f : Slot → Slot} (hg : g.IsRooted) (hh : (g.mapSlots f).IsRooted)
    (hf : g.Shortens f) (hflags : ∀ i s, g.get? i = some s →
      (f s).flags.has (Rule.marks enumerations g scope i)) :
    (g.mapSlots f).flagged (Rule.marks enumerations (g.mapSlots f) scope) = g.mapSlots f := by
  refine Graph.mapSlots_eq_self fun i t ht => ?_
  refine Slot.flagged_eq_self ?_
  rw [hh.id_eq ht]
  obtain ⟨s, hs, rfl⟩ := Graph.get?_mapSlots_eq_some ht
  refine Rule.has_marks_iff.2 fun r hr => ?_
  have hwide := marksLiveSet_of_mem hr
  by_cases hsel : r.selector.Selects (g.mapSlots f) scope i
  · rw [hwide.mark_of_selects hh hsel, ← hwide.mark_of_selects hg (selects_of_shortens hr hf hsel)]
    exact Flags.has_trans (hflags i s hs) (Rule.has_mark_of_mem hr)
  · rw [hwide.mark_of_not_selects hh hsel]
    exact Flags.has_none _

end Tables

namespace Pass

/-- Once the rules for enumerations were run and names were trimmed, no item that is left over is a
sentinel, the ignored items are those that were ignored before or sentinels, and running the rules
again changes nothing. -/
theorem enumerations_settled (hg : w.graph.IsRooted) (scope : Scope) (name : String)
    (phase : Phase) : ∃ n w₁ m w₂ w₃,
      (table name phase Tables.enumerations).run scope w = some (.ok n, w₁) ∧
      trim.run scope w₁ = some (.ok m, w₂) ∧
      (∀ i t, w₂.graph.get? i = some t → w₂.graph.IsLive i → t.kind = .item →
        (t.isIgnored = false → ¬ IsSentinel t.name) ∧
        ∃ s, w.graph.get? i = some s ∧ (t.isIgnored ↔ s.isIgnored ∨ IsSentinel s.name)) ∧
      (table name phase Tables.enumerations).run scope w₂ = some (.ok 0, w₃) ∧
      w₃.graph = w₂.graph := by
  obtain ⟨w₁, hw₁, hg₁⟩ := Rule.exists_marked_of_marksLiveSet hg
    (fun r hr => Tables.marksLiveSet_of_mem hr) scope
  have hroot₁ : w₁.graph.IsRooted := hg₁ ▸ hg.flagged _
  obtain ⟨res, w₂, hw₂, hok, herr⟩ := runs_iff.1
    (Trim.runs_run_named (E := fun _ _ => False) hroot₁)
  obtain ⟨m, rfl⟩ : ∃ m, res = .ok m := by
    cases res with
    | error e => exact (herr e rfl).elim
    | ok m => exact ⟨m, rfl⟩
  obtain ⟨es, xs, call, -, hxs, hg₂, -, -⟩ := hok m rfl
  have hroot₂ : w₂.graph.IsRooted := hg₂ ▸ hroot₁.calledIn xs call
  obtain ⟨w₃, hw₃, hg₃⟩ := Rule.exists_marked_of_marksLiveSet hroot₂
    (fun r hr => Tables.marksLiveSet_of_mem hr) scope
  -- both steps together, for every slot of the first graph
  set M := Rule.marks Tables.enumerations w.graph scope with hM
  let f (s : Slot) : Slot := (s.flagged M).calledIn xs call
  have hgraph : w₂.graph = w.graph.mapSlots f := by
    rw [hg₂, hg₁, Graph.flagged, Graph.mapSlots_mapSlots]
  have hf : w.graph.Shortens f := (hg₁ ▸ hxs).shortens_flagged hg.isNumbered
  have hsame : w₃.graph = w₂.graph := by
    rw [hg₃, hgraph]
    refine Tables.flagged_of_shortens hg (hgraph ▸ hroot₂) hf fun i s hs => ?_
    rw [← hg.id_eq hs]
    exact Slot.has_calledIn (Flags.has_union_right s.flags (M s.id))
  refine ⟨_, w₁, m, w₂, w₃, hw₁, hw₂, fun i t ht hl hk => ?_, ?_, hsame⟩
  · rw [hgraph] at ht hl
    obtain ⟨s, hs, rfl⟩ := Graph.get?_mapSlots_eq_some ht
    rw [hf.kind] at hk
    rw [Graph.isLive_mapSlots_of_keepsPlace hf.place] at hl
    have hiff : (f s).isIgnored ↔ s.isIgnored ∨ IsSentinel s.name := by
      rw [Slot.isIgnored_calledIn, Slot.isIgnored_flagged, Bool.or_eq_true, hg.id_eq hs, hM,
        Tables.ignored_marks hg hs hk hl scope]
    refine ⟨fun hnot hsent => ?_, s, hs, hiff⟩
    obtain ⟨suffix, hm, hend⟩ := hsent
    rw [hiff.2 (.inr ⟨suffix, hm, hend.trans (hf.name_suffix hs)⟩)] at hnot
    exact Bool.false_ne_true hnot.symm
  · rw [hsame, Graph.added_self] at hw₃
    exact hw₃

/-- Without its front an item would be no sentinel any more; it is ignored before that. -/
theorem enumerations_settled_overlap : ∃ g,
    Graph.ofText "dump" "unit \"a\" \x7b enum E_ \x7b E_END, E_A, E_A_SIZE \x7d \x7d" = .ok g ∧
    ∃ w₁ w₂ w₃, (table "enumerations" .postprocess Tables.enumerations).run ⟨0⟩ { graph := g } =
        some (.ok 2, w₁) ∧
      trim.run ⟨0⟩ w₁ = some (.ok 1, w₂) ∧
      w₂.graph.slots.toList.map (fun s => (s.name, s.isIgnored)) =
        [("a", false), ("E_", false), ("E_END", true), ("A", false), ("E_A_SIZE", true)] ∧
      (table "enumerations" .postprocess Tables.enumerations).run ⟨0⟩ w₂ = some (.ok 0, w₃) ∧
      w₃.graph = w₂.graph := by
  refine Graph.exists_ofText (P := fun g => decide
    (((table "enumerations" .postprocess Tables.enumerations).run ⟨0⟩ { graph := g }).bind
      (fun r => (trim.run ⟨0⟩ r.2).map fun q => (r.1.toOption, q.1.toOption,
        q.2.graph.slots.toList.map fun s => (s.name, s.isIgnored))) =
      some (some 2, some 1,
        [("a", false), ("E_", false), ("E_END", true), ("A", false), ("E_A_SIZE", true)])))
    (by decide +kernel) fun g hg h => ?_
  obtain ⟨n, w₁, m, w₂, w₃, hw₁, hw₂, -, hw₃, hsame⟩ := @enumerations_settled { graph := g }
    (Graph.isLoaded_ofText hg).toWellFormed.isRooted ⟨0⟩ "enumerations" .postprocess
  replace h := of_decide_eq_true h
  rw [hw₁, Option.bind_some, hw₂, Option.map_some, Option.some.injEq, Prod.mk.injEq,
    Prod.mk.injEq] at h
  obtain ⟨hn, hm, hnames⟩ := h
  obtain rfl : n = 2 := Option.some.inj hn
  obtain rfl : m = 1 := Option.some.inj hm
  exact ⟨w₁, w₂, w₃, hw₁, hw₂, hnames, hw₃, hsame⟩

end Pass

end Bindery
