import Bindery.Proofs.Pipeline.Renaming
import Bindery.Proofs.Pipeline.Report
import Bindery.Proofs.Pipeline.Standard
import Bindery.Proofs.Summary

/-!
# The books of the standard pipeline

The numbers in the report of a standard run are those of the lists in its summary and of the flags
and names in its graph. `PassAt` lemmas say what the number of a pass is, by what its rules do and
by what the rules before and after it leave alone.
-/

namespace Bindery

open Move Bindery.Graph

variable {scope : Scope} {g h : Graph} {front mid back : List Move} {n : Nat} {f f' : Flags}
  {r : Rule} {rs : List Rule} {names : List String} {i : DeclId} {s t : Slot}

namespace Graph.IsLoaded

variable (hg : g.IsLoaded)
include hg

theorem bearers_eq_empty (hf : f ∈ [Flags.ignored, .valueType, .readOnly, .removed, .renamed]) :
    g.bearers f = ∅ := by
  refine Finset.eq_empty_of_forall_notMem fun i hi => ?_
  obtain ⟨s, hs, hm⟩ := mem_slotsWhere.1 hi
  exact absurd hm (by simp [(hg.fresh hs).unmarked f hf])

theorem renamesAliases (names : List String) : g.RenamesAliases names := by
  intro i s hs hi
  rw [(hg.fresh hs).initialName] at hi
  exact absurd hi nofun

theorem renamed_eq_empty (k : Kind) : g.renamed k = ∅ := by
  refine Finset.eq_empty_of_forall_notMem fun i hi => ?_
  obtain ⟨s, hs, hm⟩ := mem_slotsWhere.1 hi
  simp [(hg.fresh hs).initialName] at hm

end Graph.IsLoaded

/-! ### One pass of a run -/

namespace PassAt

theorem isAlias_of_renamesOnly (hren : ∀ r ∈ rules front ++ (rs ++ rules back), r.renamesOnly names)
    (r : Rule) (name : String) (hm : .rule r ∈ front ++ (rs.map .rule ++ back))
    (ha : r.action = .rename name) : r.selector.kind = .alias := by
  rw [← mem_rules, rules_append, rules_append, rules_map_rule] at hm
  exact (Rule.renamesOnly_iff.1 (hren r hm) name ha).1

theorem eq_one (hat : PassAt scope g front [.rule r] back n h) (hu : r.selector.isUnique)
    (ha : r.action = .hoist) : n = 1 := by
  obtain ⟨hready, k, k', n₁, ns, n₂, t₁, t, -, rfl⟩ := hat
  obtain ⟨m, rfl, hd⟩ := t.exists_does (t₁.ready hready)
  rw [List.sum_singleton, hd.eq_one_of_hoist hu ha]

/-- The number of a pass that alone sets a flag. -/
theorem card_bearers (hat : PassAt scope g front (rs.map .rule) back n h) (hf : f.IsMark)
    (hrs : ∀ r ∈ rs, r.action.flag? = some f) (hfront : ∀ r ∈ rules front, r.action.sets f = false)
    (hback : ∀ r ∈ rules back, r.action.sets f = false) :
    (h.bearers f).card = (g.bearers f).card + n := by
  obtain ⟨hready, k, k', n₁, ns, n₂, t₁, t, t₂, rfl⟩ := hat
  have hk := t₁.ready hready
  have hmarks := t.marks_eq (F := {f}) hk (by simpa using hf) fun r hr => by simp [hrs r hr]
  rw [marks, marks, Finset.sum_singleton, Finset.sum_singleton] at hmarks
  rw [t₂.bearers_eq (t.ready hk) hf fun r hr => hback r (mem_rules.2 hr), hmarks,
    t₁.bearers_eq hready hf fun r hr => hfront r (mem_rules.2 hr)]

/-- If all rules up to a pass that set its flag are for different declarations, each of its own
rules finds one that does not bear it. -/
theorem eq_length (hat : PassAt scope g front (rs.map .rule) back n h) (hg : g.IsLoaded)
    (hf : f.IsMark) (hnone : g.bearers f = ∅) (htrim : .trim ∉ front)
    (hren : ∀ r ∈ rules front ++ (rs ++ rules back), r.renamesOnly names)
    (hrs : ∀ r ∈ rs, r.action.flag? = some f) (hapart : Rule.Apart (markers f front ++ rs)) :
    n = rs.length := by
  obtain ⟨hready, k, k', n₁, ns, n₂, t₁, t, t₂, rfl⟩ := hat
  have hk := t₁.ready hready
  have hren' := isAlias_of_renamesOnly hren
  have hmark : markers f (front ++ rs.map .rule) = markers f front ++ rs := by
    rw [markers_append, markers_map_rule fun r hr => (Action.sets_iff hf.isBit).2 (hrs r hr)]
  have hbefore := t₁.card_bearers_eq (t.append t₂) hg (by simpa using hready) hren' htrim hf hnone
    ⟨fun r hr => hapart.one r (List.mem_append_left _ hr), by
      have := hapart.nodup
      rw [List.map_append] at this
      exact (List.nodup_append.1 this).1⟩
  have hafter := (t₁.append t).card_bearers_eq t₂ hg (by simpa using hready)
    (by simpa using hren') (by simpa using htrim) hf hnone (hmark ▸ hapart)
  have hmarks := t.marks_eq (F := {f}) hk (by simpa using hf) fun r hr => by simp [hrs r hr]
  rw [marks, marks, Finset.sum_singleton, Finset.sum_singleton, hafter, hbefore, hmark,
    List.length_append] at hmarks
  omega

/-- The number of a pass that sets two flags, the first of which was set by rules for different
declarations before. -/
theorem card_bearers_add (hat : PassAt scope g front (rs.map .rule) back n h) (hg : g.IsLoaded)
    (hf : f.IsMark) (hf' : f'.IsMark) (hne : f ≠ f') (hnone : g.bearers f = ∅)
    (htrim : .trim ∉ front)
    (hren : ∀ r ∈ rules front ++ (rs ++ rules back), r.renamesOnly names)
    (hrs : ∀ r ∈ rs, r.action.flag? = some f ∨ r.action.flag? = some f')
    (hfront : ∀ r ∈ rules front, r.action.sets f' = false)
    (hback : ∀ r ∈ rules back, r.action.sets f = false ∧ r.action.sets f' = false)
    (hapart : Rule.Apart (markers f front)) : (h.bearers f).card + (h.bearers f').card =
      (markers f front).length + n + (g.bearers f').card := by
  obtain ⟨hready, k, k', n₁, ns, n₂, t₁, t, t₂, rfl⟩ := hat
  have hk := t₁.ready hready
  have hren' := isAlias_of_renamesOnly hren
  have hbefore := t₁.card_bearers_eq (t.append t₂) hg (by simpa using hready) hren' htrim hf hnone
    hapart
  have hmarks := t.marks_eq (F := {f, f'}) hk (by simpa using ⟨hf, hf'⟩) fun r hr => by
    rcases hrs r hr with ha | ha <;> simp [ha]
  rw [marks, marks, Finset.sum_pair hne, Finset.sum_pair hne, hbefore,
    t₁.bearers_eq hready hf' fun r hr => hfront r (mem_rules.2 hr)] at hmarks
  rw [t₂.bearers_eq (t.ready hk) hf fun r hr => (hback r (mem_rules.2 hr)).1,
    t₂.bearers_eq (t.ready hk) hf' fun r hr => (hback r (mem_rules.2 hr)).2]
  omega

/-- The number of a pass that gives names to typedefs and hoists a namespace. -/
theorem card_renamed (hat : PassAt scope g front ((rs ++ [r]).map .rule) back n h)
    (hg : g.IsLoaded) (htrim : .trim ∉ front) (hrs : ∀ r ∈ rs, r.NamesAlias names)
    (hu : r.selector.isUnique) (ha : r.action = .hoist)
    (hfront : ∀ r ∈ rules front, r.renamesOnly []) (hback : ∀ r ∈ rules back, r.renamesOnly []) :
    n = rs.length + 1 ∧ (h.renamed .alias).card = rs.length := by
  obtain ⟨hready, k, k', n₁, ns, n₂, t₁, t, t₂, rfl⟩ := hat
  have hno : ∀ {r : Rule} {name}, r.renamesOnly [] → r.action = .rename name →
      r.selector.kind ≠ .alias := fun hr ha =>
    absurd (Rule.renamesOnly_iff.1 hr _ ha).2 List.not_mem_nil
  have hk := t₁.ready hready
  have hk' := t.ready hk
  rw [List.map_append] at t hk
  obtain ⟨l, m₁, m₂, rfl, e₁, e₂⟩ := t.of_append
  rw [List.append_assoc] at hk
  have hl := e₁.ready hk
  obtain ⟨m, rfl, hd⟩ := e₂.exists_does hl
  have hnames : k.RenamesAliases names := by
    refine t₁.renamesAliases hready (hg.renamesAliases names) (fun r hr => ?_) htrim
    exact Rule.renamesOnly_iff.2 fun name ha =>
      absurd (Rule.renamesOnly_iff.1 (hfront r hr) name ha).2 List.not_mem_nil
  obtain ⟨hsum, hcard⟩ := e₁.card_renamed hk hnames hrs
  refine ⟨by rw [List.sum_append, hsum, List.sum_singleton, hd.eq_one_of_hoist hu ha], ?_⟩
  rw [t₂.renamed_eq hk' (fun r name hr => hno (hback r (mem_rules.2 hr))) nofun,
    hd.renamed_eq hl.wellFormed (fun r' name he ha' => ?_) nofun, hcard,
    t₁.renamed_eq hready (fun r name hr => hno (hfront r (mem_rules.2 hr))) nofun,
    hg.renamed_eq_empty, Finset.card_empty, Nat.zero_add]
  rw [← Move.rule.inj he, ha] at ha'
  exact absurd ha' nofun

/-- The number of the trimming at the end. -/
theorem eq_card_renamed (hat : PassAt scope g front [.trim] [] n h) (hg : g.IsLoaded)
    (htrim : .trim ∉ front) (hfront : ∀ r ∈ rules front, r.renamesOnly names) :
    n = (h.renamed .item).card := by
  obtain ⟨hready, k, k', n₁, ns, n₂, t₁, t, t₂, rfl⟩ := hat
  cases t₂
  exact t.sum_trim (t₁.ready hready)
    (t₁.renamesAliases hready (hg.renamesAliases names) hfront htrim)

end PassAt

/-! ### The tables -/

namespace Tables

/-- What the typedefs of delegates are called, and what they are to be called. -/
def delegateNames : List (String × String) :=
  [("Func___IntPtr___IntPtr", "ImGetClipboardTextHandler"),
    ("Action___IntPtr_string8", "ImSetClipboardTextHandler"),
    ("Action___IntPtr___IntPtr", "ImSetPlatformImeDataHandler"),
    ("Func_bool___IntPtr_int_sbytePtrPtr", "ImItemsGetterHandler"),
    ("Func_float___IntPtr_int", "ImValuesGetterHandler")]

theorem namesAlias_delegate : ∀ r ∈ delegateNames.map (fun p => delegate p.1 p.2),
    r.NamesAlias (delegateNames.map Prod.snd) := by
  have hnew : ∀ p ∈ delegateNames, p.1 ∉ delegateNames.map Prod.snd := by decide +kernel
  intro r hr
  obtain ⟨p, hp, rfl⟩ := List.mem_map.1 hr
  exact ⟨delegateSpace, p.1, p.2, rfl, rfl, hnew p hp, List.mem_map_of_mem hp⟩

theorem renamesOnly_delegateNames : ∀ r ∈ early ++ (late ++ propertyMutability),
    r.renamesOnly (delegateNames.map Prod.snd) := by decide +kernel

/-- The rules that say what is ignored by its name are for different declarations. -/
theorem apart_ignores : Rule.Apart (earlyIgnores ++ lateIgnores) := by decide +kernel

theorem apart_earlyIgnores : Rule.Apart earlyIgnores := by decide +kernel

theorem apart_valueTypes : Rule.Apart valueTypes := by decide +kernel

/-- Which kinds the tables give a flag to. -/
theorem kind_of_sets : ∀ r ∈ early ++ (late ++ propertyMutability),
    (r.action.sets .ignored ∨ r.action.sets .valueType → r.selector.kind ≠ .namespace) ∧
    (r.action.sets .bitmask → r.selector.kind = .enumeration) ∧
    (r.action.sets .readOnly → r.selector.kind = .property) := by decide

end Tables

namespace Pipeline

variable {v : Variant} {c : Config} {w w₁ w₂ : World} {run : PipelineRun}

/-! ### The passes -/

/-- The standard passes of the first phase. -/
def earlyPasses : List Pass :=
  [.table "namespace-consolidation" .preprocess Tables.namespaceConsolidation,
    .table "value-types" .preprocess Tables.valueTypes,
    .table "ignores" .preprocess Tables.earlyIgnores]

/-- The standard passes of the second phase. -/
def latePasses : List Pass :=
  [.table "post-build-ignores" .postprocess Tables.lateIgnores,
    .table "delegates" .postprocess Tables.delegates,
    .table "enumerations" .postprocess Tables.enumerations,
    .table "property-mutability" .postprocess Tables.propertyMutability,
    .trim]

theorem rules_moves_standard (v : Variant) (ps : List Pending) :
    rules ((standard v).moves ps) = Tables.early ++ (Tables.late ++ Tables.propertyMutability) := by
  rw [moves_standard, ← attaching, rules_append, rules_append, rules_append, rules_append,
    rules_attaching, rules_map_rule, rules_map_rule, rules_map_rule, List.nil_append]
  exact congrArg (_ ++ ·) (congrArg (_ ++ ·) (List.append_nil _))

section
variable (hload : Command.loadDump c w = some (.ok g, w₁))
  (hrun : (standard v).execute c w = some (.ok run, w₂)) {q : Pass}
include hload hrun

theorem passAt_early (i : Nat) (hq : earlyPasses[i]? = some q)
    (hno : q.name ∉ (earlyPasses.take i).map Pass.name) :
    ∃ scope front back n, run.report.changesOf? q.name = some n ∧
      PassAt scope g front q.moves back n run.graph ∧ .trim ∉ front ∧
      rules front = (earlyPasses.take i).flatMap Pass.rules ∧
      rules back = (earlyPasses.drop (i + 1) ++ latePasses).flatMap Pass.rules :=
  passAt_preprocess hload hrun i hq hno fun hm => absurd (List.mem_of_mem_take hm)
    (show Pass.trim ∉ earlyPasses by decide)

theorem passAt_late (i : Nat) (hq : latePasses[i]? = some q)
    (hno : q.name ∉ (earlyPasses ++ latePasses.take i).map Pass.name)
    (htrim : Pass.trim ∉ earlyPasses ++ latePasses.take i) :
    ∃ scope front n, run.report.changesOf? q.name = some n ∧
      PassAt scope g front q.moves ((latePasses.drop (i + 1)).flatMap Pass.moves) n run.graph ∧
      .trim ∉ front ∧ rules front = (earlyPasses ++ latePasses.take i).flatMap Pass.rules :=
  passAt_postprocess hload hrun i hq hno htrim

theorem changesOf?_namespaceConsolidation :
    run.report.changesOf? "namespace-consolidation" = some 1 := by
  obtain ⟨scope, front, back, n, hn, hat, -⟩ := passAt_early hload hrun 0 rfl (by decide)
  rw [← hat.eq_one rfl rfl]
  exact hn

theorem changesOf?_valueTypes : run.report.changesOf? "value-types" = some 3 ∧
    (run.graph.bearers .valueType).card = 3 := by
  have hg := isLoaded_of_loadDump hload
  obtain ⟨scope, front, back, n, hn, hat, htrim, hfront, hback⟩ :=
    passAt_early hload hrun 1 rfl (by decide)
  have hnone : g.bearers .valueType = ∅ := hg.bearers_eq_empty (by decide)
  obtain rfl : n = Tables.valueTypes.length := by
    refine hat.eq_length hg Flags.isMark_valueType hnone htrim
      (by rw [hfront, hback]; exact Tables.renamesOnly_delegateNames) (by decide) ?_
    rw [markers, hfront]
    exact Tables.apart_valueTypes
  refine ⟨hn, ?_⟩
  rw [hat.card_bearers Flags.isMark_valueType (by decide) (by rw [hfront]; decide)
    (by rw [hback]; decide), hnone, Finset.card_empty]
  rfl

theorem changesOf?_ignores : run.report.changesOf? "ignores" = some 13 := by
  have hg := isLoaded_of_loadDump hload
  obtain ⟨scope, front, back, n, hn, hat, htrim, hfront, hback⟩ :=
    passAt_early hload hrun 2 rfl (by decide)
  obtain rfl : n = Tables.earlyIgnores.length := by
    refine hat.eq_length hg Flags.isMark_ignored (hg.bearers_eq_empty (by decide)) htrim
      (by rw [hfront, hback]; exact Tables.renamesOnly_delegateNames) (by decide) ?_
    rw [markers, hfront]
    exact Tables.apart_earlyIgnores
  exact hn

theorem changesOf?_postBuildIgnores : run.report.changesOf? "post-build-ignores" = some 16 := by
  have hg := isLoaded_of_loadDump hload
  obtain ⟨scope, front, n, hn, hat, htrim, hfront⟩ :=
    passAt_late hload hrun 0 rfl (by decide) (by decide)
  obtain rfl : n = Tables.lateIgnores.length := by
    refine hat.eq_length hg Flags.isMark_ignored (hg.bearers_eq_empty (by decide)) htrim
      (by rw [hfront, Pass.rules_flatMap_moves]; exact Tables.renamesOnly_delegateNames)
      (by decide) ?_
    rw [markers, hfront]
    exact Tables.apart_ignores
  exact hn

theorem changesOf?_delegates : run.report.changesOf? "delegates" = some 6 ∧
    (run.graph.renamed .alias).card = 5 := by
  have hg := isLoaded_of_loadDump hload
  obtain ⟨scope, front, n, hn, hat, htrim, hfront⟩ :=
    passAt_late hload hrun 1 rfl (by decide) (by decide)
  obtain ⟨rfl, hcard⟩ := hat.card_renamed hg htrim Tables.namesAlias_delegate rfl rfl
    (by rw [hfront]; decide) (by rw [Pass.rules_flatMap_moves]; decide)
  exact ⟨hn, hcard⟩

theorem exists_changesOf?_enumerations : ∃ n, run.report.changesOf? "enumerations" = some n ∧
    (run.graph.bearers .ignored).card + (run.graph.bearers .bitmask).card =
      13 + 16 + n + (g.bearers .bitmask).card := by
  have hg := isLoaded_of_loadDump hload
  obtain ⟨scope, front, n, hn, hat, htrim, hfront⟩ :=
    passAt_late hload hrun 2 rfl (by decide) (by decide)
  refine ⟨n, hn, ?_⟩
  have hmarkers : markers .ignored front = Tables.earlyIgnores ++ Tables.lateIgnores := by
    rw [markers, hfront]
    rfl
  have hcard := hat.card_bearers_add hg Flags.isMark_ignored Flags.isMark_bitmask (by decide)
    (hg.bearers_eq_empty (by decide)) htrim
    (by rw [hfront, Pass.rules_flatMap_moves]; exact Tables.renamesOnly_delegateNames) (by decide)
    (by rw [hfront]; decide)
    (by rw [Pass.rules_flatMap_moves]; decide) (hmarkers ▸ Tables.apart_ignores)
  rw [hmarkers] at hcard
  exact hcard

theorem changesOf?_propertyMutability : run.report.changesOf? "property-mutability" =
    some (run.graph.bearers .readOnly).card := by
  have hg := isLoaded_of_loadDump hload
  obtain ⟨scope, front, n, hn, hat, htrim, hfront⟩ :=
    passAt_late hload hrun 3 rfl (by decide) (by decide)
  have hcard := hat.card_bearers Flags.isMark_readOnly (by decide) (by rw [hfront]; decide)
    (by rw [Pass.rules_flatMap_moves]; decide)
  rw [hg.bearers_eq_empty (by decide), Finset.card_empty, Nat.zero_add] at hcard
  exact hcard ▸ hn

theorem changesOf?_trim : run.report.changesOf? "trim-enum-item-prefixes" =
    some (run.graph.renamed .item).card := by
  have hg := isLoaded_of_loadDump hload
  obtain ⟨scope, front, n, hn, hat, htrim, hfront⟩ :=
    passAt_late hload hrun 4 rfl (by decide) (by decide)
  have hcard := hat.eq_card_renamed hg htrim
    (by rw [hfront]; exact Tables.renamesOnly_delegateNames)
  exact hcard ▸ hn

/-! ### What is live at the end -/

theorem exists_trace_standard : ∃ scope ns, Ready scope ((standard v).moves g.pending ++ []) g ∧
    Trace scope ((standard v).moves g.pending) g ns run.graph := by
  obtain ⟨g', _, scope, ns, hload', -, -, hready, ht, -⟩ := exists_trace hrun
  obtain ⟨hg, -⟩ := Prod.mk.inj (Option.some.inj (hload.symm.trans hload'))
  obtain rfl := Except.ok.inj hg
  exact ⟨scope, ns, (List.append_nil _).symm ▸ hready, ht⟩

theorem kind_of_has {P : Kind → Prop} (hf : f.IsMark)
    (h₀ : ∀ i s, g.get? i = some s → s.flags.has f → P s.kind)
    (hset : ∀ r ∈ Tables.early ++ (Tables.late ++ Tables.propertyMutability),
      r.action.sets f → P r.selector.kind)
    (hi : run.graph.get? i = some t) (hm : t.flags.has f) : P t.kind := by
  obtain ⟨scope, ns, hready, ht⟩ := exists_trace_standard hload hrun
  exact ht.kind_of_has hready hf h₀ (by rwa [rules_moves_standard]) hi hm

/-- What kinds of declarations bear the flags of the tables. -/
theorem kinds_of_has (hi : run.graph.get? i = some t) :
    (t.flags.has .ignored → t.kind ≠ .namespace) ∧
    (t.flags.has .valueType → t.kind ≠ .namespace) ∧
    (t.flags.has .bitmask → t.kind = .enumeration) ∧
    (t.flags.has .readOnly → t.kind = .property) := by
  have hg := isLoaded_of_loadDump hload
  have hnone : ∀ f ∈ [Flags.ignored, .valueType, .readOnly, .removed, .renamed],
      ∀ i s, g.get? i = some s → s.flags.has f → False := by
    intro f hf i s hs hm
    rw [(hg.fresh hs).unmarked f hf] at hm
    exact absurd hm Bool.false_ne_true
  refine ⟨fun hm => ?_, fun hm => ?_, fun hm => ?_, fun hm => ?_⟩
  · exact kind_of_has hload hrun Flags.isMark_ignored (P := (· ≠ .namespace))
      (fun i s hs hm => (hnone .ignored (by decide) i s hs hm).elim)
      (fun r hr hset => (Tables.kind_of_sets r hr).1 (Or.inl hset)) hi hm
  · exact kind_of_has hload hrun Flags.isMark_valueType (P := (· ≠ .namespace))
      (fun i s hs hm => (hnone .valueType (by decide) i s hs hm).elim)
      (fun r hr hset => (Tables.kind_of_sets r hr).1 (Or.inr hset)) hi hm
  · exact kind_of_has hload hrun Flags.isMark_bitmask (P := (· = .enumeration))
      (fun i s hs => (hg.fresh hs).bitmask) (fun r hr => (Tables.kind_of_sets r hr).2.1) hi hm
  · exact kind_of_has hload hrun Flags.isMark_readOnly (P := (· = .property))
      (fun i s hs hm => (hnone .readOnly (by decide) i s hs hm).elim)
      (fun r hr => (Tables.kind_of_sets r hr).2.2) hi hm

variable {live : List Found} {p : Found → Bool} {S : Finset DeclId}

/-- A filter of what is live is as long as the set that it lists, if there are no namespaces in it.
-/
theorem length_filter_live (hl : run.graph.live? = some live)
    (hS : ∀ i t, run.graph.get? i = some t → (i ∈ S ↔ p ⟨i, t⟩))
    (hk : ∀ i ∈ S, ∃ t, run.graph.get? i = some t ∧ t.kind ≠ .namespace) :
    (live.filter p).length = S.card := by
  obtain ⟨scope, ns, hready, ht⟩ := exists_trace_standard hload hrun
  have hend := ht.ready hready
  refine hend.wellFormed.isRooted.length_filter_live hl hS fun i hi => ?_
  obtain ⟨t, ht, hkind⟩ := hk i hi
  exact hend.isLive rfl ht hkind

theorem length_bearers (hl : run.graph.live? = some live) (hp : ∀ x, p x → x.slot.flags.has f)
    (hk : ∀ i t, run.graph.get? i = some t → t.flags.has f → p ⟨i, t⟩ ∧ t.kind ≠ .namespace) :
    (live.filter p).length = (run.graph.bearers f).card := by
  refine length_filter_live hload hrun hl (fun i t hi => ?_) fun i hi => ?_
  · rw [mem_bearers_of_get? hi]
    exact ⟨fun hm => (hk i t hi hm).1, hp ⟨i, t⟩⟩
  · obtain ⟨t, ht, hm⟩ := mem_slotsWhere.1 hi
    exact ⟨t, ht, (hk i t ht hm).2⟩

theorem length_renamed (hl : run.graph.live? = some live) {k : Kind} (hk : k ≠ .namespace) :
    (live.filter fun x => x.slot.kind == k && x.slot.initialName.isSome).length =
      (run.graph.renamed k).card := by
  refine length_filter_live hload hrun hl (fun i t hi => mem_slotsWhere_of_get? hi) fun i hi => ?_
  obtain ⟨t, ht, hm⟩ := mem_slotsWhere.1 hi
  rw [Bool.and_eq_true, beq_iff_eq] at hm
  exact ⟨t, ht, hm.1 ▸ hk⟩

/-- What a dump calls a bitmask is live at the end. -/
theorem length_bitmasks_of_dump (hl : run.graph.live? = some live) :
    (live.filter fun x => x.slot.kind == .enumeration &&
      (g.get? x.id).any (·.flags.has .bitmask)).length = (g.bearers .bitmask).card := by
  obtain ⟨scope, ns, hready, ht⟩ := exists_trace_standard hload hrun
  have hkeeps := ht.keeps hready
  have hkind : ∀ i s t, g.get? i = some s → run.graph.get? i = some t →
      s.flags.has .bitmask → t.kind = .enumeration := by
    intro i s t hs ht hm
    obtain ⟨t', ht', hst⟩ := hkeeps.slot hs
    obtain rfl := Option.some.inj (ht.symm.trans ht')
    exact hst.kind.trans (((isLoaded_of_loadDump hload).fresh hs).bitmask hm)
  refine length_filter_live hload hrun hl (fun i t hi => ?_) fun i hi => ?_
  · obtain ⟨s, hs, -⟩ := hkeeps.exists_slot hi
    rw [mem_bearers_of_get? hs, hs, Option.any_some, Bool.and_eq_true, beq_iff_eq]
    exact ⟨fun hm => ⟨hkind i s t hs hi hm, hm⟩, And.right⟩
  · obtain ⟨s, hs, hm⟩ := mem_slotsWhere.1 hi
    obtain ⟨t, ht, -⟩ := hkeeps.slot hs
    exact ⟨t, ht, by simp [hkind i s t hs ht hm]⟩

end

end Pipeline

/-- The report of a run, what is live after it and its summary have the same numbers; `g` is the
graph of the dump. -/
structure PipelineRun.BooksAgree (run : PipelineRun) (g : Graph) (live : List Found)
    (s : RunSummary) : Prop where
  namespaceConsolidation : run.report.changesOf? "namespace-consolidation" = some 1
  valueTypes : run.report.changesOf? "value-types" = some 3
  length_valueTypes : (live.filter (·.slot.flags.has .valueType)).length = 3
  ignores : run.report.changesOf? "ignores" = some 13
  postBuildIgnores : run.report.changesOf? "post-build-ignores" = some 16
  delegates : run.report.changesOf? "delegates" = some (s.delegates.length + 1)
  length_delegates : s.delegates.length + 1 = 6
  propertyMutability : run.report.changesOf? "property-mutability" = some s.readOnly.length
  trimEnumItemPrefixes : run.report.changesOf? "trim-enum-item-prefixes" =
    some (live.filter fun x => x.slot.kind == .item && x.slot.initialName.isSome).length
  enumerations : ∃ n, run.report.changesOf? "enumerations" = some n ∧
    s.ignored.length + s.bitmasks.length = 13 + 16 + n +
      (live.filter fun x => x.slot.kind == .enumeration &&
        (g.get? x.id).any (·.flags.has .bitmask)).length

namespace Pipeline

variable {v : Variant} {c : Config} {w w₁ w₂ : World} {run : PipelineRun}

/-- After a successful run of the standard pipeline there is a summary, and report, graph and
summary keep the same books. -/
theorem booksAgree_of_execute (hload : Command.loadDump c w = some (.ok g, w₁))
    (hrun : (standard v).execute c w = some (.ok run, w₂)) :
    ∃ live s, run.graph.live? = some live ∧ RunSummary.collect? run.graph run.report c = some s ∧
      run.BooksAgree g live s := by
  obtain ⟨scope, ns, hready, ht⟩ := exists_trace_standard hload hrun
  have hrooted := (ht.ready hready).wellFormed.isRooted
  obtain ⟨s, hs, hignored, hbitmasks, hreadOnly, hdelegates⟩ :=
    RunSummary.exists_collect hrooted hrooted.live?_eq run.report c
  have hl := hrooted.live?_eq
  set live := run.graph.units.flatMap run.graph.below
  replace hignored := hignored.trans (length_bearers hload hrun hl (f := .ignored) (fun _ => id)
    fun i t hi hm => ⟨hm, (kinds_of_has hload hrun hi).1 hm⟩)
  replace hbitmasks := hbitmasks.trans (length_bearers hload hrun hl (f := .bitmask) (by simp)
    fun i t hi hm => by simp [(kinds_of_has hload hrun hi).2.2.1 hm, hm])
  replace hreadOnly := hreadOnly.trans (length_bearers hload hrun hl (f := .readOnly) (by simp)
    fun i t hi hm => by simp [(kinds_of_has hload hrun hi).2.2.2 hm, hm])
  rw [length_renamed hload hrun hl (k := .alias) nofun] at hdelegates
  obtain ⟨hvalueTypes, hthree⟩ := changesOf?_valueTypes hload hrun
  obtain ⟨hsix, hfive⟩ := changesOf?_delegates hload hrun
  rw [hfive] at hdelegates
  refine ⟨live, s, hl, hs, ?_⟩
  constructor
  case namespaceConsolidation => exact changesOf?_namespaceConsolidation hload hrun
  case valueTypes => exact hvalueTypes
  case length_valueTypes =>
    rw [← hthree]
    exact length_bearers hload hrun hl (fun _ => id) fun i t hi hm =>
      ⟨hm, (kinds_of_has hload hrun hi).2.1 hm⟩
  case ignores => exact changesOf?_ignores hload hrun
  case postBuildIgnores => exact changesOf?_postBuildIgnores hload hrun
  case delegates => rw [hdelegates, hsix]
  case length_delegates => rw [hdelegates]
  case propertyMutability => rw [hreadOnly, changesOf?_propertyMutability hload hrun]
  case trimEnumItemPrefixes =>
    rw [length_renamed hload hrun hl (k := .item) nofun, changesOf?_trim hload hrun]
  case enumerations =>
    obtain ⟨n, hn, hsum⟩ := exists_changesOf?_enumerations hload hrun
    exact ⟨n, hn, by rw [hignored, hbitmasks, hsum, length_bitmasks_of_dump hload hrun hl]⟩

theorem booksAgree_of_execute_targets :
    ∃ (w w₁ w₂ : World) (g : Graph) (run : PipelineRun) (live : List Found) (s : RunSummary),
      Command.loadDump {} w = some (.ok g, w₁) ∧
      (standard .legacy).execute {} w = some (.ok run, w₂) ∧ run.graph.live? = some live ∧
      RunSummary.collect? run.graph run.report {} = some s ∧ run.BooksAgree g live s := by
  obtain ⟨w, w₁, w₂, g, run, hload, hrun⟩ := exists_execute_targets
  obtain ⟨live, s, h⟩ := booksAgree_of_execute hload hrun
  exact ⟨w, w₁, w₂, g, run, live, s, hload, hrun, h⟩

end Pipeline

end Bindery
