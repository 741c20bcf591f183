import Bindery.Proofs.Pipeline.Stage

/-!
# Flags of the standard pipeline

Which declarations bear which flags after a successful run of the standard pipeline, said of the
graph at its end. The passes of the first phase are about what a dump says itself; those of the
second phase are about everything.
-/

namespace Bindery

open Move Bindery.Graph

namespace Tables

/-- The rules of the first phase. -/
def early : List Rule := namespaceConsolidation ++ (valueTypes ++ earlyIgnores)

/-- The rules of the second phase before those about properties. -/
def late : List Rule := lateIgnores ++ (delegates ++ enumerations)

theorem isLasting_of_mem_early : ∀ r ∈ early, r.action.flag?.isSome → r.selector.isLasting := by
  decide

theorem isLasting_of_mem_late : ∀ r ∈ late, r.action.flag?.isSome → r.selector.isLasting := by
  decide

theorem isAlias_of_rename : ∀ r ∈ early ++ (late ++ propertyMutability),
    r.action.flag?.isSome ∨ r.action = .hoist ∨ r.selector.kind = .alias := by
  decide

end Tables

namespace Pipeline

theorem moves_standard (v : Variant) (ps : List Pending) : (standard v).moves ps =
    Tables.early.map .rule ++ ((.clear :: ps.map .attach) ++ (Tables.late.map .rule ++
      (Tables.propertyMutability.map .rule ++ [.trim]))) := rfl

theorem rule_notMem_attachments (ps : List Pending) (r : Rule) :
    Move.rule r ∉ Move.clear :: ps.map .attach := by
  simp

theorem isAlias_of_rename {v : Variant} {ps : List Pending} {r : Rule} {name : String}
    (hm : .rule r ∈ (standard v).moves ps) (ha : r.action = .rename name) :
    r.selector.kind = .alias := by
  have hmem : r ∈ Tables.early ++ (Tables.late ++ Tables.propertyMutability) := by
    rw [moves_standard] at hm
    simpa using hm
  simpa [ha, Action.flag?] using Tables.isAlias_of_rename r hmem

end Pipeline

variable {scope : Scope} {g h k : Graph} {ms : List Move} {ns : List Nat} {i : DeclId} {s t : Slot}
  {f : Flags}

/-! ### Points of the standard pipeline -/

/-- Nothing is moved any more. -/
theorem Trace.isParent_iff_of_inPlace (ht : Trace scope ms k ns h) (hk : Ready scope (ms ++ []) k)
    (hno : ∀ m ∈ ms, m = .trim ∨ ∃ r, m = .rule r ∧ r.action ≠ .hoist) :
    ∀ p c, h.IsParent p c ↔ k.IsParent p c := by
  refine ht.induction (motive := fun ms k _ h =>
    (∀ m ∈ ms, m = .trim ∨ ∃ r, m = .rule r ∧ r.action ≠ .hoist) →
      ∀ p c, h.IsParent p c ↔ k.IsParent p c) (fun _ _ _ _ _ => Iff.rfl) ?_ hk hno
  intro m ms g n k ns h _ _ _ hc _ _ ih hno p c
  rw [ih (fun m hm => hno m (List.mem_cons_of_mem _ hm)) p c]
  have hm := hno m List.mem_cons_self
  cases hc with
  | inPlace _ _ hp _ => exact isParent_mapSlots_of_keepsPlace hp
  | hoisted hr _ _ _ =>
    rcases hm with hm | ⟨r, hr', hne⟩
    · exact absurd hm nofun
    · obtain rfl := Move.rule.inj hr'
      exact absurd hr hne
  | cleared => rcases hm with hm | ⟨r, hr', -⟩ <;> contradiction
  | attached _ => rcases hm with hm | ⟨r, hr', -⟩ <;> contradiction

/-- If nothing is moved any more, properties of a template are found as they are found at the end.
-/
theorem Graph.Keeps.selects_template (hk : k.Keeps h)
    (hp : ∀ p c, h.IsParent p c ↔ k.IsParent p c) (template : String) :
    (Selector.templateProperties template).Selects k scope i ↔
      (Selector.templateProperties template).Selects h scope i := by
  constructor
  · rintro ⟨s, hs, hkind, ⟨c, u, hc, hcu, hu, huk⟩, htype⟩
    obtain ⟨t, ht, hst⟩ := hk.slot hs
    obtain ⟨v, hv, huv⟩ := hk.slot hu
    exact ⟨t, ht, hst.kind.trans hkind, ⟨c, v, (hp _ _).2 hc, (hp _ _).2 hcu, hv,
      huv.kind.trans huk⟩, hst.type.symm ▸ htype⟩
  · rintro ⟨t, ht, hkind, ⟨c, v, hc, hcv, hv, hvk⟩, htype⟩
    obtain ⟨s, hs, hst⟩ := hk.exists_slot ht
    obtain ⟨u, hu, huv⟩ := hk.exists_slot hv
    exact ⟨s, hs, hst.kind.symm.trans hkind, ⟨c, u, (hp _ _).1 hc, (hp _ _).1 hcv, hu,
      huv.kind.symm.trans hvk⟩, hst.type ▸ htype⟩

/-- Before anything is attached, what a dump says itself is live. -/
theorem Trace.isLive_iff_native {ms' : List Move} {ns' : List Nat} (h₀ : Trace scope ms g ns k)
    (ht : Trace scope ms' k ns' h) (hg : g.IsLoaded) (hr : Ready scope (ms ++ (ms' ++ [])) g)
    (hw : waiting ms' = g.pending) (hno : ∀ p, .attach p ∉ ms) (hs : k.get? i = some s)
    (hi : h.get? i = some t) (hk : s.kind ≠ .namespace) :
    k.IsLive i ↔ t.flags.has .synthesized = false := by
  have hready := h₀.ready hr
  have haw := hready.awaits
  rw [List.append_nil, hw] at haw
  rw [(h₀.isSplit hr hg.split hno).live_iff hready.wellFormed haw hs,
    ht.has_eq_of_unset hready Flags.isMark_synthesized
      (fun r _ => r.action.not_sets_synthesized) i s t hs hi]
  refine and_iff_right ?_
  by_contra hrem
  rw [Bool.not_eq_false] at hrem
  exact hk (hready.wellFormed.removed hs hrem).1

/-- Once everything is attached, everything is live but removed namespaces. -/
theorem Move.Ready.isLive (hr : Ready scope ms k) (hw : waiting ms = []) (hs : k.get? i = some s)
    (hk : s.kind ≠ .namespace) : k.IsLive i := by
  have haw := hr.awaits
  rw [hw] at haw
  refine (haw.live_iff hr.wellFormed hs).2 ⟨?_, nofun⟩
  by_contra hrem
  rw [Bool.not_eq_false] at hrem
  exact hk (hr.wellFormed.removed hs hrem).1

/-- What the rules of a stage set, seen from the end of the run. -/
theorem Trace.has_iff_of_stage {ms₀ ms' : List Move} {n₀ n₁ n₂ : List Nat} {k' : Graph}
    {u : Slot} {ok : Slot → Prop} (rs : List Rule) (h₀ : Trace scope ms₀ g n₀ k)
    (h₁ : Trace scope (rs.map .rule) k n₁ k') (h₂ : Trace scope ms' k' n₂ h) (hg : g.IsLoaded)
    (hr : Ready scope (ms₀ ++ (rs.map .rule ++ (ms' ++ []))) g)
    (hren : ∀ r name, .rule r ∈ ms₀ ++ (rs.map .rule ++ ms') → r.action = .rename name →
      r.selector.kind = .alias)
    (htrim : .trim ∉ ms₀) (hlast : ∀ r ∈ rs, r.action.flag?.isSome → r.selector.isLasting)
    (hok : ∀ ms₁ ms₂ l n m, ms₁ ++ ms₂ = rs.map .rule → Trace scope (ms₀ ++ ms₁) g n l →
      Trace scope (ms₂ ++ ms') l m h → ∀ j s t, l.get? j = some s → h.get? j = some t →
      s.kind ≠ .namespace → (l.IsLive j ↔ ok t))
    (hf : f.IsMark) (hs : k.get? i = some s) (hu : k'.get? i = some u) :
    u.flags.has f ↔ s.flags.has f ∨ ∃ r ∈ rs, r.action.sets f ∧ r.selector.Names h ok i := by
  have hk := h₀.ready hr
  refine Trace.has_iff_of_rules hf i rs h₁ hk (fun r hm hset ms₁ ms₂ l n m he hl hl' => ?_) hs hu
  have hsplit : ms₀ ++ (rs.map .rule ++ ms') = (ms₀ ++ ms₁) ++ (ms₂ ++ ms') := by
    rw [← he, List.append_assoc, List.append_assoc]
  have hr' : Ready scope ((ms₀ ++ ms₁) ++ ((ms₂ ++ ms') ++ [])) g := by
    rw [← List.append_assoc, ← hsplit, List.append_assoc, List.append_assoc]
    exact hr
  have htrim' : .trim ∉ ms₀ ++ ms₁ := by
    rw [List.mem_append, not_or]
    refine ⟨htrim, fun hm => ?_⟩
    obtain ⟨q, -, hq⟩ := List.mem_map.1 (he ▸ List.mem_append_left ms₂ hm)
    exact absurd hq nofun
  have hpoint := h₀.append hl
  have hshows := hpoint.shows (hl'.append h₂) hg hr' (hsplit ▸ hren) htrim'
    (hok ms₁ ms₂ l _ _ he hpoint (hl'.append h₂))
  exact hshows.selects_iff (hpoint.ready hr').wellFormed
    (hlast r hm (Action.isSome_of_sets hset))

/-- The last rules see properties where they are at the end. -/
theorem Trace.has_iff_property (ht : Trace scope (Tables.propertyMutability.map .rule) k ns g)
    {ns' : List Nat} (ht' : Trace scope [.trim] g ns' h)
    (hr : Ready scope (Tables.propertyMutability.map .rule ++ ([.trim] ++ [])) k) (hf : f.IsMark)
    (hs : k.get? i = some s) (hi : g.get? i = some t) : t.flags.has f ↔ s.flags.has f ∨
      ∃ r ∈ Tables.propertyMutability, r.action.sets f ∧ r.selector.Selects h scope i := by
  refine Trace.has_iff_of_rules hf i _ ht hr (fun r hm _ ms₁ ms₂ l n m he hl hl' => ?_) hs hi
  obtain rfl := List.mem_singleton.1 hm
  have hready : Ready scope ((ms₂ ++ [.trim]) ++ []) l := hl.ready (by
    rw [List.append_assoc, ← List.append_assoc, he]
    exact hr)
  refine ((hl'.append ht').keeps hready).selects_template
    ((hl'.append ht').isParent_iff_of_inPlace hready fun m hm => ?_) _
  rcases List.mem_append.1 hm with hm | hm
  · obtain ⟨q, hq, rfl⟩ := List.mem_map.1 (he ▸ List.mem_append_right ms₁ hm)
    obtain rfl := List.mem_singleton.1 hq
    exact Or.inr ⟨_, rfl, nofun⟩
  · exact Or.inl (List.mem_singleton.1 hm)

theorem Move.waiting_map_rule (rs : List Rule) : waiting (rs.map .rule) = [] := by
  rw [waiting, List.filterMap_map]
  exact List.filterMap_none rs

theorem Move.waiting_of_append {ms₁ ms₂ : List Move} {rs : List Rule}
    (h : ms₁ ++ ms₂ = rs.map .rule) : waiting ms₁ = [] ∧ waiting ms₂ = [] := by
  have h' := waiting_map_rule rs
  rw [← h, waiting_append] at h'
  exact List.append_eq_nil_iff.1 h'

section Stages

variable {ms₀ ms' : List Move} {n₀ n₁ n₂ : List Nat} {k' : Graph} {u : Slot}

/-- The rules of the first phase see what a dump says itself. -/
theorem Trace.has_iff_early (h₁ : Trace scope (Tables.early.map .rule) g n₁ k)
    (h₂ : Trace scope ms' k n₂ h) (hg : g.IsLoaded)
    (hr : Ready scope (Tables.early.map .rule ++ (ms' ++ [])) g) (hw : waiting ms' = g.pending)
    (hren : ∀ r name, .rule r ∈ Tables.early.map .rule ++ ms' → r.action = .rename name →
      r.selector.kind = .alias)
    (hf : f.IsMark) (hs : g.get? i = some s) (hu : k.get? i = some u) :
    u.flags.has f ↔ s.flags.has f ∨ ∃ r ∈ Tables.early, r.action.sets f ∧
      r.selector.Names h (fun u => u.flags.has .synthesized = false) i := by
  refine Trace.has_iff_of_stage Tables.early (.nil g) h₁ h₂ hg hr hren List.not_mem_nil
    Tables.isLasting_of_mem_early (fun ms₁ ms₂ l n m he hl hl' j u u' hu hu' hk => ?_) hf hs hu
  refine hl.isLive_iff_native hl' hg ?_ ?_ (fun p hp => ?_) hu hu' hk
  · rwa [List.nil_append, List.append_assoc ms₂, ← List.append_assoc ms₁, he]
  · rw [waiting_append, (waiting_of_append he).2, List.nil_append, hw]
  · obtain ⟨q, -, hq⟩ := List.mem_map.1 (he ▸ List.mem_append_left ms₂ hp)
    exact absurd hq nofun

/-- The later rules see everything. -/
theorem Trace.has_iff_late (h₀ : Trace scope ms₀ g n₀ k)
    (h₁ : Trace scope (Tables.late.map .rule) k n₁ k') (h₂ : Trace scope ms' k' n₂ h)
    (hg : g.IsLoaded) (hr : Ready scope (ms₀ ++ (Tables.late.map .rule ++ (ms' ++ []))) g)
    (hw : waiting ms' = []) (htrim : .trim ∉ ms₀)
    (hren : ∀ r name, .rule r ∈ ms₀ ++ (Tables.late.map .rule ++ ms') → r.action = .rename name →
      r.selector.kind = .alias)
    (hf : f.IsMark) (hs : k.get? i = some s) (hu : k'.get? i = some u) :
    u.flags.has f ↔ s.flags.has f ∨ ∃ r ∈ Tables.late, r.action.sets f ∧
      r.selector.Names h (fun _ => True) i := by
  refine Trace.has_iff_of_stage Tables.late h₀ h₁ h₂ hg hr hren htrim
    Tables.isLasting_of_mem_late (fun ms₁ ms₂ l n m he hl hl' j u u' hu hu' hk => ?_) hf hs hu
  have hready : Ready scope ((ms₂ ++ ms') ++ []) l := by
    refine hl.ready ?_
    rwa [List.append_assoc, List.append_assoc ms₂, ← List.append_assoc ms₁, he]
  refine iff_of_true (hready.isLive ?_ hu hk) trivial
  rw [List.append_nil, waiting_append, (waiting_of_append he).2, hw, List.append_nil]

end Stages

/-- Which declarations bear a flag after the moves of the standard pipeline. -/
theorem Trace.has_iff_standard {v : Variant}
    (ht : Trace scope ((Pipeline.standard v).moves g.pending) g ns h) (hg : g.IsLoaded)
    (hr : Ready scope ((Pipeline.standard v).moves g.pending ++ []) g) (hf : f.IsMark)
    (hs : g.get? i = some s) (hi : h.get? i = some t) : t.flags.has f ↔ s.flags.has f ∨
      (∃ r ∈ Tables.early, r.action.sets f ∧
        r.selector.Names h (fun u => u.flags.has .synthesized = false) i) ∨
      (∃ r ∈ Tables.late, r.action.sets f ∧ r.selector.Names h (fun _ => True) i) ∨
      ∃ r ∈ Tables.propertyMutability, r.action.sets f ∧ r.selector.Selects h scope i := by
  have hwaiting := (Pipeline.standard v).waiting_moves g.pending
  have hren : ∀ r name, .rule r ∈ (Pipeline.standard v).moves g.pending →
      r.action = .rename name → r.selector.kind = .alias := fun _ _ => Pipeline.isAlias_of_rename
  have hrule := Pipeline.rule_notMem_attachments g.pending
  rw [Pipeline.moves_standard] at ht hr hwaiting hren
  set mid : List Move := .clear :: g.pending.map .attach with hmid
  obtain ⟨k₁, n₁, m₁, -, h₁, e₁⟩ := Trace.of_append ht
  obtain ⟨k₂, n₂, m₂, -, h₂, e₂⟩ := Trace.of_append e₁
  obtain ⟨k₃, n₃, m₃, -, h₃, e₃⟩ := Trace.of_append e₂
  obtain ⟨k₄, n₄, m₄, -, h₄, h₅⟩ := Trace.of_append e₃
  simp only [List.append_assoc] at hr
  have hr₁ := h₁.ready hr
  have hr₂ := h₂.ready hr₁
  have hr₃ := h₃.ready hr₂
  have hr₄ := h₄.ready hr₃
  obtain ⟨s₁, hs₁, -⟩ := (h₁.keeps hr).slot hs
  obtain ⟨s₂, hs₂, -⟩ := (h₂.keeps hr₁).slot hs₁
  obtain ⟨s₃, hs₃, -⟩ := (h₃.keeps hr₂).slot hs₂
  obtain ⟨s₄, hs₄, -⟩ := (h₄.keeps hr₃).slot hs₃
  have hearly := h₁.has_iff_early e₁ hg (by simpa using hr)
    (by rwa [waiting_append, waiting_map_rule] at hwaiting) hren hf hs hs₁
  have hmiddle : s₂.flags.has f = s₁.flags.has f :=
    h₂.has_eq_of_unset hr₁ hf (fun r hm => absurd hm (hrule r)) i s₁ s₂ hs₁ hs₂
  have hlate := (h₁.append h₂).has_iff_late h₃ e₃ hg (by simpa using hr) rfl (by simp [hmid])
    (by simpa using hren) hf hs₂ hs₃
  have hprop := h₄.has_iff_property h₅ hr₃ hf hs₃ hs₄
  have htrim : t.flags.has f = s₄.flags.has f := by
    refine h₅.has_eq_of_unset hr₄ hf (fun r hm => ?_) i s₄ t hs₄ hi
    exact absurd (List.mem_singleton.1 hm) nofun
  rw [htrim, hprop, hlate, hmiddle, hearly, or_assoc, or_assoc]

/-! ### The flags one by one -/

namespace Tables

/-- The rules that set a flag. -/
theorem exists_sets_iff {rs : List Rule} {P : Rule → Prop} :
    (∃ r ∈ rs, r.action.sets f ∧ P r) ↔ ∃ r ∈ rs.filter (·.action.sets f), P r := by
  simp only [List.mem_filter, and_assoc]

theorem early_ignored : early.filter (·.action.sets .ignored) = earlyIgnores := by decide

theorem early_valueType : early.filter (·.action.sets .valueType) = valueTypes := by decide

theorem early_bitmask : early.filter (·.action.sets .bitmask) = [] := by decide

theorem early_readOnly : early.filter (·.action.sets .readOnly) = [] := by decide

theorem late_ignored : late.filter (·.action.sets .ignored) = lateIgnores ++
    (sentinelSuffixes.map (fun suffix => ignore (.itemsWithSuffix suffix) "sentinel") ++
      [ignore (.enumerationsWithSuffix "Private_") "private"]) := by decide

theorem late_valueType : late.filter (·.action.sets .valueType) = [] := by decide

theorem late_bitmask : late.filter (·.action.sets .bitmask) =
    [⟨.enumerationsContaining "Flags", .markBitmask, ""⟩] := by decide

theorem late_readOnly : late.filter (·.action.sets .readOnly) = [] := by decide

theorem property_readOnly :
    propertyMutability.filter (·.action.sets .readOnly) = propertyMutability := by decide

theorem property_eq_nil : ∀ f ∈ [Flags.ignored, .valueType, .bitmask],
    propertyMutability.filter (·.action.sets f) = [] := by decide

section Names

variable {ok : Slot → Prop} (hi : h.get? i = some t)

include hi

theorem names_sentinel_iff : (∃ r ∈ sentinelSuffixes.map (fun suffix =>
      ignore (.itemsWithSuffix suffix) "sentinel"), r.selector.Names h ok i) ↔
    t.kind = .item ∧ ok t ∧ ∃ x ∈ sentinelSuffixes, Selector.endsWith x t.firstName := by
  simp only [List.mem_map, exists_exists_and_eq_and, ignore, Selector.Names, Selector.kind, hi,
    Option.some.injEq, exists_eq_left']
  constructor
  · rintro ⟨x, hx, hk, hok, he⟩
    exact ⟨hk, hok, x, hx, he⟩
  · rintro ⟨hk, hok, x, hx, he⟩
    exact ⟨x, hx, hk, hok, he⟩

theorem names_valueType_iff : (∃ r ∈ valueTypes, r.selector.Names h ok i) ↔
    t.kind = .record ∧ t.isComplete ∧ ok t ∧ t.name ∈ ["ImDrawVert", "ImVec2", "ImVec4"] := by
  simp only [valueTypes, List.mem_map, exists_exists_and_eq_and, Selector.Names, Selector.kind, hi,
    Option.some.injEq, exists_eq_left']
  constructor
  · rintro ⟨name, hm, hk, hok, rfl, hc⟩
    exact ⟨hk, hc, hok, hm⟩
  · rintro ⟨hk, hc, hok, hm⟩
    exact ⟨t.name, hm, hk, hok, rfl, hc⟩

end Names

end Tables

/-- The flags of declaration `i` of the graph `h`, which was `s` in the dump and is `t` now. -/
structure Graph.HasStandardFlags (scope : Scope) (h : Graph) (i : DeclId) (s t : Slot) : Prop where
  ignored : t.flags.has .ignored ↔
    (∃ r ∈ Tables.earlyIgnores,
      r.selector.Names h (fun u => u.flags.has .synthesized = false) i) ∨
    (∃ r ∈ Tables.lateIgnores, r.selector.Names h (fun _ => True) i) ∨
    (t.kind = .item ∧ ∃ x ∈ Tables.sentinelSuffixes, Selector.endsWith x t.firstName) ∨
    (t.kind = .enumeration ∧ Selector.endsWith "Private_" t.name)
  valueType : t.flags.has .valueType ↔ t.kind = .record ∧ t.isComplete ∧
    t.flags.has .synthesized = false ∧ t.name ∈ ["ImDrawVert", "ImVec2", "ImVec4"]
  bitmask : t.flags.has .bitmask ↔
    t.kind = .enumeration ∧ (s.flags.has .bitmask ∨ Selector.contains "Flags" t.name)
  readOnly : t.flags.has .readOnly ↔ t.kind = .property ∧
    (∃ c u, h.IsParent c i ∧ h.IsParent scope.unit c ∧ h.get? c = some u ∧ u.kind = .record) ∧
    t.type.any (·.isSpecializationOf "ImVector")
  incomplete : t.flags.has .incomplete = s.flags.has .incomplete
  synthesized : t.flags.has .synthesized = s.flags.has .synthesized
  removed : t.flags.has .removed = false
  renamed : t.flags.has .renamed = t.initialName.isSome

theorem Flags.isMark_ignored : Flags.ignored.IsMark :=
  ⟨Flags.isBit_ignored, by decide, by decide⟩

theorem Flags.isMark_valueType : Flags.valueType.IsMark :=
  ⟨Flags.isBit_valueType, by decide, by decide⟩

theorem Flags.isMark_bitmask : Flags.bitmask.IsMark :=
  ⟨Flags.isBit_bitmask, by decide, by decide⟩

theorem Flags.isMark_readOnly : Flags.readOnly.IsMark :=
  ⟨Flags.isBit_readOnly, by decide, by decide⟩

/-- Which declarations bear a flag, by the rules that set it. -/
theorem Trace.has_iff_filter {v : Variant}
    (ht : Trace scope ((Pipeline.standard v).moves g.pending) g ns h) (hg : g.IsLoaded)
    (hr : Ready scope ((Pipeline.standard v).moves g.pending ++ []) g) (hf : f.IsMark)
    (hs : g.get? i = some s) (hi : h.get? i = some t) : t.flags.has f ↔ s.flags.has f ∨
      (∃ r ∈ Tables.early.filter (·.action.sets f),
        r.selector.Names h (fun u => u.flags.has .synthesized = false) i) ∨
      (∃ r ∈ Tables.late.filter (·.action.sets f), r.selector.Names h (fun _ => True) i) ∨
      ∃ r ∈ Tables.propertyMutability.filter (·.action.sets f), r.selector.Selects h scope i := by
  rw [ht.has_iff_standard hg hr hf hs hi, Tables.exists_sets_iff, Tables.exists_sets_iff,
    Tables.exists_sets_iff]

/-- The flags after the moves of the standard pipeline on a new graph. -/
theorem Trace.hasStandardFlags {v : Variant}
    (ht : Trace scope ((Pipeline.standard v).moves g.pending) g ns h) (hg : g.IsLoaded)
    (hr : Ready scope ((Pipeline.standard v).moves g.pending) g) (hs : g.get? i = some s)
    (hi : h.get? i = some t) (hl : h.IsLive i) : h.HasStandardFlags scope i s t := by
  rw [← List.append_nil (Pipeline.moves _ _)] at hr
  have hready := ht.ready hr
  have hfresh := hg.fresh hs
  obtain ⟨t', ht', hst⟩ := (ht.keeps hr).slot hs
  obtain rfl := Option.some.inj (hi.symm.trans ht')
  have hflag := fun {f} (hf : Flags.IsMark f) => ht.has_iff_filter hg hr hf hs hi
  constructor
  case ignored =>
    rw [hflag Flags.isMark_ignored, hfresh.unmarked .ignored (by decide), Tables.early_ignored,
      Tables.late_ignored, Tables.property_eq_nil _ (by decide)]
    simp only [Bool.false_eq_true, List.not_mem_nil, false_and, exists_false, or_false, false_or,
      List.mem_append, or_and_right, exists_or]
    refine or_congr_right (or_congr_right (or_congr ?_ ?_))
    · simp only [Tables.names_sentinel_iff hi, true_and]
    · simp [Tables.ignore, Selector.Names, Selector.kind, hi]
  case valueType =>
    rw [hflag Flags.isMark_valueType, hfresh.unmarked .valueType (by decide),
      Tables.early_valueType, Tables.late_valueType, Tables.property_eq_nil _ (by decide)]
    simp only [Bool.false_eq_true, List.not_mem_nil, false_and, exists_false, or_false, false_or,
      Tables.names_valueType_iff hi]
  case bitmask =>
    have hkind : s.flags.has .bitmask → t.kind = .enumeration :=
      fun hm => hst.kind.trans (hfresh.bitmask hm)
    rw [hflag Flags.isMark_bitmask, Tables.early_bitmask, Tables.late_bitmask,
      Tables.property_eq_nil _ (by decide)]
    simp only [List.not_mem_nil, false_and, exists_false, or_false, false_or, List.mem_singleton,
      exists_eq_left, Selector.Names, Selector.kind, hi, Option.some.injEq, exists_eq_left']
    tauto
  case readOnly =>
    rw [hflag Flags.isMark_readOnly, hfresh.unmarked .readOnly (by decide), Tables.early_readOnly,
      Tables.late_readOnly, Tables.property_readOnly]
    simp only [Bool.false_eq_true, List.not_mem_nil, false_and, exists_false, false_or,
      Tables.propertyMutability, List.mem_singleton, exists_eq_left, Selector.Selects,
      Selector.kind, hi, Option.some.injEq, exists_eq_left']
  case incomplete =>
    exact ht.has_eq_of_unset hr Flags.isMark_incomplete
      (fun r _ => r.action.not_sets_incomplete) i s t hs hi
  case synthesized =>
    exact ht.has_eq_of_unset hr Flags.isMark_synthesized
      (fun r _ => r.action.not_sets_synthesized) i s t hs hi
  case removed => exact ((hready.awaits.live_iff hready.wellFormed hi).1 hl).1
  case renamed =>
    refine hst.renamed ?_
    rw [hfresh.unmarked .renamed (by decide), hfresh.initialName]
    rfl

namespace Pipeline

variable {v : Variant} {c : Config} {w w₁ w₂ : World} {run : PipelineRun}

/-- The flags of everything that is live after a successful run of the standard pipeline. -/
theorem hasStandardFlags_of_execute (hload : Command.loadDump c w = some (.ok g, w₁))
    (hrun : (standard v).execute c w = some (.ok run, w₂)) :
    ∃ scope, (Scope.primary g c.primaryHeader).run = some (.ok scope) ∧
      ∀ i t, run.graph.get? i = some t → run.graph.IsLive i →
        ∃ s, g.get? i = some s ∧ run.graph.HasStandardFlags scope i s t := by
  obtain ⟨g', _, scope, ns, hload', hg, hscope, hready, ht, -⟩ := exists_trace hrun
  obtain ⟨hg', -⟩ := Prod.mk.inj (Option.some.inj (hload.symm.trans hload'))
  obtain rfl := Except.ok.inj hg'
  refine ⟨scope, hscope, fun i t hi hl => ?_⟩
  have hready' := hready
  rw [← List.append_nil (moves _ _)] at hready'
  obtain ⟨s, hs, -⟩ := (ht.keeps hready').exists_slot hi
  exact ⟨s, hs, ht.hasStandardFlags hg hready hs hi hl⟩

/-- A dump of what the standard tables are about. -/
def targetsDump : String :=
  "unit \"imgui.h\" \x7b
  namespace ImGui \x7b fn Text(s: sbyte*); \x7d
  class ImColor \x7b \x7d class ImDrawVert \x7b \x7d class ImVector \x7b \x7d
  class ImVec2 \x7b \x7d class ImVec4 \x7b \x7d class ImGuiStyle \x7b field Colors: x; \x7d
  class ImDrawCmd \x7b method GetTexID(); \x7d class ImDrawData \x7b field CmdLists: x; \x7d
  class ImDrawList \x7b
    method GetClipRectMax(); method GetClipRectMin(); field ClipRectStack: ImVector<ImVec4>;
    field CmdHeader: x; field FringeScale: x; field IdxWritePtr: x; field Path: x; field Splitter: x;
    field TextureIdStack: x; field VtxCurrentIdx: x; field VtxWritePtr: x;
  \x7d
  class ImFont \x7b method GetDebugName(); method IsLoaded(); \x7d
  class ImFontAtlas \x7b method SetTexID(); field TexUvLines: x; \x7d
  class ImGuiIO \x7b field MouseClickedPos: x; \x7d fn IM_DELETE();
  enum ImGuiModFlags_ \x7b \x7d enum ImGuiNavInput_ \x7b \x7d enum E: flags \x7b E_A, E_END \x7d
\x7d
generated \"imgui.h\" \x7b
  extend ImFontAtlas \x7b field IsBuilt: x; \x7d class ImVectorExtensions \x7b \x7d
  namespace Delegates \x7b
    typedef Func___IntPtr___IntPtr = x; typedef Action___IntPtr_string8 = x;
    typedef Action___IntPtr___IntPtr = x; typedef Func_bool___IntPtr_int_sbytePtrPtr = x;
    typedef Func_float___IntPtr_int = x;
  \x7d
\x7d"

/-- The standard pipeline succeeds on that dump. -/
theorem exists_execute_targets : ∃ (w w₁ w₂ : World) (g : Graph) (run : PipelineRun),
    Command.loadDump {} w = some (.ok g, w₁) ∧
    (standard .legacy).execute {} w = some (.ok run, w₂) := by
  let w : World := .ofFiles { nodes := [([.text "imgui.decls"], .file (.text targetsDump))] }
  have hread : w.tee.files.readText ({} : Config).dumpPath = .ok targetsDump :=
    FileSystem.readText_dumpPath targetsDump
  -- characters of a long literal are taken apart at once, not one by one
  set_option maxRecDepth 20000 in
  have hchars : targetsDump.toList = _ := String.toList_ofList
  obtain ⟨g, hg, htransform⟩ : ∃ g, Graph.ofText "imgui.decls" targetsDump = .ok g ∧
      ((standard .legacy).transform "imgui.h" { graph := g }).any fun x => x.1.toOption.isSome := by
    refine Graph.exists_ofText ?_ fun _ _ h => h
    rw [hchars]
    decide +kernel
  obtain ⟨⟨r, work⟩, hwork, hr⟩ := (Option.any_eq_true _ _).1 htransform
  cases r with
  | error e => exact absurd hr nofun
  | ok n =>
    have hfile : Graph.ofFile w.tee.files ({} : Config).dumpPath = .ok g := by
      rw [Graph.ofFile, hread]
      exact hg
    have hwf := (Graph.isLoaded_ofText hg).toWellFormed
    obtain ⟨w₁, hload⟩ := Command.exists_loadDump rfl hfile hwf
    obtain ⟨run, w₂, hrun, -⟩ := exists_execute hload hwork
    exact ⟨w, w₁, w₂, g, run, hload, hrun⟩

theorem hasStandardFlags_of_execute_targets :
    ∃ (w w₁ w₂ : World) (g : Graph) (run : PipelineRun) (scope : Scope),
      Command.loadDump {} w = some (.ok g, w₁) ∧
      (standard .legacy).execute {} w = some (.ok run, w₂) ∧
      ∀ i t, run.graph.get? i = some t → run.graph.IsLive i →
        ∃ s, g.get? i = some s ∧ run.graph.HasStandardFlags scope i s t := by
  obtain ⟨w, w₁, w₂, g, run, hload, hrun⟩ := exists_execute_targets
  obtain ⟨scope, -, h⟩ := hasStandardFlags_of_execute hload hrun
  exact ⟨w, w₁, w₂, g, run, scope, hload, hrun, h⟩

end Pipeline

end Bindery
