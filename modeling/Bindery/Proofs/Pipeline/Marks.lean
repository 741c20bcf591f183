import Bindery.Proofs.Pipeline.Trace

/-!
# Marks along a trace

Which flags and names a declaration has after moves. A flag is there at the end if it was there
before or a rule on the way sets it and selects the declaration; names change by renaming and, for
items, by trimming.
-/

namespace Bindery

open Move Bindery.Graph

variable {scope : Scope} {m : Move} {ms ms' rest : List Move} {g h k : Graph} {n : Nat}
  {ns : List Nat} {i : DeclId} {s t : Slot} {f : Flags}

theorem Trace.of_append (ht : Trace scope (ms ++ ms') g ns h) :
    ∃ k ns₁ ns₂, ns = ns₁ ++ ns₂ ∧ Trace scope ms g ns₁ k ∧ Trace scope ms' k ns₂ h := by
  induction ms generalizing g ns with
  | nil => exact ⟨g, [], ns, rfl, .nil g, ht⟩
  | cons m ms ih =>
    cases ht with
    | cons hm ht =>
      obtain ⟨k, ns₁, ns₂, rfl, h₁, h₂⟩ := ih ht
      exact ⟨k, _, ns₂, rfl, .cons hm h₁, h₂⟩

/-- A trace of one move does what the move does. -/
theorem Trace.exists_does (ht : Trace scope [m] g ns h) (hg : Ready scope ([m] ++ rest) g) :
    ∃ n, ns = [n] ∧ m.Does scope g n h := by
  refine ht.induction (motive := fun l g ns h => l = [m] → ∃ n, ns = [n] ∧ m.Does scope g n h)
    nofun ?_ hg rfl
  intro m ms g n k ns h _ _ hd _ _ htail _ he
  obtain ⟨rfl, rfl⟩ := List.cons_eq_cons.1 he
  cases htail
  exact ⟨n, rfl, hd⟩

/-! ### One declaration and one move -/

/-- What a move does to what declaration `i` says of itself. -/
inductive Move.Restates (scope : Scope) (g : Graph) (m : Move) (i : DeclId) (s t : Slot) : Prop
  | same (h : t.toDeclaration = s.toDeclaration)
      (hno : ∀ r, m = .rule r → r.action.flag?.isSome → ¬ r.selector.Selects g scope i)
  | removed {r : Rule} (hm : m = .rule r) (ha : r.action = .hoist)
      (h : t.toDeclaration = { s.toDeclaration with flags := s.flags ∪ .removed })
  | marked {r : Rule} {fl : Flags} (hm : m = .rule r) (ha : r.action.flag? = some fl)
      (hsel : r.selector.Selects g scope i)
      (h : t.toDeclaration = { s.toDeclaration with flags := s.flags ∪ fl })
  | renamed {r : Rule} {name : String} (hm : m = .rule r) (ha : r.action = .rename name)
      (hsel : r.selector.Selects g scope i) (h : t.toDeclaration = s.called name)
  | trimmed {name : String} (hm : m = .trim) (hk : s.kind = .item)
      (h : t.toDeclaration = s.called name)

theorem Action.eq_rename {a : Action} (hfl : a.flag? = none) (ha : a ≠ .hoist) :
    ∃ name, a = .rename name := by
  cases a with
  | rename name => exact ⟨name, rfl⟩
  | hoist => exact absurd rfl ha
  | _ => exact absurd hfl (Option.some_ne_none _)

/-- A rule that sets no flag is not one that marks something. -/
theorem Move.not_selects {r : Rule} (hm : m = .rule r) (hfl : r.action.flag? = none) :
    ∀ r', m = .rule r' → r'.action.flag?.isSome → ¬ r'.selector.Selects g scope i := by
  intro r' hm' hset
  obtain rfl := Move.rule.inj (hm.symm.trans hm')
  rw [hfl] at hset
  exact absurd hset Bool.false_ne_true

/-- Hoisting changes what the namespace says of itself. -/
theorem Move.Does.restates_of_hoist {r : Rule} (hd : (Move.rule r).Does scope g n h)
    (hg : g.WellFormed) (ha : r.action = .hoist) (hs : g.get? i = some s)
    (ht : h.get? i = some t) : (Move.rule r).Restates scope g i s t := by
  have hfl : r.action.flag? = none := by rw [ha]; rfl
  rcases hd.hoist_cases ha with ⟨rfl, -⟩ | ⟨space, u, hu, -, -, rfl, -⟩
  · obtain rfl := Option.some.inj (hs.symm.trans ht)
    exact .same rfl (not_selects rfl hfl)
  · obtain ⟨t', ht', he, -⟩ := hg.get?_hoisted scope.unit hu hs
    obtain rfl := Option.some.inj (ht.symm.trans ht')
    split at he
    · exact .removed rfl ha he
    · exact .same he (not_selects rfl hfl)

/-- Other rules change what they select. -/
theorem Move.Does.restates_of_ne_hoist {r : Rule} (hd : (Move.rule r).Does scope g n h)
    (hg : g.WellFormed) (ha : r.action ≠ .hoist) (hs : g.get? i = some s)
    (ht : h.get? i = some t) : (Move.rule r).Restates scope g i s t := by
  obtain ⟨ids, -, hmem, -, -, rfl, -⟩ := hd
  rw [Action.applied_of_ne_hoist ha] at ht
  obtain ⟨u, hu, rfl⟩ := get?_mapSlots_eq_some ht
  obtain rfl := Option.some.inj (hs.symm.trans hu)
  have hsel : s.id ∈ ids ↔ r.selector.Selects g scope i := hg.id_eq hs ▸ hmem i
  by_cases hi : s.id ∈ ids
  · cases hfl : r.action.flag? with
    | some fl =>
      refine .marked rfl hfl (hsel.1 hi) ?_
      rw [Action.change_eq_marked hfl, Slot.marked, if_pos hi]
    | none =>
      obtain ⟨name, har⟩ := Action.eq_rename hfl ha
      have hchange : r.action.change ids s = s.renamed name ids := by rw [har]; rfl
      rw [hchange, Slot.renamed, if_pos hi, Declaration.rename?_eq]
      split
      · exact .same rfl (not_selects rfl hfl)
      · exact .renamed rfl har (hsel.1 hi) rfl
  · refine .same (by rw [r.action.change_of_notMem hi]) fun r' hr _ hsel' => hi (hsel.2 ?_)
    obtain rfl := Move.rule.inj hr
    exact hsel'

theorem Move.Does.restates (hd : m.Does scope g n h) (hg : g.WellFormed)
    (hs : g.get? i = some s) (ht : h.get? i = some t) : m.Restates scope g i s t := by
  cases m with
  | trim =>
    obtain ⟨f, hf, rfl⟩ := hd
    obtain ⟨u, hu, rfl⟩ := get?_mapSlots_eq_some ht
    obtain rfl := Option.some.inj (hs.symm.trans hu)
    rcases hf s with he | ⟨hk, -, name, he⟩
    · exact .same (by rw [he]) fun _ hr => Move.noConfusion hr
    · exact .trimmed rfl hk (by rw [he])
  | clear =>
    subst hd
    obtain rfl := Option.some.inj (hs.symm.trans ht)
    exact .same rfl fun _ hr => Move.noConfusion hr
  | attach p =>
    obtain ⟨target, -, rfl⟩ := hd
    obtain ⟨u, hu, rfl⟩ := get?_mapSlots_eq_some ht
    obtain rfl := Option.some.inj (hs.symm.trans hu)
    exact .same rfl fun _ hr => Move.noConfusion hr
  | rule r =>
    by_cases ha : r.action = .hoist
    · exact hd.restates_of_hoist hg ha hs ht
    · exact hd.restates_of_ne_hoist hg ha hs ht

/-- A move changes flags of a declaration, or gives a name to what a rule selects or to an item. -/
theorem Move.Does.declaration (hd : m.Does scope g n h) (hg : g.WellFormed)
    (hs : g.get? i = some s) (ht : h.get? i = some t) :
    (∃ fl, t.toDeclaration = { s.toDeclaration with flags := fl }) ∨
      ∃ name, t.toDeclaration = s.called name ∧
        ((∃ r, m = .rule r ∧ r.action = .rename name ∧ r.selector.Selects g scope i) ∨
          m = .trim ∧ s.kind = .item) := by
  cases hd.restates hg hs ht with
  | same h _ => exact Or.inl ⟨s.flags, h⟩
  | removed _ _ h => exact Or.inl ⟨_, h⟩
  | marked _ _ _ h => exact Or.inl ⟨_, h⟩
  | renamed hm ha hsel h => exact Or.inr ⟨_, h, Or.inl ⟨_, hm, ha, hsel⟩⟩
  | trimmed hm hk h => exact Or.inr ⟨_, h, Or.inr ⟨hm, hk⟩⟩

/-! ### Flags -/

/-- Whether the action sets the flag on what it is done to. -/
def Action.sets (a : Action) (f : Flags) : Bool := a.flag?.any (·.has f)

theorem Action.isSome_of_sets {a : Action} (h : a.sets f) : a.flag?.isSome := by
  unfold Action.sets at h
  cases ha : a.flag? with
  | none =>
    rw [ha] at h
    exact absurd h Bool.false_ne_true
  | some _ => rfl

/-- A flag of one bit that only rules set. -/
structure Flags.IsMark (f : Flags) : Prop where
  isBit : f.IsBit
  removed : Flags.has .removed f = false
  renamed : Flags.has .renamed f = false

theorem Flags.IsMark.has_called (hf : f.IsMark) (d : Declaration) (name : String) :
    (d.called name).flags.has f = d.flags.has f := by
  rw [Declaration.called, hf.isBit.has_union, hf.renamed, Bool.or_false]

/-- What one move does to a flag. -/
theorem Move.Does.has_iff (hd : m.Does scope g n h) (hg : g.WellFormed) (hf : f.IsMark)
    (hs : g.get? i = some s) (ht : h.get? i = some t) : t.flags.has f ↔ s.flags.has f ∨
      ∃ r, m = .rule r ∧ r.action.sets f ∧ r.selector.Selects g scope i := by
  have hsame : t.flags.has f = s.flags.has f →
      (∀ r, m = .rule r → r.action.flag?.isSome → ¬ r.selector.Selects g scope i) →
      (t.flags.has f ↔ s.flags.has f ∨
        ∃ r, m = .rule r ∧ r.action.sets f ∧ r.selector.Selects g scope i) := by
    intro he hno
    rw [he]
    refine ⟨Or.inl, ?_⟩
    rintro (h' | ⟨r, hr, hset, hsel⟩)
    · exact h'
    · exact absurd hsel (hno r hr (Action.isSome_of_sets hset))
  cases hd.restates hg hs ht with
  | same h hno => exact hsame (by rw [h]) hno
  | removed hm ha h =>
    refine hsame ?_ (not_selects hm (by rw [ha]; rfl))
    rw [h, hf.isBit.has_union, hf.removed, Bool.or_false]
  | @marked r fl hm ha hsel h =>
    have hset : r.action.sets f = fl.has f := by rw [Action.sets, ha, Option.any_some]
    rw [h, hf.isBit.has_union, Bool.or_eq_true, ← hset]
    refine or_congr_right ⟨fun hr => ⟨r, hm, hr, hsel⟩, ?_⟩
    rintro ⟨r', hm', hr, -⟩
    obtain rfl := Move.rule.inj (hm.symm.trans hm')
    exact hr
  | renamed hm ha _ h =>
    refine hsame ?_ (not_selects hm (by rw [ha]; rfl))
    rw [h, hf.has_called]
  | trimmed hm _ h =>
    refine hsame ?_ fun r hm' => absurd (hm.symm.trans hm') nofun
    rw [h, hf.has_called]

/-- A flag that no rule sets stays as it is. -/
theorem Trace.has_eq_of_unset (ht : Trace scope ms g ns h) (hg : Ready scope (ms ++ rest) g)
    (hf : f.IsMark) (hset : ∀ r, .rule r ∈ ms → r.action.sets f = false) :
    ∀ i s t, g.get? i = some s → h.get? i = some t → t.flags.has f = s.flags.has f := by
  refine ht.induction (motive := fun ms g _ h => (∀ r, .rule r ∈ ms → r.action.sets f = false) →
    ∀ i s t, g.get? i = some s → h.get? i = some t → t.flags.has f = s.flags.has f)
    (fun g _ _ i s t hs ht => ?_) ?_ hg hset
  · rw [Option.some.inj (hs.symm.trans ht)]
  intro m ms g n k ns h hg _ hd hc _ _ ih hset i s t hs ht
  obtain ⟨u, hu, -⟩ := (hc.keeps hg.wellFormed).slot hs
  rw [ih (fun r hr => hset r (List.mem_cons_of_mem m hr)) i u t hu ht, Bool.eq_iff_iff,
    hd.has_iff hg.wellFormed hf hs hu]
  refine or_iff_left ?_
  rintro ⟨r, rfl, hr, -⟩
  rw [hset r List.mem_cons_self] at hr
  exact absurd hr nofun

/-- The flags after rules whose selectors mean the same at every point. -/
theorem Trace.has_iff_of_rules {M : Rule → Prop} (hf : f.IsMark) (i : DeclId) :
    ∀ (rs : List Rule) {g : Graph} {ns : List Nat} {s t : Slot},
      Trace scope (rs.map .rule) g ns h → Ready scope (rs.map .rule ++ rest) g →
      (∀ r ∈ rs, r.action.sets f → ∀ ms₁ ms₂ k ns₁ ns₂, ms₁ ++ ms₂ = rs.map Move.rule →
        Trace scope ms₁ g ns₁ k → Trace scope ms₂ k ns₂ h → (r.selector.Selects k scope i ↔ M r)) →
      g.get? i = some s → h.get? i = some t →
      (t.flags.has f ↔ s.flags.has f ∨ ∃ r ∈ rs, r.action.sets f ∧ M r)
  | [], g, ns, s, t, ht, _, _, hs, hi => by
    cases ht
    rw [Option.some.inj (hs.symm.trans hi)]
    simp
  | r :: rs, g, ns, s, t, ht, hg, hM, hs, hi => by
    replace hg : Ready scope ([.rule r] ++ (rs.map .rule ++ rest)) g := hg
    replace ht : Trace scope ([.rule r] ++ rs.map .rule) g ns h := ht
    obtain ⟨k, ns₁, ns₂, -, h₁, h₂⟩ := ht.of_append
    have hk := h₁.ready hg
    obtain ⟨u, hu, -⟩ := (h₁.keeps hg).slot hs
    have hrec := has_iff_of_rules hf i rs h₂ hk (fun q hq hset ms₁ ms₂ l ns₃ ns₄ he hl hr =>
      hM q (List.mem_cons_of_mem r hq) hset (.rule r :: ms₁) ms₂ l _ ns₄ (congrArg _ he)
        (h₁.append hl) hr) hu hi
    have hone : u.flags.has f ↔ s.flags.has f ∨ r.action.sets f ∧ M r := by
      obtain ⟨n, -, hd⟩ := h₁.exists_does hg
      rw [hd.has_iff hg.wellFormed hf hs hu]
      refine or_congr_right ⟨?_, ?_⟩
      · rintro ⟨q, hq, hset, hsel⟩
        obtain rfl := Move.rule.inj hq
        exact ⟨hset, (hM r List.mem_cons_self hset [] _ g [] ns rfl (.nil g) ht).1 hsel⟩
      · rintro ⟨hset, hMr⟩
        exact ⟨r, rfl, hset, (hM r List.mem_cons_self hset [] _ g [] ns rfl (.nil g) ht).2 hMr⟩
    rw [hrec, hone, or_assoc, List.exists_mem_cons_iff]

/-! ### Names -/

/-- Names stay but for renaming of the kind and for trimming of items. -/
theorem Move.Does.name_eq (hd : m.Does scope g n h) (hg : g.WellFormed)
    (hren : ∀ r name, m = .rule r → r.action = .rename name → r.selector.kind ≠ s.kind)
    (htrim : m = .trim → s.kind ≠ .item) (hs : g.get? i = some s) (ht : h.get? i = some t) :
    t.name = s.name := by
  rcases hd.declaration hg hs ht with ⟨fl, he⟩ | ⟨name, -, ⟨r, hm, ha, u, hu, hk, -⟩ | ⟨hm, hk⟩⟩
  · rw [he]
  · obtain rfl := Option.some.inj (hs.symm.trans hu)
    exact absurd hk.symm (hren r name hm ha)
  · exact absurd hk (htrim hm)

theorem Trace.name_eq (ht : Trace scope ms g ns h) (hg : Ready scope (ms ++ rest) g) :
    ∀ i s t, g.get? i = some s → h.get? i = some t →
      (∀ r name, .rule r ∈ ms → r.action = .rename name → r.selector.kind ≠ s.kind) →
      (.trim ∈ ms → s.kind ≠ .item) → t.name = s.name := by
  refine ht.induction (motive := fun ms g _ h => ∀ i s t, g.get? i = some s →
    h.get? i = some t →
      (∀ r name, .rule r ∈ ms → r.action = .rename name → r.selector.kind ≠ s.kind) →
      (.trim ∈ ms → s.kind ≠ .item) → t.name = s.name) (fun g _ i s t hs ht _ _ => ?_) ?_ hg
  · rw [Option.some.inj (hs.symm.trans ht)]
  intro m ms g n k ns h hg _ hd hc _ _ ih i s t hs ht hren htrim
  obtain ⟨u, hu, hsu⟩ := (hc.keeps hg.wellFormed).slot hs
  rw [ih i u t hu ht (fun r name hr => hsu.kind.symm ▸ hren r name (List.mem_cons_of_mem m hr))
    (fun hm => hsu.kind.symm ▸ htrim (List.mem_cons_of_mem m hm))]
  exact hd.name_eq hg.wellFormed (fun r name he => hren r name (he ▸ List.mem_cons_self))
    (fun he => htrim (he ▸ List.mem_cons_self)) hs hu

end Bindery
