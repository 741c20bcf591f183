import Bindery.Proofs.Pipeline.Marking
import Bindery.Proofs.Pipeline.Stage

/-!
# Results that add up

A flag that a rule sets is counted where it is new, and nothing takes it back: so the results of
rules that mark add up to the number of marks. A rule for exactly one declaration counts at most
one; and where the selectors of such rules differ, they are for different declarations, which
`Selector.naming?` tells apart by kind, name and class.
-/

namespace Bindery

open Move Bindery.Graph

variable {scope : Scope} {m : Move} {ms rest : List Move} {g h k : Graph} {n : Nat} {ns : List Nat}
  {i : DeclId} {s t : Slot} {f : Flags} {F : Finset Flags} {a : Action} {r : Rule} {rs : List Rule}
  {ok : Slot → Prop} {sel : Selector}

/-! ### Rules among moves -/

namespace Move

def rule? : Move → Option Rule
  | .rule r => some r
  | _ => none

/-- The rules among moves. -/
def rules (ms : List Move) : List Rule := ms.filterMap rule?

/-- The rules among moves that set a flag. -/
def markers (f : Flags) (ms : List Move) : List Rule := (rules ms).filter (·.action.sets f)

theorem mem_rules : r ∈ rules ms ↔ .rule r ∈ ms := by
  rw [rules, List.mem_filterMap]
  constructor
  · rintro ⟨m, hm, hr⟩
    cases m <;> cases hr
    exact hm
  · exact fun hm => ⟨.rule r, hm, rfl⟩

theorem mem_markers : r ∈ markers f ms ↔ .rule r ∈ ms ∧ r.action.sets f := by
  rw [markers, List.mem_filter, mem_rules]

theorem rules_append (ms ms' : List Move) : rules (ms ++ ms') = rules ms ++ rules ms' :=
  List.filterMap_append

@[simp] theorem rules_map_rule (rs : List Rule) : rules (rs.map .rule) = rs := by
  rw [rules, List.filterMap_map]
  exact List.filterMap_some

theorem markers_append (f : Flags) (ms ms' : List Move) :
    markers f (ms ++ ms') = markers f ms ++ markers f ms' := by
  rw [markers, rules_append, List.filter_append]
  rfl

theorem markers_map_rule (hrs : ∀ r ∈ rs, r.action.sets f) : markers f (rs.map .rule) = rs := by
  rw [markers, rules_map_rule, List.filter_eq_self]
  exact hrs

end Move

/-! ### Marks -/

theorem Flags.IsBit.eq_of_has {f' : Flags} (hf : f.IsBit) (hf' : f'.IsBit) (h : f.has f') :
    f = f' := by
  obtain ⟨b, hb⟩ := hf'.exists_has
  obtain ⟨i, hi, -⟩ := hf
  obtain ⟨j, hj, -⟩ := hf'
  have h₁ := hb f
  have h₂ := hb f'
  rw [h, hi, BitVec.getLsbD_twoPow] at h₁
  rw [Flags.has_self, hj, BitVec.getLsbD_twoPow] at h₂
  obtain ⟨-, rfl⟩ : i < 16 ∧ i = b := by simpa using h₁.symm
  obtain ⟨-, rfl⟩ : j < 16 ∧ j = i := by simpa using h₂.symm
  exact congrArg Flags.mk (hi.trans hj.symm)

theorem Action.sets_iff (hf : f.IsBit) : a.sets f ↔ a.flag? = some f := by
  unfold Action.sets
  cases ha : a.flag? with
  | none => simp
  | some f' =>
    rw [Option.any_some, Option.some.injEq]
    refine ⟨fun h => (Action.isBit_of_flag? ha).1.eq_of_has hf h, ?_⟩
    rintro rfl
    exact Flags.has_self f'

/-- How many marks there are in all, each flag counted for itself. -/
def Graph.marks (g : Graph) (F : Finset Flags) : Nat := ∑ f ∈ F, (g.bearers f).card

/-- A rule counts the declarations that did not bear its flag before. -/
theorem Move.Does.card_bearers (hd : (Move.rule r).Does scope g n h) (hg : g.WellFormed)
    (hf : f.IsMark) : (h.bearers f).card =
      (g.bearers f).card + if r.action.flag? = some f then n else 0 := by
  have hkeeps := (hd.changes hg).keeps hg
  obtain ⟨ids, hnd, hids, -, -, -, hn⟩ := id hd
  set new := ids.filter fun i => (g.get? i).any r.action.alters with hnew
  have hmem : ∀ i s, g.get? i = some s → (i ∈ new ↔ i ∈ ids ∧ r.action.alters s) := by
    intro i s hs
    rw [hnew, List.mem_filter, hs, Option.any_some]
  have hhas : ∀ i s t, g.get? i = some s → h.get? i = some t →
      (t.flags.has f ↔ s.flags.has f ∨ r.action.flag? = some f ∧ i ∈ ids) := by
    intro i s t hs ht
    rw [hd.has_iff hg hf hs ht, ← Action.sets_iff hf.isBit, hids]
    refine or_congr_right ⟨?_, fun h => ⟨r, rfl, h⟩⟩
    rintro ⟨r', hr, h⟩
    exact Move.rule.inj hr ▸ h
  split
  · next ha =>
    rw [hn, Action.changes, List.countP_eq_length_filter, ← hnew,
      ← List.toFinset_card_of_nodup (hnd.filter _)]
    refine hkeeps.card_slotsWhere (fun i hi => ?_) fun i s t hs ht => ?_
    · obtain ⟨s, hs, -⟩ := (hids i).1 (List.mem_filter.1 (List.mem_toFinset.1 hi)).1
      have := ((hmem i s hs).1 (List.mem_toFinset.1 hi)).2
      rw [Action.alters_of_flag? ha] at this
      exact ⟨s, hs, by simpa using this⟩
    · rw [hhas i s t hs ht, List.mem_toFinset, hmem i s hs, Action.alters_of_flag? ha]
      cases s.flags.has f <;> simp [ha]
  · next ha =>
    rw [Nat.add_zero, bearers, hkeeps.slotsWhere_eq fun i s t hs ht => ?_]
    · rfl
    · rw [Bool.eq_iff_iff, hhas i s t hs ht]
      simp [ha]

theorem Move.Does.marks_eq (hd : (Move.rule r).Does scope g n h) (hg : g.WellFormed)
    (hF : ∀ f ∈ F, f.IsMark) (hr : r.action.flag?.any (· ∈ F)) : h.marks F = g.marks F + n := by
  obtain ⟨f, hf, hm⟩ := (Option.any_eq_true _ _).1 hr
  rw [Graph.marks, Finset.sum_congr rfl fun f hm => hd.card_bearers hg (hF f hm),
    Finset.sum_add_distrib, ← Graph.marks, hf]
  simp only [Option.some.injEq, Finset.sum_ite_eq, if_pos (of_decide_eq_true hm)]

namespace Trace

/-- The results of rules that mark add up to the new marks. -/
theorem marks_eq (ht : Trace scope (rs.map .rule) g ns h)
    (hg : Ready scope (rs.map .rule ++ rest) g) (hF : ∀ f ∈ F, f.IsMark)
    (hrs : ∀ r ∈ rs, r.action.flag?.any (· ∈ F)) : h.marks F = g.marks F + ns.sum := by
  refine ht.induction (motive := fun ms g ns h => (∀ r, .rule r ∈ ms → r.action.flag?.any (· ∈ F))
    → (∀ m ∈ ms, ∃ r, m = .rule r) → h.marks F = g.marks F + ns.sum) (fun _ _ _ _ => rfl) ?_ hg
    (fun r hr => hrs r (by simpa using hr)) (by simp)
  intro m ms g n k ns h hg _ hd _ _ _ ih hall hrule
  obtain ⟨r, rfl⟩ := hrule m List.mem_cons_self
  rw [ih (fun r hr => hall r (List.mem_cons_of_mem _ hr)) fun m hm =>
    hrule m (List.mem_cons_of_mem _ hm), hd.marks_eq hg.wellFormed hF (hall r List.mem_cons_self),
    List.sum_cons, Nat.add_assoc]

/-- Moves that do not set a flag leave its bearers alone. -/
theorem bearers_eq (ht : Trace scope ms g ns h) (hg : Ready scope (ms ++ rest) g) (hf : f.IsMark)
    (hset : ∀ r, .rule r ∈ ms → r.action.sets f = false) : h.bearers f = g.bearers f :=
  (ht.keeps hg).slotsWhere_eq fun i s t hs hi => ht.has_eq_of_unset hg hf hset i s t hs hi

/-- What bears a flag is of a kind that the flag is given to, unless it always bore it. -/
theorem kind_of_has {P : Kind → Prop} (ht : Trace scope ms g ns h)
    (hg : Ready scope (ms ++ rest) g) (hf : f.IsMark)
    (h₀ : ∀ i s, g.get? i = some s → s.flags.has f → P s.kind)
    (hset : ∀ r ∈ rules ms, r.action.sets f → P r.selector.kind) (hi : h.get? i = some t)
    (hm : t.flags.has f) : P t.kind := by
  refine ht.induction (motive := fun ms g _ h =>
    (∀ i s, g.get? i = some s → s.flags.has f → P s.kind) →
    (∀ r, .rule r ∈ ms → r.action.sets f → P r.selector.kind) →
    ∀ i t, h.get? i = some t → t.flags.has f → P t.kind) (fun _ _ h₀ _ => h₀) ?_ hg h₀
    (fun r hr => hset r (mem_rules.2 hr)) i t hi hm
  intro m ms g n k ns h hg _ hd hc _ _ ih h₀ hset
  refine ih (fun i t hi hm => ?_) fun r hr => hset r (List.mem_cons_of_mem m hr)
  obtain ⟨s, hs, hst⟩ := (hc.keeps hg.wellFormed).exists_slot hi
  rw [hst.kind]
  rcases (hd.has_iff hg.wellFormed hf hs hi).1 hm with hm | ⟨r, rfl, hr, s', hs', hk, -⟩
  · exact h₀ i s hs hm
  · obtain rfl := Option.some.inj (hs.symm.trans hs')
    exact hk ▸ hset r List.mem_cons_self hr

end Trace

/-! ### Rules for one declaration -/

/-- The rules are for one declaration each, and for different ones. -/
structure Rule.Apart (rs : List Rule) : Prop where
  one : ∀ r ∈ rs, r.selector.isUnique ∧ r.selector.isLasting
  nodup : (rs.map (·.selector)).Nodup

instance (rs : List Rule) : Decidable (Rule.Apart rs) :=
  decidable_of_iff ((∀ r ∈ rs, r.selector.isUnique ∧ r.selector.isLasting) ∧
    (rs.map (·.selector)).Nodup) ⟨fun h => ⟨h.1, h.2⟩, fun h => ⟨h.one, h.nodup⟩⟩

theorem Move.Does.le_one (hd : (Move.rule r).Does scope g n h) (hu : r.selector.isUnique) :
    n ≤ 1 := by
  obtain ⟨ids, -, -, huniq, -, -, rfl⟩ := hd
  obtain ⟨i, rfl⟩ := huniq hu
  exact List.countP_le_length

theorem Move.Does.eq_one_of_hoist (hd : (Move.rule r).Does scope g n h)
    (hu : r.selector.isUnique) (ha : r.action = .hoist) : n = 1 := by
  obtain ⟨ids, -, hids, huniq, -, -, rfl⟩ := hd
  obtain ⟨i, rfl⟩ := huniq hu
  obtain ⟨s, hs, -⟩ := (hids i).1 (List.mem_singleton_self i)
  simp [Action.changes, Action.alters, ha, hs]

namespace Selector

/-- The selector that is for a declaration by its kind, its name and its class. -/
def naming? (g : Graph) (i : DeclId) : Option Selector := do
  let s ← g.get? i
  match s.kind with
  | .record => return .record s.name
  | .function => return .function s.name
  | .enumeration => return .enumeration s.name
  | .method => return .member .method (← g.get? (← s.parent)).name s.name
  | .property => return .member .property (← g.get? (← s.parent)).name s.name
  | _ => none

theorem Names.naming?_eq (h : sel.Names g ok i) (hu : sel.isUnique) :
    naming? g i = some sel := by
  obtain ⟨s, hs, hk, -, h⟩ := h
  cases sel with
  | record name =>
    obtain ⟨rfl, -⟩ := h
    simp [naming?, hs, hk, kind]
  | function name =>
    subst h
    simp [naming?, hs, hk, kind]
  | enumeration name =>
    subst h
    simp [naming?, hs, hk, kind]
  | member kind owner name =>
    obtain ⟨rfl, c, u, hc, hget, -, -, rfl, -⟩ := h
    have hp := (isParent_iff_of_get? hs).1 hc
    cases kind <;> simp [naming?, hs, hk, Selector.kind, MemberKind.kind, hp, hget]
  | «namespace» _ => exact h.elim
  | «alias» _ _ => exact h.elim
  | templateProperties _ => exact h.elim
  | _ => exact absurd hu Bool.false_ne_true

end Selector

/-- What a rule for one declaration marked bears the flag ever after, and its name tells it. -/
theorem Trace.exists_marked {ms' : List Move} {n₀ n₁ : List Nat} (h₀ : Trace scope ms g n₀ k)
    (h₁ : Trace scope ms' k n₁ h) (hg : g.IsLoaded) (hr : Ready scope (ms ++ (ms' ++ [])) g)
    (hren : ∀ r name, .rule r ∈ ms ++ ms' → r.action = .rename name → r.selector.kind = .alias)
    (htrim : .trim ∉ ms) (hf : f.IsMark) (hm : .rule r ∈ ms) (hset : r.action.sets f)
    (hu : r.selector.isUnique) (hl : r.selector.isLasting) :
    ∃ i ∈ k.bearers f, Selector.naming? h i = some r.selector := by
  obtain ⟨ms₁, ms₂, rfl⟩ := List.append_of_mem hm
  obtain ⟨l, m₁, m₂, -, e₁, e₂⟩ := h₀.of_append
  replace e₂ : Trace scope ([.rule r] ++ ms₂) l m₂ k := e₂
  obtain ⟨l', m₃, m₄, -, e₃, e₄⟩ := e₂.of_append
  have hk := h₀.ready hr
  rw [List.append_assoc] at hr hren
  have hl₁ : Ready scope ([.rule r] ++ (ms₂ ++ (ms' ++ []))) l := e₁.ready hr
  obtain ⟨n, -, hd⟩ := e₃.exists_does hl₁
  obtain ⟨ids, -, hids, huniq, -⟩ := id hd
  obtain ⟨i, rfl⟩ := huniq hu
  have hsel := (hids i).1 (List.mem_singleton_self i)
  have hshows : l.Shows h fun t => l.IsLive t.id := by
    refine e₁.shows (e₂.append h₁) hg (by simpa using hr) hren
      (fun hm => htrim (List.mem_append_left _ hm)) fun j s t _ ht _ => ?_
    rw [(h₁.ready hk).wellFormed.id_eq ht]
  refine ⟨i, ?_, ((hshows.selects_iff hl₁.wellFormed hl).1 hsel).naming?_eq hu⟩
  obtain ⟨s, hs, -⟩ := id hsel
  obtain ⟨t, ht, -⟩ := (e₃.keeps hl₁).slot hs
  obtain ⟨u, hu', htu⟩ := (e₄.keeps (e₃.ready hl₁)).slot ht
  have hhas : t.flags.has f := (hd.has_iff hl₁.wellFormed hf hs ht).2 (Or.inr ⟨r, rfl, hset, hsel⟩)
  exact (mem_bearers_of_get? hu').2 (htu.flag hhas)

/-- Rules for one declaration each, with different selectors, mark as many as they are. -/
theorem Trace.length_markers_le {ms' : List Move} {n₀ n₁ : List Nat}
    (h₀ : Trace scope ms g n₀ k) (h₁ : Trace scope ms' k n₁ h) (hg : g.IsLoaded)
    (hr : Ready scope (ms ++ (ms' ++ [])) g)
    (hren : ∀ r name, .rule r ∈ ms ++ ms' → r.action = .rename name → r.selector.kind = .alias)
    (htrim : .trim ∉ ms) (hf : f.IsMark) (hapart : Rule.Apart (markers f ms)) :
    (markers f ms).length ≤ (k.bearers f).card := by
  have hsub : (((markers f ms).map (·.selector)).map some).toFinset ⊆
      (k.bearers f).image (Selector.naming? h) := by
    intro x hx
    simp only [List.mem_toFinset, List.mem_map, exists_exists_and_eq_and] at hx
    obtain ⟨r, hr', rfl⟩ := hx
    obtain ⟨hu, hl⟩ := hapart.one r hr'
    obtain ⟨hm, hset⟩ := mem_markers.1 hr'
    exact Finset.mem_image.2 (h₀.exists_marked h₁ hg hr hren htrim hf hm hset hu hl)
  calc (markers f ms).length = (((markers f ms).map (·.selector)).map some).toFinset.card := by
        rw [List.toFinset_card_of_nodup (hapart.nodup.map (Option.some_injective _)),
          List.length_map, List.length_map]
    _ ≤ ((k.bearers f).image (Selector.naming? h)).card := Finset.card_le_card hsub
    _ ≤ (k.bearers f).card := Finset.card_image_le

/-- Rules for one declaration each mark no more than they are. -/
theorem Trace.card_bearers_le (ht : Trace scope ms g ns h) (hg : Ready scope (ms ++ rest) g)
    (hf : f.IsMark) (hone : ∀ r ∈ markers f ms, r.selector.isUnique) :
    (h.bearers f).card ≤ (g.bearers f).card + (markers f ms).length := by
  refine ht.induction (motive := fun ms g _ h => (∀ r ∈ markers f ms, r.selector.isUnique) →
    (h.bearers f).card ≤ (g.bearers f).card + (markers f ms).length) (fun _ _ _ => le_rfl) ?_ hg
    hone
  intro m ms g n k ns h hg hm hd _ _ _ ih hone
  have hsplit : markers f (m :: ms) = markers f [m] ++ markers f ms := markers_append f [m] ms
  have hrest := ih fun r hr => hone r (by rw [hsplit]; exact List.mem_append_right _ hr)
  have hstep : (k.bearers f).card ≤ (g.bearers f).card + (markers f [m]).length := by
    by_cases hset : ∃ r, m = .rule r ∧ r.action.sets f
    · obtain ⟨r, rfl, hset⟩ := hset
      have hmem : r ∈ markers f [.rule r] :=
        mem_markers.2 ⟨List.mem_singleton_self _, hset⟩
      have hn := hd.le_one (hone r (by rw [hsplit]; exact List.mem_append_left _ hmem))
      have hlen := List.length_pos_of_mem hmem
      have hcard := hd.card_bearers hg.wellFormed hf
      split at hcard <;> omega
    · rw [hm.bearers_eq hg hf fun r hr => ?_]
      · exact Nat.le_add_right _ _
      · rw [← Bool.not_eq_true]
        exact fun hs => hset ⟨r, (List.mem_singleton.1 hr).symm, hs⟩
  rw [hsplit, List.length_append]
  omega

/-- Rules for different declarations mark exactly as many as they are. -/
theorem Trace.card_bearers_eq {ms' : List Move} {n₀ n₁ : List Nat} (h₀ : Trace scope ms g n₀ k)
    (h₁ : Trace scope ms' k n₁ h) (hg : g.IsLoaded) (hr : Ready scope (ms ++ (ms' ++ [])) g)
    (hren : ∀ r name, .rule r ∈ ms ++ ms' → r.action = .rename name → r.selector.kind = .alias)
    (htrim : .trim ∉ ms) (hf : f.IsMark) (hnone : g.bearers f = ∅)
    (hapart : Rule.Apart (markers f ms)) : (k.bearers f).card = (markers f ms).length := by
  refine le_antisymm ?_ (h₀.length_markers_le h₁ hg hr hren htrim hf hapart)
  have := h₀.card_bearers_le hr hf fun r hr => (hapart.one r hr).1
  rwa [hnone, Finset.card_empty, Nat.zero_add] at this

end Bindery
