import Bindery.Proofs.Pipeline.Count

/-!
# New names that add up

Until items are trimmed, only typedefs have had another name, and what they are called now was given
by a rule. So a rule that looks for a typedef under a name that no rule gives finds one that has
never had another name, and every renaming is counted once. Trimming counts the items that it gives
a name.
-/

namespace Bindery

open Move Bindery.Graph

variable {scope : Scope} {m : Move} {ms rest : List Move} {g h k : Graph} {n : Nat} {ns : List Nat}
  {i : DeclId} {s t : Slot} {r : Rule} {rs : List Rule} {kind : Kind} {names : List String}
  {ids : List DeclId}

/-- Only typedefs have had another name, and they are called by one of `names`. -/
def Graph.RenamesAliases (g : Graph) (names : List String) : Prop :=
  ∀ i s, g.get? i = some s → s.initialName.isSome → s.kind = .alias ∧ s.name ∈ names

/-- A typedef gets one of `names`, and is looked for under another name. -/
def Rule.NamesAlias (r : Rule) (names : List String) : Prop :=
  ∃ space old name, r.selector = .alias space old ∧ r.action = .rename name ∧ old ∉ names ∧
    name ∈ names

/-- If the rule renames something, then a typedef, and to one of `names`. -/
def Rule.renamesOnly (names : List String) (r : Rule) : Bool :=
  match r.action with
  | .rename name => r.selector.kind == .alias && names.contains name
  | _ => true

theorem Rule.renamesOnly_iff : r.renamesOnly names ↔
    ∀ name, r.action = .rename name → r.selector.kind = .alias ∧ name ∈ names := by
  unfold renamesOnly
  cases r.action with
  | rename name => simp
  | _ => simp

/-! ### One move -/

namespace Move.Does

theorem renamesAliases (hd : m.Does scope g n h) (hg : g.WellFormed) (hn : g.RenamesAliases names)
    (hren : ∀ r, m = .rule r → r.renamesOnly names) (htrim : m ≠ .trim) :
    h.RenamesAliases names := by
  intro i t ht hi
  obtain ⟨s, hs, hst⟩ := ((hd.changes hg).keeps hg).exists_slot ht
  rcases hd.declaration hg hs ht with ⟨fl, he⟩ | ⟨name, he, ⟨r, hm, ha, u, hu, hk, -⟩ | ⟨hm, -⟩⟩
  · rw [he] at hi ⊢
    exact hn i s hs hi
  · obtain rfl := Option.some.inj (hs.symm.trans hu)
    obtain ⟨halias, hmem⟩ := Rule.renamesOnly_iff.1 (hren r hm) name ha
    exact ⟨hst.kind.trans (hk.trans halias), by rw [he]; exact hmem⟩
  · exact absurd hm htrim

theorem renamed_eq (hd : m.Does scope g n h) (hg : g.WellFormed)
    (hren : ∀ r name, m = .rule r → r.action = .rename name → r.selector.kind ≠ kind)
    (htrim : m = .trim → kind ≠ .item) : h.renamed kind = g.renamed kind := by
  have hkeeps := (hd.changes hg).keeps hg
  refine hkeeps.slotsWhere_eq fun i s t hs ht => ?_
  have hkind : s.kind ≠ kind → (t.kind == kind && t.initialName.isSome) =
      (s.kind == kind && s.initialName.isSome) := by
    intro hne
    obtain ⟨t', ht', hst⟩ := hkeeps.slot hs
    obtain rfl := Option.some.inj (ht.symm.trans ht')
    rw [hst.kind, beq_eq_false_iff_ne.2 hne, Bool.false_and, Bool.false_and]
  rcases hd.declaration hg hs ht with ⟨fl, he⟩ | ⟨name, -, ⟨r, hm, ha, u, hu, hk, -⟩ | ⟨hm, hk⟩⟩
  · rw [he]
  · obtain rfl := Option.some.inj (hs.symm.trans hu)
    exact hkind (hk ▸ hren r name hm ha)
  · exact hkind (hk ▸ (htrim hm).symm)

/-- A rule that looks for a typedef under a name that is not given finds one with its first name. -/
theorem card_renamed (hd : (Move.rule r).Does scope g n h) (hg : g.WellFormed)
    (hn : g.RenamesAliases names) (hr : r.NamesAlias names) :
    n = 1 ∧ (h.renamed .alias).card = (g.renamed .alias).card + 1 := by
  have hkeeps := (hd.changes hg).keeps hg
  obtain ⟨space, old, name, hsel, ha, hold, hname⟩ := hr
  obtain ⟨ids, -, hids, huniq, -, rfl, rfl⟩ := hd
  obtain ⟨i, rfl⟩ := huniq (by rw [hsel]; rfl)
  have hi := (hids i).1 (List.mem_singleton_self i)
  rw [hsel] at hi
  obtain ⟨s, hs, hk, -, rfl⟩ := hi
  have hne : s.name ≠ name := fun he => hold (he ▸ hname)
  have hfirst : s.initialName.isSome = false := by
    rw [← Bool.not_eq_true]
    exact fun hi => hold (hn i s hs hi).2
  rw [ha] at hkeeps ⊢
  refine ⟨by simp [Action.changes, Action.alters, hs, hne], ?_⟩
  rw [← Finset.card_singleton i]
  refine hkeeps.card_slotsWhere (fun j hj => ?_) fun j u t hu ht => ?_
  · rw [Finset.mem_singleton.1 hj]
    exact ⟨s, hs, by rw [hfirst, Bool.and_false]⟩
  · obtain ⟨u', hu', rfl⟩ := get?_mapSlots_eq_some ht
    obtain rfl := Option.some.inj (hu.symm.trans hu')
    rw [Finset.mem_singleton]
    by_cases hj : j = i
    · subst hj
      obtain rfl := Option.some.inj (hu.symm.trans hs)
      have hk : u.kind = .alias := hk
      simp [Action.change, Slot.renamed, hg.id_eq hu, Declaration.rename?_eq, hne,
        Declaration.called, hk]
    · simp [Action.change, Slot.renamed, hg.id_eq hu, hj]

end Move.Does

theorem Graph.Trims.card_renamed (hg : g.IsNumbered) (h' : g.Trims ids h)
    (hn : ∀ i s, g.get? i = some s → s.kind = .item → s.initialName = none) :
    (h.renamed .item).card = ids.length := by
  have hkeeps := Keeps.itemsRenamed (h'.itemsRenamed hg)
  have hnone : g.renamed .item = ∅ := by
    refine Finset.eq_empty_of_forall_notMem fun i hi => ?_
    obtain ⟨s, hs, hp⟩ := mem_slotsWhere.1 hi
    obtain ⟨hk, hi⟩ := by simpa using hp
    rw [hn i s hs hk] at hi
    exact absurd hi nofun
  obtain ⟨hnd, hitem, name, rfl⟩ := h'
  rw [renamed, hkeeps.card_slotsWhere (S := ids.toFinset) (fun i hi => ?_) fun i s t hs ht => ?_,
    ← renamed, hnone, Finset.card_empty, Nat.zero_add, List.toFinset_card_of_nodup hnd]
  · obtain ⟨s, hs, hk, -⟩ := hitem i (List.mem_toFinset.1 hi)
    exact ⟨s, hs, by rw [hn i s hs hk]; exact Bool.and_false _⟩
  · obtain ⟨u, hu, rfl⟩ := get?_mapSlots_eq_some ht
    obtain rfl := Option.some.inj (hs.symm.trans hu)
    rw [List.mem_toFinset, Slot.calledIn, hg i s hs]
    split
    · next hi =>
      obtain ⟨u, hu, hk, -⟩ := hitem i hi
      obtain rfl := Option.some.inj (hs.symm.trans hu)
      simp [Declaration.called, hk, hi]
    · next hi => simp [hi]

/-! ### Rows of moves -/

namespace Trace

theorem renamesAliases (ht : Trace scope ms g ns h) (hg : Ready scope (ms ++ rest) g)
    (hn : g.RenamesAliases names) (hren : ∀ r ∈ rules ms, r.renamesOnly names)
    (htrim : .trim ∉ ms) : h.RenamesAliases names := by
  refine ht.induction (motive := fun ms g _ h => g.RenamesAliases names →
    (∀ r, .rule r ∈ ms → r.renamesOnly names) → .trim ∉ ms → h.RenamesAliases names)
    (fun _ _ hn _ _ => hn) ?_ hg hn (fun r hr => hren r (mem_rules.2 hr)) htrim
  intro m ms g n k ns h hg _ hd _ _ _ ih hn hren htrim
  rw [List.mem_cons, not_or] at htrim
  exact ih (hd.renamesAliases hg.wellFormed hn (fun r he => hren r (he ▸ List.mem_cons_self))
    (Ne.symm htrim.1)) (fun r hr => hren r (List.mem_cons_of_mem m hr)) htrim.2

theorem renamed_eq (ht : Trace scope ms g ns h) (hg : Ready scope (ms ++ rest) g)
    (hren : ∀ r name, .rule r ∈ ms → r.action = .rename name → r.selector.kind ≠ kind)
    (htrim : .trim ∈ ms → kind ≠ .item) : h.renamed kind = g.renamed kind := by
  refine ht.induction (motive := fun ms g _ h =>
    (∀ r name, .rule r ∈ ms → r.action = .rename name → r.selector.kind ≠ kind) →
    (.trim ∈ ms → kind ≠ .item) → h.renamed kind = g.renamed kind) (fun _ _ _ _ => rfl) ?_ hg
    hren htrim
  intro m ms g n k ns h hg _ hd _ _ _ ih hren htrim
  rw [ih (fun r name hr => hren r name (List.mem_cons_of_mem m hr))
    fun hm => htrim (List.mem_cons_of_mem m hm)]
  exact hd.renamed_eq hg.wellFormed (fun r name he => hren r name (he ▸ List.mem_cons_self))
    fun he => htrim (he ▸ List.mem_cons_self)

/-- Every rule gives a name to another typedef. -/
theorem card_renamed (ht : Trace scope (rs.map .rule) g ns h)
    (hg : Ready scope (rs.map .rule ++ rest) g) (hn : g.RenamesAliases names)
    (hrs : ∀ r ∈ rs, r.NamesAlias names) :
    ns.sum = rs.length ∧ (h.renamed .alias).card = (g.renamed .alias).card + rs.length := by
  have hlen : (rs.map Move.rule).length = rs.length := List.length_map _
  rw [← hlen]
  refine ht.induction (motive := fun ms g ns h => g.RenamesAliases names →
    (∀ m ∈ ms, ∃ r, m = .rule r ∧ r.NamesAlias names) → ns.sum = ms.length ∧
      (h.renamed .alias).card = (g.renamed .alias).card + ms.length) (fun _ _ _ _ => ⟨rfl, rfl⟩) ?_
    hg hn (by simpa using hrs)
  intro m ms g n k ns h hg _ hd _ _ _ ih hn hall
  obtain ⟨r, rfl, hr⟩ := hall m List.mem_cons_self
  obtain ⟨rfl, hcard⟩ := hd.card_renamed hg.wellFormed hn hr
  have hk : k.RenamesAliases names := by
    refine hd.renamesAliases hg.wellFormed hn (fun r' he => ?_) nofun
    obtain rfl := Move.rule.inj he
    obtain ⟨space, old, name, hsel, ha, -, hname⟩ := hr
    rw [Rule.renamesOnly, ha, hsel]
    simpa using ⟨rfl, hname⟩
  obtain ⟨hsum, hcard'⟩ := ih hk fun m hm => hall m (List.mem_cons_of_mem _ hm)
  rw [List.sum_cons, List.length_cons, hcard', hcard]
  omega

/-- Trimming counts the items that have had another name. -/
theorem sum_trim (ht : Trace scope [.trim] g ns h) (hg : Ready scope ([.trim] ++ rest) g)
    (hn : g.RenamesAliases names) : ns.sum = (h.renamed .item).card := by
  cases ht with
  | cons hm ht =>
    cases ht
    obtain ⟨res, w', hw', hok, -⟩ := Step.runs_iff.1
      (Trim.runs_run_counted (E := fun _ _ => True) hg.wellFormed.isRooted)
    obtain ⟨rfl, rfl⟩ := Prod.mk.inj (Option.some.inj (hm.symm.trans hw'))
    obtain ⟨⟨ids, htrims, hcount⟩, -⟩ := hok _ rfl
    rw [List.sum_singleton, hcount, htrims.card_renamed hg.wellFormed.isNumbered]
    intro i s hs hk
    rw [← Option.not_isSome_iff_eq_none]
    exact fun hi => absurd (hk.symm.trans (hn i s hs hi).1) nofun

end Trace

end Bindery
