import Bindery.Proofs.Pipeline.Conservation
import Bindery.Proofs.Pipeline.Marks

/-!
# Selectors seen from the end

`Selector.Names` says in terms of the graph at the end of a run what a selector is for. At any point
of a run a selector selects what it names there, among the declarations that are live at that point:
`Graph.Shows` collects what has to be known of the two graphs.
-/

namespace Bindery

open Move Bindery.Graph

variable {scope : Scope} {ms ms₀ : List Move} {g h k : Graph} {ns ns₀ : List Nat} {i : DeclId}
  {s t : Slot} {ok : Slot → Prop} {sel : Selector}

namespace Selector

/-- Selectors that do not ask for a place below the main unit. -/
def isLasting : Selector → Bool
  | .namespace _ | .alias _ _ | .templateProperties _ => false
  | _ => true

/-- The declaration has the kind, the name and the class that the selector is for; it satisfies
`ok`, and so does its class. -/
def Names (sel : Selector) (g : Graph) (ok : Slot → Prop) (i : DeclId) : Prop :=
  ∃ s, g.get? i = some s ∧ s.kind = sel.kind ∧ ok s ∧
    match sel with
    | .record name => s.name = name ∧ s.isComplete
    | .member _ owner name => s.name = name ∧ ∃ c u, g.IsParent c i ∧ g.get? c = some u ∧ ok u ∧
      u.kind = .record ∧ u.name = owner ∧ u.isComplete
    | .function name | .enumeration name => s.name = name
    | .enumerationsWithSuffix suffix => endsWith suffix s.name
    | .enumerationsContaining part => contains part s.name
    | .itemsWithSuffix suffix => endsWith suffix s.firstName
    | .namespace _ | .alias _ _ | .templateProperties _ => False

end Selector

namespace Graph

/-- What is live in `k` is `ok` in `h`, and has kept there what selectors ask for. -/
structure Shows (k h : Graph) (ok : Slot → Prop) : Prop where
  exists_slot : ∀ {j t}, h.get? j = some t → ∃ s, k.get? j = some s
  slot : ∀ {j s}, k.get? j = some s → ∃ t, h.get? j = some t ∧ t.kind = s.kind ∧
    t.isComplete = s.isComplete ∧ (s.kind ≠ .alias → s.kind ≠ .item → t.name = s.name) ∧
    (s.kind = .item → t.firstName = s.name) ∧ (s.kind ≠ .namespace → (k.IsLive j ↔ ok t))
  parent : ∀ {j s c}, k.get? j = some s → s.kind.parents = [.record] → k.IsLive j →
    (k.IsParent c j ↔ h.IsParent c j)

theorem Shows.isClass_iff (hsh : k.Shows h ok) {owner : String} {c : DeclId} :
    Selector.IsClass k owner c ↔ ∃ u, h.get? c = some u ∧ ok u ∧ u.kind = .record ∧
      u.name = owner ∧ u.isComplete := by
  constructor
  · rintro ⟨hl, s, hs, hk, hn, hc⟩
    obtain ⟨u, hu, huk, huc, hun, -, hul⟩ := hsh.slot hs
    have hlive := (hul (by rw [hk]; exact nofun)).1 hl
    refine ⟨u, hu, hlive, huk.trans hk, ?_, huc.trans hc⟩
    rw [hun (by rw [hk]; exact nofun) (by rw [hk]; exact nofun), hn]
  · rintro ⟨u, hu, hok, hk, hn, hc⟩
    obtain ⟨s, hs⟩ := hsh.exists_slot hu
    obtain ⟨u', hu', huk, huc, hun, -, hul⟩ := hsh.slot hs
    obtain rfl := Option.some.inj (hu.symm.trans hu')
    rw [huk] at hk
    have hlive := (hul (by rw [hk]; exact nofun)).2 hok
    refine ⟨hlive, s, hs, hk, ?_, huc.symm.trans hc⟩
    rw [← hun (by rw [hk]; exact nofun) (by rw [hk]; exact nofun), hn]

/-- What is neither an alias nor an item nor a namespace has its name still, and is live if it is
`ok`. -/
theorem Shows.live_and_name_iff {kind : Kind} (hsh : k.Shows h ok) (hs : k.get? i = some s)
    (ht : h.get? i = some t) (hkind : s.kind = kind) (hk : kind ∉ [.alias, .item, .namespace])
    (P : String → Prop) : k.IsLive i ∧ P s.name ↔ ok t ∧ P t.name := by
  obtain ⟨t', ht', -, -, hname, -, hlive⟩ := hsh.slot hs
  obtain rfl := Option.some.inj (ht.symm.trans ht')
  simp only [← hkind, List.mem_cons, List.not_mem_nil, or_false, not_or] at hk
  rw [hname hk.1 hk.2.1, hlive hk.2.2]

theorem Shows.member_iff {kind : MemberKind} {owner name : String} (hsh : k.Shows h ok)
    (hk : k.WellFormed) (hs : k.get? i = some s) (ht : h.get? i = some t)
    (hkind : s.kind = kind.kind) :
    (∃ c, k.IsParent c i ∧ Selector.IsClass k owner c) ∧ s.name = name ↔
      ok t ∧ t.name = name ∧ ∃ c u, h.IsParent c i ∧ h.get? c = some u ∧ ok u ∧
        u.kind = .record ∧ u.name = owner ∧ u.isComplete := by
  have hrec : s.kind.parents = [.record] := by
    rw [hkind]
    cases kind <;> rfl
  have hother : kind.kind ∉ [Kind.alias, .item, .namespace] := by cases kind <;> decide
  have hlive := hsh.live_and_name_iff hs ht hkind hother (· = name)
  constructor
  · rintro ⟨⟨c, hc, hclass⟩, hn⟩
    have hl : k.IsLive i := (hk.isRooted.live_of_isParent hc).2 hclass.1
    obtain ⟨u, hu⟩ := hsh.isClass_iff.1 hclass
    obtain ⟨hok, hn⟩ := hlive.1 ⟨hl, hn⟩
    exact ⟨hok, hn, c, u, (hsh.parent hs hrec hl).1 hc, hu⟩
  · rintro ⟨hok, hn, c, u, hc, hu⟩
    obtain ⟨hl, hn⟩ := hlive.2 ⟨hok, hn⟩
    exact ⟨⟨c, (hsh.parent hs hrec hl).2 hc, hsh.isClass_iff.2 ⟨u, hu⟩⟩, hn⟩

/-- A selector selects what it names. -/
theorem Shows.selects_iff (hsh : k.Shows h ok) (hk : k.WellFormed) (hl : sel.isLasting) :
    sel.Selects k scope i ↔ sel.Names h ok i := by
  cases hs : k.get? i with
  | none =>
    have hn : h.get? i = none := by
      cases ht : h.get? i with
      | none => rfl
      | some t =>
        obtain ⟨s, hs'⟩ := hsh.exists_slot ht
        exact absurd (hs'.symm.trans hs) (Option.some_ne_none s)
    simp [Selector.Selects, Selector.Names, hs, hn]
  | some s =>
    obtain ⟨t, ht, htk, htc, -, hti, htl⟩ := hsh.slot hs
    simp only [Selector.Selects, Selector.Names, hs, ht, Option.some.injEq, exists_eq_left', htk]
    refine and_congr_right fun hkind => ?_
    have hnamed := fun (kind : Kind) (hk : s.kind = kind) => hsh.live_and_name_iff hs ht hk
    cases sel with
    | «namespace» _ => exact absurd hl Bool.false_ne_true
    | «alias» _ _ => exact absurd hl Bool.false_ne_true
    | templateProperties _ => exact absurd hl Bool.false_ne_true
    | record name =>
      rw [htc]
      exact hnamed .record hkind (by decide) fun n => n = name ∧ s.isComplete
    | function name => exact hnamed .function hkind (by decide) (· = name)
    | enumeration name => exact hnamed .enumeration hkind (by decide) (· = name)
    | enumerationsWithSuffix suffix =>
      exact hnamed .enumeration hkind (by decide) (Selector.endsWith suffix ·)
    | enumerationsContaining part =>
      exact hnamed .enumeration hkind (by decide) (Selector.contains part ·)
    | itemsWithSuffix suffix =>
      replace hkind : s.kind = .item := hkind
      rw [hti hkind]
      exact and_congr_left fun _ => htl (by rw [hkind]; decide)
    | member kind owner name => exact hsh.member_iff hk hs ht hkind

end Graph

/-! ### Points of a run -/

/-- Members stay in their class. -/
theorem Trace.isParent_iff (ht : Trace scope ms k ns h) (hk : Ready scope (ms ++ []) k)
    (hs : k.get? i = some s) (hrec : s.kind.parents = [.record]) (hl : k.IsLive i) {c : DeclId} :
    k.IsParent c i ↔ h.IsParent c i := by
  have hkeeps := ht.keeps hk
  have hwf := hk.wellFormed
  obtain ⟨t, hi, hst⟩ := hkeeps.slot hs
  -- the class is there before and is no namespace, so it is there after
  have hparent : ∃ d, s.parent = some d ∧ t.parent = some d := by
    cases hp : s.parent with
    | none =>
      obtain ⟨u, hu, ha⟩ := hl
      obtain rfl := ha.eq_of_parent_eq_none hs hp
      have := (hwf.mem_units hs).1 hu
      rw [this] at hrec
      exact absurd hrec nofun
    | some d =>
      obtain ⟨v, hv⟩ := exists_get?_of_lt (hwf.parent_lt ⟨s, hs, hp⟩)
      have hvk : v.kind = .record := by
        have := (hwf.kind_parent hv hs hp).1
        rwa [hrec, List.mem_singleton] at this
      have hh := (ht.ready hk).wellFormed
      refine ⟨d, rfl, ?_⟩
      rcases ht.placed hk i s t hs hi with h' | ⟨hr, -⟩ | ⟨q, w, hq, hw, hr, -⟩ | ⟨hn, -⟩
      · exact h'.trans hp
      · have := (hh.removed hi hr).1
        rw [hst.kind] at this
        rw [this] at hrec
        exact absurd hrec nofun
      · obtain rfl := Option.some.inj (hp.symm.trans hq)
        obtain ⟨w', hw', hvw⟩ := hkeeps.slot hv
        obtain rfl := Option.some.inj (hw.symm.trans hw')
        have := (hh.removed hw hr).1
        rw [hvw.kind, hvk] at this
        exact absurd this nofun
      · exact absurd (hp.symm.trans hn) nofun
  obtain ⟨d, hsd, htd⟩ := hparent
  rw [isParent_iff_of_get? hs, isParent_iff_of_get? hi, hsd, htd]

theorem Flags.isMark_incomplete : Flags.incomplete.IsMark :=
  ⟨Flags.isBit_incomplete, by decide, by decide⟩

theorem Flags.isMark_synthesized : Flags.synthesized.IsMark :=
  ⟨Flags.isBit_synthesized, by decide, by decide⟩

theorem Action.not_sets_incomplete (a : Action) : a.sets .incomplete = false := by
  cases a with
  | rename _ => rfl
  | _ => decide

theorem Action.not_sets_synthesized (a : Action) : a.sets .synthesized = false := by
  cases a with
  | rename _ => rfl
  | _ => decide

/-- A point of a run on a new graph, before any trimming, shows what is at its end. -/
theorem Trace.shows (h₀ : Trace scope ms₀ g ns₀ k) (ht : Trace scope ms k ns h) (hg : g.IsLoaded)
    (hr : Ready scope (ms₀ ++ (ms ++ [])) g)
    (hren : ∀ r name, .rule r ∈ ms₀ ++ ms → r.action = .rename name → r.selector.kind = .alias)
    (htrim : .trim ∉ ms₀)
    (hok : ∀ j s t, k.get? j = some s → h.get? j = some t → s.kind ≠ .namespace →
      (k.IsLive j ↔ ok t)) : k.Shows h ok := by
  have hk := h₀.ready hr
  have hkeeps := ht.keeps hk
  have hkeeps₀ := h₀.keeps hr
  refine ⟨fun ht => ?_, fun {j s} hs => ?_, fun hs hrec hl => ht.isParent_iff hk hs hrec hl⟩
  · obtain ⟨s, hs, -⟩ := hkeeps.exists_slot ht
    exact ⟨s, hs⟩
  · obtain ⟨t, hi, hst⟩ := hkeeps.slot hs
    obtain ⟨u, hu, hus⟩ := hkeeps₀.exists_slot hs
    refine ⟨t, hi, hst.kind, ?_, fun ha hitem => ?_, fun hitem => ?_, hok j s t hs hi⟩
    · rw [Declaration.isComplete, Declaration.isComplete, ht.has_eq_of_unset hk
        Flags.isMark_incomplete (fun r _ => r.action.not_sets_incomplete) j s t hs hi]
    · refine ht.name_eq hk j s t hs hi (fun r name hm hname => ?_) fun _ => hitem
      rw [hren r name (List.mem_append_right _ hm) hname]
      exact ha.symm
    · have hname : s.name = u.name := by
        refine h₀.name_eq hr j u s hu hs (fun r name hm hname => ?_) fun hm => absurd hm htrim
        rw [hren r name (List.mem_append_left _ hm) hname, ← hus.kind, hitem]
        exact nofun
      have hfirst : u.firstName = u.name := by
        rw [Declaration.firstName, (hg.fresh hu).initialName, Option.getD_none]
      rw [hst.firstName, hus.firstName, hfirst, hname]

/-- As long as nothing is attached, what the toolchain made stays apart. -/
theorem Trace.isSplit {rest : List Move} {ws : List Pending} (ht : Trace scope ms g ns h)
    (hg : Ready scope (ms ++ rest) g) (hsplit : g.IsSplit ws) (hno : ∀ p, .attach p ∉ ms) :
    h.IsSplit ws := by
  refine ht.induction (motive := fun ms g _ h => g.IsSplit ws → (∀ p, .attach p ∉ ms) →
    h.IsSplit ws) (fun _ _ hs _ => hs) ?_ hg hsplit hno
  intro m ms g n k ns h hg hm _ hc _ _ ih hsplit hno
  refine ih ⟨?_, ?_, ?_⟩ fun p hp => hno p (List.mem_cons_of_mem m hp)
  all_goals
    have hwf := hg.wellFormed
    have hkeeps := hc.keeps hwf
    have hsame := hm.has_eq_of_unset (show Ready scope ([m] ++ _) g from hg)
      Flags.isMark_synthesized
      fun r _ => r.action.not_sets_synthesized
  · intro p c s t hs ht hp
    obtain ⟨s', hs', -⟩ := hkeeps.exists_slot hs
    obtain ⟨t', ht', -⟩ := hkeeps.exists_slot ht
    rw [hsame p s' s hs' hs, hsame c t' t ht' ht]
    cases hc with
    | inPlace _ _ hpl _ =>
      obtain ⟨v, hv, rfl⟩ := get?_mapSlots_eq_some ht
      obtain rfl := Option.some.inj (ht'.symm.trans hv)
      exact hsplit.edge hs' ht' ((hpl t').2.1.symm.trans hp)
    | cleared =>
      obtain rfl := Option.some.inj (ht'.symm.trans ht)
      exact hsplit.edge hs' ht' hp
    | @hoisted r space v hr hv _ hvp =>
      obtain ⟨w, hw, -, hwp⟩ := hwf.get?_hoisted scope.unit hv ht'
      obtain rfl := Option.some.inj (ht.symm.trans hw)
      rw [hp] at hwp
      split at hwp
      · exact absurd hwp nofun
      · split at hwp
        · next htv =>
          obtain rfl := Option.some.inj hwp
          rw [hsplit.edge hv ht' htv, hsplit.edge hs' hv hvp]
        · exact hsplit.edge hs' ht' hwp.symm
    | @attached _ p _ _ => exact absurd List.mem_cons_self (hno p)
  · intro u s hu hs
    obtain ⟨s', hs', -⟩ := hkeeps.exists_slot hs
    rw [hsame u s' s hs' hs]
    exact hsplit.unit (hkeeps.units ▸ hu) hs'
  · intro p s hp hs
    obtain ⟨s', hs', -⟩ := hkeeps.exists_slot hs
    rw [hsame p.decl s' s hs' hs]
    exact hsplit.waiting hp hs'

end Bindery
