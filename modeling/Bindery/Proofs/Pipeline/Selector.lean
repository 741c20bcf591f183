import Bindery.Pipeline.Selector
import Bindery.Proofs.Graph.Kinds

/-!
# What selectors find

`Selector.Selects` says upwards what a selector is for: kind, name, and where the declaration
stands. In a forest below units a search always has an answer; if it succeeds, it has found exactly
the declarations that are selected. In a well-formed graph no file is ambiguous.
-/

namespace Bindery

open Relation

variable {g : Graph} {i u : DeclId} {s : Slot} {scope : Scope} {ids : List DeclId}

namespace Selector

/-- The kind of declarations that a selector is for. -/
def kind : Selector → Kind
  | .namespace _ => .namespace
  | .record _ => .record
  | .member kind _ _ => kind.kind
  | .function _ => .function
  | .enumeration _ | .enumerationsWithSuffix _ | .enumerationsContaining _ => .enumeration
  | .alias _ _ => .alias
  | .itemsWithSuffix _ => .item
  | .templateProperties _ => .property

/-- Whether the selector is for declarations wherever they are live. -/
def isGraphWide : Selector → Bool
  | .namespace _ | .alias _ _ | .templateProperties _ => false
  | _ => true

/-- Whether the selector is for all live declarations of a kind and with names of a form. -/
def isLiveSet : Selector → Bool
  | .enumerationsWithSuffix _ | .enumerationsContaining _ | .itemsWithSuffix _ => true
  | _ => false

theorem isGraphWide_of_isLiveSet {sel : Selector} (h : sel.isLiveSet) : sel.isGraphWide := by
  cases sel with
  | enumerationsWithSuffix _ | enumerationsContaining _ | itemsWithSuffix _ => rfl
  | _ => exact absurd h Bool.false_ne_true

theorem resolve_eq_of_isGraphWide {sel : Selector} (h : sel.isGraphWide) (g : Graph)
    (scope scope' : Scope) : sel.resolve g scope = sel.resolve g scope' := by
  cases sel with
  | «namespace» _ | «alias» _ _ | templateProperties _ => exact absurd h Bool.false_ne_true
  | _ => rfl

/-- The live class of a name that has a body. -/
def IsClass (g : Graph) (name : String) (i : DeclId) : Prop :=
  g.IsLive i ∧ ∃ s, g.get? i = some s ∧ s.kind = .record ∧ s.name = name ∧ s.isComplete

/-- A namespace right below the main unit. -/
def IsSpace (g : Graph) (scope : Scope) (name : Option String) (i : DeclId) : Prop :=
  g.IsParent scope.unit i ∧
    ∃ s, g.get? i = some s ∧ s.kind = .namespace ∧ ∀ n, name = some n → s.name = n

/-- What a selector asks of a declaration of its kind. -/
def Selects (sel : Selector) (g : Graph) (scope : Scope) (i : DeclId) : Prop :=
  ∃ s, g.get? i = some s ∧ s.kind = sel.kind ∧
    match sel with
    | .namespace name => g.IsParent scope.unit i ∧ ∀ n, name = some n → s.name = n
    | .record name => g.IsLive i ∧ s.name = name ∧ s.isComplete
    | .member _ owner name => (∃ c, g.IsParent c i ∧ IsClass g owner c) ∧ s.name = name
    | .function name | .enumeration name => g.IsLive i ∧ s.name = name
    | .alias space name => (∃ c, g.IsParent c i ∧ IsSpace g scope (some space) c) ∧ s.name = name
    | .enumerationsWithSuffix suffix | .itemsWithSuffix suffix =>
      g.IsLive i ∧ endsWith suffix s.name
    | .enumerationsContaining part => g.IsLive i ∧ contains part s.name
    | .templateProperties template =>
      (∃ c t, g.IsParent c i ∧ g.IsParent scope.unit c ∧ g.get? c = some t ∧ t.kind = .record) ∧
        s.type.any (·.isSpecializationOf template)

end Selector

/-! ### Searches -/

namespace Lookup

variable {α β : Type} {Q Q' : α → Prop} {E E' : PipelineError → Prop}

/-- The search has an answer, which satisfies `Q`, or fails with an error that satisfies `E`. -/
def Finds (x : Lookup α) (Q : α → Prop) (E : PipelineError → Prop) : Prop :=
  ∃ r, x.run = some r ∧ (∀ a, r = .ok a → Q a) ∧ ∀ e, r = .error e → E e

theorem Finds.mono {x : Lookup α} (h : Finds x Q E) (hQ : ∀ a, Q a → Q' a)
    (hE : ∀ e, E e → E' e) : Finds x Q' E' := by
  obtain ⟨r, hr, h1, h2⟩ := h
  exact ⟨r, hr, fun a ha => hQ a (h1 a ha), fun e he => hE e (h2 e he)⟩

theorem finds_pure {a : α} (h : Q a) : Finds (pure a) Q E :=
  ⟨.ok a, rfl, fun _ hb => Except.ok.inj hb ▸ h, nofun⟩

theorem finds_throw {e : PipelineError} (h : E e) : Finds (throw e : Lookup α) Q E :=
  ⟨.error e, rfl, nofun, fun _ hb => Except.error.inj hb ▸ h⟩

theorem finds_bind {x : Lookup β} {f : β → Lookup α} (h : Finds x (fun b => Finds (f b) Q E) E) :
    Finds (x >>= f) Q E := by
  obtain ⟨r, hr, h1, h2⟩ := h
  have hrun : (x >>= f).run = x.run.bind (ExceptT.bindCont f) := rfl
  cases r with
  | error e =>
    exact ⟨.error e, by rw [hrun, hr]; rfl, nofun, fun _ he => Except.error.inj he ▸ h2 e rfl⟩
  | ok b =>
    obtain ⟨r, hr', h⟩ := h1 b rfl
    exact ⟨r, by rw [hrun, hr]; exact hr', h⟩

theorem finds_option {x : Option α} {a : α} (hx : x = some a) (h : Q a) :
    Finds (liftM x : Lookup α) Q E := by
  subst hx
  exact finds_pure h

theorem finds_except {x : Except PipelineError α} (h : ∀ a, x = .ok a → Q a)
    (hE : ∀ e, x = .error e → E e) : Finds (liftM x : Lookup α) Q E :=
  ⟨x, rfl, h, hE⟩

end Lookup

theorem findSingle_eq_ok {d : String} : findSingle ids d = .ok i ↔ ids = [i] := by
  unfold findSingle
  split <;> simp_all

/-- The one candidate of a list without repetitions is what the list is for. -/
theorem findSingle_unique {d : String} {P : DeclId → Prop} (hmem : ∀ i, i ∈ ids ↔ P i)
    (h : findSingle ids d = .ok u) (i : DeclId) : P i ↔ i = u := by
  rw [← hmem, findSingle_eq_ok.1 h, List.mem_singleton]

theorem findSingle_of_one_lt {d : String} (h : 1 < ids.length) :
    findSingle ids d = .error (.ambiguous d ids.length) := by
  unfold findSingle
  split <;> simp_all

/-- A search for one declaration fails with one of two errors. -/
def PipelineError.IsSingleError (e : PipelineError) : Prop :=
  ∃ d, e = .noMatch d ∨ ∃ n, e = .ambiguous d n

theorem findSingle_eq_error {d : String} {e : PipelineError} (h : findSingle ids d = .error e) :
    e.IsSingleError := by
  unfold findSingle at h
  split at h
  · exact absurd h nofun
  · exact ⟨d, Or.inl (Except.error.inj h).symm⟩
  · exact ⟨d, Or.inr ⟨_, (Except.error.inj h).symm⟩⟩

open Lookup PipelineError

namespace Graph.IsRooted

variable (hg : g.IsRooted)
include hg

theorem resolveClass_spec (name : String) :
    Finds (g.resolveClass name) (fun c => ∀ i, Selector.IsClass g name i ↔ i = c)
      IsSingleError := by
  obtain ⟨ids, hids, -, hmem⟩ := hg.liveWhere?_spec fun s =>
    s.kind == .record && s.name == name && s.isComplete
  refine finds_bind (finds_option hids (finds_except (fun c hc i => ?_) fun e he => ?_))
  · rw [← findSingle_unique hmem hc i]
    simp only [Selector.IsClass, Bool.and_eq_true, beq_iff_eq, and_assoc]
  · exact findSingle_eq_error he

theorem resolveNamespace_spec (hu : scope.unit < g.size) (name : Option String) :
    Finds (Selector.resolveNamespace g scope name)
      (fun c => ∀ i, Selector.IsSpace g scope name i ↔ i = c) IsSingleError := by
  obtain ⟨ids, hids, -, hmem⟩ := hg.childrenWhere?_spec hu fun s =>
    s.kind == .namespace && name.all (s.name == ·)
  refine finds_bind (finds_option hids (finds_except (fun c hc i => ?_) fun e he => ?_))
  · rw [← findSingle_unique hmem hc i]
    simp only [Selector.IsSpace, Bool.and_eq_true, beq_iff_eq, Option.all_eq_true]
  · exact findSingle_eq_error he

omit hg in
theorem one_spec {x : Option (List DeclId)} {d : String} {P : DeclId → Prop} {b : Bool}
    (hx : x = some ids) (hmem : ∀ i, i ∈ ids ↔ P i) :
    Finds (do return [← findSingle (← x) d] : Lookup (List DeclId))
      (fun ids => ids.Nodup ∧ (∀ i, i ∈ ids ↔ P i) ∧ (b → ∃ i, ids = [i])) IsSingleError := by
  refine finds_bind (finds_option hx (finds_bind (finds_except (fun c hc => ?_) fun e he => ?_)))
  · refine finds_pure ⟨List.nodup_singleton c, fun i => ?_, fun _ => ⟨c, rfl⟩⟩
    rw [List.mem_singleton, findSingle_unique hmem hc]
  · exact findSingle_eq_error he

/-- A search for all live declarations that are selected does not fail, whatever the scope. -/
theorem resolve_spec_of_isLiveSet {sel : Selector} (hsel : sel.isLiveSet) (scope : Scope) :
    Finds (sel.resolve g scope)
      (fun ids => ids.Nodup ∧ ∀ i, i ∈ ids ↔ sel.Selects g scope i) fun _ => False := by
  cases sel with
  | enumerationsWithSuffix suffix =>
    obtain ⟨ids, hids, hnd, hmem⟩ := hg.liveWhere?_spec fun s =>
      s.kind == .enumeration && Selector.endsWith suffix s.name
    refine finds_option hids ⟨hnd, fun i => ?_⟩
    simp only [hmem, Selector.Selects, Selector.kind]
    grind
  | enumerationsContaining part =>
    obtain ⟨ids, hids, hnd, hmem⟩ := hg.liveWhere?_spec fun s =>
      s.kind == .enumeration && Selector.contains part s.name
    refine finds_option hids ⟨hnd, fun i => ?_⟩
    simp only [hmem, Selector.Selects, Selector.kind]
    grind
  | itemsWithSuffix suffix =>
    obtain ⟨ids, hids, hnd, hmem⟩ := hg.liveWhere?_spec fun s =>
      s.kind == .item && Selector.endsWith suffix s.name
    refine finds_option hids ⟨hnd, fun i => ?_⟩
    simp only [hmem, Selector.Selects, Selector.kind]
    grind
  | _ => exact absurd hsel Bool.false_ne_true

/-- The properties of a type are looked for in one class after the other. -/
theorem templateProperties_spec (hu : scope.unit < g.size) (template : String) :
    ∃ classes parts, g.membersOfKind? scope.unit .record = some classes ∧
      classes.mapM (fun c => g.childrenWhere? c fun s =>
        s.kind == .property && s.type.any (·.isSpecializationOf template)) = some parts ∧
      parts.flatten.Nodup ∧
      ∀ i, i ∈ parts.flatten ↔ (Selector.templateProperties template).Selects g scope i := by
  obtain ⟨cs, hcs, hnd, hcmem⟩ := hg.childrenWhere?_spec hu fun s => s.kind == .record
  set q : Slot → Bool := fun s =>
    s.kind == .property && s.type.any (·.isSpecializationOf template) with hq
  have hex : ∀ c, ∃ ids, c ∈ cs → g.childrenWhere? c q = some ids ∧ ids.Nodup ∧
      ∀ i, i ∈ ids ↔ g.IsParent c i ∧ ∃ s, g.get? i = some s ∧ q s := by
    intro c
    by_cases hc : c ∈ cs
    · obtain ⟨ids, hids⟩ := hg.childrenWhere?_spec ((hcmem c).1 hc).1.lt_size q
      exact ⟨ids, fun _ => hids⟩
    · exact ⟨[], fun h => absurd h hc⟩
  choose F hF using hex
  refine ⟨cs, cs.map F, hcs, mapM_eq_some_of_forall fun c hc => (hF c hc).1, ?_, fun i => ?_⟩
  · rw [← List.flatMap_def, List.nodup_flatMap]
    refine ⟨fun c hc => (hF c hc).2.1, hnd.imp_of_mem fun {c d} hc hd hne => ?_⟩
    intro i hic hid
    exact hne ((((hF c hc).2.2 i).1 hic).1.unique (((hF d hd).2.2 i).1 hid).1)
  · rw [← List.flatMap_def, List.mem_flatMap]
    simp only [Selector.Selects, Selector.kind]
    constructor
    · rintro ⟨c, hc, hi⟩
      obtain ⟨hp, s, hs, hqs⟩ := ((hF c hc).2.2 i).1 hi
      obtain ⟨hpc, t, ht, hk⟩ := (hcmem c).1 hc
      simp only [hq, Bool.and_eq_true, beq_iff_eq] at hqs hk
      exact ⟨s, hs, hqs.1, ⟨c, t, hp, hpc, ht, hk⟩, hqs.2⟩
    · rintro ⟨s, hs, hk, ⟨c, t, hp, hpc, ht, htk⟩, htype⟩
      have hc : c ∈ cs := (hcmem c).2 ⟨hpc, t, ht, by simp [htk]⟩
      exact ⟨c, hc, ((hF c hc).2.2 i).2 ⟨hp, s, hs, by simp [hq, hk, htype]⟩⟩

/-- A successful search finds what is selected, each declaration once. -/
theorem resolve_spec (hu : scope.unit < g.size) (sel : Selector) :
    Finds (sel.resolve g scope)
      (fun ids => ids.Nodup ∧ (∀ i, i ∈ ids ↔ sel.Selects g scope i) ∧
        (sel.isUnique → ∃ i, ids = [i])) IsSingleError := by
  cases sel with
  | «namespace» name =>
    refine finds_bind ((hg.resolveNamespace_spec hu name).mono (fun c hc => ?_) fun _ he => he)
    refine finds_pure ⟨List.nodup_singleton c, fun i => ?_, fun _ => ⟨c, rfl⟩⟩
    rw [List.mem_singleton, ← hc i]
    simp only [Selector.IsSpace, Selector.Selects, Selector.kind]
    grind
  | record name =>
    refine finds_bind ((hg.resolveClass_spec name).mono (fun c hc => ?_) fun _ he => he)
    refine finds_pure ⟨List.nodup_singleton c, fun i => ?_, fun _ => ⟨c, rfl⟩⟩
    rw [List.mem_singleton, ← hc i]
    simp only [Selector.IsClass, Selector.Selects, Selector.kind]
    grind
  | member kind owner name =>
    refine finds_bind ((hg.resolveClass_spec owner).mono (fun c hc => ?_) fun _ he => he)
    have hlt : c < g.size := hg.live_lt ((hc c).2 rfl).1
    obtain ⟨ids, hids, -, hmem⟩ :=
      hg.childrenWhere?_spec hlt (Selector.answersTo kind.kind name)
    refine one_spec hids fun i => ?_
    simp only [hmem, Selector.Selects, Selector.kind, hc, Selector.answersTo]
    grind
  | function name =>
    obtain ⟨ids, hids, -, hmem⟩ := hg.liveWhere?_spec (Selector.answersTo .function name)
    refine one_spec hids fun i => ?_
    simp only [hmem, Selector.Selects, Selector.kind, Selector.answersTo]
    grind
  | enumeration name =>
    obtain ⟨ids, hids, -, hmem⟩ := hg.liveWhere?_spec (Selector.answersTo .enumeration name)
    refine one_spec hids fun i => ?_
    simp only [hmem, Selector.Selects, Selector.kind, Selector.answersTo]
    grind
  | «alias» space name =>
    refine finds_bind ((hg.resolveNamespace_spec hu (some space)).mono (fun c hc => ?_)
      fun _ he => he)
    obtain ⟨-, t, ht, -⟩ := (hc c).2 rfl
    obtain ⟨ids, hids, -, hmem⟩ :=
      hg.childrenWhere?_spec (lt_size_of_get? ht) (Selector.answersTo .alias name)
    refine one_spec hids fun i => ?_
    simp only [hmem, Selector.Selects, Selector.kind, hc, Selector.answersTo]
    grind
  | enumerationsWithSuffix _ | enumerationsContaining _ | itemsWithSuffix _ =>
    exact (hg.resolve_spec_of_isLiveSet rfl scope).mono (fun _ h => ⟨h.1, h.2, nofun⟩)
      fun _ he => he.elim
  | templateProperties template =>
    obtain ⟨classes, parts, hclasses, hparts, hnd, hmem⟩ := hg.templateProperties_spec hu template
    exact finds_bind (finds_option hclasses (finds_bind (finds_option hparts
      (finds_pure ⟨hnd, hmem, nofun⟩))))

end Graph.IsRooted

namespace Graph.WellFormed

variable (hg : g.WellFormed)
include hg

/-- If a unit of the file is there, it is found; the search is never ambiguous. -/
theorem resolveUnit_spec (file : String) :
    Finds (g.resolveUnit file) (fun u => u ∈ g.units ∧ g.name? u = some file)
      fun e => e = .missingUnit file ∧ ∀ u ∈ g.units, g.name? u ≠ some file := by
  have hfind : ∀ u ∈ g.units, g.find? u = some ⟨u, (g.get? u).getD default⟩ := by
    intro u hu
    obtain ⟨s, hs⟩ := exists_get?_of_lt (hg.unit_lt hu)
    rw [find?_of_get? hs, hs, Option.getD_some]
  refine finds_bind (finds_option (mapM_eq_some_of_forall hfind) ?_)
  set candidates := ((g.units.map fun u => Found.mk u ((g.get? u).getD default)).filter
    (·.slot.name == file)).map Found.id with hcand
  have hmem : ∀ u, u ∈ candidates ↔ u ∈ g.units ∧ g.name? u = some file := by
    intro u
    simp only [hcand, List.mem_map, List.mem_filter, beq_iff_eq]
    constructor
    · rintro ⟨x, ⟨⟨v, hv, rfl⟩, hn⟩, rfl⟩
      obtain ⟨s, hs⟩ := exists_get?_of_lt (hg.unit_lt hv)
      rw [hs, Option.getD_some] at hn
      exact ⟨hv, by rw [name?, hs, Option.map_some, hn]⟩
    · rintro ⟨hu, hn⟩
      obtain ⟨s, hs⟩ := exists_get?_of_lt (hg.unit_lt hu)
      refine ⟨⟨u, s⟩, ⟨⟨u, hu, by rw [hs, Option.getD_some]⟩, ?_⟩, rfl⟩
      rwa [name?, hs, Option.map_some, Option.some.injEq] at hn
  have hnd : candidates.Nodup := by
    refine List.Nodup.sublist ((List.filter_sublist).map _) ?_
    rw [List.map_map]
    simpa [Function.comp_def] using hg.nodup_units
  rcases hc : candidates with _ | ⟨u, _ | ⟨v, l⟩⟩
  · refine finds_throw ⟨rfl, fun u hu hn => ?_⟩
    have := (hmem u).2 ⟨hu, hn⟩
    rw [hc] at this
    exact absurd this List.not_mem_nil
  · exact finds_pure ((hmem u).1 (by rw [hc]; exact List.mem_singleton_self u))
  · obtain ⟨hu, hun⟩ := (hmem u).1 (by simp [hc])
    obtain ⟨hv, hvn⟩ := (hmem v).1 (by simp [hc])
    obtain rfl := hg.eq_of_name hu hv (hun.trans hvn.symm)
    rw [hc] at hnd
    simp at hnd

theorem primary_spec (header : String) :
    Finds (Scope.primary g header)
      (fun scope => scope.unit ∈ g.units ∧ g.name? scope.unit = some header)
      fun e => e = .missingUnit header ∧ ∀ u ∈ g.units, g.name? u ≠ some header :=
  finds_bind ((hg.resolveUnit_spec header).mono (fun _ hu => finds_pure hu) fun _ he => he)

end Graph.WellFormed

end Bindery
