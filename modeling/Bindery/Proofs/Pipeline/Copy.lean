import Bindery.Pipeline.Basic
import Bindery.Proofs.Graph.Copy
import Bindery.Proofs.Pipeline.View

/-!
# Runs on copies

`Step.Carries φ p q`: whatever `p` does on a graph, `q` does on every copy of it: the results agree
under `φ`, errors are the same, and so are the log and the report. Every step of a pipeline is
carried to the same step with the copied numbers, so no outcome depends on the numbers of
declarations, nor on what else has slots in the copy.
-/

namespace Bindery

variable {α β γ δ : Type} {ι : DeclId → DeclId} {extra : List Pending} {scope : Scope}

/-- The second run has come to the same as the first, on a copy of its graph. -/
structure Work.Copy (ι : DeclId → DeclId) (extra : List Pending) (w v : Work) : Prop where
  graph : Graph.Copy ι extra w.graph v.graph
  log : v.log = w.log
  passes : v.passes = w.passes

namespace Step

def Carries (ι : DeclId → DeclId) (extra : List Pending) (φ : α → β) (p : Step α) (q : Step β) :
    Prop :=
  ∀ w v r w', Work.Copy ι extra w v → p w = some (r, w') →
    ∃ v', q v = some (r.map φ, v') ∧ Work.Copy ι extra w' v'

@[simp] theorem map_id_result (r : Except PipelineError α) : r.map id = r := by
  cases r <;> rfl

variable {φ : α → β} {ψ : γ → δ}

theorem carries_pure {a : α} {b : β} (h : φ a = b) :
    Carries ι extra φ (pure a) (pure b) := by
  intro w v r w' hw hr
  obtain ⟨rfl, rfl⟩ := Prod.mk.inj (Option.some.inj hr)
  exact ⟨v, by rw [← h]; rfl, hw⟩

theorem carries_bind {p : Step α} {q : Step β} {f : α → Step γ} {f' : β → Step δ}
    (hp : Carries ι extra φ p q) (hf : ∀ a, Carries ι extra ψ (f a) (f' (φ a))) :
    Carries ι extra ψ (p >>= f) (q >>= f') := by
  intro w v r w' hw hr
  change Step.bind p f w = some (r, w') at hr
  show ∃ v', Step.bind q f' v = some (r.map ψ, v') ∧ _
  unfold Step.bind at hr ⊢
  rcases hpw : p w with _ | ⟨e | a, u⟩ <;> rw [hpw] at hr
  · exact absurd hr nofun
  · obtain ⟨rfl, rfl⟩ := Prod.mk.inj (Option.some.inj hr)
    obtain ⟨v', hv', hu⟩ := hp w v _ u hw hpw
    exact ⟨v', by rw [hv']; rfl, hu⟩
  · obtain ⟨v', hv', hu⟩ := hp w v _ u hw hpw
    rw [hv']
    exact hf a u v' r w' hu hr

theorem carries_fail (e : PipelineError) :
    Carries ι extra φ (fail e : Step α) (fail e : Step β) := by
  intro w v r w' hw hr
  obtain ⟨rfl, rfl⟩ := Prod.mk.inj (Option.some.inj hr)
  exact ⟨v, rfl, hw⟩

theorem carries_log (topic : Topic) (level : Level) (message : String) :
    Carries ι extra id (Step.log topic level message) (Step.log topic level message) := by
  intro w v r w' hw hr
  obtain ⟨rfl, rfl⟩ := Prod.mk.inj (Option.some.inj hr)
  exact ⟨_, rfl, hw.graph, by rw [hw.log], hw.passes⟩

theorem carries_report (p : PassReport) :
    Carries ι extra id (Step.report p) (Step.report p) := by
  intro w v r w' hw hr
  obtain ⟨rfl, rfl⟩ := Prod.mk.inj (Option.some.inj hr)
  exact ⟨_, rfl, hw.graph, hw.log, by rw [hw.passes]⟩

theorem carries_setGraph {g h : Graph} (C : Graph.Copy ι extra g h) :
    Carries ι extra id (setGraph g) (setGraph h) := by
  intro w v r w' hw hr
  obtain ⟨rfl, rfl⟩ := Prod.mk.inj (Option.some.inj hr)
  exact ⟨_, rfl, C, hw.log, hw.passes⟩

theorem carries_read {f : Graph → Option α} {f' : Graph → Option β}
    (h : ∀ {g k}, Graph.Copy ι extra g k → ∀ a, f g = some a → f' k = some (φ a)) :
    Carries ι extra φ (Step.read f) (Step.read f') := by
  intro w v r w' hw hr
  obtain ⟨a, ha, hr⟩ := Option.map_eq_some_iff.1 hr
  obtain ⟨rfl, rfl⟩ := Prod.mk.inj hr
  exact ⟨v, by rw [Step.read, h hw.graph a ha]; rfl, hw⟩

theorem carries_look {f : Graph → Lookup α} {f' : Graph → Lookup β}
    (h : ∀ {g k}, Graph.Copy ι extra g k → Lookup.Carries φ (f g) (f' k)) :
    Carries ι extra φ (look f) (look f') := by
  intro w v r w' hw hr
  obtain ⟨a, ha, hr⟩ := Option.map_eq_some_iff.1 hr
  obtain ⟨rfl, rfl⟩ := Prod.mk.inj hr
  exact ⟨v, by rw [look, h hw.graph a ha]; rfl, hw⟩

theorem carries_change {f f' : Graph → Option Graph}
    (h : ∀ {g k g'}, Graph.Copy ι extra g k → f g = some g' →
      ∃ k', f' k = some k' ∧ Graph.Copy ι extra g' k') :
    Carries ι extra id (change f) (change f') := by
  intro w v r w' hw hr
  obtain ⟨g', hg', hr⟩ := Option.map_eq_some_iff.1 hr
  obtain ⟨rfl, rfl⟩ := Prod.mk.inj hr
  obtain ⟨k', hk', C⟩ := h hw.graph hg'
  exact ⟨{ v with graph := k' }, by rw [change, hk']; rfl, C, hw.log, hw.passes⟩

theorem carries_changeWith {f f' : Graph → Option (Graph × α)}
    (h : ∀ {g k g' a}, Graph.Copy ι extra g k → f g = some (g', a) →
      ∃ k', f' k = some (k', a) ∧ Graph.Copy ι extra g' k') :
    Carries ι extra id (changeWith f) (changeWith f') := by
  intro w v r w' hw hr
  obtain ⟨⟨g', a⟩, hg', hr⟩ := Option.map_eq_some_iff.1 hr
  obtain ⟨rfl, rfl⟩ := Prod.mk.inj hr
  obtain ⟨k', hk', C⟩ := h hw.graph hg'
  exact ⟨{ v with graph := k' }, by rw [changeWith, hk']; rfl, C, hw.log, hw.passes⟩

theorem Carries.within {p : Step α} {q : Step β} (h : Carries ι extra φ p q) (pass : String) :
    Carries ι extra φ (within pass p) (within pass q) := by
  intro w v r w' hw hr
  obtain ⟨⟨s, u⟩, hs, hr⟩ := Option.map_eq_some_iff.1 hr
  obtain ⟨v', hv', hu⟩ := h w v s u hw hs
  refine ⟨v', ?_, ?_⟩
  · rw [Step.within, hv']
    cases s with
    | error e =>
      obtain ⟨rfl, -⟩ := Prod.mk.inj hr
      rfl
    | ok a =>
      obtain ⟨rfl, -⟩ := Prod.mk.inj hr
      rfl
  · cases s with
    | error e => exact (Prod.mk.inj hr).2 ▸ hu
    | ok a => exact (Prod.mk.inj hr).2 ▸ hu

theorem carries_ite {c : Prop} [Decidable c] {p p' : Step α} {q q' : Step β}
    (h : Carries ι extra φ p q) (h' : Carries ι extra φ p' q') :
    Carries ι extra φ (if c then p else p') (if c then q else q') := by
  split
  · exact h
  · exact h'

theorem carries_forM {χ : α → β} {f : α → Step PUnit} {f' : β → Step PUnit}
    (h : ∀ a, Carries ι extra id (f a) (f' (χ a))) :
    ∀ l : List α, Carries ι extra id (l.forM f) ((l.map χ).forM f')
  | [] => carries_pure rfl
  | a :: l => carries_bind (h a) fun _ => carries_forM h l

theorem carries_sum {χ : α → β} {f : α → Step Nat} {f' : β → Step Nat}
    (h : ∀ a, Carries ι extra id (f a) (f' (χ a))) :
    ∀ l : List α, Carries ι extra id (sum f l) (sum f' (l.map χ))
  | [] => carries_pure rfl
  | a :: l => carries_bind (h a) fun _ => carries_bind (carries_sum h l) fun _ => carries_pure rfl

/-- What is found in a slot, under the other numbers. -/
theorem carries_get? (i : DeclId) :
    Carries ι extra (Slot.renumbered ι) (Step.read (·.get? i)) (Step.read (·.get? (ι i))) :=
  carries_read fun C _ hs => C.get?_eq hs

theorem carries_qualifiedName? (i : DeclId) :
    Carries ι extra id (Step.read (·.qualifiedName? i)) (Step.read (·.qualifiedName? (ι i))) :=
  carries_read fun C _ hn => C.qualifiedName?_eq hn

end Step

open Step

/-! ### Rules -/

namespace Rule

theorem carries_hoist (space : DeclId) :
    Step.Carries ι extra id (hoist space) (hoist (ι space)) := by
  refine carries_bind (φ := Option.map ι) (carries_read fun C o ho => C.unitOf?_eq ho) fun o => ?_
  cases o with
  | none => exact carries_bind (carries_qualifiedName? space) fun n => carries_fail _
  | some unit =>
    refine carries_bind (carries_get? unit) fun u => carries_bind (carries_get? space) fun s => ?_
    refine carries_bind (φ := id) (carries_forM (fun c => ?_) s.children) fun _ => ?_
    · refine carries_bind (carries_qualifiedName? c) fun n => ?_
      exact carries_bind (carries_log _ _ _) fun _ =>
        carries_change fun C hr => C.exists_reparent? hr
    · exact carries_change fun C hr => C.exists_remove? hr

theorem carries_perform (a : Action) (i : DeclId) :
    Step.Carries ι extra id (perform a i) (perform a (ι i)) := by
  cases a with
  | rename name => exact carries_changeWith fun C hr => C.exists_rename? hr
  | hoist => exact carries_bind (carries_hoist i) fun _ => carries_pure rfl
  | _ => exact carries_changeWith fun C hr => C.exists_mark? hr

theorem carries_applyTo (r : Rule) (i : DeclId) :
    Step.Carries ι extra id (r.applyTo i) (r.applyTo (ι i)) := by
  refine carries_bind (carries_get? i) fun s => carries_bind (carries_qualifiedName? i) fun n => ?_
  refine carries_ite (carries_bind (carries_perform r.action i) fun b => ?_) (carries_fail _)
  exact carries_ite (carries_bind (carries_log _ _ _) fun _ => carries_pure rfl)
    (carries_bind (carries_log _ _ _) fun _ => carries_pure rfl)

theorem carries_apply (r : Rule) :
    Step.Carries ι extra id (r.apply scope) (r.apply (scope.seen ι)) := by
  refine carries_bind (φ := List.map ι) (carries_look fun C => C.resolve r.selector) fun ids => ?_
  refine carries_sum (fun i => ?_) ids
  exact carries_bind (carries_applyTo r i) fun _ => carries_pure rfl

end Rule

/-! ### Trimming and attaching -/

namespace Trim

theorem carries_trimItem (enumeration : String) (taken : List String) (i : DeclId) :
    Step.Carries ι extra id (trimItem enumeration taken i) (trimItem enumeration taken (ι i)) := by
  refine carries_bind (carries_get? i) fun s => ?_
  dsimp only [Slot.renumbered]
  rcases if s.isIgnored then none else rest? (stem enumeration) s.name with _ | rest
  · exact carries_pure rfl
  · refine carries_ite (carries_bind (carries_log _ _ _) fun _ => carries_pure rfl) ?_
    refine carries_bind (φ := id) (carries_bind (φ := id) ?_ fun _ => carries_pure rfl)
      fun _ => carries_pure rfl
    exact carries_changeWith fun C hr => C.exists_rename? hr

theorem carries_trimItems (enumeration : String) : ∀ (ids : List DeclId) (taken : List String),
    Step.Carries ι extra id (trimItems enumeration taken ids)
      (trimItems enumeration taken (ids.map ι))
  | [], _ => carries_pure rfl
  | i :: ids, taken => by
    refine carries_bind (carries_trimItem enumeration taken i) fun p => ?_
    exact carries_bind (carries_trimItems enumeration ids p.1) fun _ => carries_pure rfl

theorem carries_trimEnumeration (i : DeclId) :
    Step.Carries ι extra id (trimEnumeration i) (trimEnumeration (ι i)) := by
  refine carries_bind (carries_get? i) fun s => carries_ite (carries_pure rfl) ?_
  refine carries_bind (carries_read fun C xs hxs => C.children?_eq hxs) fun xs => ?_
  have hids := Graph.View.map_id_filter (ι := ι) (f := Slot.renumbered ι)
    (p := fun s => s.kind == .item) (fun _ => rfl) xs
  have hnames : ((xs.map (Found.seen ι (Slot.renumbered ι))).filter (·.slot.kind == .item)).map
      (·.slot.name) = (xs.filter (·.slot.kind == .item)).map (·.slot.name) := by
    rw [List.filter_map, List.map_map]
    rfl
  dsimp only
  rw [hids, hnames]
  exact carries_trimItems _ _ _

theorem carries_run : Step.Carries ι extra id run run := by
  refine carries_bind (φ := List.map ι)
    (carries_read fun C ids hids => C.liveWhere?_eq (fun _ => rfl) hids) fun ids => ?_
  refine carries_bind (carries_sum carries_trimEnumeration ids) fun n => ?_
  exact carries_ite (carries_bind (carries_log _ _ _) fun _ => carries_pure rfl) (carries_pure rfl)

end Trim

namespace Attach

theorem carries_attachOne (p : Pending) :
    Step.Carries ι [] id (attachOne p) (attachOne (p.renumbered ι)) :=
  carries_bind (carries_look fun C => C.destination p) fun _ =>
    carries_change fun C hr => C.exists_reparent? hr

/-- The same is attached, if nothing else waits in the copy. -/
theorem carries_run : Step.Carries ι [] id run run := by
  intro w v r w' hw hr
  have hpending := hw.graph.pending_eq
  rw [List.append_nil] at hpending
  have hcleared : Graph.Copy ι [] { w.graph with pending := [] } { v.graph with pending := [] } :=
    .of_get? hw.graph.injective hw.graph.get?_eq hw.graph.units_eq hw.graph.size_le rfl
  -- what is attached is read off the graph before it is changed
  let rest (g : Graph) : Step Nat := do
    Step.setGraph { g with pending := [] }
    g.pending.forM attachOne
    if g.pending.length > 0 then
      Step.log .toolchain .info
        ("Attached " ++ toString g.pending.length ++ " synthesized declarations")
    return g.pending.length
  have hrest : Step.Carries ι [] id (rest w.graph) (rest v.graph) := by
    refine carries_bind (carries_setGraph hcleared) fun _ => ?_
    rw [hpending, List.length_map]
    refine carries_bind (carries_forM carries_attachOne _) fun _ => ?_
    exact carries_ite (carries_bind (carries_log _ _ _) fun _ => carries_pure rfl)
      (carries_pure rfl)
  exact hrest w v r w' hw hr

end Attach

/-! ### Passes -/

namespace Pass

theorem carries_run (q : Pass) :
    Step.Carries ι extra id (q.run scope) (q.run (scope.seen ι)) := by
  cases q with
  | table name phase rules =>
    have h : Step.Carries ι extra id (sum (·.apply scope) rules)
        (sum (·.apply (scope.seen ι)) (rules.map id)) := carries_sum Rule.carries_apply rules
    rwa [List.map_id] at h
  | trim => exact Trim.carries_run

theorem carries_runReported (q : Pass) :
    Step.Carries ι extra id (q.runReported scope) (q.runReported (scope.seen ι)) :=
  carries_bind (q.carries_run.within q.name) fun _ =>
    carries_bind (carries_log _ _ _) fun _ => carries_report _

end Pass

namespace Pipeline

theorem carries_runPhase (p : Pipeline) (phase : Phase) :
    Step.Carries ι extra id (p.runPhase phase scope) (p.runPhase phase (scope.seen ι)) := by
  have h : Step.Carries ι extra id
      ((p.passes.filter (·.phase == phase)).forM (Pass.runReported scope))
      (((p.passes.filter (·.phase == phase)).map id).forM (Pass.runReported (scope.seen ι))) :=
    carries_forM Pass.carries_runReported _
  rwa [List.map_id] at h

theorem carries_transform (p : Pipeline) (header : String) :
    Step.Carries ι [] id (p.transform header) (p.transform header) := by
  refine carries_bind (carries_look fun C => C.primary header) fun scope => ?_
  refine carries_bind (p.carries_runPhase .preprocess) fun _ => ?_
  refine carries_bind Attach.carries_run fun n => ?_
  exact carries_bind (p.carries_runPhase .postprocess) fun _ => carries_pure rfl

end Pipeline

end Bindery
