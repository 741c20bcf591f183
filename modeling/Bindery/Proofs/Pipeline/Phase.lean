import Bindery.Proofs.Pipeline.Invariant
import Mathlib.Algebra.GroupWithZero.Nat

/-!
# Where a phase stops

In a forest below units every rule has a result, and one that fails leaves the graph as it found it.
So a phase makes all the moves of its passes, with one entry in the report for each pass, or stops
at the first rule that is refused: then the graph is the one on which that rule was tried, and the
passes before it are in the report.
-/

namespace Bindery

open Step Move

variable {α : Type} {scope : Scope} {g h k : Graph} {q : Pass} {qs qs' : List Pass} {w : Work}
  {ns counts counts' : List Nat} {e : PipelineError} {r : Rule}

/-- On the graph `g` the rule fails with `e`. -/
def Rule.Refuses (r : Rule) (scope : Scope) (g : Graph) (e : PipelineError) : Prop :=
  ∃ w w' : Work, w.graph = g ∧ r.apply scope w = some (.error e, w')

/-- All passes succeed one after the other; the numbers are the sums of what their moves change. -/
inductive PassTrace (scope : Scope) : List Pass → Graph → List Nat → Graph → Prop
  | nil (g : Graph) : PassTrace scope [] g [] g
  | cons {q : Pass} {qs : List Pass} {g k h : Graph} {ns counts : List Nat}
      (hq : Trace scope q.moves g ns k) (ht : PassTrace scope qs k counts h) :
      PassTrace scope (q :: qs) g (ns.sum :: counts) h

/-- One entry for each pass, with its number. -/
def Pass.reports (qs : List Pass) (counts : List Nat) : List PassReport :=
  List.zipWith (fun q n => { name := q.name, phase := q.phase, changes := n }) qs counts

/-- Some passes succeed, which is what the entries say; of the next one, a table, the rules before
`r` succeed, and lead to the graph `h` on which `r` is refused. -/
def StopsAt (scope : Scope) (qs : List Pass) (g : Graph) (entries : List PassReport) (h : Graph)
    (e : PipelineError) : Prop :=
  ∃ done name phase front r back later counts k ns cause,
    qs = done ++ Pass.table name phase (front ++ r :: back) :: later ∧
    PassTrace scope done g counts k ∧ entries = Pass.reports done counts ∧
    Trace scope (front.map .rule) k ns h ∧ r.Refuses scope h cause ∧ e = .pass name cause

/-! ### Rows of passes -/

namespace PassTrace

theorem length_eq (ht : PassTrace scope qs g counts h) : counts.length = qs.length := by
  induction ht with
  | nil => rfl
  | cons _ _ ih => rw [List.length_cons, List.length_cons, ih]

theorem concat (ht : PassTrace scope qs g counts k) (hq : Trace scope q.moves k ns h) :
    PassTrace scope (qs ++ [q]) g (counts ++ [ns.sum]) h := by
  induction ht with
  | nil g => exact .cons hq (.nil h)
  | cons hq' _ ih => exact .cons hq' (ih hq)

end PassTrace

theorem Pass.reports_concat (h : counts.length = qs.length) (q : Pass) (n : Nat) :
    Pass.reports (qs ++ [q]) (counts ++ [n]) =
      Pass.reports qs counts ++ [{ name := q.name, phase := q.phase, changes := n }] := by
  rw [reports, List.zipWith_append h.symm]
  rfl

/-! ### Rules -/

namespace Rule

/-- What a rule does keeps the forest and the number of slots. -/
theorem fits_applied {ids : List DeclId} {unit : DeclId} (hg : scope.Fits g)
    (hmem : ∀ i, i ∈ ids ↔ r.selector.Selects g scope i)
    (huniq : r.selector.isUnique → ∃ i, ids = [i])
    (happ : ids ≠ [] → r.action.appliesTo r.selector.kind)
    (hunit : r.action = .hoist → ids ≠ [] →
      g.IsAbove unit scope.unit ∧ ∃ t, g.get? unit = some t ∧ t.kind = .unit) :
    scope.Fits (r.action.applied unit g ids) := by
  by_cases ha : r.action = .hoist
  · by_cases hids : ids = []
    · rw [hids, Action.applied_nil]
      exact hg
    · have hns : r.selector.kind = .namespace :=
        Action.eq_of_requiredKind? (by rw [ha]; rfl) (happ hids)
      obtain ⟨space, rfl⟩ := huniq (Selector.isUnique_of_kind hns)
      obtain ⟨s, hs, -⟩ := (hmem space).1 (List.mem_singleton_self space)
      obtain ⟨-, t, ht, htk⟩ := hunit ha hids
      rw [ha]
      refine ⟨hg.isRooted.hoisted hs ht htk, ?_⟩
      show scope.unit < (g.hoisted space unit).size
      rw [Graph.hoisted_eq hs, Graph.size_mapSlots, Graph.size_mapSlots]
      exact hg.unit_lt
  · rw [Action.applied_of_ne_hoist ha]
    refine ⟨hg.isRooted.changed r.action ids, ?_⟩
    rw [Graph.size_mapSlots]
    exact hg.unit_lt

/-- A rule is one move, or it is refused and nothing happens. -/
theorem runs_apply_traced (hg : scope.Fits w.graph) (r : Rule) :
    Runs (r.apply scope) w
      (fun n w' => scope.Fits w'.graph ∧ Trace scope [.rule r] w.graph [n] w'.graph ∧
        w'.passes = w.passes)
      fun e w' => r.Refuses scope w.graph e ∧ w'.graph = w.graph ∧ w'.passes = w.passes := by
  obtain ⟨res, w', hw', hok, herr⟩ := runs_iff.1 (runs_apply hg.isRooted hg.unit_lt r)
  refine runs_iff.2 ⟨res, w', hw', ?_, ?_⟩
  · rintro n rfl
    obtain ⟨ids, unit, -, hmem, huniq, happ, hunit, hgraph, -, hpass⟩ := hok n rfl
    refine ⟨?_, .cons hw' (.nil _), hpass⟩
    rw [hgraph]
    exact fits_applied hg hmem huniq happ hunit
  · rintro e rfl
    exact ⟨⟨w, w', rfl, hw'⟩, herr e rfl⟩

/-- The rules of a table succeed one after the other, up to the first one that is refused. -/
theorem runs_table (hg : scope.Fits w.graph) (rules : List Rule) :
    Runs (sum (·.apply scope) rules) w
      (fun n w' => scope.Fits w'.graph ∧ w'.passes = w.passes ∧
        ∃ ns, Trace scope (rules.map .rule) w.graph ns w'.graph ∧ n = ns.sum)
      fun e w' => w'.passes = w.passes ∧ ∃ front r back ns, rules = front ++ r :: back ∧
        Trace scope (front.map .rule) w.graph ns w'.graph ∧ r.Refuses scope w'.graph e := by
  -- the rules that are done have led from the first graph to this one
  let I (done rest : List Rule) (n : Nat) (v : Work) : Prop := rules = done ++ rest ∧
    scope.Fits v.graph ∧ v.passes = w.passes ∧
    ∃ ns, Trace scope (done.map .rule) w.graph ns v.graph ∧ n = ns.sum
  have hstep : ∀ done r rest n v, I done (r :: rest) n v →
      Runs (r.apply scope) v (fun m v' => I (done ++ [r]) rest (n + m) v') fun e w' =>
        w'.passes = w.passes ∧ ∃ front r back ns, rules = front ++ r :: back ∧
          Trace scope (front.map .rule) w.graph ns w'.graph ∧ r.Refuses scope w'.graph e := by
    rintro done r rest n v ⟨hl, hv, hpass, ns, ht, hn⟩
    refine (runs_apply_traced hv r).mono (fun m v' h => ?_) fun e v' h => ?_
    · obtain ⟨hv', ht', hpass'⟩ := h
      refine ⟨by simp [hl], hv', hpass'.trans hpass, ns ++ [m], ?_, by simp [hn]⟩
      rw [List.map_append]
      exact ht.append ht'
    · obtain ⟨hr, hgraph, hpass'⟩ := h
      exact ⟨hpass'.trans hpass, done, r, rest, ns, hl, hgraph ▸ ht, hgraph ▸ hr⟩
  refine (runs_sum I hstep rules [] 0 w ⟨rfl, hg, rfl, [], .nil _, rfl⟩).mono (fun n w' h => ?_)
    fun _ _ he => he
  obtain ⟨-, hg', hpass, ns, ht, hn⟩ := h
  exact ⟨hg', hpass, ns, ht, by rwa [Nat.zero_add] at hn⟩

end Rule

/-! ### Passes -/

namespace Pass

/-- Only a table can fail. -/
theorem runs_run (hg : scope.Fits w.graph) (q : Pass) :
    Runs (q.run scope) w
      (fun n w' => scope.Fits w'.graph ∧ w'.passes = w.passes ∧
        ∃ ns, Trace scope q.moves w.graph ns w'.graph ∧ n = ns.sum)
      fun e w' => w'.passes = w.passes ∧ ∃ name phase front r back ns,
        q = .table name phase (front ++ r :: back) ∧
        Trace scope (front.map .rule) w.graph ns w'.graph ∧ r.Refuses scope w'.graph e := by
  cases q with
  | table name phase rules =>
    refine (Rule.runs_table hg rules).mono (fun _ _ h => h) fun e w' h => ?_
    obtain ⟨hpass, front, r, back, ns, rfl, ht, hr⟩ := h
    exact ⟨hpass, name, phase, front, r, back, ns, rfl, ht, hr⟩
  | trim =>
    obtain ⟨res, w', hw', hok, herr⟩ := runs_iff.1
      (Trim.runs_run (E := fun _ _ => False) hg.isRooted)
    refine runs_iff.2 ⟨res, w', hw', ?_, fun e he => (herr e he).elim⟩
    rintro n rfl
    obtain ⟨hren, hpass⟩ := hok n rfl
    refine ⟨⟨hren.isRooted hg.isRooted, ?_⟩, hpass, [n], .cons hw' (.nil _), by simp⟩
    rw [hren.size_eq]
    exact hg.unit_lt

theorem runs_runReported (hg : scope.Fits w.graph) (q : Pass) :
    Runs (q.runReported scope) w
      (fun _ w' => scope.Fits w'.graph ∧ ∃ ns, Trace scope q.moves w.graph ns w'.graph ∧
        w'.passes = w.passes ++ [{ name := q.name, phase := q.phase, changes := ns.sum }])
      fun e w' => w'.passes = w.passes ∧ ∃ name phase front r back ns cause,
        q = .table name phase (front ++ r :: back) ∧
        Trace scope (front.map .rule) w.graph ns w'.graph ∧ r.Refuses scope w'.graph cause ∧
        e = .pass name cause := by
  refine runs_bind (runs_within ((runs_run hg q).mono (fun n w' h => ?_) fun cause w' h => ?_))
  · obtain ⟨hg', hpass, ns, ht, rfl⟩ := h
    refine runs_bind (runs_log fun log => runs_report ⟨hg', ns, ht, ?_⟩)
    rw [hpass]
  · obtain ⟨hpass, name, phase, front, r, back, ns, rfl, ht, hr⟩ := h
    exact ⟨hpass, name, phase, front, r, back, ns, cause, rfl, ht, hr, rfl⟩

/-- The passes succeed one after the other, up to the first rule that is refused. -/
theorem runs_forM_runReported (hg : scope.Fits w.graph) (qs : List Pass) :
    Runs (qs.forM (runReported scope)) w
      (fun _ w' => ∃ counts, PassTrace scope qs w.graph counts w'.graph ∧
        w'.passes = w.passes ++ reports qs counts)
      fun e w' => ∃ entries, w'.passes = w.passes ++ entries ∧
        StopsAt scope qs w.graph entries w'.graph e := by
  let I (done rest : List Pass) (v : Work) : Prop := qs = done ++ rest ∧ scope.Fits v.graph ∧
    ∃ counts, PassTrace scope done w.graph counts v.graph ∧
      v.passes = w.passes ++ reports done counts
  have hstep : ∀ done q rest v, I done (q :: rest) v →
      Runs (q.runReported scope) v (fun _ v' => I (done ++ [q]) rest v') fun e w' =>
        ∃ entries, w'.passes = w.passes ++ entries ∧
          StopsAt scope qs w.graph entries w'.graph e := by
    rintro done q rest v ⟨hl, hv, counts, ht, hpass⟩
    refine (runs_runReported hv q).mono (fun _ v' h => ?_) fun e v' h => ?_
    · obtain ⟨hv', ns, ht', hpass'⟩ := h
      refine ⟨by simp [hl], hv', _, ht.concat ht', ?_⟩
      rw [hpass', hpass, reports_concat ht.length_eq, List.append_assoc]
    · obtain ⟨hpass', name, phase, front, r, back, ns, cause, rfl, ht', hr, rfl⟩ := h
      exact ⟨_, hpass'.trans hpass, done, name, phase, front, r, back, rest, counts, v.graph, ns,
        cause, hl, ht, rfl, ht', hr, rfl⟩
  refine (runs_forM I hstep qs [] w ⟨rfl, hg, [], .nil _, (List.append_nil _).symm⟩).mono
    (fun _ w' h => ?_) fun _ _ he => he
  exact h.2.2

end Pass

namespace Pipeline

/-- A rule that fails leaves the graph as it was; a phase stops at the first such rule, with all
that was done before it in the graph, and the passes that are through in the report. -/
theorem stops_at_refused_rule (hg : w.graph.IsRooted) (hu : scope.unit < w.graph.size)
    (p : Pipeline) (phase : Phase) :
    (∀ r : Rule, ∃ res w', r.apply scope w = some (res, w') ∧
      ∀ e, res = .error e → w'.graph = w.graph ∧ w'.passes = w.passes) ∧
    ∃ res w', p.runPhase phase scope w = some (res, w') ∧
      (∀ x, res = .ok x → ∃ counts,
        PassTrace scope (p.passes.filter (·.phase == phase)) w.graph counts w'.graph ∧
        w'.passes = w.passes ++ Pass.reports (p.passes.filter (·.phase == phase)) counts) ∧
      ∀ e, res = .error e → ∃ entries, w'.passes = w.passes ++ entries ∧
        StopsAt scope (p.passes.filter (·.phase == phase)) w.graph entries w'.graph e := by
  refine ⟨fun r => ?_, runs_iff.1 (Pass.runs_forM_runReported ⟨hg, hu⟩ _)⟩
  obtain ⟨res, w', hw', -, herr⟩ := runs_iff.1 (r.runs_apply hg hu)
  exact ⟨res, w', hw', herr⟩

/-- The first table hoists a namespace; the second one ignores two enumerations, and fails as it is
not a property that it is to make read-only. -/
theorem stops_at_refused_rule_readOnly :
    ∃ (p : Pipeline) (g : Graph) (w : Work) (e : PipelineError),
      Graph.ofText "dump"
        "unit \"a\" \x7b namespace N \x7b enum E \x7b A \x7d enum EE \x7b B \x7d \x7d \x7d" =
        .ok g ∧
      e = .pass "enumerations" (.inapplicable .markReadOnly .enumeration "E") ∧
      p.runPhase .preprocess ⟨0⟩ { graph := g } = some (.error e, w) ∧
      w.passes = [⟨"spaces", .preprocess, 1⟩] ∧
      StopsAt ⟨0⟩ (p.passes.filter (·.phase == .preprocess)) g w.passes w.graph e := by
  let p : Pipeline := { variant := .legacy, passes :=
    [.table "spaces" .preprocess [⟨.namespace none, .hoist, ""⟩],
      .table "enumerations" .preprocess [⟨.enumerationsContaining "E", .ignore, ""⟩,
        ⟨.enumerationsContaining "E", .markReadOnly, ""⟩], .trim] }
  let e := PipelineError.pass "enumerations" (.inapplicable .markReadOnly .enumeration "E")
  have hrun : ∃ g, Graph.ofText "dump"
      "unit \"a\" \x7b namespace N \x7b enum E \x7b A \x7d enum EE \x7b B \x7d \x7d \x7d" = .ok g ∧
      0 < g.size ∧ ∃ w, p.runPhase .preprocess ⟨0⟩ { graph := g } = some (.error e, w) ∧
        w.passes = [⟨"spaces", .preprocess, 1⟩] := by
    refine Graph.exists_ofText (P := fun g => decide (0 < g.size ∧
      (p.runPhase .preprocess ⟨0⟩ { graph := g }).map (fun x => (x.1, x.2.passes)) =
        some (.error e, [⟨"spaces", .preprocess, 1⟩])))
      (by decide +kernel) fun g _ h => ?_
    obtain ⟨hsize, hrun⟩ := of_decide_eq_true h
    obtain ⟨⟨res, w⟩, hr, heq⟩ := Option.map_eq_some_iff.1 hrun
    obtain ⟨rfl, hw⟩ := Prod.mk.inj heq
    exact ⟨hsize, w, hr, hw⟩
  obtain ⟨g, hg, hsize, w, hr, hw⟩ := hrun
  obtain ⟨-, res, w', hr', -, herr⟩ := @stops_at_refused_rule ⟨0⟩ { graph := g }
    (Graph.isLoaded_ofText hg).toWellFormed.isRooted hsize p .preprocess
  obtain ⟨rfl, rfl⟩ := Prod.mk.inj (Option.some.inj (hr.symm.trans hr'))
  obtain ⟨entries, hentries, hstops⟩ := herr e rfl
  have hpasses : w.passes = entries := hentries
  exact ⟨p, g, w, e, hg, rfl, hr, hw, hpasses ▸ hstops⟩

end Pipeline

end Bindery
