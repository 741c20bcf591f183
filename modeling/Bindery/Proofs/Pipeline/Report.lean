import Bindery.Proofs.Pipeline.Count
import Bindery.Proofs.Pipeline.Phase

/-!
# The report of a run

The passes of the two phases enter their numbers into the report, and attaching enters nothing. So
the number that the report has under the name of a pass is the sum of what the moves of that pass
change, with all the other moves of the run before and after them: `PassAt`.
-/

namespace Bindery

open Step Move

variable {scope : Scope} {g h k : Graph} {q : Pass} {qs qs' : List Pass} {w : Work} {n : Nat}
  {counts : List Nat} {ms ms' rest : List Move} {r : Rule}

/-! ### Rows of passes -/

theorem eq_take_append_cons_drop {α : Type} {l : List α} {i : Nat} {a : α} (h : l[i]? = some a) :
    l = l.take i ++ a :: l.drop (i + 1) := by
  obtain ⟨hi, rfl⟩ := List.getElem?_eq_some_iff.1 h
  rw [List.getElem_cons_drop, List.take_append_drop]

namespace PassTrace

theorem exists_trace (ht : PassTrace scope qs g counts h) :
    ∃ ns, Trace scope (qs.flatMap Pass.moves) g ns h := by
  induction ht with
  | nil g => exact ⟨[], .nil g⟩
  | cons hq _ ih =>
    obtain ⟨ns, ht⟩ := ih
    exact ⟨_, hq.append ht⟩

theorem exists_split (ht : PassTrace scope (qs ++ q :: qs') g counts h) :
    ∃ k k' cs ns cs', PassTrace scope qs g cs k ∧ Trace scope q.moves k ns k' ∧
      PassTrace scope qs' k' cs' h ∧ counts = cs ++ ns.sum :: cs' := by
  induction qs generalizing g counts with
  | nil =>
    cases ht with
    | cons hq ht => exact ⟨g, _, [], _, _, .nil g, hq, ht, rfl⟩
  | cons q₀ qs ih =>
    cases ht with
    | cons hq₀ ht =>
      obtain ⟨k, k', cs, ns, cs', h₁, hq, h₂, rfl⟩ := ih ht
      exact ⟨k, k', _, ns, cs', .cons hq₀ h₁, hq, h₂, rfl⟩

theorem map_name_reports (ht : PassTrace scope qs g counts h) :
    (Pass.reports qs counts).map (·.name) = qs.map Pass.name := by
  induction ht with
  | nil => rfl
  | cons _ _ ih => exact congrArg (_ :: ·) ih

/-- The report has the number of a pass whose name is not taken before. -/
theorem exists_changesOf? (ht : PassTrace scope (qs ++ q :: qs') g counts h) {r : PipelineReport}
    (before : List PassReport) {after : List PassReport}
    (hr : r.passes = before ++ (Pass.reports (qs ++ q :: qs') counts ++ after))
    (hno : q.name ∉ before.map (·.name) ++ qs.map Pass.name) :
    ∃ k k' ns₁ ns ns₂, Trace scope (qs.flatMap Pass.moves) g ns₁ k ∧ Trace scope q.moves k ns k' ∧
      Trace scope (qs'.flatMap Pass.moves) k' ns₂ h ∧ r.changesOf? q.name = some ns.sum := by
  obtain ⟨k, k', cs, ns, cs', h₁, hq, h₂, rfl⟩ := ht.exists_split
  obtain ⟨ns₁, h₁'⟩ := h₁.exists_trace
  obtain ⟨ns₂, h₂'⟩ := h₂.exists_trace
  refine ⟨k, k', ns₁, ns, ns₂, h₁', hq, h₂', ?_⟩
  have hsplit : r.passes = (before ++ Pass.reports qs cs) ++
      ({ name := q.name, phase := q.phase, changes := ns.sum } ::
        (Pass.reports qs' cs' ++ after)) := by
    rw [hr, Pass.reports, List.zipWith_append h₁.length_eq.symm, List.append_assoc,
      List.append_assoc]
    rfl
  rw [← h₁.map_name_reports, ← List.map_append] at hno
  rw [PipelineReport.changesOf?, hsplit, List.find?_append, List.find?_eq_none.2 fun x hx he => ?_]
  · simp
  · exact hno (List.mem_map.2 ⟨x, hx, beq_iff_eq.1 he⟩)

end PassTrace

/-! ### Passes in a run -/

/-- Attaching enters nothing into the report. -/
theorem Attach.runs_run_passes
    (hw : Ready scope ((.clear :: w.graph.pending.map .attach) ++ rest) w.graph) :
    Runs run w (fun _ w' => w'.passes = w.passes) fun _ _ => True := by
  let I (_ todo : List Pending) (v : Work) : Prop :=
    Ready scope (todo.map .attach ++ rest) v.graph ∧ v.passes = w.passes
  have hstep : ∀ done p todo v, I done (p :: todo) v →
      Runs (attachOne p) v (fun _ v' => I (done ++ [p]) todo v') fun _ _ => True := by
    rintro done p todo v ⟨hv, hpass⟩
    have hmove : Runs ((Move.attach p).run scope) v (fun _ v' => I (done ++ [p]) todo v')
        fun _ _ => True := by
      refine hv.runs.mono (fun n v' h => ?_) fun _ _ _ => trivial
      exact ⟨(h.1.changes hv.wellFormed).ready hv, h.2.trans hpass⟩
    exact hmove.of_bind_pure
  refine runs_run_of_forM ?_
  exact (runs_forM I hstep w.graph.pending [] { w with graph.pending := [] }
    ⟨Changes.cleared (n := 0).ready hw, rfl⟩).mono (fun _ w' h _ => h.2) fun _ _ he => he

/-- In a run from `g` to `h` the moves `front` are made, then the moves `mid`, which change `n`
declarations, then the moves `back`. -/
structure PassAt (scope : Scope) (g : Graph) (front mid back : List Move) (n : Nat) (h : Graph) :
    Prop where
  ready : Ready scope (front ++ (mid ++ (back ++ []))) g
  exists_traces : ∃ k k' ns₁ ns ns₂, Trace scope front g ns₁ k ∧ Trace scope mid k ns k' ∧
    Trace scope back k' ns₂ h ∧ ns.sum = n

def Pass.rules : Pass → List Rule
  | .table _ _ rules => rules
  | .trim => []

theorem Pass.rules_flatMap_moves (qs : List Pass) :
    Move.rules (qs.flatMap Pass.moves) = qs.flatMap Pass.rules := by
  induction qs with
  | nil => rfl
  | cons q qs ih =>
    rw [List.flatMap_cons, List.flatMap_cons, Move.rules_append, ih]
    cases q with
    | table _ _ rules => rw [Pass.moves, Move.rules_map_rule, Pass.rules]
    | trim => rfl

theorem Pass.trim_notMem (hqs : Pass.trim ∉ qs) : Move.trim ∉ qs.flatMap Pass.moves := by
  intro hm
  obtain ⟨q, hq, hm⟩ := List.mem_flatMap.1 hm
  cases q with
  | table _ _ rules =>
    obtain ⟨r, -, hr⟩ := List.mem_map.1 hm
    exact absurd hr nofun
  | trim => exact hqs hq

namespace Pipeline

variable {p : Pipeline} {c : Config} {w₁ w₂ : World} {v : World} {run : PipelineRun}

/-- The moves between the phases. -/
def attaching (ps : List Pending) : List Move := .clear :: ps.map .attach

theorem rules_attaching (ps : List Pending) : Move.rules (attaching ps) = [] := by
  rw [Move.rules, attaching, List.filterMap_cons]
  show List.filterMap rule? (ps.map .attach) = []
  rw [List.filterMap_map]
  exact List.filterMap_none ps

theorem trim_notMem_attaching (ps : List Pending) : Move.trim ∉ attaching ps := by
  simp [attaching]

theorem runs_transform_reported (p : Pipeline) (header : String) (hg : w.graph.WellFormed)
    (hp : w.graph.Awaits w.graph.pending) :
    Runs (p.transform header) w
      (fun _ w' => ∃ scope k₁ k₂ c₁ c₂ ns, Ready scope (p.moves w.graph.pending) w.graph ∧
        PassTrace scope (p.passes.filter (·.phase == .preprocess)) w.graph c₁ k₁ ∧
        Trace scope (attaching w.graph.pending) k₁ ns k₂ ∧
        PassTrace scope (p.passes.filter (·.phase == .postprocess)) k₂ c₂ w'.graph ∧
        w'.passes = w.passes ++ (Pass.reports (p.passes.filter (·.phase == .preprocess)) c₁ ++
          Pass.reports (p.passes.filter (·.phase == .postprocess)) c₂))
      fun _ _ => True := by
  obtain ⟨r, hr, hok, -⟩ := hg.primary_spec header
  refine runs_bind (runs_look (f := fun g => Scope.primary g header) hr (fun scope hs => ?_)
    fun _ _ => trivial)
  subst hs
  have hready : Ready scope (p.moves w.graph.pending) w.graph :=
    ⟨hg, (hok scope rfl).1, (p.waiting_moves _).symm ▸ hp⟩
  have hfits : ∀ {ms : List Move} {k : Graph}, Ready scope ms k → scope.Fits k := fun hk =>
    ⟨hk.wellFormed.isRooted, hk.wellFormed.isRooted.unit_lt hk.unit_mem⟩
  refine runs_bind ((Pass.runs_forM_runReported (hfits hready) _).mono (fun _ w₁ h => ?_)
    fun _ _ _ => trivial)
  obtain ⟨c₁, h₁, hpass₁⟩ := h
  obtain ⟨ns₁, ht₁⟩ := h₁.exists_trace
  have hw₁ := ht₁.ready hready
  have hpend : w₁.graph.pending = w.graph.pending :=
    (ht₁.pending_eq hready).trans (if_neg (p.clear_notMem_movesOf _))
  rw [← hpend] at hw₁
  refine runs_bind (((Attach.runs_run hw₁).and (Attach.runs_run_passes hw₁)).mono
    (fun n w₂ h => ?_) fun _ _ _ => trivial)
  obtain ⟨⟨hw₂, ⟨ns, ht⟩, -⟩, hpass₂⟩ := h
  rw [hpend] at ht
  refine runs_bind ((Pass.runs_forM_runReported (hfits hw₂) _).mono (fun _ w₃ h => ?_)
    fun _ _ _ => trivial)
  obtain ⟨c₂, h₂, hpass₃⟩ := h
  exact runs_pure ⟨scope, w₁.graph, w₂.graph, c₁, c₂, ns, hready, h₁, ht, h₂, by
    rw [hpass₃, hpass₂, hpass₁, List.append_assoc]⟩

theorem isLoaded_of_loadDump (hload : Command.loadDump c v = some (.ok g, w₁)) : g.IsLoaded := by
  obtain ⟨text, htext⟩ := Command.loadDump_eq_ok hload
  exact Graph.isLoaded_ofText htext

/-- A successful run, phase by phase, with its report. -/
theorem exists_passTraces (hload : Command.loadDump c v = some (.ok g, w₁))
    (hrun : p.execute c v = some (.ok run, w₂)) :
    ∃ scope k₁ k₂ c₁ c₂ ns, Ready scope (p.moves g.pending) g ∧
      PassTrace scope (p.passes.filter (·.phase == .preprocess)) g c₁ k₁ ∧
      Trace scope (attaching g.pending) k₁ ns k₂ ∧
      PassTrace scope (p.passes.filter (·.phase == .postprocess)) k₂ c₂ run.graph ∧
      run.report.passes = Pass.reports (p.passes.filter (·.phase == .preprocess)) c₁ ++
        Pass.reports (p.passes.filter (·.phase == .postprocess)) c₂ := by
  obtain ⟨g', v', work, hload', htransform, hgraph, hpasses⟩ := execute_eq_ok hrun
  obtain ⟨hg', -⟩ := Prod.mk.inj (Option.some.inj (hload.symm.trans hload'))
  obtain rfl := Except.ok.inj hg'
  have hg := isLoaded_of_loadDump hload
  obtain ⟨r, work', hwork', hok, -⟩ := Step.runs_iff.1
    (p.runs_transform_reported c.primaryHeader (w := { graph := g }) hg.toWellFormed hg.awaits)
  obtain ⟨rfl, rfl⟩ := Prod.mk.inj (Option.some.inj (htransform.symm.trans hwork'))
  obtain ⟨scope, k₁, k₂, c₁, c₂, ns, hready, h₁, ht, h₂, hpass⟩ := hok _ rfl
  exact ⟨scope, k₁, k₂, c₁, c₂, ns, hready, h₁, ht, hgraph ▸ h₂, hpasses.trans hpass⟩

/-- What the report says of pass `i` of the first phase. -/
theorem passAt_preprocess (hload : Command.loadDump c v = some (.ok g, w₁))
    (hrun : p.execute c v = some (.ok run, w₂)) (i : Nat)
    (hq : (p.passes.filter (·.phase == .preprocess))[i]? = some q)
    (hno : q.name ∉ ((p.passes.filter (·.phase == .preprocess)).take i).map Pass.name)
    (htrim : Pass.trim ∉ (p.passes.filter (·.phase == .preprocess)).take i) :
    ∃ scope front back n, run.report.changesOf? q.name = some n ∧
      PassAt scope g front q.moves back n run.graph ∧ .trim ∉ front ∧
      rules front = ((p.passes.filter (·.phase == .preprocess)).take i).flatMap Pass.rules ∧
      rules back = ((p.passes.filter (·.phase == .preprocess)).drop (i + 1) ++
        p.passes.filter (·.phase == .postprocess)).flatMap Pass.rules := by
  obtain ⟨scope, k₁, k₂, c₁, c₂, ns, hready, h₁, ht, h₂, hpass⟩ := exists_passTraces hload hrun
  have hsplit := eq_take_append_cons_drop hq
  rw [hsplit] at h₁ hpass
  obtain ⟨k, k', n₁, n, n₂, t₁, t, t₂, hn⟩ := h₁.exists_changesOf? [] hpass hno
  obtain ⟨n₃, t₃⟩ := h₂.exists_trace
  refine ⟨scope, _, _, n.sum, hn, ⟨?_, k, k', n₁, n, _, t₁, t, t₂.append (ht.append t₃), rfl⟩,
    Pass.trim_notMem htrim, Pass.rules_flatMap_moves _, ?_⟩
  · have hmoves : p.moves g.pending = (p.passes.filter (·.phase == .preprocess)).flatMap
        Pass.moves ++ (attaching g.pending ++ p.movesOf .postprocess) := rfl
    rw [hmoves, hsplit, List.flatMap_append, List.flatMap_cons] at hready
    simpa [movesOf] using hready
  · rw [rules_append, rules_append, rules_attaching, List.nil_append, Pass.rules_flatMap_moves,
      Pass.rules_flatMap_moves, List.flatMap_append]

/-- What the report says of pass `i` of the second phase. -/
theorem passAt_postprocess (hload : Command.loadDump c v = some (.ok g, w₁))
    (hrun : p.execute c v = some (.ok run, w₂)) (i : Nat)
    (hq : (p.passes.filter (·.phase == .postprocess))[i]? = some q)
    (hno : q.name ∉ (p.passes.filter (·.phase == .preprocess) ++
      (p.passes.filter (·.phase == .postprocess)).take i).map Pass.name)
    (htrim : Pass.trim ∉ p.passes.filter (·.phase == .preprocess) ++
      (p.passes.filter (·.phase == .postprocess)).take i) :
    ∃ scope front n, run.report.changesOf? q.name = some n ∧
      PassAt scope g front q.moves
        (((p.passes.filter (·.phase == .postprocess)).drop (i + 1)).flatMap Pass.moves) n
        run.graph ∧ .trim ∉ front ∧
      rules front = (p.passes.filter (·.phase == .preprocess) ++
        (p.passes.filter (·.phase == .postprocess)).take i).flatMap Pass.rules := by
  obtain ⟨scope, k₁, k₂, c₁, c₂, ns, hready, h₁, ht, h₂, hpass⟩ := exists_passTraces hload hrun
  have hsplit := eq_take_append_cons_drop hq
  rw [hsplit] at h₂ hpass
  rw [List.map_append, ← h₁.map_name_reports] at hno
  rw [List.mem_append, not_or] at htrim
  obtain ⟨k, k', n₁, n, n₂, t₁, t, t₂, hn⟩ :=
    h₂.exists_changesOf? _ (hpass.trans (congrArg _ (List.append_nil _).symm)) hno
  obtain ⟨n₀, t₀⟩ := h₁.exists_trace
  refine ⟨scope, _, n.sum, hn, ⟨?_, k, k', _, n, n₂, t₀.append (ht.append t₁), t, t₂, rfl⟩, ?_, ?_⟩
  · have hmoves : p.moves g.pending = p.movesOf .preprocess ++ (attaching g.pending ++
        (p.passes.filter (·.phase == .postprocess)).flatMap Pass.moves) := rfl
    rw [hmoves, hsplit, List.flatMap_append, List.flatMap_cons] at hready
    simpa [movesOf] using hready
  · rw [List.mem_append, List.mem_append, not_or, not_or]
    exact ⟨Pass.trim_notMem htrim.1, trim_notMem_attaching _, Pass.trim_notMem htrim.2⟩
  · rw [rules_append, rules_append, rules_attaching, List.nil_append, Pass.rules_flatMap_moves,
      Pass.rules_flatMap_moves, List.flatMap_append]

end Pipeline

end Bindery
