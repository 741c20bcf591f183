import Bindery.Proofs.Pipeline.Move

/-!
# Traces

`Trace scope ms g ns h`: the moves `ms` lead from `g` to `h`, with the results `ns`. `Reaches` adds
what is passed on the way and what a failing move leaves. A pipeline run makes the moves
`Pipeline.moves` of its passes and of what is pending, one after the other, up to the first failure.
-/

namespace Bindery

open Step Move

/-- All moves succeed, each from the graph that the one before it left. -/
inductive Trace (scope : Scope) : List Move → Graph → List Nat → Graph → Prop
  | nil (g : Graph) : Trace scope [] g [] g
  | cons {m : Move} {ms : List Move} {n : Nat} {ns : List Nat} {w w' : Work} {h : Graph}
      (hm : m.run scope w = some (.ok n, w')) (ht : Trace scope ms w'.graph ns h) :
      Trace scope (m :: ms) w.graph (n :: ns) h

/-- The graph is found before the moves, after some of them, or where one of them failed. -/
inductive Reaches (scope : Scope) : List Move → Graph → Graph → Prop
  | here (ms : List Move) (g : Graph) : Reaches scope ms g g
  | failed {m : Move} {ms : List Move} {e : PipelineError} {w w' : Work}
      (hm : m.run scope w = some (.error e, w')) : Reaches scope (m :: ms) w.graph w'.graph
  | later {m : Move} {ms : List Move} {n : Nat} {w w' : Work} {h : Graph}
      (hm : m.run scope w = some (.ok n, w')) (ht : Reaches scope ms w'.graph h) :
      Reaches scope (m :: ms) w.graph h

variable {α β : Type} {scope : Scope} {m : Move} {ms ms' : List Move} {g h k : Graph}
  {ns ns' : List Nat}

namespace Trace

theorem append (ht : Trace scope ms g ns k) (ht' : Trace scope ms' k ns' h) :
    Trace scope (ms ++ ms') g (ns ++ ns') h := by
  induction ht with
  | nil => exact ht'
  | cons hm _ ih => exact .cons hm (ih ht')

theorem reaches (ht : Trace scope ms g ns k) (hr : Reaches scope ms' k h) :
    Reaches scope (ms ++ ms') g h := by
  induction ht with
  | nil => exact hr
  | cons hm _ ih => exact .later hm (ih hr)

/-- Induction along a trace, with what each of its moves does; `rest` comes after it. -/
theorem induction {rest : List Move} {motive : List Move → Graph → List Nat → Graph → Prop}
    (nil : ∀ g, Ready scope rest g → motive [] g [] g)
    (cons : ∀ m ms g n k ns h, Ready scope (m :: (ms ++ rest)) g → Trace scope [m] g [n] k →
      m.Does scope g n k → m.Changes scope g n k → Ready scope (ms ++ rest) k →
      Trace scope ms k ns h → motive ms k ns h → motive (m :: ms) g (n :: ns) h)
    (ht : Trace scope ms g ns h) (hg : Ready scope (ms ++ rest) g) : motive ms g ns h := by
  induction ht with
  | nil g => exact nil g hg
  | @cons m ms n ns w w' h hm ht ih =>
    obtain ⟨r, v, hv, hok, -⟩ := runs_iff.1 hg.runs
    obtain ⟨rfl, rfl⟩ := Prod.mk.inj (Option.some.inj (hm.symm.trans hv))
    have hd := (hok n rfl).1
    have hc := hd.changes hg.wellFormed
    have hk := hc.ready hg
    exact cons m ms w.graph n w'.graph ns h hg (.cons hm (.nil _)) hd hc hk ht (ih hk)

theorem keeps {rest : List Move} (ht : Trace scope ms g ns h) (hg : Ready scope (ms ++ rest) g) :
    g.Keeps h := by
  refine ht.induction (motive := fun _ g _ h => g.Keeps h) (fun g _ => .refl g) ?_ hg
  exact fun _ _ _ _ _ _ _ hg _ _ hc _ _ ih => (hc.keeps hg.wellFormed).trans ih

theorem ready {rest : List Move} (ht : Trace scope ms g ns h) (hg : Ready scope (ms ++ rest) g) :
    Ready scope rest h := by
  refine ht.induction (motive := fun _ _ _ h => Ready scope rest h) (fun _ hg => hg) ?_ hg
  exact fun _ _ _ _ _ _ _ _ _ _ _ _ _ ih => ih

/-- Only giving up the list of what is pending changes it. -/
theorem pending_eq {rest : List Move} (ht : Trace scope ms g ns h)
    (hg : Ready scope (ms ++ rest) g) : h.pending = if .clear ∈ ms then [] else g.pending := by
  refine ht.induction (motive := fun ms g _ h => h.pending = if .clear ∈ ms then [] else g.pending)
    (fun _ _ => by simp) ?_ hg
  intro m ms g n k ns h _ _ _ hc _ _ ih
  rw [ih, hc.pending_eq]
  by_cases hm : m = .clear
  · simp [hm]
  · simp [hm, Ne.symm hm]

end Trace

namespace Reaches

theorem append_left (hr : Reaches scope ms g h) (ms' : List Move) :
    Reaches scope (ms ++ ms') g h := by
  induction hr with
  | here ms g => exact .here _ g
  | failed hm => exact .failed hm
  | later hm _ ih => exact .later hm ih

/-- What is reached is ready for what is left of the moves. -/
theorem exists_ready (hr : Reaches scope ms g h) (hg : Ready scope ms g) :
    ∃ rest, rest <:+ ms ∧ Ready scope rest h ∧ g.Keeps h := by
  induction hr with
  | here ms g => exact ⟨ms, List.suffix_refl ms, hg, .refl g⟩
  | @failed m ms e w w' hm =>
    obtain ⟨r, v, hv, -, herr⟩ := runs_iff.1 hg.runs
    obtain ⟨rfl, rfl⟩ := Prod.mk.inj (Option.some.inj (hm.symm.trans hv))
    have hgraph := (herr e rfl).1
    rw [hgraph]
    exact ⟨m :: ms, List.suffix_refl _, hg, .refl _⟩
  | @later m ms n w w' h hm _ ih =>
    obtain ⟨r, v, hv, hok, -⟩ := runs_iff.1 hg.runs
    obtain ⟨rfl, rfl⟩ := Prod.mk.inj (Option.some.inj (hm.symm.trans hv))
    have hc := (hok n rfl).1.changes hg.wellFormed
    obtain ⟨rest, hrest, hready, hkeeps⟩ := ih (hc.ready hg)
    exact ⟨rest, hrest.trans (List.suffix_cons m ms), hready,
      (hc.keeps hg.wellFormed).trans hkeeps⟩

/-- A failing move leaves the graph as it was, so what is reached is what some first moves lead
to. -/
theorem exists_trace {rest : List Move} (hr : Reaches scope ms g h)
    (hg : Ready scope (ms ++ rest) g) :
    ∃ front back ns, ms = front ++ back ∧ Trace scope front g ns h := by
  induction hr with
  | here ms g => exact ⟨[], ms, [], rfl, .nil g⟩
  | @failed m ms e w w' hm =>
    obtain ⟨r, v, hv, -, herr⟩ := runs_iff.1 hg.runs
    obtain ⟨rfl, rfl⟩ := Prod.mk.inj (Option.some.inj (hm.symm.trans hv))
    rw [(herr e rfl).1]
    exact ⟨[], m :: ms, [], rfl, .nil w.graph⟩
  | @later m ms n w w' h hm _ ih =>
    obtain ⟨r, v, hv, hok, -⟩ := runs_iff.1 hg.runs
    obtain ⟨rfl, rfl⟩ := Prod.mk.inj (Option.some.inj (hm.symm.trans hv))
    obtain ⟨front, back, ns, rfl, ht⟩ := ih (((hok n rfl).1.changes hg.wellFormed).ready hg)
    exact ⟨m :: front, back, n :: ns, rfl, .cons hm ht⟩

end Reaches

/-! ### Steps that make moves -/

/-- The step makes the moves `ms`, whatever moves come after it. -/
def Follows (scope : Scope) (ms : List Move) (p : Step α) (R : α → Prop) : Prop :=
  ∀ (w : Work) (rest : List Move), Ready scope (ms ++ rest) w.graph →
    Runs p w
      (fun x w' => Ready scope rest w'.graph ∧ (∃ ns, Trace scope ms w.graph ns w'.graph) ∧ R x)
      fun _ w' => Reaches scope ms w.graph w'.graph

section
variable {p : Step β} {f : β → Step α} {R : α → Prop} {S : β → Prop}

theorem follows_pure {x : α} (h : R x) : Follows scope [] (pure x) R :=
  fun w _ hw => runs_pure ⟨hw, ⟨[], .nil w.graph⟩, h⟩

theorem follows_bind (hp : Follows scope ms p S) (hf : ∀ x, S x → Follows scope ms' (f x) R) :
    Follows scope (ms ++ ms') (p >>= f) R := by
  intro w rest hw
  rw [List.append_assoc] at hw
  refine runs_bind ((hp w _ hw).mono (fun x w' h => ?_) fun _ _ he => he.append_left ms')
  obtain ⟨hw', ⟨ns, ht⟩, hx⟩ := h
  refine (hf x hx w' rest hw').mono (fun y w'' h' => ?_) fun _ _ he => ht.reaches he
  obtain ⟨hw'', ⟨ns', ht'⟩, hy⟩ := h'
  exact ⟨hw'', ⟨ns ++ ns', ht.append ht'⟩, hy⟩

theorem follows_move (m : Move) : Follows scope [m] (m.run scope) fun _ => True := by
  intro w rest hw
  obtain ⟨r, w', hr, hok, herr⟩ := runs_iff.1 hw.runs
  refine runs_iff.2 ⟨r, w', hr, ?_, ?_⟩
  · rintro n rfl
    have hd := (hok n rfl).1
    exact ⟨(hd.changes hw.wellFormed).ready hw, ⟨[n], .cons hr (.nil _)⟩, trivial⟩
  · rintro e rfl
    exact .failed hr

theorem follows_log {topic : Topic} {level : Level} {message : String} :
    Follows scope [] (Step.log topic level message) fun _ => True :=
  fun w _ hw => runs_log fun _ => ⟨hw, ⟨[], .nil w.graph⟩, trivial⟩

theorem follows_report {r : PassReport} : Follows scope [] (Step.report r) fun _ => True :=
  fun w _ hw => runs_report ⟨hw, ⟨[], .nil w.graph⟩, trivial⟩

theorem Follows.within {p : Step α} {pass : String} (h : Follows scope ms p R) :
    Follows scope ms (Step.within pass p) R := fun w rest hw => runs_within (h w rest hw)

theorem follows_forM {F : β → List Move} {f : β → Step PUnit}
    (hf : ∀ x, Follows scope (F x) (f x) fun _ => True) :
    ∀ l : List β, Follows scope (l.flatMap F) (l.forM f) fun _ => True
  | [] => follows_pure trivial
  | x :: l => follows_bind (hf x) fun _ _ => follows_forM hf l

theorem follows_sum {F : β → Move} {f : β → Step Nat}
    (hf : ∀ x, Follows scope [F x] (f x) fun _ => True) :
    ∀ l : List β, Follows scope (l.map F) (Step.sum f l) fun _ => True
  | [] => follows_pure trivial
  | x :: l => by
    rw [List.map_cons, ← List.append_nil (l.map F), ← List.singleton_append]
    refine follows_bind (hf x) fun m _ => ?_
    exact follows_bind (follows_sum hf l) fun n _ => follows_pure trivial

end

/-! ### Pipelines -/

def Pass.moves : Pass → List Move
  | .table _ _ rules => rules.map .rule
  | .trim => [.trim]

theorem Pass.follows_run (p : Pass) : Follows scope p.moves (p.run scope) fun _ => True := by
  cases p with
  | table name phase rules => exact follows_sum (fun r => follows_move (.rule r)) rules
  | trim => exact follows_move .trim

theorem Pass.follows_runReported (p : Pass) :
    Follows scope p.moves (p.runReported scope) fun _ => True := by
  rw [← List.append_nil p.moves]
  refine follows_bind p.follows_run.within fun _ _ => ?_
  show Follows scope ([] ++ []) _ _
  exact follows_bind follows_log fun _ _ => follows_report

namespace Attach

theorem follows_attachOne (p : Pending) :
    Follows scope [.attach p] (attachOne p) fun _ => True := fun w rest hw =>
  (follows_move (.attach p) w rest hw).of_bind_pure

variable {w : Work} {rest : List Move}

/-- Attaching gives up the list of what is pending, then attaches one entry after the other. -/
theorem runs_run (hw : Ready scope ((.clear :: w.graph.pending.map .attach) ++ rest) w.graph) :
    Runs run w
      (fun n w' => Ready scope rest w'.graph ∧
        (∃ ns, Trace scope (.clear :: w.graph.pending.map .attach) w.graph ns w'.graph) ∧
        n = w.graph.pending.length)
      fun _ w' => Reaches scope (.clear :: w.graph.pending.map .attach) w.graph w'.graph := by
  have hclear : Move.clear.run scope w = some (.ok 0, { w with graph.pending := [] }) := rfl
  have hfollows : Follows scope (w.graph.pending.map .attach) (w.graph.pending.forM attachOne)
      fun _ => True := by
    rw [← List.flatMap_singleton' (w.graph.pending.map Move.attach), List.flatMap_map]
    exact follows_forM follows_attachOne _
  refine runs_run_of_forM ?_
  refine (hfollows _ rest (Changes.cleared (n := 0).ready hw)).mono (fun _ w' h _ => ?_)
    fun _ _ he => .later hclear he
  obtain ⟨hw', ⟨ns, ht⟩, -⟩ := h
  exact ⟨hw', ⟨_, Trace.cons hclear ht⟩, rfl⟩

end Attach

namespace Pipeline

variable (p : Pipeline)

/-- The moves of the passes of a phase. -/
def movesOf (phase : Phase) : List Move := (p.passes.filter (·.phase == phase)).flatMap Pass.moves

/-- The moves of a run on a graph of which `pending` is pending. -/
def moves (pending : List Pending) : List Move :=
  p.movesOf .preprocess ++ (.clear :: pending.map .attach ++ p.movesOf .postprocess)

theorem follows_runPhase (phase : Phase) :
    Follows scope (p.movesOf phase) (p.runPhase phase scope) fun _ => True :=
  follows_forM Pass.follows_runReported _

/-- The graph is found in a run for the file `header` on `g`: at its start, between two moves, at
its end, or where it failed. -/
def Reaches (header : String) (g h : Graph) : Prop :=
  h = g ∨ ∃ scope, (Scope.primary g header).run = some (.ok scope) ∧
    Bindery.Reaches scope (p.moves g.pending) g h

theorem clear_notMem_movesOf (phase : Phase) : Move.clear ∉ p.movesOf phase := by
  intro h
  obtain ⟨q, -, hq⟩ := List.mem_flatMap.1 h
  cases q with
  | table name phase rules =>
    obtain ⟨r, -, hr⟩ := List.mem_map.1 hq
    exact absurd hr nofun
  | trim => exact absurd (List.mem_singleton.1 hq) nofun

theorem waiting_movesOf (phase : Phase) : waiting (p.movesOf phase) = [] := by
  refine List.filterMap_eq_nil_iff.2 fun m hm => ?_
  obtain ⟨q, -, hq⟩ := List.mem_flatMap.1 hm
  cases q with
  | table name phase rules =>
    obtain ⟨r, -, rfl⟩ := List.mem_map.1 hq
    rfl
  | trim =>
    obtain rfl := List.mem_singleton.1 hq
    rfl

theorem waiting_moves (pending : List Pending) : waiting (p.moves pending) = pending := by
  have h : waiting (pending.map .attach) = pending := by
    rw [waiting, List.filterMap_map]
    exact List.filterMap_some
  rw [moves, waiting_append, List.cons_append, waiting_movesOf, List.nil_append]
  show waiting (pending.map .attach ++ p.movesOf .postprocess) = pending
  rw [waiting_append, h, waiting_movesOf, List.append_nil]

variable {w : Work}

/-- A run makes all its moves, or fails in one of them. -/
theorem runs_transform (header : String) (hg : w.graph.WellFormed)
    (hp : w.graph.Awaits w.graph.pending) :
    Runs (p.transform header) w
      (fun n w' => n = w.graph.pending.length ∧ ∃ scope ns,
        (Scope.primary w.graph header).run = some (.ok scope) ∧
        Trace scope (p.moves w.graph.pending) w.graph ns w'.graph)
      fun _ w' => p.Reaches header w.graph w'.graph := by
  obtain ⟨r, hr, hok, -⟩ := hg.primary_spec header
  refine runs_bind (runs_look (f := fun g => Scope.primary g header) hr (fun scope hs => ?_)
    fun _ _ => Or.inl rfl)
  subst hs
  have hready : Ready scope (p.moves w.graph.pending) w.graph :=
    ⟨hg, (hok scope rfl).1, (p.waiting_moves _).symm ▸ hp⟩
  have hfail : ∀ h, Bindery.Reaches scope (p.moves w.graph.pending) w.graph h →
      p.Reaches header w.graph h := fun h hh => Or.inr ⟨scope, hr, hh⟩
  refine runs_bind ((p.follows_runPhase .preprocess w _ hready).mono (fun _ w₁ h => ?_)
    fun _ w₁ he => hfail _ (he.append_left _))
  obtain ⟨hw₁, ⟨ns₁, ht₁⟩, -⟩ := h
  have hpend : w₁.graph.pending = w.graph.pending :=
    (ht₁.pending_eq hready).trans (if_neg (p.clear_notMem_movesOf _))
  rw [← hpend] at hw₁
  refine runs_bind ((Attach.runs_run hw₁).mono (fun n w₂ h => ?_) fun _ w₂ he => ?_)
  · obtain ⟨hw₂, ⟨ns₂, ht₂⟩, hn⟩ := h
    rw [hpend] at hn ht₂
    rw [← List.append_nil (p.movesOf _)] at hw₂
    refine runs_bind ((p.follows_runPhase .postprocess w₂ [] hw₂).mono (fun _ w₃ h => ?_)
      fun _ w₃ he => hfail _ (ht₁.reaches (ht₂.reaches he)))
    obtain ⟨-, ⟨ns₃, ht₃⟩, -⟩ := h
    exact runs_pure ⟨hn, scope, _, hr, ht₁.append (ht₂.append ht₃)⟩
  · rw [hpend] at he
    exact hfail _ (ht₁.reaches (he.append_left _))

end Pipeline

end Bindery
