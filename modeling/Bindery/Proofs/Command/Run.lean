import Bindery.Command.Run
import Bindery.Proofs.File.System
import Bindery.Proofs.Pipeline.Invariant

/-!
# Runs that succeed

What a successful `Pipeline.execute` is made of: an accepted dump, and a trace of all moves from its
graph to the graph of the result. The log never stands in its way.
-/

namespace Bindery

/-- The file of the dump is the text, whatever is logged before it is read. -/
def World.Provides (w : World) (c : Config) (text : String) : Prop :=
  ∀ l v, Command.logLine l w = some (.ok (), v) → v.tee.files.readText c.dumpPath = .ok text

def World.withFiles (w : World) (files : FileSystem) : World :=
  { w with tee := { w.tee with files := files } }

/-- A dump where it is expected, if nothing is said of its place. -/
theorem FileSystem.readText_dumpPath (text : String) :
    FileSystem.readText { nodes := [([.text "imgui.decls"], .file (.text text))] }
      ({} : Config).dumpPath = .ok text := by
  have hcheck : checkPath (.text "imgui.decls") = .ok () := by
    rw [checkPath, if_neg (by decide +kernel), if_neg (by decide +kernel), if_neg (by decide)]
  have hsteps : Path.steps (.text "imgui.decls") = [.text "imgui.decls"] := by decide +kernel
  have henter : FileSystem.enter { nodes := [([.text "imgui.decls"], .file (.text text))] } []
      (.text "imgui.decls") = .ok [.text "imgui.decls"] := by
    rw [enter, if_neg (by decide), if_neg (by decide), if_neg (by decide +kernel)]
    rfl
  refine readText_eq_ok.2 ⟨by decide +kernel, [.text "imgui.decls"], ?_, rfl⟩
  rw [locate, hcheck, hsteps, startOf, if_neg (by decide +kernel)]
  show (enter _ _ _).bind _ = _
  rw [henter]
  rfl

namespace Command

variable {α β : Type} {w w' : World} {y : α} {c : Config} {g : Graph}

theorem result_unique {p : Command α} {r r' : Except Failure α} {v v' : World}
    (h : p w = some (r, v)) (h' : p w = some (r', v')) : r = r' ∧ v = v' :=
  Prod.mk.inj (Option.some.inj (h.symm.trans h'))

theorem bind_eq_ok {p : Command β} {f : β → Command α} :
    (p >>= f) w = some (.ok y, w') ↔ ∃ x v, p w = some (.ok x, v) ∧ f x v = some (.ok y, w') := by
  show Command.bind p f w = _ ↔ _
  unfold Command.bind
  rcases p w with _ | ⟨e | x, v⟩
  · simp
  · simp
  · simp

theorem pure_eq_ok {x : α} : (pure x : Command α) w = some (.ok y, w') ↔ x = y ∧ w = w' := by
  show some (Except.ok x, w) = _ ↔ _
  simp

theorem ask_eq_ok {x : Option α} : ask x w = some (.ok y, w') ↔ x = some y ∧ w = w' := by
  unfold ask
  cases x <;> simp

theorem ofExcept_eq_ok {ε : Type} {cause : ε → Cause} {x : Except ε α} :
    ofExcept cause x w = some (.ok y, w') ↔ x = .ok y ∧ w = w' := by
  cases x with
  | ok x => simp [ofExcept, pure_eq_ok]
  | error e => simp [ofExcept, fail]

/-- Whether a command succeeds with a decidable property can be computed. -/
theorem exists_eq_ok {r : Option (Except Failure α × World)} {P : α → Prop} [DecidablePred P]
    (h : r.any fun x => x.1.toOption.any fun a => P a) : ∃ a v, r = some (.ok a, v) ∧ P a := by
  rcases r with _ | ⟨e | a, v⟩
  · exact absurd h nofun
  · exact absurd h nofun
  · exact ⟨a, v, rfl, of_decide_eq_true h⟩

/-- The graph that is loaded is that of an accepted text. -/
theorem loadDump_eq_ok (h : loadDump c w = some (.ok g, w')) :
    ∃ text, Graph.ofText c.dumpPath.shown text = .ok g := by
  obtain ⟨-, v, -, h⟩ := bind_eq_ok.1 h
  obtain ⟨r, v', hr, h⟩ := bind_eq_ok.1 h
  obtain ⟨k, v'', hk, h⟩ := bind_eq_ok.1 h
  obtain ⟨live, u, -, h⟩ := bind_eq_ok.1 h
  obtain ⟨-, u', -, h⟩ := bind_eq_ok.1 h
  obtain ⟨rfl, -⟩ := pure_eq_ok.1 h
  obtain ⟨rfl, -⟩ := ofExcept_eq_ok.1 hk
  obtain ⟨hfile, -⟩ := Prod.mk.inj (Option.some.inj hr)
  replace hfile : Graph.ofFile v.tee.files c.dumpPath = .ok k := Except.ok.inj hfile
  unfold Graph.ofFile at hfile
  split at hfile
  · exact absurd hfile nofun
  · next text _ => exact ⟨text, hfile⟩

theorem runStep_eq_ok {p : Step α} {x : α × Work}
    (h : runStep g p w = some (.ok x, w')) : p { graph := g } = some (.ok x.1, x.2) := by
  obtain ⟨⟨r, work⟩, v, hr, h⟩ := bind_eq_ok.1 h
  obtain ⟨-, v', -, h⟩ := bind_eq_ok.1 h
  obtain ⟨y, v'', hy, h⟩ := bind_eq_ok.1 h
  obtain ⟨rfl, -⟩ := pure_eq_ok.1 h
  obtain ⟨rfl, -⟩ := ofExcept_eq_ok.1 hy
  exact (ask_eq_ok.1 hr).1

theorem exists_logLine (l : LogLine) (w : World) : ∃ v, logLine l w = some (.ok (), v) ∧
    (w.tee.sink = none → v.tee.files = w.tee.files) := by
  refine ⟨_, rfl, fun hw => ?_⟩
  split
  · rw [Tee.write, hw]
    rfl
  · rfl

theorem exists_forM_logLine (ls : List LogLine) (w : World) :
    ∃ v, ls.forM logLine w = some (.ok (), v) := by
  induction ls generalizing w with
  | nil => exact ⟨w, rfl⟩
  | cons l ls ih =>
    obtain ⟨v, hv, -⟩ := exists_logLine l w
    obtain ⟨u, hu⟩ := ih v
    exact ⟨u, bind_eq_ok.2 ⟨(), v, hv, hu⟩⟩

theorem bind_of_ok {p : Command β} {f : β → Command α} {x : β} {v : World}
    (h : p w = some (.ok x, v)) : (p >>= f) w = f x v := by
  show Command.bind p f w = _
  rw [Command.bind, h]

theorem bind_of_error {p : Command β} {f : β → Command α} {e : Failure} {v : World}
    (h : p w = some (.error e, v)) : (p >>= f) w = some (.error e, v) := by
  show Command.bind p f w = _
  rw [Command.bind, h]

theorem attempting_of_ok {p : Command α} {x : α} (h : p w = some (.ok x, w')) (what : String) :
    attempting what p w = some (.ok x, w') := by
  rw [attempting, h]
  rfl

theorem attempting_of_error {p : Command α} {f : Failure} (h : p w = some (.error f, w'))
    (what : String) :
    attempting what p w = some (.error { f with contexts := what :: f.contexts }, w') := by
  rw [attempting, h]
  rfl

theorem change_of_ok {f : FileSystem → Except FileError FileSystem} {fs : FileSystem}
    (h : f w.tee.files = .ok fs) : change f w = some (.ok (), w.withFiles fs) := by
  rw [change, h]
  rfl

theorem change_of_error {f : FileSystem → Except FileError FileSystem} {e : FileError}
    (h : f w.tee.files = .error e) : change f w = some (.error { cause := .file e }, w) := by
  rw [change, h]

theorem writeFile_eq_ok {path : Path} {content : String} :
    writeFile path content w = some (.ok (), w') ↔
      ∃ fs, w.tee.files.write path (.text content) = .ok fs ∧ w.withFiles fs = w' := by
  cases hfs : w.tee.files.write path (.text content) with
  | error e =>
    rw [writeFile, attempting_of_error (change_of_error hfs)]
    simp
  | ok fs =>
    rw [writeFile, attempting_of_ok (change_of_ok hfs)]
    simp

theorem provides_of_sink {text : String} (hw : w.tee.sink = none)
    (h : w.tee.files.readText c.dumpPath = .ok text) : w.Provides c text := by
  intro l v hv
  obtain ⟨u, hu, hfiles⟩ := exists_logLine l w
  obtain ⟨-, rfl⟩ := Prod.mk.inj (Option.some.inj (hv.symm.trans hu))
  rw [hfiles hw]
  exact h

/-- A text that is no accepted dump is not loaded. -/
theorem exists_loadDump_error {text : String} {e : Dump.LoadError} (hw : w.Provides c text)
    (h : Graph.ofText c.dumpPath.shown text = .error e) :
    ∃ v, loadDump c w = some (.error { cause := .load e }, v) := by
  obtain ⟨v, hv, -⟩ := exists_logLine _ w
  refine ⟨v, (bind_of_ok hv).trans ?_⟩
  have hfile : Graph.ofFile v.tee.files c.dumpPath = .error e := by
    rw [Graph.ofFile, hw _ v hv]
    exact h
  refine (bind_of_ok (x := .error e) (v := v) ?_).trans (bind_of_error rfl)
  show some (Except.ok (Graph.ofFile v.tee.files c.dumpPath), v) = _
  rw [hfile]

theorem exists_loadDump_of_provides {text : String} (hw : w.Provides c text)
    (h : Graph.ofText c.dumpPath.shown text = .ok g) (hwf : g.WellFormed) :
    ∃ v, loadDump c w = some (.ok g, v) := by
  obtain ⟨v, hv, -⟩ := exists_logLine _ w
  obtain ⟨u, hu, -⟩ := exists_logLine _ v
  have hfile : Graph.ofFile v.tee.files c.dumpPath = .ok g := by
    rw [Graph.ofFile, hw _ v hv]
    exact h
  refine ⟨u, bind_eq_ok.2 ⟨(), v, hv, bind_eq_ok.2 ⟨.ok g, v, ?_, ?_⟩⟩⟩
  · show some (Except.ok (Graph.ofFile v.tee.files c.dumpPath), v) = _
    rw [hfile]
  · exact bind_eq_ok.2 ⟨g, v, rfl, bind_eq_ok.2 ⟨_, v, ask_eq_ok.2 ⟨hwf.isRooted.live?_eq, rfl⟩,
      bind_eq_ok.2 ⟨(), u, hu, rfl⟩⟩⟩

/-- The graph of an accepted file is loaded, unless the log goes into a file as well. -/
theorem exists_loadDump (hw : w.tee.sink = none)
    (hg : Graph.ofFile w.tee.files c.dumpPath = .ok g) (hwf : g.WellFormed) :
    ∃ v, loadDump c w = some (.ok g, v) := by
  unfold Graph.ofFile at hg
  split at hg
  · exact absurd hg nofun
  · next text htext => exact exists_loadDump_of_provides (provides_of_sink hw htext) hg hwf

theorem exists_runStep_error {p : Step α} {e : PipelineError} {work : Work} (w : World)
    (h : p { graph := g } = some (.error e, work)) :
    ∃ v, runStep g p w = some (.error { cause := .pipeline e }, v) := by
  obtain ⟨v, hv⟩ := exists_forM_logLine work.log w
  refine ⟨v, (bind_of_ok (x := (.error e, work)) (v := w) ?_).trans ?_⟩
  · rw [ask, h]
    rfl
  · exact (bind_of_ok hv).trans (bind_of_error rfl)

theorem exists_runStep {p : Step α} {x : α} {work : Work} (w : World)
    (h : p { graph := g } = some (.ok x, work)) :
    ∃ v, runStep g p w = some (.ok (x, work), v) := by
  obtain ⟨v, hv⟩ := exists_forM_logLine work.log w
  exact ⟨v, bind_eq_ok.2 ⟨_, w, ask_eq_ok.2 ⟨h, rfl⟩, bind_eq_ok.2 ⟨(), v, hv, rfl⟩⟩⟩

end Command

namespace Pipeline

variable {p : Pipeline} {c : Config} {w w' : World} {run : PipelineRun}

theorem execute_eq_ok (h : p.execute c w = some (.ok run, w')) :
    ∃ g v work, Command.loadDump c w = some (.ok g, v) ∧
      p.transform c.primaryHeader { graph := g } = some (.ok run.report.synthesized, work) ∧
      run.graph = work.graph ∧ run.report.passes = work.passes := by
  obtain ⟨g, v, hg, h⟩ := Command.bind_eq_ok.1 h
  obtain ⟨⟨n, work⟩, v', hstep, h⟩ := Command.bind_eq_ok.1 h
  obtain ⟨rfl, -⟩ := Command.pure_eq_ok.1 h
  exact ⟨g, v, work, hg, Command.runStep_eq_ok hstep, rfl, rfl⟩

theorem exists_execute {g : Graph} {n : Nat} {work : Work}
    (hload : Command.loadDump c w = some (.ok g, w'))
    (h : p.transform c.primaryHeader { graph := g } = some (.ok n, work)) :
    ∃ run v, p.execute c w = some (.ok run, v) ∧ run.graph = work.graph := by
  obtain ⟨v, hv⟩ := Command.exists_runStep w' h
  exact ⟨_, v, Command.bind_eq_ok.2 ⟨g, w', hload, Command.bind_eq_ok.2 ⟨_, v, hv, rfl⟩⟩, rfl⟩

/-- What a run comes to: the failure of a pass, or a graph with a report. -/
def outcome (p : Pipeline) (work : Work) : Except PipelineError Nat → Except Failure PipelineRun
  | .error e => .error { cause := .pipeline e }
  | .ok n => .ok {
      graph := work.graph
      report := { variant := p.variant, passes := work.passes, synthesized := n } }

theorem exists_execute_of_load_error {text : String} {e : Dump.LoadError} (p : Pipeline)
    (hw : w.Provides c text) (h : Graph.ofText c.dumpPath.shown text = .error e) :
    ∃ v, p.execute c w = some (.error { cause := .load e }, v) := by
  obtain ⟨v, hv⟩ := Command.exists_loadDump_error hw h
  exact ⟨v, Command.bind_of_error hv⟩

theorem exists_execute_of_transform {text : String} {g : Graph} {r : Except PipelineError Nat}
    {work : Work} (p : Pipeline) (hw : w.Provides c text)
    (hg : Graph.ofText c.dumpPath.shown text = .ok g) (hwf : g.WellFormed)
    (hr : p.transform c.primaryHeader { graph := g } = some (r, work)) :
    ∃ v, p.execute c w = some (p.outcome work r, v) := by
  obtain ⟨v, hv⟩ := Command.exists_loadDump_of_provides hw hg hwf
  cases r with
  | error e =>
    obtain ⟨u, hu⟩ := Command.exists_runStep_error v hr
    exact ⟨u, (Command.bind_of_ok hv).trans (Command.bind_of_error hu)⟩
  | ok n =>
    obtain ⟨u, hu⟩ := Command.exists_runStep v hr
    exact ⟨u, (Command.bind_of_ok hv).trans (Command.bind_of_ok hu)⟩

/-- A successful run is a trace of all its moves from the graph of the dump. -/
theorem exists_trace (h : p.execute c w = some (.ok run, w')) :
    ∃ g v scope ns, Command.loadDump c w = some (.ok g, v) ∧ g.IsLoaded ∧
      (Scope.primary g c.primaryHeader).run = some (.ok scope) ∧
      Move.Ready scope (p.moves g.pending) g ∧ Trace scope (p.moves g.pending) g ns run.graph ∧
      run.report.synthesized = g.pending.length := by
  obtain ⟨g, v, work, hload, hrun, hgraph, -⟩ := execute_eq_ok h
  obtain ⟨text, htext⟩ := Command.loadDump_eq_ok hload
  have hg := Graph.isLoaded_ofText htext
  obtain ⟨r, w₁, hr, hok, -⟩ := Step.runs_iff.1 (p.runs_transform c.primaryHeader
    (w := { graph := g }) hg.toWellFormed hg.awaits)
  obtain ⟨rfl, rfl⟩ := Prod.mk.inj (Option.some.inj (hrun.symm.trans hr))
  obtain ⟨hn, scope, ns, hs, ht⟩ := hok _ rfl
  obtain ⟨r, hr', hunit, -⟩ := hg.primary_spec c.primaryHeader
  obtain rfl := Option.some.inj (hr'.symm.trans hs)
  exact ⟨g, v, scope, ns, hload, hg, hs,
    ⟨hg.toWellFormed, (hunit scope rfl).1, (p.waiting_moves _).symm ▸ hg.awaits⟩,
    hgraph ▸ ht, hn⟩

end Pipeline

end Bindery
