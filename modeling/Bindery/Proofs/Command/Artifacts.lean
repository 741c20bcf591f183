import Bindery.Command.Modes
import Bindery.Proofs.Command.Effects
import Bindery.Proofs.Command.OutputPath
import Bindery.Proofs.Log.Session

/-!
# Artifacts of a run

`generate` begins a capture, runs a pipeline and writes what came of it. If the pipeline fails, the
log of the run is all that it leaves behind; otherwise graph and summary are those of one run.
-/

namespace Bindery

open FileSystem

/-- The world after a guard is released. -/
def World.released (w : World) (g : Guard) : World := { w with tee := w.tee.release g }

@[simp] theorem World.files_released (w : World) (g : Guard) :
    (w.released g).tee.files = w.tee.files := Tee.files_release w.tee g

@[simp] theorem World.errors_released (w : World) (g : Guard) :
    (w.released g).tee.errors = w.tee.errors := by
  show (w.tee.release g).errors = _
  unfold Tee.release
  split <;> rfl

namespace Command

open World (Logs)

variable {c : Config} {v v' : Variant} {tree : Bool} {w u : World} {g : Guard} {t : Tee}
  {ls : List LogLine}

/-! ### The beginning of a run -/

def started : LogLine := ⟨.commands, .info, "Code generation started."⟩

def heading (c : Config) (v : Variant) : LogLine :=
  ⟨.commands, .info, "Variant '" ++ v.label ++ "' into " ++ (c.outputDir v).shown⟩

/-- What `generate` does before anything is logged. -/
def opening (c : Config) (v : Variant) : Command Guard := do
  attempting ("Failed to create output directory " ++ (c.outputDir v).shown)
    (makeDirectories (c.outputDir v))
  attempting ("Failed to create the run log in " ++ (c.outputDir v).shown) (capture (c.logPath v))

theorem generate_eq (c : Config) (v : Variant) (tree : Bool) :
    generate c v tree
      = opening c v >>= fun g => releasing g (generateInto (c.outputDir v) c v tree) :=
  (bind_assoc _ _ _).symm

/-- The places on the way to the directory of a variant. -/
def waysToOutput (c : Config) (v : Variant) (fs : FileSystem) : Set Place :=
  fs.waysTo (fs.startOf (c.outputDir v)) (c.outputDir v).parts

/-- The capture that has begun: its file is empty, and nothing else is new but directories on the
way. -/
structure Opened (c : Config) (v : Variant) (w : World) (g : Guard) (u : World) : Prop where
  filter_eq : u.filter = w.filter
  keepsControls_eq : u.keepsControls = w.keepsControls
  output_eq : u.output = w.output
  errors_eq : u.tee.errors = w.tee.errors
  directory : u.tee.files.isDirectory (u.tee.files.startOf (c.outputDir v)) (c.outputDir v).parts
  alters : Alters {p | u.tee.files.locate (c.logPath v) = .ok p} (waysToOutput c v u.tee.files)
    w.tee.files u.tee.files
  captures : ∃ p, u.tee.sink = some ⟨g.generation, p⟩ ∧
    u.tee.files.locate (c.logPath v) = .ok p ∧
    u.tee.files.node? p = some (.file (.text ""))

theorem parts_outputDir (c : Config) (v : Variant) : (c.outputDir v).parts ≠ [] ∧
    (c.outputDir v).isEmpty = false := by
  have hends : (c.outputDir v).EndsIn [v.ending] :=
    Path.endsIn_join v.isNameEnd_ending.ascii (by cases v <;> decide +kernel) _
  refine ⟨?_, ?_⟩
  · obtain ⟨init, z, hsteps, hz⟩ := Path.exists_steps_concat hends v.isNameEnd_ending
    rw [Path.parts, hsteps, List.filter_append]
    refine List.append_ne_nil_of_right_ne_nil _ ?_
    rw [List.filter_cons_of_pos
      (by exact bne_iff_ne.2 (Path.isName_of_endsIn hz v.isNameEnd_ending).2.1)]
    exact List.cons_ne_nil _ _
  · refine beq_false_of_ne fun heq => ?_
    rw [heq] at hends
    exact absurd (List.suffix_nil.1 hends) (List.cons_ne_nil _ _)

theorem makeDirectories_eq {path : Path} {r : Except FileError Unit} {fs : FileSystem}
    (h : w.tee.files.makeDirectories path = (r, fs)) :
    makeDirectories path w = some (r.mapError fun e => { cause := .file e }, w.withFiles fs) := by
  rw [makeDirectories, h]
  cases r <;> rfl

theorem capture_of_ok {path : Path} (h : w.tee.capture path = .ok (g, t)) :
    capture path w = some (.ok g, { w with tee := t }) := by
  rw [capture, h]

theorem capture_of_error {path : Path} {e : FileError} (h : w.tee.capture path = .error e) :
    capture path w = some (.error { cause := .file e }, w) := by
  rw [capture, h]

/-- A capture of the log of a variant whose directory is there. -/
theorem opened_capture {fs : FileSystem} {p : Place}
    (hmade : Makes (w.tee.files.startOf (c.outputDir v)) (c.outputDir v).parts w.tee.files
      (.ok (), fs)) (hp : fs.filePlace (c.logPath v) = .ok p) :
    Opened c v w ⟨w.tee.next, c.logPath v⟩ { w with tee := { w.tee with
      files := fs.put p (.file (.text ""))
      sink := some ⟨w.tee.next, p⟩
      next := w.tee.next + 1 } } := by
  obtain ⟨-, hlocate, hnode⟩ := filePlace_eq_ok.1 hp
  obtain ⟨hmake, hdir⟩ := hmade
  have hput : Alters {p} ∅ fs (fs.put p (.file (.text ""))) :=
    alters_put hnode (Set.mem_singleton p) _
  have hplace := hput.keeps.locate hlocate
  have hstart := (hput.keeps.startOf _).trans (hmake.keeps.startOf (c.outputDir v))
  refine ⟨rfl, rfl, rfl, rfl, ?_, ?_, p, rfl, hplace,
    (node?_put fs (ne_nil_of_node? hnode) _ p).trans (if_pos rfl)⟩
  · show (fs.put p _).isDirectory ((fs.put p _).startOf _) _
    rw [hstart]
    exact hput.isDirectory_eq (hdir rfl)
  · refine Alters.trans (hmake.mono (Set.empty_subset _) ?_) (hput.mono ?_ (Set.empty_subset _))
    · show _ ⊆ (fs.put p _).waysTo ((fs.put p _).startOf _) _
      rw [hstart]
      exact hput.keeps.waysTo_subset List.prefix_rfl
    · exact Set.singleton_subset_iff.2 hplace

theorem opening_cases (c : Config) (v : Variant) (w : World) :
    (∃ f u, opening c v w = some (.error f, u) ∧ u.tee.sink = w.tee.sink ∧
      Alters ∅ Set.univ w.tee.files u.tee.files) ∨
    ∃ g u, opening c v w = some (.ok g, u) ∧ Opened c v w g u := by
  obtain ⟨hparts, hempty⟩ := parts_outputDir c v
  have hmade := makes_makeDirectories w.tee.files hparts hempty
  rcases hr : w.tee.files.makeDirectories (c.outputDir v) with ⟨r, fs⟩
  rw [hr] at hmade
  have halters := hmade.1.mono subset_rfl (Set.subset_univ _)
  cases r with
  | error e =>
    exact Or.inl ⟨_, _, bind_of_error (attempting_of_error (makeDirectories_eq hr) _), rfl, halters⟩
  | ok x =>
    have hfirst := attempting_of_ok (makeDirectories_eq hr)
      ("Failed to create output directory " ++ (c.outputDir v).shown)
    cases hcapture : (w.withFiles fs).tee.capture (c.logPath v) with
    | error e =>
      exact Or.inl ⟨_, w.withFiles fs,
        (bind_of_ok hfirst).trans (attempting_of_error (capture_of_error hcapture) _), rfl, halters⟩
    | ok y =>
      obtain ⟨p, hp, hg, ht⟩ := Tee.capture_eq_ok.1 (show _ = Except.ok (y.1, y.2) from hcapture)
      refine Or.inr ⟨_, _,
        (bind_of_ok hfirst).trans (attempting_of_ok (capture_of_ok hcapture) _), ?_⟩
      rw [hg, ht]
      exact opened_capture hmade hp

/-! ### Graph, summary and log -/

/-- Where graph and summary are written. -/
def artifacts : Set Place := endingIn 'n' ∪ endingIn 'd'

theorem log_notMem {fs : FileSystem} {p : Place} (h : fs.locate (c.logPath v) = .ok p) :
    p ∉ artifacts := by
  rintro (hn | hd)
  · exact notMem_endingIn (Config.log_mem h) (by decide) hn
  · exact notMem_endingIn (Config.log_mem h) (by decide) hd

/-- What is logged after everything is written. -/
def finish (c : Config) (v : Variant) (tree : Bool) (run : PipelineRun) : Command Unit := do
  log .commands .info ("Wrote " ++ (c.summaryPath v).shown)
  if tree then
    log .commands .info ("Transformed declarations:\n" ++ trimmedEnd (← ask run.graph.listing?))
  log .commands .info "Code generation finished."

def publishSummary (c : Config) (v : Variant) (tree : Bool) (run : PipelineRun) : Command Unit := do
  log .commands .info ("Wrote " ++ (c.graphPath v).shown)
  let summary ← ask (RunSummary.collect? run.graph run.report c)
  writeFile (c.summaryPath v) summary.markdown
  finish c v tree run

/-- What `generate` does with the outcome of its pipeline. -/
def publish (c : Config) (v : Variant) (tree : Bool) (run : PipelineRun) : Command Unit := do
  match surface? c v run.graph with
  | none => fail { cause := .unstorable }
  | some x => writeFile (c.graphPath v) x.pretty
  publishSummary c v tree run

theorem generateInto_eq (c : Config) (v : Variant) (tree : Bool) :
    generateInto (c.outputDir v) c v tree = (do
      logLine started
      logLine (heading c v)
      let run ← (Pipeline.standard v).execute c
      publish c v tree run) := rfl

section

variable {run : PipelineRun} (hrun : run.graph.IsRooted)
include hrun

theorem meets_finish {R : World → World → Prop} (hR : IsFrame R) (c : Config) (v : Variant)
    (tree : Bool) : (finish c v tree run).Meets R fun _ => True := by
  refine hR.meets_bind (hR.meets_log _ _ _) fun _ _ => ?_
  obtain ⟨s, hs⟩ := hrun.exists_listing?
  cases tree with
  | false => exact hR.meets_log _ _ _
  | true =>
    refine hR.meets_bind (hR.meets_ask hs) fun _ _ => ?_
    exact hR.meets_bind (hR.meets_log _ _ _) fun _ _ => hR.meets_log _ _ _

theorem meets_publishSummary (c : Config) (v : Variant) (tree : Bool) :
    (publishSummary c v tree run).Meets (LogsOn (endingIn 'd')) fun _ => True := by
  have hR := isFrame_logsOn (endingIn 'd')
  obtain ⟨s, hs, -⟩ := RunSummary.exists_collect hrun hrun.live?_eq run.report c
  refine hR.meets_bind (hR.meets_log _ _ _) fun _ _ => ?_
  refine hR.meets_bind (hR.meets_ask hs) fun s _ => ?_
  refine hR.meets_bind (hR.meets_writeFile fun w _ h => ?_) fun _ _ => meets_finish hrun hR c v tree
  exact ⟨[], World.logs_write (fun _ hp => Config.summary_mem hp) h⟩

theorem meets_publish (c : Config) (v : Variant) (tree : Bool) :
    (publish c v tree run).Meets (LogsOn artifacts) fun _ => True := by
  have hR := isFrame_logsOn artifacts
  have hsummary := (meets_publishSummary hrun c v tree).mono
    (fun _ _ ⟨ls, h⟩ => (⟨ls, h.mono Set.subset_union_right⟩ : LogsOn artifacts _ _)) fun _ => id
  unfold publish
  cases surface? c v run.graph with
  | none => exact hR.meets_bind (hR.meets_fail _) fun _ (_ : True) => hsummary
  | some x =>
    refine hR.meets_bind (hR.meets_writeFile fun w _ h => ?_) fun _ _ => hsummary
    exact ⟨[], World.logs_write (fun _ hp => Or.inl (Config.graph_mem hp)) h⟩

end

theorem meets_generateInto (c : Config) (v : Variant) (tree : Bool) :
    (generateInto (c.outputDir v) c v tree).Meets (LogsOn artifacts) fun _ => True := by
  have hR := isFrame_logsOn artifacts
  refine hR.meets_bind (hR.meets_logLine started) fun _ _ => ?_
  refine hR.meets_bind (hR.meets_logLine (heading c v)) fun _ _ => ?_
  exact hR.meets_bind (hR.meets_execute _ c) fun run hrun => meets_publish hrun c v tree

theorem read_of_writeFile {path : Path} {s : String}
    (h : writeFile path s w = some (.ok (), u)) : u.tee.files.readText path = .ok s := by
  obtain ⟨fs, hfs, rfl⟩ := writeFile_eq_ok.1 h
  show fs.readText path = .ok s
  rw [readText, read_of_write hfs]
  rfl

/-! ### What a run leaves behind -/

/-- The captured log of a run that is over. -/
structure Recorded (c : Config) (v : Variant) (ls : List LogLine) (w u : World) : Prop where
  sink_eq : u.tee.sink = none
  directory : u.tee.files.isDirectory (u.tee.files.startOf (c.outputDir v)) (c.outputDir v).parts
  output_eq : u.output = w.output
  errors_eq : u.tee.errors = w.tee.errors ++ w.page ls
  log : u.tee.files.readText (c.logPath v) = .ok (w.page ls)

/-- Nothing but the log is new, and what was published before is still there. -/
structure LeavesArtifacts (c : Config) (v : Variant) (w u : World) : Prop where
  alters : Alters {p | u.tee.files.locate (c.logPath v) = .ok p} (waysToOutput c v u.tee.files)
    w.tee.files u.tee.files
  graph : ∀ content, w.tee.files.read (c.graphPath v) = .ok content →
    u.tee.files.read (c.graphPath v) = .ok content
  summary : ∀ content, w.tee.files.read (c.summaryPath v) = .ok content →
    u.tee.files.read (c.summaryPath v) = .ok content

/-- Graph and summary are those of one outcome of the pipeline. -/
structure Publishes (c : Config) (v : Variant) (run : PipelineRun) (u : World) : Prop where
  graph : ∃ x, surface? c v run.graph = some x ∧
    u.tee.files.readText (c.graphPath v) = .ok x.pretty
  summary : ∃ s, RunSummary.collect? run.graph run.report c = some s ∧
    u.tee.files.readText (c.summaryPath v) = .ok s.markdown

/-- `generate` runs its pipeline in the world `u`, its log being captured. -/
def RunsPipelineIn (c : Config) (v : Variant) (w u : World) : Prop :=
  ∃ g w', opening c v w = some (.ok g, w') ∧ u = (w'.logged started).logged (heading c v)

theorem logs_started (S : Set Place) (c : Config) (v : Variant) (w : World) :
    Logs S w ((w.logged started).logged (heading c v)) [started, heading c v] :=
  (World.logs_logged S w started).trans (World.logs_logged S _ (heading c v))

namespace Opened

variable {w' : World}

theorem places_eq (ho : Opened c v w g w') :
    w'.tee.places = {p | w'.tee.files.locate (c.logPath v) = .ok p} := by
  obtain ⟨p, hsink, hlocate, -⟩ := ho.captures
  ext q
  constructor
  · rintro ⟨k, hk, rfl⟩
    obtain rfl := Option.some.inj (hsink.symm.trans hk)
    exact hlocate
  · intro hq
    exact ⟨_, hsink, Except.ok.inj (hlocate.symm.trans hq)⟩

theorem recorded (ho : Opened c v w g w') (hl : Logs artifacts w' u ls) :
    Recorded c v ls w (u.released g) := by
  obtain ⟨p, hsink, hlocate, hempty⟩ := ho.captures
  have hpage := World.page_eq ho.filter_eq ho.keepsControls_eq ls
  refine ⟨?_, ?_, hl.output_eq.trans ho.output_eq, ?_, ?_⟩
  · show (u.tee.release g).sink = none
    rw [Tee.sink_release, hl.sink_eq, hsink]
    simp
  · rw [World.files_released, hl.alters.keeps.startOf]
    exact hl.alters.isDirectory_eq ho.directory
  · rw [World.errors_released, hl.errors_eq, ho.errors_eq, hpage]
  · rw [World.files_released, ← hpage]
    have hplace := hl.alters.keeps.locate hlocate
    refine readText_eq_ok.2 ⟨Path.not_endsInSlash (c.endsIn_logPath v) (by decide), p, hplace, ?_⟩
    have htext := hl.captured p ⟨_, hsink, rfl⟩ (log_notMem hlocate) "" hempty
    rwa [String.empty_append] at htext

/-- If no file is written, the log is all that is left. -/
theorem leaves (ho : Opened c v w g w') (hl : Logs ∅ w' u ls) :
    LeavesArtifacts c v w (u.released g) := by
  have halters : Alters {p | u.tee.files.locate (c.logPath v) = .ok p}
      (waysToOutput c v u.tee.files) w.tee.files u.tee.files := by
    have hafter := hl.alters
    rw [Set.empty_union, ho.places_eq] at hafter
    have hsub : {p | w'.tee.files.locate (c.logPath v) = .ok p} ⊆
        {p | u.tee.files.locate (c.logPath v) = .ok p} := fun p hp => hafter.keeps.locate hp
    have hways : waysToOutput c v w'.tee.files ⊆ waysToOutput c v u.tee.files := by
      unfold waysToOutput
      rw [hafter.keeps.startOf]
      exact hafter.keeps.waysTo_subset List.prefix_rfl
    exact (ho.alters.mono hsub hways).trans (hafter.mono hsub (Set.empty_subset _))
  rw [← u.files_released g] at halters
  refine ⟨halters, fun content hread => ?_, fun content hread => ?_⟩
  · exact halters.read_eq hread fun p hp hlog => log_notMem hlog (Or.inl (Config.graph_mem hp))
  · exact halters.read_eq hread fun p hp hlog => log_notMem hlog (Or.inr (Config.summary_mem hp))

theorem places_subset {x : World} (ho : Opened c v w g w') (hx : x.tee.sink = w'.tee.sink) :
    x.tee.places ⊆ endingIn 't' := by
  have hplaces : x.tee.places = w'.tee.places := by rw [Tee.places, Tee.places, hx]
  rw [hplaces, ho.places_eq]
  exact fun p hp => Config.log_mem hp

end Opened

theorem sink_of_log {topic : Topic} {level : Level} {message : String}
    (h : log topic level message w = some (.ok (), u)) : u.tee.sink = w.tee.sink := by
  obtain ⟨-, rfl⟩ := result_unique (w.logged_eq _) h
  exact w.sink_logged _

/-- What has been written stays while the rest is logged and written. -/
theorem Opened.publishes {w' s' x : World} {run : PipelineRun} (ho : Opened c v w g w')
    (hl : Logs ∅ w' s' ls) (hrun : run.graph.IsRooted)
    (h : publish c v tree run s' = some (.ok (), x)) :
    Publishes c v run (x.released g) := by
  unfold publish at h
  cases hsurface : surface? c v run.graph with
  | none =>
    rw [hsurface] at h
    nomatch h
  | some json =>
    rw [hsurface] at h
    obtain ⟨_, a, hgraph, hrest⟩ := bind_eq_ok.1 h
    obtain ⟨_, -, hwritten⟩ := writeFile_eq_ok.1 hgraph
    have ha : a.tee.sink = w'.tee.sink := hwritten ▸ hl.sink_eq
    obtain ⟨ls₁, hsummary⟩ := (meets_publishSummary hrun c v tree).rel hrest
    obtain ⟨_, b, hlog, hrest⟩ := bind_eq_ok.1 hrest
    obtain ⟨s, b', hask, hrest⟩ := bind_eq_ok.1 hrest
    obtain ⟨hs, rfl⟩ := ask_eq_ok.1 hask
    obtain ⟨_, d, hpage, hrest⟩ := bind_eq_ok.1 hrest
    obtain ⟨_, -, hwritten'⟩ := writeFile_eq_ok.1 hpage
    have hd : d.tee.sink = w'.tee.sink := hwritten' ▸ (sink_of_log hlog).trans ha
    obtain ⟨ls₂, hfinish⟩ := (meets_finish hrun (isFrame_logsOn ∅) c v tree).rel hrest
    refine ⟨⟨json, hsurface, ?_⟩, s, hs, ?_⟩
    · rw [World.files_released]
      refine hsummary.alters.readText_eq (read_of_writeFile hgraph) fun p hp hmem => ?_
      rcases hmem with hmem | hmem
      · exact notMem_endingIn (Config.graph_mem hp) (by decide) hmem
      · exact notMem_endingIn (Config.graph_mem hp) (by decide) (ho.places_subset ha hmem)
    · rw [World.files_released]
      refine hfinish.alters.readText_eq (read_of_writeFile hpage) fun p hp hmem => ?_
      rcases hmem with hmem | hmem
      · exact hmem
      · exact notMem_endingIn (Config.summary_mem hp) (by decide) (ho.places_subset hd hmem)

/-- What `generate` comes to in a world. -/
structure Generates (c : Config) (v : Variant) (w : World) (r : Except Failure Unit)
    (u : World) : Prop where
  failed : ∀ s f s', RunsPipelineIn c v w s →
    (Pipeline.standard v).execute c s = some (.error f, s') →
    r = .error f ∧ LeavesArtifacts c v w u ∧
      ∃ ls, s'.tee.errors = s.tee.errors ++ w.page ls ∧
        Recorded c v (started :: heading c v :: ls) w u
  succeeded : r = .ok () → ∃ s run s', RunsPipelineIn c v w s ∧
    (Pipeline.standard v).execute c s = some (.ok run, s') ∧ Publishes c v run u ∧
      ∃ ls, Recorded c v (started :: heading c v :: ls) w u

/-- `generate` changes no file but log, graph and summary of its variant, and lets its capture
go. -/
structure Confined (c : Config) (v : Variant) (w u : World) : Prop where
  sink_eq : w.tee.sink = none → u.tee.sink = none
  alters : Alters (artifacts ∪ {p | u.tee.files.locate (c.logPath v) = .ok p}) Set.univ
    w.tee.files u.tee.files

theorem generate_of_opening {r : Except Failure Unit} {w' x : World}
    (hopen : opening c v w = some (.ok g, w'))
    (h : generateInto (c.outputDir v) c v tree w' = some (r, x)) :
    generate c v tree w = some (r, x.released g) := by
  rw [generate_eq]
  refine (bind_of_ok hopen).trans ?_
  rw [releasing, h]
  rfl

theorem generateInto_of_error {w' s' : World} {f : Failure}
    (h : (Pipeline.standard v).execute c ((w'.logged started).logged (heading c v))
      = some (.error f, s')) : generateInto (c.outputDir v) c v tree w' = some (.error f, s') := by
  rw [generateInto_eq]
  exact (bind_of_ok (World.logged_eq w' started)).trans
    ((bind_of_ok (World.logged_eq _ (heading c v))).trans (bind_of_error h))

theorem generateInto_eq_ok {w' x : World}
    (h : generateInto (c.outputDir v) c v tree w' = some (.ok (), x)) :
    ∃ run s', (Pipeline.standard v).execute c ((w'.logged started).logged (heading c v))
      = some (.ok run, s') ∧ publish c v tree run s' = some (.ok (), x) := by
  rw [generateInto_eq] at h
  obtain ⟨_, u₁, h₁, h⟩ := bind_eq_ok.1 h
  obtain ⟨_, u₂, h₂, h⟩ := bind_eq_ok.1 h
  obtain ⟨run, s', hs, hpublish⟩ := bind_eq_ok.1 h
  obtain ⟨-, rfl⟩ := result_unique (World.logged_eq w' started) h₁
  obtain ⟨-, rfl⟩ := result_unique (World.logged_eq _ _) h₂
  exact ⟨run, s', hs, hpublish⟩

namespace Opened

variable {w' s' x : World} {r : Except Failure Unit}

theorem failed (ho : Opened c v w g w') {f : Failure}
    (h : (Pipeline.standard v).execute c ((w'.logged started).logged (heading c v))
      = some (.error f, s')) :
    LeavesArtifacts c v w (s'.released g) ∧ ∃ ls,
      s'.tee.errors = ((w'.logged started).logged (heading c v)).tee.errors ++ w.page ls ∧
      Recorded c v (started :: heading c v :: ls) w (s'.released g) := by
  obtain ⟨ls, hls⟩ := ((isFrame_logsOn ∅).meets_execute _ c).rel h
  have hstart := logs_started ∅ c v w'
  have hlogs := hstart.trans hls
  refine ⟨ho.leaves hlogs, ls, ?_, ho.recorded (hlogs.mono (Set.empty_subset _))⟩
  rw [hls.errors_eq, World.page_eq (hstart.filter_eq.trans ho.filter_eq)
    (hstart.keepsControls_eq.trans ho.keepsControls_eq)]

theorem succeeded (ho : Opened c v w g w')
    (h : generateInto (c.outputDir v) c v tree w' = some (.ok (), x)) :
    ∃ run s', (Pipeline.standard v).execute c ((w'.logged started).logged (heading c v))
      = some (.ok run, s') ∧ Publishes c v run (x.released g) ∧
        ∃ ls, Recorded c v (started :: heading c v :: ls) w (x.released g) := by
  obtain ⟨run, s', hs, hpublish⟩ := generateInto_eq_ok h
  have hmeets := (isFrame_logsOn ∅).meets_execute (Pipeline.standard v) c
  obtain ⟨ls, hls⟩ := hmeets.rel hs
  obtain ⟨ls', hls'⟩ := (meets_publish (hmeets.value hs) c v tree).rel hpublish
  have hlogs := (logs_started ∅ c v w').trans hls
  exact ⟨run, s', hs, ho.publishes hlogs (hmeets.value hs) hpublish, ls ++ ls',
    ho.recorded ((hlogs.mono (Set.empty_subset _)).trans hls')⟩

theorem confined (ho : Opened c v w g w') (hl : Logs artifacts w' x ls) :
    Confined c v w (x.released g) := by
  have hlog : {p | w'.tee.files.locate (c.logPath v) = .ok p} ⊆
      {p | x.tee.files.locate (c.logPath v) = .ok p} := fun p hp => hl.alters.keeps.locate hp
  refine ⟨fun _ => (ho.recorded hl).sink_eq, ?_⟩
  rw [World.files_released]
  refine (ho.alters.mono (hlog.trans Set.subset_union_right) (Set.subset_univ _)).trans
    (hl.alters.mono (Set.union_subset_union_right _ ?_) (Set.empty_subset _))
  rw [ho.places_eq]
  exact hlog

end Opened

theorem exists_generate (c : Config) (v : Variant) (tree : Bool) (w : World) :
    ∃ r u, generate c v tree w = some (r, u) ∧ Generates c v w r u ∧ Confined c v w u := by
  rcases opening_cases c v w with ⟨f, u, hopen, hsink, halters⟩ | ⟨g, w', hopen, ho⟩
  · have hnone : ∀ {s}, ¬ RunsPipelineIn c v w s := by
      rintro s ⟨g, w', hok, -⟩
      exact absurd (result_unique hopen hok).1 nofun
    refine ⟨.error f, u, ?_, ⟨fun s _ _ hs => absurd hs hnone, nofun⟩, hsink.trans, ?_⟩
    · rw [generate_eq]
      exact bind_of_error hopen
    · exact halters.mono (Set.empty_subset _) subset_rfl
  · obtain ⟨r, x, hinto, ⟨ls, hl⟩, -⟩ := meets_generateInto c v tree w'
    refine ⟨r, x.released g, generate_of_opening hopen hinto, ⟨?_, ?_⟩, ho.confined hl⟩
    · rintro s f s' ⟨g', w'', hok, rfl⟩ hs
      obtain ⟨-, rfl⟩ := result_unique hopen hok
      obtain ⟨rfl, rfl⟩ := result_unique hinto (generateInto_of_error hs)
      exact ⟨rfl, ho.failed hs⟩
    · rintro rfl
      obtain ⟨run, s', hs, hpublishes, hrecorded⟩ := ho.succeeded hinto
      exact ⟨_, run, s', ⟨g, w', hopen, rfl⟩, hs, hpublishes, hrecorded⟩

end Command

end Bindery
