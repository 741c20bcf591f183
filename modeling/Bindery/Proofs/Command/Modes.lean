import Bindery.Program
import Bindery.Proofs.Command.Artifacts

/-!
# Modes one after another

The modes that the options ask for are run in a fixed order, up to the first that fails. A check
changes no file. A run that fails leaves what was published before, and no mode touches the log that
an earlier one has recorded.
-/

namespace Bindery

open FileSystem

inductive Mode where
  | check
  | generate (v : Variant)
  | clean
  deriving DecidableEq

/-- The modes in the order in which they are run. -/
def Mode.all : List Mode := [.check, .generate .legacy, .generate .enhanced, .clean]

def Mode.run (c : Config) (tree : Bool) : Mode → Command Unit
  | .check => Command.check c
  | .generate v => Command.generate c v tree
  | .clean => Command.clean c

namespace Options

def asksFor (o : Options) : Mode → Bool
  | .check => o.check
  | .generate .legacy => o.old
  | .generate .enhanced => o.new
  | .clean => o.clean

def modes (o : Options) : List Mode := Mode.all.filter o.asksFor

theorem nodup_modes (o : Options) : o.modes.Nodup := List.Nodup.filter _ (by decide)

theorem hasMode_eq_false {o : Options} (h : o.hasMode = false) : o.modes = [] := by
  obtain ⟨⟨⟨hold, hnew⟩, hclean⟩, hcheck⟩ : ((o.old = false ∧ o.new = false) ∧ o.clean = false) ∧
      o.check = false := by simpa [hasMode] using h
  simp [modes, Mode.all, asksFor, hold, hnew, hclean, hcheck]

theorem forM_filter_cons (p : Mode → Bool) (m : Mode) (ms : List Mode) (f : Mode → Command Unit) :
    ((m :: ms).filter p).forM f
      = if p m then (do f m; (ms.filter p).forM f) else (ms.filter p).forM f := by
  rw [List.filter_cons]
  split <;> rfl

theorem execute_of_hasMode {o : Options} (h : o.hasMode) (c : Config) :
    o.execute c = o.modes.forM (Mode.run (o.override c) o.tree) := by
  have hlast : (if o.clean then Command.clean (o.override c) else pure ())
      = if o.clean then (do Command.clean (o.override c); pure ()) else pure () := by
    rw [bind_pure_unit]
  rw [execute, if_pos h, modes, Mode.all, forM_filter_cons, forM_filter_cons, forM_filter_cons,
    forM_filter_cons]
  dsimp only
  rw [hlast]
  rfl

/-- The world in which the modes begin; without any the usage is printed. -/
def greeted (o : Options) (w : World) : World :=
  if o.hasMode then w else w.printed (Usage.help ++ "\n")

theorem execute_eq (o : Options) (c : Config) (w : World) :
    o.execute c w = o.modes.forM (Mode.run (o.override c) o.tree) (o.greeted w) := by
  unfold greeted
  split
  · next h => rw [execute_of_hasMode h]
  · next h =>
    rw [execute, if_neg h, hasMode_eq_false (Bool.eq_false_iff.2 h)]
    rfl

end Options

namespace Command

/-! ### What a mode does -/

theorem meets_print {R : World → World → Prop} (h : ∀ w s, R w (w.printed s)) (s : String) :
    (print s).Meets R fun _ => True := fun w =>
  ⟨.ok (), w.printed s, rfl, h w s, fun _ _ => trivial⟩

/-- A check only prints and logs. -/
theorem meets_check (c : Config) : (check c).Meets Silent fun _ => True := by
  have hR := isFrame_silent
  have hprint := meets_print (R := Silent) fun w _ hw => ⟨hw, rfl⟩
  refine hR.meets_bind (hR.meets_forM (fun v => ?_) _) fun _ _ => hprint _
  refine hR.meets_bind ((hR.meets_execute _ c).attempting _) fun run _ => ?_
  refine hR.meets_bind (hprint _) fun _ _ => ?_
  exact hR.meets_bind (hR.meets_forM (fun p => hprint _) _) fun _ _ => hprint _

theorem meets_cleanupFile {R : World → World → Prop} (hR : IsFrame R) {path : Path}
    (h : ∀ w fs s, w.tee.files.write path (.text s) = .ok fs → R w (w.withFiles fs)) :
    (cleanupFile path).Meets R fun _ => True := by
  refine hR.meets_bind (hR.meets_inspect _) fun b _ => ?_
  cases b with
  | false => exact hR.meets_bind (hR.meets_log _ _ _) fun _ _ => hR.meets_pure trivial
  | true =>
    have hread : (do ofExcept .file (← inspect (·.readText path)) : Command String).Meets R
        fun _ => True :=
      hR.meets_bind (hR.meets_inspect _) fun _ _ => hR.meets_ofExcept fun _ _ => trivial
    refine hR.meets_bind (hread.attempting _) fun text _ => ?_
    refine hR.meets_bind (hR.meets_forM hR.meets_logLine _) fun _ _ => ?_
    refine hR.meets_bind (hR.meets_writeFile fun w fs => h w fs _) fun _ _ => ?_
    exact hR.meets_bind (hR.meets_log _ _ _) fun _ _ => hR.meets_pure trivial

/-- Only sources are cleaned. -/
theorem meets_clean (c : Config) : (clean c).Meets (LogsOn (endingIn 's')) fun _ => True := by
  have hR := isFrame_logsOn (endingIn 's')
  refine hR.meets_forM (fun v => ?_) _
  refine hR.meets_bind (meets_cleanupFile hR fun w fs s h => ?_) fun b _ => ?_
  · exact ⟨[], World.logs_write (fun _ hp => Config.source_mem hp) h⟩
  · cases b with
    | false => exact hR.meets_log _ _ _
    | true => exact hR.meets_pure trivial

/-- The log that a run has recorded stays while another mode is run. -/
theorem readLog_of_run {c : Config} {tree : Bool} {m : Mode} {v : Variant} (hm : m ≠ .generate v)
    {w u : World} {r : Except Failure Unit} (hrun : m.run c tree w = some (r, u))
    (hw : w.tee.sink = none) {s : String} (hs : w.tee.files.readText (c.logPath v) = .ok s) :
    u.tee.files.readText (c.logPath v) = .ok s := by
  cases m with
  | check =>
    rw [((meets_check c).rel hrun hw).2]
    exact hs
  | generate v' =>
    obtain ⟨r', u', hrun', -, hconfined⟩ := exists_generate c v' tree w
    obtain ⟨-, rfl⟩ := Command.result_unique hrun hrun'
    refine hconfined.alters.readText_eq hs fun p hp hmem => ?_
    rcases hmem with hmem | hmem
    · exact log_notMem hp hmem
    · exact hm (congrArg Mode.generate (Config.variant_eq_of_log hmem hp))
  | clean =>
    obtain ⟨ls, hl⟩ := (meets_clean c).rel hrun
    refine hl.alters.readText_eq hs fun p hp hmem => ?_
    rcases hmem with hmem | ⟨k, hk, -⟩
    · exact notMem_endingIn (Config.log_mem hp) (by decide) hmem
    · exact absurd (hw.symm.trans hk) nofun

end Command

/-! ### Turns -/

/-- A mode that was run, with the worlds before and after it. -/
structure Turn where
  mode : Mode
  before : World
  result : Except Failure Unit
  after : World

/-- Modes are run one after another from a world on: `ts` are those that were run, the last of which
may have failed. -/
inductive Turns (run : Mode → Command Unit) :
    List Mode → World → List Turn → Except Failure Unit → World → Prop
  | done (w : World) : Turns run [] w [] (.ok ()) w
  | next {m : Mode} {ms : List Mode} {w v u : World} {ts : List Turn} {r : Except Failure Unit} :
      run m w = some (.ok (), v) → Turns run ms v ts r u →
        Turns run (m :: ms) w (⟨m, w, .ok (), v⟩ :: ts) r u
  | stop {m : Mode} {w v : World} {f : Failure} (ms : List Mode) :
      run m w = some (.error f, v) → Turns run (m :: ms) w [⟨m, w, .error f, v⟩] (.error f) v

/-- What one mode does to the files. -/
structure Turn.Abides (c : Config) (t : Turn) : Prop where
  silent : t.after.tee.sink = none
  check : t.mode = .check → t.after.tee.files = t.before.tee.files
  generate : ∀ v, t.mode = .generate v → Command.Generates c v t.before t.result t.after

/-- A later mode leaves the log of an earlier one as it was recorded. -/
def Turn.KeepsLog (c : Config) (t t' : Turn) : Prop :=
  ∀ v s, t.mode = .generate v → t.after.tee.files.readText (c.logPath v) = .ok s →
    t'.after.tee.files.readText (c.logPath v) = .ok s

variable {c : Config} {tree : Bool} {w u : World} {ms : List Mode} {ts : List Turn}
  {r : Except Failure Unit}

theorem exists_turn (c : Config) (tree : Bool) (m : Mode) (hw : w.tee.sink = none) :
    ∃ r v, m.run c tree w = some (r, v) ∧ Turn.Abides c ⟨m, w, r, v⟩ := by
  cases m with
  | check =>
    obtain ⟨r, v, hrun, hsilent, -⟩ := Command.meets_check c w
    exact ⟨r, v, hrun, (hsilent hw).1, fun _ => (hsilent hw).2, nofun⟩
  | generate v =>
    obtain ⟨r, u, hrun, hgenerates, hconfined⟩ := Command.exists_generate c v tree w
    refine ⟨r, u, hrun, hconfined.sink_eq hw, nofun, ?_⟩
    rintro v' ⟨⟩
    exact hgenerates
  | clean =>
    obtain ⟨r, v, hrun, ⟨ls, hl⟩, -⟩ := Command.meets_clean c w
    exact ⟨r, v, hrun, hl.sink_eq.trans hw, nofun, nofun⟩

namespace Turns

theorem exists_of_forM (c : Config) (tree : Bool) (ms : List Mode) (hw : w.tee.sink = none) :
    ∃ ts r u, ms.forM (Mode.run c tree) w = some (r, u) ∧
      Turns (Mode.run c tree) ms w ts r u ∧ ∀ t ∈ ts, t.Abides c := by
  induction ms generalizing w with
  | nil => exact ⟨[], .ok (), w, rfl, .done w, List.forall_mem_nil _⟩
  | cons m ms ih =>
    obtain ⟨r, v, hrun, hturn⟩ := exists_turn c tree m hw
    cases r with
    | error f =>
      exact ⟨_, _, v, Command.bind_of_error hrun, .stop ms hrun, fun t ht =>
        List.mem_singleton.1 ht ▸ hturn⟩
    | ok x =>
      obtain ⟨ts, r, u, hrest, hturns, habides⟩ := ih hturn.silent
      exact ⟨_, r, u, (Command.bind_of_ok hrun).trans hrest, .next hrun hturns,
        List.forall_mem_cons.2 ⟨hturn, habides⟩⟩

/-- The first mode that fails is the last that is run. -/
theorem last_of_error (h : Turns (Mode.run c tree) ms w ts r u) {t : Turn} (ht : t ∈ ts)
    {f : Failure} (hf : t.result = .error f) :
    ts.getLast? = some t ∧ r = .error f ∧ u = t.after := by
  induction h with
  | done w => nomatch ht
  | next hrun hturns ih =>
    rcases List.mem_cons.1 ht with rfl | ht
    · nomatch hf
    · obtain ⟨hlast, hr⟩ := ih ht
      refine ⟨?_, hr⟩
      rw [List.getLast?_cons, hlast]
      rfl
  | stop ms hrun =>
    obtain rfl := List.mem_singleton.1 ht
    exact ⟨rfl, hf, rfl⟩

theorem readLog (h : Turns (Mode.run c tree) ms w ts r u) (habides : ∀ t ∈ ts, t.Abides c)
    (hw : w.tee.sink = none) {v : Variant} (hv : .generate v ∉ ms) {s : String}
    (hs : w.tee.files.readText (c.logPath v) = .ok s) :
    ∀ t ∈ ts, t.after.tee.files.readText (c.logPath v) = .ok s := by
  induction h with
  | done w => exact List.forall_mem_nil _
  | next hrun hturns ih =>
    obtain ⟨hm, hms⟩ := not_or.1 (mt List.mem_cons.2 hv)
    obtain ⟨hturn, hrest⟩ := List.forall_mem_cons.1 habides
    have hstep := Command.readLog_of_run (Ne.symm hm) hrun hw hs
    exact List.forall_mem_cons.2 ⟨hstep, ih hrest hturn.silent hms hstep⟩
  | stop ms hrun =>
    obtain ⟨hm, -⟩ := not_or.1 (mt List.mem_cons.2 hv)
    rintro t ht
    obtain rfl := List.mem_singleton.1 ht
    exact Command.readLog_of_run (Ne.symm hm) hrun hw hs

/-- Each mode is run once, so that its log is not written to again. -/
theorem pairwise_keepsLog (h : Turns (Mode.run c tree) ms w ts r u)
    (habides : ∀ t ∈ ts, t.Abides c) (hms : ms.Nodup) : ts.Pairwise (Turn.KeepsLog c) := by
  induction h with
  | done w => exact .nil
  | next hrun hturns ih =>
    obtain ⟨hm, hms⟩ := List.nodup_cons.1 hms
    obtain ⟨hturn, hrest⟩ := List.forall_mem_cons.1 habides
    refine List.pairwise_cons.2 ⟨fun t ht v s hv hs => ?_, ih hrest hms⟩
    obtain rfl : _ = Mode.generate v := hv
    exact hturns.readLog hrest hturn.silent hm hs t ht
  | stop ms hrun => exact List.pairwise_singleton _ _

end Turns

/-- What an earlier run has published, without a dump for the next one. -/
def World.published : World := .ofFiles {
  nodes := [([.text "OLD"], .directory),
    ([.text "OLD", .text "imgui.json"], .file (.text "graph")),
    ([.text "OLD", .text "summary.md"], .file (.text "page"))] }

namespace Options

open World (published)

theorem sink_greeted (o : Options) (hw : w.tee.sink = none) : (o.greeted w).tee.sink = none := by
  unfold greeted
  split
  · exact hw
  · exact hw

/-- Whatever modes are asked for, they are run in their order, up to the first that fails. A check
changes no file. When the pipeline of a run fails, the directory of the variant is there with the
log, all else is as it was, and nothing else is run; when a run succeeds, graph and summary are
those of one outcome. The log is recorded from its first line to the last, and no later mode adds to
it. -/
theorem modes_leave_artifacts (o : Options) (c : Config) {w : World} (hw : w.tee.sink = none) :
    ∃ ts r u, o.execute c w = some (r, u) ∧
      Turns (Mode.run (o.override c) o.tree) o.modes (o.greeted w) ts r u ∧
      (∀ t ∈ ts, t.Abides (o.override c)) ∧
      (∀ t ∈ ts, ∀ f, t.result = .error f → ts.getLast? = some t ∧ r = .error f ∧ u = t.after) ∧
      ts.Pairwise (Turn.KeepsLog (o.override c)) := by
  obtain ⟨ts, r, u, hrun, hturns, habides⟩ :=
    Turns.exists_of_forM (o.override c) o.tree o.modes (o.sink_greeted hw)
  refine ⟨ts, r, u, (o.execute_eq c w).trans hrun, hturns, habides, ?_, ?_⟩
  · exact fun t ht f hf => hturns.last_of_error ht hf
  · exact hturns.pairwise_keepsLog habides o.nodup_modes

theorem exists_failure_published : ∃ s f s', Command.RunsPipelineIn {} .legacy published s ∧
    (Pipeline.standard .legacy).execute {} s = some (.error f, s') := by
  have hfails : (Command.opening {} .legacy published).any (fun x => x.1.isOk &&
      ((Pipeline.standard .legacy).execute {}
        ((x.2.logged Command.started).logged (Command.heading {} .legacy))).any
          fun y => !y.1.isOk) := by decide +kernel
  obtain ⟨⟨x, w⟩, hopen, hfails⟩ := (Option.any_eq_true ..).1 hfails
  obtain ⟨hok, hfails⟩ := Bool.and_eq_true_iff.1 hfails
  obtain ⟨⟨y, s'⟩, hexecute, herror⟩ := (Option.any_eq_true ..).1 hfails
  cases x with
  | error e => nomatch hok
  | ok g =>
    cases y with
    | error f => exact ⟨_, f, s', ⟨g, w, hopen, rfl⟩, hexecute⟩
    | ok run => nomatch herror

theorem modes_leave_artifacts_published : published.tee.sink = none ∧
    ∃ f u ls, ({ old := true, new := true } : Options).execute {} published = some (.error f, u) ∧
      u.tee.files.read (({} : Config).graphPath .legacy) = .ok (.text "graph") ∧
      u.tee.files.read (({} : Config).summaryPath .legacy) = .ok (.text "page") ∧
      u.tee.files.readText (({} : Config).logPath .legacy)
        = .ok (published.page (Command.started :: ls)) := by
  have hgraph : published.tee.files.read (({} : Config).graphPath .legacy)
      = .ok (.text "graph") := by decide +kernel
  have hsummary : published.tee.files.read (({} : Config).summaryPath .legacy)
      = .ok (.text "page") := by decide +kernel
  obtain ⟨s, f, s', hs, hf⟩ := exists_failure_published
  obtain ⟨ts, r, u, hrun, hturns, habides, -⟩ :=
    modes_leave_artifacts { old := true, new := true } {} (w := published) rfl
  have hmodes : modes { old := true, new := true } = [.generate .legacy, .generate .enhanced] := by
    decide
  rw [hmodes] at hturns
  cases hturns with
  | next hok hrest =>
    have hgenerates := (habides _ List.mem_cons_self).generate .legacy rfl
    exact absurd (hgenerates.failed s f s' hs hf).1 nofun
  | stop ms herror =>
    have hgenerates := (habides _ List.mem_cons_self).generate .legacy rfl
    obtain ⟨-, hleaves, ls, -, hrecorded⟩ := hgenerates.failed s f s' hs hf
    exact ⟨rfl, _, u, _, hrun, hleaves.graph _ hgraph, hleaves.summary _ hsummary, hrecorded.log⟩

end Options

end Bindery
