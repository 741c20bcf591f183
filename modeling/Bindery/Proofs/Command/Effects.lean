import Bindery.Proofs.Command.Generated
import Bindery.Proofs.File.Change
import Bindery.Proofs.Summary

/-!
# Effects of commands

`Command.Meets p R P`: whatever the world, the command `p` comes to an end, the worlds before and
after it are in the relation `R`, and its value satisfies `P` if there is one. One rule for each way
to make a command; `R` is a relation that holds over a log line and goes on from step to step.
-/

namespace Bindery

namespace World

/-- What is written of a log line. -/
def rendered (w : World) (l : LogLine) : String :=
  if w.filter.admits l then if w.keepsControls then l.rawText else l.text else ""

/-- What is written of log lines, one after the other. -/
def page (w : World) (ls : List LogLine) : String := String.join (ls.map w.rendered)

/-- The world after a log line. -/
def logged (w : World) (l : LogLine) : World :=
  if w.filter.admits l then
    { w with tee := w.tee.write (if w.keepsControls then l.rawText else l.text) }
  else w

def printed (w : World) (s : String) : World := { w with output := w.output ++ s }

theorem page_append (w : World) (ls ls' : List LogLine) :
    w.page (ls ++ ls') = w.page ls ++ w.page ls' := by
  rw [page, List.map_append, String.join_append, page, page]

theorem page_nil (w : World) : w.page [] = "" := rfl

theorem page_singleton (w : World) (l : LogLine) : w.page [l] = w.rendered l := by
  rw [page, List.map_singleton, String.join_cons, String.join_nil, String.append_empty]

theorem page_eq {w v : World} (hfilter : v.filter = w.filter)
    (hcontrols : v.keepsControls = w.keepsControls) (ls : List LogLine) :
    v.page ls = w.page ls := by
  have hline : v.rendered = w.rendered := funext fun l => by
    rw [rendered, rendered, hfilter, hcontrols]
  rw [page, page, hline]

theorem logged_eq (w : World) (l : LogLine) : Command.logLine l w = some (.ok (), w.logged l) := rfl

theorem sink_logged (w : World) (l : LogLine) : (w.logged l).tee.sink = w.tee.sink := by
  unfold logged
  split <;> rfl

theorem files_logged_of_silent {w : World} (hw : w.tee.sink = none) (l : LogLine) :
    (w.logged l).tee.files = w.tee.files := by
  unfold logged
  split
  · rw [Tee.write, hw]
    rfl
  · rfl

end World

namespace Command

variable {α β : Type} {w v : World} {R R' : World → World → Prop} {P Q : α → Prop}

/-- A relation that holds as long as only the log goes on. -/
structure IsFrame (R : World → World → Prop) : Prop where
  refl : ∀ w, R w w
  trans : ∀ {u v w}, R u v → R v w → R u w
  logged : ∀ w l, R w (w.logged l)

def Meets (p : Command α) (R : World → World → Prop) (P : α → Prop) : Prop :=
  ∀ w, ∃ r v, p w = some (r, v) ∧ R w v ∧ ∀ x, r = .ok x → P x

theorem Meets.rel {p : Command α} (h : p.Meets R P) {r : Except Failure α}
    (hp : p w = some (r, v)) : R w v := by
  obtain ⟨r', v', hp', hR, -⟩ := h w
  obtain ⟨-, rfl⟩ := result_unique hp hp'
  exact hR

theorem Meets.value {p : Command α} (h : p.Meets R P) {x : α}
    (hp : p w = some (.ok x, v)) : P x := by
  obtain ⟨r', v', hp', -, hP⟩ := h w
  obtain ⟨rfl, -⟩ := result_unique hp hp'
  exact hP x rfl

theorem Meets.mono {p : Command α} (h : p.Meets R P) (hR : ∀ w v, R w v → R' w v)
    (hP : ∀ x, P x → Q x) : p.Meets R' Q := fun w => by
  obtain ⟨r, v, hp, hRv, hPr⟩ := h w
  exact ⟨r, v, hp, hR w v hRv, fun x hx => hP x (hPr x hx)⟩

theorem Meets.attempting {p : Command α} (h : p.Meets R P) (what : String) :
    (attempting what p).Meets R P := fun w => by
  obtain ⟨r, v, hv, hRv, hP⟩ := h w
  cases r with
  | error f => exact ⟨_, v, attempting_of_error hv what, hRv, nofun⟩
  | ok x => exact ⟨.ok x, v, attempting_of_ok hv what, hRv, hP⟩

namespace IsFrame

variable (hR : IsFrame R)
include hR

theorem meets_pure {x : α} (hx : P x) : (pure x : Command α).Meets R P := fun w =>
  ⟨.ok x, w, rfl, hR.refl w, fun _ h => Except.ok.inj h ▸ hx⟩

theorem meets_fail (f : Failure) : (fail f : Command α).Meets R P := fun w =>
  ⟨.error f, w, rfl, hR.refl w, nofun⟩

theorem meets_bind {p : Command β} {f : β → Command α} {Q : β → Prop} (hp : p.Meets R Q)
    (hf : ∀ x, Q x → (f x).Meets R P) : (p >>= f).Meets R P := fun w => by
  obtain ⟨r, v, hv, hRv, hQ⟩ := hp w
  cases r with
  | error e => exact ⟨.error e, v, bind_of_error hv, hRv, nofun⟩
  | ok x =>
    obtain ⟨r, u, hu, hRu, hP⟩ := hf x (hQ x rfl) v
    exact ⟨r, u, (bind_of_ok hv).trans hu, hR.trans hRv hRu, hP⟩

theorem meets_ask {o : Option α} {x : α} (ho : o = some x) : (ask o).Meets R (· = x) :=
  fun w => ⟨.ok x, w, by rw [ask, ho]; rfl, hR.refl w, fun _ h => (Except.ok.inj h).symm⟩

theorem meets_ofExcept {ε : Type} {cause : ε → Cause} {r : Except ε α}
    (h : ∀ x, r = .ok x → P x) : (ofExcept cause r).Meets R P := by
  cases r with
  | ok x => exact hR.meets_pure (h x rfl)
  | error e => exact hR.meets_fail _

theorem meets_inspect (f : FileSystem → α) : (inspect f).Meets R fun x => ∃ fs, f fs = x := fun w =>
  ⟨.ok (f w.tee.files), w, rfl, hR.refl w, fun _ h => ⟨_, Except.ok.inj h⟩⟩

theorem meets_logLine (l : LogLine) : (logLine l).Meets R fun _ => True := fun w =>
  ⟨.ok (), w.logged l, rfl, hR.logged w l, fun _ _ => trivial⟩

theorem meets_log (topic : Topic) (level : Level) (message : String) :
    (log topic level message).Meets R fun _ => True := hR.meets_logLine _

theorem meets_forM {γ : Type} {f : γ → Command Unit} (hf : ∀ a, (f a).Meets R fun _ => True)
    (l : List γ) : (l.forM f).Meets R fun _ => True := by
  induction l with
  | nil => exact hR.meets_pure trivial
  | cons a l ih => exact hR.meets_bind (hf a) fun _ _ => ih

/-- A file is written, if that leads from world to world. -/
theorem meets_writeFile {path : Path} {content : String}
    (h : ∀ w fs, w.tee.files.write path (.text content) = .ok fs → R w (w.withFiles fs)) :
    (writeFile path content).Meets R fun _ => True := by
  refine Meets.attempting (fun w => ?_) _
  cases hfs : w.tee.files.write path (.text content) with
  | error e => exact ⟨_, w, change_of_error hfs, hR.refl w, fun _ _ => trivial⟩
  | ok fs => exact ⟨_, _, change_of_ok hfs, h w fs hfs, fun _ _ => trivial⟩

/-! ### Pipelines -/

theorem meets_loadDump (c : Config) : (loadDump c).Meets R Graph.IsLoaded := by
  refine hR.meets_bind (hR.meets_log _ _ _) fun _ _ => ?_
  refine hR.meets_bind (hR.meets_inspect _) fun r hr => ?_
  refine hR.meets_bind (Q := Graph.IsLoaded) (hR.meets_ofExcept fun g hg => ?_) fun g hg => ?_
  · obtain ⟨fs, hfs⟩ := hr
    rw [hg, Graph.ofFile] at hfs
    split at hfs
    · cases hfs
    · exact Graph.isLoaded_ofText hfs
  · refine hR.meets_bind (hR.meets_ask hg.isRooted.live?_eq) fun _ _ => ?_
    exact hR.meets_bind (hR.meets_log _ _ _) fun _ _ => hR.meets_pure hg

theorem meets_runStep {g : Graph} {p : Step α} {r : Except PipelineError α} {work : Work}
    (h : p { graph := g } = some (r, work)) :
    (runStep g p).Meets R fun x => x.2 = work := by
  refine hR.meets_bind (hR.meets_ask h) fun x hx => ?_
  subst hx
  refine hR.meets_bind (hR.meets_forM hR.meets_logLine work.log) fun _ _ => ?_
  exact hR.meets_bind (Q := fun _ => True) (hR.meets_ofExcept fun _ _ => trivial) fun _ _ =>
    hR.meets_pure rfl

/-- A pipeline only logs, and its graph is a forest below units. -/
theorem meets_execute (p : Pipeline) (c : Config) :
    (p.execute c).Meets R fun run => run.graph.IsRooted := by
  refine hR.meets_bind (hR.meets_loadDump c) fun g hg => ?_
  obtain ⟨r, work, hr, hreaches⟩ := Pipeline.exists_transform hg p c.primaryHeader
  refine hR.meets_bind (hR.meets_runStep hr) fun x hx => hR.meets_pure ?_
  exact hx ▸ (hreaches.exists_ready hg).1.isRooted

end IsFrame

/-! ### What the log does -/

/-- Nothing happens to the files while no log is captured. -/
def Silent (w v : World) : Prop :=
  w.tee.sink = none → v.tee.sink = none ∧ v.tee.files = w.tee.files

theorem isFrame_silent : IsFrame Silent where
  refl _ hw := ⟨hw, rfl⟩
  trans h h' hu := ⟨(h' (h hu).1).1, (h' (h hu).1).2.trans (h hu).2⟩
  logged w l hw := ⟨(w.sink_logged l).trans hw, World.files_logged_of_silent hw l⟩

end Command

namespace Tee

/-- Where the captured log goes. -/
def places (t : Tee) : Set Place := {p | ∃ k ∈ t.sink, k.place = p}

end Tee

namespace World

variable {S : Set Place} {u v w : World} {ls ls' : List LogLine}

/-- What happens while the log goes on: lines are written to the error stream and to the end of the
captured file, and files at places of `S` are made or changed. -/
structure Logs (S : Set Place) (w v : World) (ls : List LogLine) : Prop where
  filter_eq : v.filter = w.filter
  keepsControls_eq : v.keepsControls = w.keepsControls
  output_eq : v.output = w.output
  sink_eq : v.tee.sink = w.tee.sink
  errors_eq : v.tee.errors = w.tee.errors ++ w.page ls
  alters : FileSystem.Alters (S ∪ w.tee.places) ∅ w.tee.files v.tee.files
  captured : ∀ p ∈ w.tee.places, p ∉ S → ∀ text, w.tee.files.node? p = some (.file (.text text)) →
    v.tee.files.node? p = some (.file (.text (text ++ w.page ls)))

namespace Logs

theorem refl (S : Set Place) (w : World) : Logs S w w [] where
  filter_eq := rfl
  keepsControls_eq := rfl
  output_eq := rfl
  sink_eq := rfl
  errors_eq := by rw [page_nil, String.append_empty]
  alters := .refl _
  captured p _ _ text h := by rw [page_nil, String.append_empty, h]

theorem places_eq (h : Logs S w v ls) : v.tee.places = w.tee.places := by
  rw [Tee.places, Tee.places, h.sink_eq]

theorem trans (h : Logs S u v ls) (h' : Logs S v w ls') : Logs S u w (ls ++ ls') where
  filter_eq := h'.filter_eq.trans h.filter_eq
  keepsControls_eq := h'.keepsControls_eq.trans h.keepsControls_eq
  output_eq := h'.output_eq.trans h.output_eq
  sink_eq := h'.sink_eq.trans h.sink_eq
  errors_eq := by
    rw [h'.errors_eq, h.errors_eq, page_eq h.filter_eq h.keepsControls_eq, page_append,
      String.append_assoc]
  alters := h.alters.trans (h.places_eq ▸ h'.alters)
  captured p hp hS text htext := by
    rw [page_append, ← String.append_assoc, ← page_eq h.filter_eq h.keepsControls_eq ls']
    exact h'.captured p (h.places_eq ▸ hp) hS _ (h.captured p hp hS text htext)

theorem mono {S' : Set Place} (h : Logs S w v ls) (hS : S ⊆ S') : Logs S' w v ls :=
  { h with
    alters := h.alters.mono (Set.union_subset_union_left _ hS) subset_rfl
    captured := fun p hp hn => h.captured p hp (mt (@hS p) hn) }

end Logs

theorem logs_logged (S : Set Place) (w : World) (l : LogLine) : Logs S w (w.logged l) [l] := by
  unfold logged
  split
  · next hl =>
    have hpage : w.page [l] = if w.keepsControls then l.rawText else l.text := by
      rw [page_singleton, rendered, if_pos hl]
    refine ⟨rfl, rfl, rfl, rfl, ?_, ?_, ?_⟩
    · rw [hpage]
      rfl
    · cases hsink : w.tee.sink with
      | none =>
        rw [Tee.write, hsink]
        exact .refl _
      | some k =>
        rw [Tee.write, hsink]
        exact FileSystem.alters_append (Or.inr ⟨k, hsink, rfl⟩) _
    · rintro p ⟨k, hk, rfl⟩ - text htext
      have hk : w.tee.sink = some k := hk
      rw [hpage, Tee.write, hk]
      exact FileSystem.node?_append htext _
  · next hl =>
    have hpage : w.page [l] = w.page [] := by rw [page_singleton, rendered, if_neg hl, page_nil]
    have h := Logs.refl S w
    exact ⟨rfl, rfl, rfl, rfl, hpage ▸ h.errors_eq, h.alters, hpage ▸ h.captured⟩

theorem logs_write {path : Path} {content : String} {fs : FileSystem}
    (hS : ∀ p, w.tee.files.locate path = .ok p → p ∈ S)
    (h : w.tee.files.write path (.text content) = .ok fs) : Logs S w (w.withFiles fs) [] := by
  obtain ⟨p, hp, rfl⟩ := FileSystem.write_eq_ok.1 h
  obtain ⟨-, hlocate, hnode⟩ := FileSystem.filePlace_eq_ok.1 hp
  refine ⟨rfl, rfl, rfl, rfl, ?_, ?_, fun q _ hq text htext => ?_⟩
  · rw [page_nil, String.append_empty]
    rfl
  · exact FileSystem.alters_put hnode (Or.inl (hS p hlocate)) _
  · have hne : q ≠ p := fun h => hq (h ▸ hS p hlocate)
    rw [page_nil, String.append_empty]
    exact ((FileSystem.node?_put _ (FileSystem.ne_nil_of_node? hnode) _ q).trans
      (if_neg hne)).trans htext

end World

/-- Some lines are logged, and files at places of `S` change. -/
def Command.LogsOn (S : Set Place) (w v : World) : Prop := ∃ ls, World.Logs S w v ls

theorem Command.isFrame_logsOn (S : Set Place) : IsFrame (LogsOn S) where
  refl w := ⟨[], .refl S w⟩
  trans := fun ⟨ls, h⟩ ⟨ls', h'⟩ => ⟨ls ++ ls', h.trans h'⟩
  logged w l := ⟨[l], World.logs_logged S w l⟩

end Bindery
