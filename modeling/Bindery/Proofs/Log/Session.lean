import Bindery.Proofs.File.System
import Bindery.Proofs.Log.History

/-!
# Sessions of the log

A `Session` is a log together with what has happened to it. Whatever calls a program makes, its
captures follow the newest guard: `Inv` is what one call after another keeps, and the file of the
last capture of a path holds the lines that were logged while it was active.
-/

namespace Bindery

/-- What a program may do: begin a capture, release a guard that it has got, or log a line. -/
inductive Call where
  | capture (path : Path)
  | release (g : Guard)
  | log (line : String)

structure Session where
  tee : Tee
  /-- The newest first. -/
  past : List Happening := []

theorem Tee.capture_eq_ok {t u : Tee} {path : Path} {g : Guard} :
    t.capture path = .ok (g, u) ↔ ∃ p, t.files.filePlace path = .ok p ∧ g = ⟨t.next, path⟩ ∧
      u = { t with
        files := t.files.put p (.file (.text ""))
        sink := some ⟨t.next, p⟩
        next := t.next + 1 } := by
  unfold capture
  cases t.files.filePlace path with
  | error e => simp [bind, Except.bind]
  | ok p => simp [bind, Except.bind, pure, Except.pure, eq_comm]

theorem Tee.next_release (t : Tee) (g : Guard) : (t.release g).next = t.next := by
  unfold release
  split <;> rfl

namespace Session

open History

variable {fs : FileSystem} {s : Session} {calls : List Call} {c : Call} {g g' : Guard} {p : Place}

def step (s : Session) : Call → Session
  | .capture path =>
    match s.tee.capture path with
    | .ok (g, tee) => { tee := tee, past := .began g :: s.past }
    | .error _ => { s with past := .refused path :: s.past }
  | .release g =>
    if .began g ∈ s.past then { tee := s.tee.release g, past := .released g :: s.past } else s
  | .log line => { tee := s.tee.write line, past := .logged line :: s.past }

def run (s : Session) (calls : List Call) : Session := calls.foldl step s

theorem step_capture_of_ok {path : Path} (hp : s.tee.files.filePlace path = .ok p) :
    s.step (.capture path) = {
      tee := { s.tee with
        files := s.tee.files.put p (.file (.text ""))
        sink := some ⟨s.tee.next, p⟩
        next := s.tee.next + 1 }
      past := .began ⟨s.tee.next, path⟩ :: s.past } := by
  rw [step, Tee.capture_eq_ok.2 ⟨p, hp, rfl, rfl⟩]

theorem step_capture_of_error {path : Path} {e : FileError}
    (he : s.tee.capture path = .error e) :
    s.step (.capture path) = { s with past := .refused path :: s.past } := by
  rw [step, he]

theorem step_release_of_mem (h : .began g ∈ s.past) :
    s.step (.release g) = { tee := s.tee.release g, past := .released g :: s.past } := if_pos h

theorem step_release_of_notMem (h : .began g ∉ s.past) : s.step (.release g) = s := if_neg h

/-! ### What every call keeps -/

/-- The file of the active capture is the one that the log goes to, in a session that began with the
files `fs`. -/
structure Inv (fs : FileSystem) (s : Session) : Prop where
  dirs : fs.SameDirectories s.tee.files
  sorted : (guards s.past).Pairwise fun g g' => g'.generation < g.generation
  lt_next : ∀ g ∈ guards s.past, g.generation < s.tee.next
  exists_place : ∀ g ∈ guards s.past, ∃ p, fs.filePlace g.path = .ok p
  sink_eq : s.tee.sink =
    (active? s.past).bind fun g => (fs.filePlace g.path).toOption.map (⟨g.generation, ·⟩)

namespace Inv

theorem eq_of_generation (h : s.Inv fs) (hg : g ∈ guards s.past) (hg' : g' ∈ guards s.past)
    (heq : g.generation = g'.generation) : g = g' := by
  have hsorted := h.sorted
  revert hsorted hg hg'
  induction guards s.past with
  | nil => simp
  | cons k ks ih =>
    rw [List.pairwise_cons]
    rintro hg hg' ⟨hk, hks⟩
    rcases List.mem_cons.1 hg with hgk | hg <;> rcases List.mem_cons.1 hg' with hgk' | hg'
    · exact hgk.trans hgk'.symm
    · have hlt := hgk ▸ hk g' hg'
      omega
    · have hlt := hgk' ▸ hk g hg
      omega
    · exact ih hg hg' hks

theorem filePlace_eq (h : s.Inv fs) (path : Path) :
    s.tee.files.filePlace path = .ok p ↔ fs.filePlace path = .ok p :=
  ⟨h.dirs.symm.filePlace, h.dirs.filePlace⟩

theorem sink_of_active (h : s.Inv fs) (hg : IsActive s.past g) (hp : fs.filePlace g.path = .ok p) :
    s.tee.sink = some ⟨g.generation, p⟩ := by
  rw [h.sink_eq, active?_eq_some.2 hg, Option.bind_some, hp]
  rfl

theorem sink_of_inactive (h : s.Inv fs) (hg : ∀ g, ¬ IsActive s.past g) : s.tee.sink = none := by
  have hnone : active? s.past = none :=
    Option.eq_none_iff_forall_ne_some.2 fun g hg' => hg g (active?_eq_some.1 hg')
  rw [h.sink_eq, hnone]
  rfl

theorem capture (h : s.Inv fs) (path : Path) : (s.step (.capture path)).Inv fs := by
  cases he : s.tee.capture path with
  | error e =>
    rw [step_capture_of_error he]
    exact ⟨h.dirs, h.sorted, h.lt_next, h.exists_place, h.sink_eq⟩
  | ok x =>
    obtain ⟨p, hp, -⟩ := Tee.capture_eq_ok.1 (show _ = Except.ok (x.1, x.2) from he)
    rw [step_capture_of_ok hp]
    have hplace := (h.filePlace_eq path).1 hp
    refine ⟨?_, ?_, ?_, ?_, ?_⟩
    · exact h.dirs.trans (FileSystem.sameDirectories_put (FileSystem.filePlace_eq_ok.1 hp).2.2 _)
    · exact List.pairwise_cons.2 ⟨h.lt_next, h.sorted⟩
    · intro g hg
      rcases List.mem_cons.1 hg with rfl | hg
      · exact Nat.lt_succ_self _
      · exact Nat.lt_succ_of_lt (h.lt_next g hg)
    · intro g hg
      rcases List.mem_cons.1 hg with rfl | hg
      · exact ⟨p, hplace⟩
      · exact h.exists_place g hg
    · rw [active?, Option.bind_some, hplace]
      rfl

theorem release (h : s.Inv fs) (g : Guard) : (s.step (.release g)).Inv fs := by
  by_cases hg : .began g ∈ s.past
  · rw [step_release_of_mem hg]
    refine ⟨?_, h.sorted, ?_, h.exists_place, ?_⟩
    · rw [Tee.files_release]
      exact h.dirs
    · rw [Tee.next_release]
      exact h.lt_next
    · rw [Tee.sink_release, h.sink_eq, active?]
      cases hactive : active? s.past with
      | none => rfl
      | some k =>
        have hk := mem_guards.2 (active?_eq_some.1 hactive).mem
        obtain ⟨p, hp⟩ := h.exists_place k hk
        have hne : (k.generation != g.generation) = (k != g) := by
          rw [Bool.eq_iff_iff, bne_iff_ne, bne_iff_ne]
          exact not_congr ⟨h.eq_of_generation hk (mem_guards.2 hg), congrArg _⟩
        rw [Option.bind_some, hp, Option.filter_some, ← hne]
        show Option.filter _ (some (⟨k.generation, p⟩ : Sink)) = _
        rw [Option.filter_some]
        cases k.generation != g.generation
        · rfl
        · show _ = (fs.filePlace k.path).toOption.map _
          rw [hp]
          rfl
  · rw [step_release_of_notMem hg]
    exact h

theorem log (h : s.Inv fs) (line : String) : (s.step (.log line)).Inv fs := by
  refine ⟨h.dirs.trans ?_, h.sorted, h.lt_next, h.exists_place, h.sink_eq⟩
  show s.tee.files.SameDirectories (s.tee.sink.elim _ _)
  cases s.tee.sink with
  | none => exact .refl _
  | some k => exact FileSystem.sameDirectories_append _ _ _

theorem step (h : s.Inv fs) (c : Call) : (s.step c).Inv fs := by
  cases c with
  | capture path => exact h.capture path
  | release g => exact h.release g
  | log line => exact h.log line

theorem run (h : s.Inv fs) (calls : List Call) : (s.run calls).Inv fs := by
  induction calls generalizing s with
  | nil => exact h
  | cons c calls ih => exact ih (h.step c)

end Inv

theorem inv_start {t : Tee} (ht : t.sink = none) : (⟨t, []⟩ : Session).Inv t.files :=
  ⟨.refl _, .nil, by simp [guards], by simp [guards], ht⟩

theorem exists_past_step (s : Session) (c : Call) : ∃ a, (s.step c).past = a ++ s.past := by
  cases c with
  | capture path =>
    cases he : s.tee.capture path with
    | error e => exact ⟨[.refused path], by rw [step_capture_of_error he]; rfl⟩
    | ok x => exact ⟨[.began x.1], by rw [step, he]; rfl⟩
  | release g =>
    by_cases hg : .began g ∈ s.past
    · exact ⟨[.released g], by rw [step_release_of_mem hg]; rfl⟩
    · exact ⟨[], by rw [step_release_of_notMem hg]; rfl⟩
  | log line => exact ⟨[.logged line], rfl⟩

/-- What has happened is not forgotten. -/
theorem exists_past_run (s : Session) (calls : List Call) :
    ∃ a, (s.run calls).past = a ++ s.past := by
  induction calls generalizing s with
  | nil => exact ⟨[], rfl⟩
  | cons c calls ih =>
    obtain ⟨a, ha⟩ := ih (s.step c)
    obtain ⟨b, hb⟩ := s.exists_past_step c
    exact ⟨a ++ b, by rw [List.append_assoc, ← hb, ← ha]; rfl⟩

theorem began_mem_step (h : .began g ∈ (s.step c).past) :
    .began g ∈ s.past ∨ c = .capture g.path := by
  cases c with
  | capture path =>
    cases he : s.tee.capture path with
    | error e =>
      rw [step_capture_of_error he] at h
      exact .inl (by simpa using h)
    | ok x =>
      obtain ⟨p, hp, -⟩ := Tee.capture_eq_ok.1 (show _ = Except.ok (x.1, x.2) from he)
      rw [step_capture_of_ok hp] at h
      rcases List.mem_cons.1 h with h | h
      · exact .inr (by rw [Happening.began.inj h])
      · exact .inl h
  | release k =>
    by_cases hk : .began k ∈ s.past
    · rw [step_release_of_mem hk] at h
      exact .inl (by simpa using h)
    · rw [step_release_of_notMem hk] at h
      exact .inl h
  | log line => exact .inl (by simpa [step] using h)

theorem began_mem_run (h : .began g ∈ (s.run calls).past) :
    .began g ∈ s.past ∨ .capture g.path ∈ calls := by
  induction calls generalizing s with
  | nil => exact .inl h
  | cons c calls ih =>
    rcases ih h with h | h
    · rcases began_mem_step h with h | rfl
      · exact .inl h
      · exact .inr (List.mem_cons_self ..)
    · exact .inr (List.mem_cons_of_mem c h)

/-! ### What the files hold -/

/-- Captured paths that lead to one place are the same. -/
def DistinctFiles (fs : FileSystem) (s : Session) : Prop :=
  ∀ g g' p, .began g ∈ s.past → .began g' ∈ s.past →
    fs.filePlace g.path = .ok p → fs.filePlace g'.path = .ok p → g.path = g'.path

/-- From the start on, only what is asked for is captured. -/
theorem DistinctFiles.of_calls {t : Tee} (h : ∀ path path' p, .capture path ∈ calls →
    .capture path' ∈ calls → fs.filePlace path = .ok p → fs.filePlace path' = .ok p →
    path = path') : ((⟨t, []⟩ : Session).run calls).DistinctFiles fs := by
  have hmem : ∀ g, .began g ∈ ((⟨t, []⟩ : Session).run calls).past → .capture g.path ∈ calls :=
    fun g hg => (began_mem_run hg).resolve_left List.not_mem_nil
  intro g g' p hg hg'
  exact h g.path g'.path p (hmem g hg) (hmem g' hg')

theorem DistinctFiles.of_run (calls : List Call) (h : (s.run calls).DistinctFiles fs) :
    s.DistinctFiles fs := by
  obtain ⟨a, ha⟩ := s.exists_past_run calls
  intro g g' p hg hg'
  exact h g g' p (ha ▸ List.mem_append_right a hg) (ha ▸ List.mem_append_right a hg')

namespace Inv

/-- A line goes to the file of the active capture. -/
theorem node?_log_of_active (h : s.Inv fs) (hg : IsActive s.past g)
    (hp : fs.filePlace g.path = .ok p) {old : RawText}
    (hold : s.tee.files.node? p = some (.file old)) (line : String) :
    (s.step (.log line)).tee.files.node? p = some (.file (old ++ .text line)) := by
  show (s.tee.sink.elim _ _ : FileSystem).node? p = _
  rw [h.sink_of_active hg hp]
  exact FileSystem.node?_append hold _

theorem node?_log_of_ne (h : s.Inv fs) {q : Place}
    (hne : ∀ g, IsActive s.past g → fs.filePlace g.path ≠ .ok q) (line : String) :
    (s.step (.log line)).tee.files.node? q = s.tee.files.node? q := by
  show (s.tee.sink.elim _ _ : FileSystem).node? q = _
  by_cases hactive : ∃ g, IsActive s.past g
  · obtain ⟨g, hg⟩ := hactive
    obtain ⟨p, hp⟩ := h.exists_place g (mem_guards.2 hg.mem)
    have hqp : q ≠ p := fun hq => hne g hg (hq ▸ hp)
    rw [h.sink_of_active hg hp]
    exact FileSystem.node?_append_of_ne hqp _
  · rw [h.sink_of_inactive fun g hg => hactive ⟨g, hg⟩]
    rfl

end Inv

/-- The file of the last capture of each path holds the lines that were logged while it was
active. -/
def Contents (fs : FileSystem) (s : Session) : Prop :=
  ∀ path g p, IsLast s.past path g → fs.filePlace path = .ok p →
    s.tee.files.node? p = some (.file (.text (String.join (linesOf g s.past))))

namespace Contents

theorem capture (hc : s.Contents fs) (hs : s.Inv fs) {path : Path}
    (hd : (s.step (.capture path)).DistinctFiles fs) :
    (s.step (.capture path)).Contents fs := by
  cases he : s.tee.capture path with
  | error e =>
    rw [step_capture_of_error he]
    intro q g p hg hp
    exact hc q g p ((isLast_cons (by simp)).1 hg) hp
  | ok x =>
    obtain ⟨r, hr, -⟩ := Tee.capture_eq_ok.1 (show _ = Except.ok (x.1, x.2) from he)
    rw [step_capture_of_ok hr] at hd ⊢
    have hne := FileSystem.ne_nil_of_node? (FileSystem.filePlace_eq_ok.1 hr).2.2
    have hplace := (hs.filePlace_eq path).1 hr
    intro q g p hg hp
    show (s.tee.files.put r _).node? p = _
    rw [FileSystem.node?_put _ hne]
    rcases isLast_began.1 hg with ⟨rfl, rfl⟩ | ⟨hpath, hlast⟩
    · -- the guard is new, so nothing was logged for it
      have hnew : .began ⟨s.tee.next, path⟩ ∉ s.past := fun h =>
        Nat.lt_irrefl _ (hs.lt_next _ (mem_guards.2 h))
      obtain rfl := Except.ok.inj (hp.symm.trans hplace)
      rw [if_pos rfl]
      show _ = some (Node.file (.text (String.join (linesOf _ s.past))))
      rw [linesOf_eq_nil hnew]
      rfl
    · have hpr : p ≠ r := by
        rintro rfl
        have hq := hlast.path_eq
        exact hpath ((hd _ g p (List.mem_cons_self ..) (List.mem_cons_of_mem _ hlast.mem) hplace
          (hq ▸ hp)).trans hq)
      rw [if_neg hpr]
      exact hc q g p hlast hp

theorem release (hc : s.Contents fs) (k : Guard) : (s.step (.release k)).Contents fs := by
  by_cases hk : .began k ∈ s.past
  · rw [step_release_of_mem hk]
    intro q g p hg hp
    show (s.tee.release k).files.node? p = _
    rw [Tee.files_release]
    exact hc q g p ((isLast_cons (by simp)).1 hg) hp
  · rw [step_release_of_notMem hk]
    exact hc

theorem log (hc : s.Contents fs) (hs : s.Inv fs) (hd : s.DistinctFiles fs) (line : String) :
    (s.step (.log line)).Contents fs := by
  intro path g p hg hp
  replace hg : IsLast s.past path g := (isLast_cons (by simp)).1 hg
  have hold := hc path g p hg hp
  have hlines : linesOf g (s.step (.log line)).past
      = linesOf g s.past ++ if IsActive s.past g then [line] else [] := rfl
  rw [hlines]
  by_cases hactive : IsActive s.past g
  · rw [hs.node?_log_of_active hactive (hg.path_eq ▸ hp) hold, if_pos hactive, String.join_append,
      RawText.text_append_text]
    simp [String.join_cons]
  · -- the active capture, if there is one, is that of another path
    rw [if_neg hactive, List.append_nil, ← hold]
    refine hs.node?_log_of_ne (fun k hk hkp => hactive ?_) line
    have hpath := (hd k g p hk.mem hg.mem hkp (hg.path_eq ▸ hp)).trans hg.path_eq
    exact (IsLast.unique (hpath ▸ hk.isLast) hg) ▸ hk

theorem step (hc : s.Contents fs) (hs : s.Inv fs) (hd : (s.step c).DistinctFiles fs) :
    (s.step c).Contents fs := by
  cases c with
  | capture path => exact hc.capture hs hd
  | release g => exact hc.release g
  | log line => exact hc.log hs (.of_run [.log line] hd) line

theorem run (hc : s.Contents fs) (hs : s.Inv fs) (hd : (s.run calls).DistinctFiles fs) :
    (s.run calls).Contents fs := by
  induction calls generalizing s with
  | nil => exact hc
  | cons c calls ih => exact ih (hc.step hs (.of_run calls hd)) (hs.step c) hd

end Contents

/-! ### Following the newest guard -/

theorem Inv.release_of_active (h : s.Inv fs) (hg : IsActive s.past g) (hne : g' ≠ g) :
    (s.step (.release g')).tee = s.tee ∧ IsActive (s.step (.release g')).past g := by
  by_cases hg' : .began g' ∈ s.past
  · rw [step_release_of_mem hg']
    refine ⟨?_, (isActive_cons (by simp)).2 ⟨hg, by simpa using hne⟩⟩
    obtain ⟨p, hp⟩ := h.exists_place g (mem_guards.2 hg.mem)
    have hgen : g.generation ≠ g'.generation := fun heq =>
      hne (h.eq_of_generation (mem_guards.2 hg.mem) (mem_guards.2 hg') heq).symm
    show s.tee.release g' = s.tee
    rw [Tee.release, h.sink_of_active hg hp]
    simp [hgen]
  · rw [step_release_of_notMem hg']
    exact ⟨rfl, hg⟩

/-- A capture after which another one began is never active again. -/
theorem Inv.not_isActive_of_replaced (h : s.Inv fs) {a b : List Happening}
    (hpast : s.past = a ++ .began g :: b) (hg' : .began g' ∈ a) (calls : List Call) :
    ¬ IsActive (s.run calls).past g := by
  intro hactive
  obtain ⟨c, hc⟩ := s.exists_past_run calls
  have hsorted := (h.run calls).sorted
  have hhead := hactive.head?_guards
  have hguards : guards (s.run calls).past = guards (c ++ a) ++ g :: guards b := by
    rw [hc, hpast, ← List.append_assoc, guards_append]
    rfl
  rw [hguards] at hsorted hhead
  cases hca : guards (c ++ a) with
  | nil =>
    have hmem : g' ∈ guards (c ++ a) := mem_guards.2 (List.mem_append_right c hg')
    rw [hca] at hmem
    nomatch hmem
  | cons k ks =>
    rw [hca] at hsorted hhead
    obtain rfl : k = g := Option.some.inj hhead
    have hlt := (List.pairwise_cons.1 hsorted).1 k
      (List.mem_append_right ks (List.mem_cons_self ..))
    exact Nat.lt_irrefl _ hlt

/-- What captures do in a session that began with the files `fs`. -/
structure FollowsNewest (fs : FileSystem) (s : Session) : Prop where
  active_unique : ∀ g g', IsActive s.past g → IsActive s.past g' → g = g'
  sink_of_active : ∀ g, IsActive s.past g →
    ∃ p, fs.filePlace g.path = .ok p ∧ s.tee.sink = some ⟨g.generation, p⟩
  sink_of_inactive : (∀ g, ¬ IsActive s.past g) → s.tee.sink = none
  /-- A line goes to the end of the file of the active capture. -/
  log_active : ∀ g p line, IsActive s.past g → fs.filePlace g.path = .ok p →
    ∃ old, s.tee.files.node? p = some (.file old) ∧
      (s.step (.log line)).tee.files.node? p = some (.file (old ++ .text line))
  /-- No other file changes. -/
  log_other : ∀ q line, (∀ g, IsActive s.past g → fs.filePlace g.path ≠ .ok q) →
    (s.step (.log line)).tee.files.node? q = s.tee.files.node? q
  /-- The release of another guard stops nothing. -/
  release_other : ∀ g g', IsActive s.past g → g' ≠ g →
    (s.step (.release g')).tee = s.tee ∧ IsActive (s.step (.release g')).past g
  not_resumed : ∀ g g' a b, s.past = a ++ .began g :: b → .began g' ∈ a →
    ∀ calls, ¬ IsActive (s.run calls).past g
  /-- A capture that does not begin changes nothing. -/
  refused : ∀ path e, s.tee.capture path = .error e →
    (s.step (.capture path)).tee = s.tee ∧
      ∀ g, IsActive (s.step (.capture path)).past g ↔ IsActive s.past g
  contents : ∀ path g, IsLast s.past path g →
    s.tee.files.readText path = .ok (String.join (linesOf g s.past))

theorem captures_follow_newest_guard {t : Tee} (ht : t.sink = none) (calls : List Call)
    (hd : ((⟨t, []⟩ : Session).run calls).DistinctFiles t.files) :
    ((⟨t, []⟩ : Session).run calls).FollowsNewest t.files := by
  have hs : ((⟨t, []⟩ : Session).run calls).Inv t.files := (inv_start ht).run calls
  have hstart : (⟨t, []⟩ : Session).Contents t.files := by
    rintro path g p ⟨a, b, hab, -⟩
    simp at hab
  have hc := hstart.run (inv_start ht) hd
  refine ⟨fun g g' => IsActive.unique, fun g hg => ?_, hs.sink_of_inactive,
    fun g p line hg hp => ?_,
    fun q line hq => hs.node?_log_of_ne hq line,
    fun g g' hg hne => hs.release_of_active hg hne,
    fun g g' a b hpast hg' calls => hs.not_isActive_of_replaced hpast hg' calls,
    fun path e he => ?_, fun path g hg => ?_⟩
  · obtain ⟨p, hp⟩ := hs.exists_place g (mem_guards.2 hg.mem)
    exact ⟨p, hp, hs.sink_of_active hg hp⟩
  · have hold := hc g.path g p hg.isLast hp
    exact ⟨_, hold, hs.node?_log_of_active hg hp hold line⟩
  · rw [step_capture_of_error he]
    exact ⟨rfl, fun g => by rw [isActive_cons (by simp)]; simp⟩
  · obtain ⟨p, hp⟩ := hs.exists_place g (mem_guards.2 hg.mem)
    rw [hg.path_eq] at hp
    obtain ⟨hslash, hlocate, -⟩ := FileSystem.filePlace_eq_ok.1 hp
    exact FileSystem.readText_eq_ok.2 ⟨hslash, p, hs.dirs.locate hlocate, hc path g p hg hp⟩

/-- Two captures, the guard of the first of which is released while the second is active. -/
def nested : List Call :=
  [.capture (.text "first"), .log "one\n", .capture (.text "second"),
    .release ⟨1, .text "first"⟩, .log "two\n", .release ⟨2, .text "second"⟩, .log "three\n"]

theorem captures_follow_newest_guard_nested :
    ((⟨{ files := {} }, []⟩ : Session).run nested).past =
      [.logged "three\n", .released ⟨2, .text "second"⟩, .logged "two\n",
        .released ⟨1, .text "first"⟩, .began ⟨2, .text "second"⟩, .logged "one\n",
        .began ⟨1, .text "first"⟩] ∧
      ((⟨{ files := {} }, []⟩ : Session).run nested).DistinctFiles {} ∧
      ((⟨{ files := {} }, []⟩ : Session).run nested).FollowsNewest {} := by
  have hpast : ((⟨{ files := {} }, []⟩ : Session).run nested).past =
      [.logged "three\n", .released ⟨2, .text "second"⟩, .logged "two\n",
        .released ⟨1, .text "first"⟩, .began ⟨2, .text "second"⟩, .logged "one\n",
        .began ⟨1, .text "first"⟩] := by
    decide +kernel
  have hfirst : (FileSystem.filePlace {} (.text "first")).toOption = some [.text "first"] := by
    decide +kernel
  have hsecond : (FileSystem.filePlace {} (.text "second")).toOption = some [.text "second"] := by
    decide +kernel
  have hplace : ∀ path p, .capture path ∈ nested → FileSystem.filePlace {} path = .ok p →
      p = [path] := by
    intro path p hm hp
    have hpath : path = .text "first" ∨ path = .text "second" := by simpa [nested] using hm
    have hp := congrArg Except.toOption hp
    rcases hpath with rfl | rfl
    · exact Option.some.inj (hp.symm.trans hfirst)
    · exact Option.some.inj (hp.symm.trans hsecond)
  have hd : ((⟨{ files := {} }, []⟩ : Session).run nested).DistinctFiles {} :=
    .of_calls fun path path' p hm hm' hp hp' =>
      (List.cons.inj ((hplace path p hm hp).symm.trans (hplace path' p hm' hp'))).1
  exact ⟨hpast, hd, captures_follow_newest_guard rfl nested hd⟩

end Session

end Bindery
