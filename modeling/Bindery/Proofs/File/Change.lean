import Bindery.Proofs.File.Name
import Mathlib.Data.Set.Basic

/-!
# Changes of files

`Alters S D fs gs`: from `fs` to `gs`, files were made or changed at places of `S` alone, and
directories were made at places of `D` where nothing was. Whatever else there was is still there,
and can be read through the same paths.
-/

namespace Bindery.FileSystem

structure Alters (S D : Set Place) (fs gs : FileSystem) : Prop where
  home_eq : gs.home = fs.home
  node?_cases : ∀ q, gs.node? q = fs.node? q ∨
    (q ∈ D ∧ fs.node? q = none ∧ gs.node? q = some .directory) ∨
    (q ∈ S ∧ fs.node? q ≠ some .directory ∧ ∃ content, gs.node? q = some (.file content))

variable {fs gs hs : FileSystem} {S S' D D' : Set Place} {p q start : Place} {path : Path}
  {names : List RawText} {content : RawText}

namespace Alters

theorem refl (fs : FileSystem) : Alters S D fs fs := ⟨rfl, fun _ => Or.inl rfl⟩

theorem mono (h : Alters S D fs gs) (hS : S ⊆ S') (hD : D ⊆ D') : Alters S' D' fs gs :=
  ⟨h.home_eq, fun q => (h.node?_cases q).imp_right (Or.imp (And.imp_left (@hD q))
    (And.imp_left (@hS q)))⟩

theorem keeps (h : Alters S D fs gs) : fs.KeepsDirectories gs := by
  refine ⟨h.home_eq, fun q hq => ?_⟩
  rcases h.node?_cases q with heq | ⟨-, hnone, -⟩ | ⟨-, hdir, -⟩
  · exact heq.trans hq
  · exact absurd (hnone.symm.trans hq) nofun
  · exact absurd hq hdir

theorem trans (h : Alters S D fs gs) (h' : Alters S D gs hs) : Alters S D fs hs := by
  refine ⟨h'.home_eq.trans h.home_eq, fun q => ?_⟩
  rcases h'.node?_cases q with heq | ⟨hD, hnone, hdir⟩ | ⟨hS, hne, hfile⟩
  · rw [heq]
    exact h.node?_cases q
  · rcases h.node?_cases q with heq | ⟨-, -, hdir'⟩ | ⟨-, -, content, hfile⟩
    · exact Or.inr (Or.inl ⟨hD, heq ▸ hnone, hdir⟩)
    · exact absurd (hnone.symm.trans hdir') nofun
    · exact absurd (hnone.symm.trans hfile) nofun
  · exact Or.inr (Or.inr ⟨hS, mt (h.keeps.directory q) hne, hfile⟩)

/-- What is there stays, unless it is at one of the places. -/
theorem node?_eq (h : Alters S D fs gs) (hq : q ∉ S) {n : Node} (hn : fs.node? q = some n) :
    gs.node? q = some n := by
  rcases h.node?_cases q with heq | ⟨-, hnone, -⟩ | ⟨hS, -⟩
  · exact heq.trans hn
  · exact absurd (hnone.symm.trans hn) nofun
  · exact absurd hS hq

theorem read_eq (h : Alters S D fs gs) (hread : fs.read path = .ok content)
    (hS : ∀ p, fs.locate path = .ok p → p ∉ S) : gs.read path = .ok content := by
  obtain ⟨hslash, p, hlocate, hnode⟩ := read_eq_ok.1 hread
  exact read_eq_ok.2 ⟨hslash, p, h.keeps.locate hlocate, h.node?_eq (hS p hlocate) hnode⟩

theorem readText_eq (h : Alters S D fs gs) {text : String} (hread : fs.readText path = .ok text)
    (hS : ∀ p, fs.locate path = .ok p → p ∉ S) : gs.readText path = .ok text := by
  obtain ⟨hslash, p, hlocate, hnode⟩ := readText_eq_ok.1 hread
  exact readText_eq_ok.2 ⟨hslash, p, h.keeps.locate hlocate, h.node?_eq (hS p hlocate) hnode⟩

theorem isDirectory_eq (h : Alters S D fs gs) (hdir : fs.isDirectory start names) :
    gs.isDirectory start names := by
  unfold isDirectory at *
  cases hfollow : fs.follow start names with
  | error e =>
    rw [hfollow] at hdir
    nomatch hdir
  | ok p =>
    rw [hfollow] at hdir
    rw [h.keeps.follow hfollow]
    exact beq_iff_eq.2 (h.keeps.directory p (beq_iff_eq.1 hdir))

end Alters

/-! ### Files -/

theorem alters_put (hp : fs.node? p ≠ some .directory) (hS : p ∈ S) (content : RawText) :
    Alters S D fs (fs.put p (.file content)) := by
  refine ⟨(sameDirectories_put hp content).home_eq, fun q => ?_⟩
  rw [node?_put fs (ne_nil_of_node? hp)]
  by_cases hq : q = p
  · rw [if_pos hq, hq]
    exact Or.inr (Or.inr ⟨hS, hp, content, rfl⟩)
  · rw [if_neg hq]
    exact Or.inl rfl

theorem alters_append (hS : p ∈ S) (content : RawText) :
    Alters S D fs (fs.append p content) := by
  unfold append
  split
  · next old hp => exact alters_put (by rw [hp]; nofun) hS _
  · exact .refl fs

theorem write_eq_ok : fs.write path content = .ok gs ↔
    ∃ p, fs.filePlace path = .ok p ∧ fs.put p (.file content) = gs := by
  unfold write
  cases fs.filePlace path <;> simp [bind, Except.bind, pure, Except.pure]

/-- What is written can be read. -/
theorem read_of_write (h : fs.write path content = .ok gs) : gs.read path = .ok content := by
  obtain ⟨p, hp, rfl⟩ := write_eq_ok.1 h
  obtain ⟨hslash, hlocate, hnode⟩ := filePlace_eq_ok.1 hp
  refine read_eq_ok.2 ⟨hslash, p, (sameDirectories_put hnode content).locate hlocate, ?_⟩
  rw [node?_put fs (ne_nil_of_node? hnode), if_pos rfl]

/-! ### Directories -/

/-- The places that some of the names lead to, from the first on. -/
def waysTo (fs : FileSystem) (start : Place) (names : List RawText) : Set Place :=
  {q | ∃ ns, ns <+: names ∧ fs.follow start ns = .ok q}

theorem KeepsDirectories.waysTo_subset (h : fs.KeepsDirectories gs) {names' : List RawText}
    (hnames : names <+: names') : fs.waysTo start names ⊆ gs.waysTo start names' := by
  rintro q ⟨ns, hns, hq⟩
  exact ⟨ns, hns.trans hnames, h.follow hq⟩

theorem makeDirectory_eq_ok : fs.makeDirectory start names = .ok gs ↔
    ∃ p, fs.follow start names = .ok p ∧ fs.node? p = none ∧ fs.put p .directory = gs := by
  unfold makeDirectory
  cases fs.follow start names with
  | error e => simp [bind, Except.bind]
  | ok p => cases hp : fs.node? p <;> simp [bind, Except.bind, hp]

theorem ne_nil_of_absent (h : fs.node? p = none) : p ≠ [] := ne_nil_of_node? (by rw [h]; nofun)

theorem alters_makeDirectory (h : fs.makeDirectory start names = .ok gs) :
    Alters ∅ (gs.waysTo start names) fs gs ∧ gs.isDirectory start names := by
  obtain ⟨p, hfollow, hp, rfl⟩ := makeDirectory_eq_ok.1 h
  have hkeeps : fs.KeepsDirectories (fs.put p .directory) := by
    refine ⟨?_, fun q hq => ?_⟩
    · unfold put
      split <;> rfl
    · rw [node?_put fs (ne_nil_of_absent hp), hq, ite_self]
  have hfollow' := hkeeps.follow hfollow
  have hnode : (fs.put p .directory).node? p = some .directory := by
    rw [node?_put fs (ne_nil_of_absent hp), if_pos rfl]
  refine ⟨⟨hkeeps.home_eq, fun q => ?_⟩, ?_⟩
  · by_cases hq : q = p
    · rw [hq]
      exact Or.inr (Or.inl ⟨⟨names, List.prefix_rfl, hfollow'⟩, hp, hnode⟩)
    · rw [node?_put fs (ne_nil_of_absent hp), if_neg hq]
      exact Or.inl rfl
  · rw [isDirectory, hfollow']
    exact beq_iff_eq.2 hnode

/-- What making directories comes to: they are there unless that failed, and what was made lies on
the way. -/
def Makes (start : Place) (names : List RawText) (fs : FileSystem)
    (r : Except FileError Unit × FileSystem) : Prop :=
  Alters ∅ (r.2.waysTo start names) fs r.2 ∧ (r.1 = .ok () → r.2.isDirectory start names)

theorem makes_settle (h : Alters ∅ (gs.waysTo start names) fs gs) (e : FileError) :
    Makes start names fs (gs.settle start names e) := by
  refine ⟨h, fun hok => ?_⟩
  by_contra hdir
  have hsettle : gs.settle start names e = (.error e, gs) := congrArg (·, gs) (if_neg hdir)
  rw [hsettle] at hok
  nomatch hok

theorem makes_makeDirectoriesAt (fs : FileSystem) (start : Place) {names : List RawText}
    (hne : names ≠ []) : Makes start names.reverse fs (fs.makeDirectoriesAt start names) := by
  induction names with
  | nil => exact absurd rfl hne
  | cons name above ih =>
    unfold makeDirectoriesAt
    dsimp only
    split
    · next gs h => exact (alters_makeDirectory h).imp_right fun hdir _ => hdir
    · -- the directory above has to be made first
      have habove : Alters ∅ ((fs.makeDirectoriesAt start above).2.waysTo start
          (name :: above).reverse) fs (fs.makeDirectoriesAt start above).2 := by
        cases above with
        | nil => exact .refl fs
        | cons name' above =>
          exact (ih (List.cons_ne_nil _ _)).1.mono subset_rfl
            ((KeepsDirectories.refl _).waysTo_subset ⟨[name], (List.reverse_cons ..).symm⟩)
      split
      · next e gs h =>
        rw [h] at habove
        exact ⟨habove, nofun⟩
      · next gs h =>
        rw [h] at habove
        split
        · next hs h' =>
          obtain ⟨hmake, hdir⟩ := alters_makeDirectory h'
          exact ⟨(habove.mono subset_rfl (hmake.keeps.waysTo_subset List.prefix_rfl)).trans hmake,
            fun _ => hdir⟩
        · exact makes_settle habove _
    · exact makes_settle (.refl fs) _

theorem makes_makeDirectories (fs : FileSystem) {path : Path} (hparts : path.parts ≠ [])
    (hne : path.isEmpty = false) :
    Makes (fs.startOf path) path.parts fs (fs.makeDirectories path) := by
  rw [makeDirectories, if_neg (by rw [hne]; nofun)]
  split
  · exact ⟨.refl fs, nofun⟩
  · have h := makes_makeDirectoriesAt fs (fs.startOf path) (List.reverse_ne_nil_iff.2 hparts)
    rwa [List.reverse_reverse] at h

end Bindery.FileSystem
