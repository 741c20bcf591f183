import Bindery.File.System

/-!
# Places that stay where they are

What a path leads to depends on the directories alone. Making or changing a file leaves them as they
are, so a path that leads to a place goes on leading there.
-/

namespace Bindery.FileSystem

variable {fs gs hs : FileSystem} {p q : Place} {path : Path} {name : RawText} {content : RawText}

/-- Nothing that was a directory is another thing now. -/
structure KeepsDirectories (fs gs : FileSystem) : Prop where
  home_eq : gs.home = fs.home
  directory : ∀ p, fs.node? p = some .directory → gs.node? p = some .directory

/-- The same directories, whatever the files. -/
structure SameDirectories (fs gs : FileSystem) : Prop where
  home_eq : gs.home = fs.home
  iff : ∀ p, gs.node? p = some .directory ↔ fs.node? p = some .directory

theorem KeepsDirectories.refl (fs : FileSystem) : fs.KeepsDirectories fs := ⟨rfl, fun _ => id⟩

theorem SameDirectories.refl (fs : FileSystem) : fs.SameDirectories fs := ⟨rfl, fun _ => Iff.rfl⟩

theorem SameDirectories.symm (h : fs.SameDirectories gs) : gs.SameDirectories fs :=
  ⟨h.home_eq.symm, fun p => (h.iff p).symm⟩

theorem SameDirectories.trans (h : fs.SameDirectories gs) (h' : gs.SameDirectories hs) :
    fs.SameDirectories hs :=
  ⟨h'.home_eq.trans h.home_eq, fun p => (h'.iff p).trans (h.iff p)⟩

theorem SameDirectories.keeps (h : fs.SameDirectories gs) : fs.KeepsDirectories gs :=
  ⟨h.home_eq, fun p => (h.iff p).2⟩

/-! ### Following a path -/

theorem requireDirectory_eq_ok : fs.requireDirectory p = .ok () ↔ fs.node? p = some .directory := by
  unfold requireDirectory
  split <;> simp_all

namespace KeepsDirectories

theorem startOf (h : fs.KeepsDirectories gs) (path : Path) : gs.startOf path = fs.startOf path := by
  rw [FileSystem.startOf, FileSystem.startOf, h.home_eq]

theorem enter (h : fs.KeepsDirectories gs) (hp : fs.enter p name = .ok q) :
    gs.enter p name = .ok q := by
  cases hdir : fs.requireDirectory p with
  | error e =>
    rw [FileSystem.enter, hdir] at hp
    nomatch hp
  | ok u =>
    have hdir' := requireDirectory_eq_ok.2 (h.directory p (requireDirectory_eq_ok.1 hdir))
    rw [FileSystem.enter, hdir] at hp
    rw [FileSystem.enter, hdir']
    exact hp

theorem follow (h : fs.KeepsDirectories gs) {names : List RawText}
    (hp : fs.follow p names = .ok q) : gs.follow p names = .ok q := by
  induction names generalizing p with
  | nil => exact hp
  | cons name names ih =>
    unfold FileSystem.follow at hp ih ⊢
    rw [List.foldlM_cons] at hp ⊢
    cases henter : fs.enter p name with
    | error e =>
      rw [henter] at hp
      nomatch hp
    | ok r =>
      rw [henter] at hp
      rw [h.enter henter]
      exact ih hp

theorem locate (h : fs.KeepsDirectories gs) (hp : fs.locate path = .ok p) :
    gs.locate path = .ok p := by
  unfold FileSystem.locate at hp ⊢
  cases hcheck : checkPath path with
  | error e =>
    rw [hcheck] at hp
    nomatch hp
  | ok u =>
    rw [hcheck] at hp
    rw [h.startOf]
    exact h.follow hp

end KeepsDirectories

theorem SameDirectories.locate (h : fs.SameDirectories gs) (hp : fs.locate path = .ok p) :
    gs.locate path = .ok p := h.keeps.locate hp

theorem filePlace_eq_ok : fs.filePlace path = .ok p ↔
    path.endsInSlash = false ∧ fs.locate path = .ok p ∧ fs.node? p ≠ some .directory := by
  unfold filePlace
  cases hcheck : checkPath path with
  | error e => simp [locate, hcheck, bind, Except.bind]
  | ok u =>
    cases hslash : path.endsInSlash with
    | true =>
      cases fs.follow (fs.startOf path) path.steps.dropLast with
      | error e => simp [bind, Except.bind]
      | ok r => cases hr : fs.requireDirectory r <;> simp [bind, Except.bind, hr]
    | false =>
      cases fs.locate path with
      | error e => simp [bind, Except.bind]
      | ok r =>
        have hplace : (if fs.node? r = some .directory then Except.error FileError.isDirectory
            else .ok r) = .ok p ↔ r = p ∧ fs.node? p ≠ some .directory := by
          split
          · next hr => simp only [reduceCtorEq, false_iff]; rintro ⟨rfl, hp⟩; exact hp hr
          · next hr => simp only [Except.ok.injEq]; exact ⟨fun h => ⟨h, h ▸ hr⟩, And.left⟩
        simpa [bind, Except.bind] using hplace

theorem SameDirectories.filePlace (h : fs.SameDirectories gs) (hp : fs.filePlace path = .ok p) :
    gs.filePlace path = .ok p := by
  obtain ⟨hslash, hlocate, hnode⟩ := filePlace_eq_ok.1 hp
  exact filePlace_eq_ok.2 ⟨hslash, h.locate hlocate, mt (h.iff p).1 hnode⟩

theorem read_eq_ok : fs.read path = .ok content ↔
    path.endsInSlash = false ∧ ∃ p, fs.locate path = .ok p ∧ fs.node? p = some (.file content) := by
  unfold read
  cases hlocate : fs.locate path with
  | error e => simp [bind, Except.bind]
  | ok p =>
    rcases hnode : fs.node? p with _ | _ | old
    · simp [bind, Except.bind, hnode]
    · simp [bind, Except.bind, hnode]
    · cases hslash : path.endsInSlash <;> simp [bind, Except.bind, hnode]

theorem readText_eq_ok {text : String} : fs.readText path = .ok text ↔
    path.endsInSlash = false ∧ ∃ p, fs.locate path = .ok p ∧
      fs.node? p = some (.file (.text text)) := by
  rw [← read_eq_ok, readText]
  cases fs.read path with
  | error e => simp [bind, Except.bind]
  | ok content => cases content <;> simp [bind, Except.bind]

/-! ### Changing a file -/

theorem ne_nil_of_node? (h : fs.node? p ≠ some .directory) : p ≠ [] := by
  rintro rfl
  exact h rfl

theorem sameDirectories_put (hp : fs.node? p ≠ some .directory) (content : RawText) :
    fs.SameDirectories (fs.put p (.file content)) := by
  refine ⟨?_, fun q => ?_⟩
  · unfold put
    split <;> rfl
  · rw [node?_put fs (ne_nil_of_node? hp)]
    split
    · next hq => simp [hq, hp]
    · rfl

theorem sameDirectories_append (fs : FileSystem) (p : Place) (content : RawText) :
    fs.SameDirectories (fs.append p content) := by
  unfold append
  split
  · next old h => exact sameDirectories_put (by simp [h]) _
  · exact .refl fs

theorem node?_append_of_ne (h : q ≠ p) (content : RawText) :
    (fs.append p content).node? q = fs.node? q := by
  unfold append
  split
  · next old hp =>
    have hne : p ≠ [] := ne_nil_of_node? (by rw [hp]; simp)
    rw [node?_put fs hne, if_neg h]
  · rfl

theorem node?_append {old : RawText} (h : fs.node? p = some (.file old)) (content : RawText) :
    (fs.append p content).node? p = some (.file (old ++ content)) := by
  have hne : p ≠ [] := ne_nil_of_node? (by rw [h]; simp)
  simp only [append, h]
  rw [node?_put fs hne, if_pos rfl]

end Bindery.FileSystem
