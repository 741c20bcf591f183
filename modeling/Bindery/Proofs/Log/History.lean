import Bindery.Capture

/-!
# What has happened to the log

A history lists what has happened to captures of the log, the newest first. A capture is active if
it was the last one to begin and its guard was not released since then; `linesOf` are the lines that
were logged while the capture of a guard was active.
-/

namespace Bindery

inductive Happening where
  | began (g : Guard)
  /-- A capture that did not begin. -/
  | refused (path : Path)
  | released (g : Guard)
  | logged (line : String)
  deriving DecidableEq

namespace History

variable {h a b : List Happening} {g g' : Guard} {path : Path} {x : Happening} {line : String}

/-- The capture of `g` was the last one to begin, and its guard was not released since then. -/
def IsActive (h : List Happening) (g : Guard) : Prop :=
  ∃ a b, h = a ++ .began g :: b ∧ (∀ g', .began g' ∉ a) ∧ .released g ∉ a

/-- The guard of the active capture. -/
def active? : List Happening → Option Guard
  | [] => none
  | .began g :: _ => some g
  | .released g :: h => (active? h).filter (· != g)
  | .refused _ :: h => active? h
  | .logged _ :: h => active? h

theorem isActive_began : IsActive (.began g' :: h) g ↔ g' = g := by
  constructor
  · rintro ⟨a, b, hab, hnone, -⟩
    cases a with
    | nil => exact Happening.began.inj (List.cons.inj hab).1
    | cons x a => exact absurd ((List.cons.inj hab).1 ▸ List.mem_cons_self ..) (hnone g')
  · rintro rfl
    exact ⟨[], h, rfl, by simp, by simp⟩

/-- What is no beginning leaves a capture active, unless it is the release of its guard. -/
theorem isActive_cons (hx : ∀ g', x ≠ .began g') :
    IsActive (x :: h) g ↔ IsActive h g ∧ x ≠ .released g := by
  constructor
  · rintro ⟨a, b, hab, hnone, hrel⟩
    cases a with
    | nil => exact absurd (List.cons.inj hab).1 (hx g)
    | cons y a =>
      obtain ⟨rfl, htail⟩ := List.cons.inj hab
      refine ⟨⟨a, b, htail, fun g' hg => hnone g' (List.mem_cons_of_mem x hg),
        fun hg => hrel (List.mem_cons_of_mem x hg)⟩, ?_⟩
      rintro rfl
      exact hrel (List.mem_cons_self ..)
  · rintro ⟨⟨a, b, rfl, hnone, hrel⟩, hne⟩
    refine ⟨x :: a, b, rfl, fun g' hg => ?_, fun hg => ?_⟩
    · rcases List.mem_cons.1 hg with hg | hg
      · exact hx g' hg.symm
      · exact hnone g' hg
    · rcases List.mem_cons.1 hg with hg | hg
      · exact hne hg.symm
      · exact hrel hg

theorem active?_eq_some : active? h = some g ↔ IsActive h g := by
  induction h with
  | nil => simp [active?, IsActive]
  | cons x h ih =>
    cases x with
    | began g' => rw [isActive_began, active?, Option.some.injEq]
    | released g' =>
      have hne : (g != g') = true ↔ Happening.released g' ≠ .released g := by
        rw [bne_iff_ne, ne_comm, ne_eq, ne_eq, Happening.released.injEq]
      rw [isActive_cons (by simp), active?, Option.filter_eq_some_iff, ih, hne]
    | refused p => rw [isActive_cons (by simp), active?, ih]; simp
    | logged l => rw [isActive_cons (by simp), active?, ih]; simp

instance : Decidable (IsActive h g) := decidable_of_iff (active? h = some g) active?_eq_some

theorem IsActive.unique (hg : IsActive h g) (hg' : IsActive h g') : g = g' :=
  Option.some.inj ((active?_eq_some.2 hg).symm.trans (active?_eq_some.2 hg'))

/-- The lines that were logged while the capture of `g` was active, the oldest first. -/
def linesOf (g : Guard) : List Happening → List String
  | [] => []
  | .logged line :: h => linesOf g h ++ if IsActive h g then [line] else []
  | _ :: h => linesOf g h

/-- The last capture of a path that began. -/
def IsLast (h : List Happening) (path : Path) (g : Guard) : Prop :=
  ∃ a b, h = a ++ .began g :: b ∧ g.path = path ∧ ∀ g', .began g' ∈ a → g'.path ≠ path

theorem isLast_began : IsLast (.began g' :: h) path g ↔
    g'.path = path ∧ g' = g ∨ g'.path ≠ path ∧ IsLast h path g := by
  constructor
  · rintro ⟨a, b, hab, hpath, hlast⟩
    cases a with
    | nil =>
      obtain rfl := Happening.began.inj (List.cons.inj hab).1
      exact .inl ⟨hpath, rfl⟩
    | cons x a =>
      obtain ⟨rfl, htail⟩ := List.cons.inj hab
      exact .inr ⟨hlast g' (List.mem_cons_self ..),
        a, b, htail, hpath, fun k hk => hlast k (List.mem_cons_of_mem _ hk)⟩
  · rintro (⟨hpath, rfl⟩ | ⟨hne, a, b, rfl, hpath, hlast⟩)
    · exact ⟨[], h, rfl, hpath, by simp⟩
    · refine ⟨.began g' :: a, b, rfl, hpath, fun k hk => ?_⟩
      rcases List.mem_cons.1 hk with hk | hk
      · rw [Happening.began.inj hk]
        exact hne
      · exact hlast k hk

theorem isLast_cons (hx : ∀ g', x ≠ .began g') : IsLast (x :: h) path g ↔ IsLast h path g := by
  constructor
  · rintro ⟨a, b, hab, hpath, hlast⟩
    cases a with
    | nil => exact absurd (List.cons.inj hab).1 (hx g)
    | cons y a =>
      exact ⟨a, b, (List.cons.inj hab).2, hpath, fun k hk => hlast k (List.mem_cons_of_mem y hk)⟩
  · rintro ⟨a, b, rfl, hpath, hlast⟩
    refine ⟨x :: a, b, rfl, hpath, fun k hk => ?_⟩
    rcases List.mem_cons.1 hk with hk | hk
    · exact absurd hk.symm (hx k)
    · exact hlast k hk

theorem IsLast.unique (hg : IsLast h path g) (hg' : IsLast h path g') : g = g' := by
  induction h with
  | nil =>
    obtain ⟨a, b, hab, -⟩ := hg
    simp at hab
  | cons x h ih =>
    by_cases hx : ∃ k, x = .began k
    · obtain ⟨k, rfl⟩ := hx
      rcases isLast_began.1 hg with ⟨hk, rfl⟩ | ⟨hk, hg⟩ <;>
        rcases isLast_began.1 hg' with ⟨hk', rfl⟩ | ⟨hk', hg'⟩
      · rfl
      · exact absurd hk hk'
      · exact absurd hk' hk
      · exact ih hg hg'
    · have hx : ∀ k, x ≠ .began k := fun k hk => hx ⟨k, hk⟩
      exact ih ((isLast_cons hx).1 hg) ((isLast_cons hx).1 hg')

theorem IsActive.isLast (hg : IsActive h g) : IsLast h g.path g := by
  obtain ⟨a, b, rfl, hnone, -⟩ := hg
  exact ⟨a, b, rfl, rfl, fun g' hg' => absurd hg' (hnone g')⟩

theorem IsLast.mem (hg : IsLast h path g) : .began g ∈ h := by
  obtain ⟨a, b, rfl, -⟩ := hg
  simp

theorem IsLast.path_eq (hg : IsLast h path g) : g.path = path := by
  obtain ⟨a, b, -, hpath, -⟩ := hg
  exact hpath

/-! ### Guards in a history -/

/-- The guards of the captures that began, the newest first. -/
def guards (h : List Happening) : List Guard :=
  h.filterMap fun
    | .began g => some g
    | _ => none

theorem mem_guards : g ∈ guards h ↔ .began g ∈ h := by
  simp only [guards, List.mem_filterMap]
  constructor
  · rintro ⟨x, hx, hg⟩
    cases x <;> simp_all
  · exact fun hg => ⟨_, hg, rfl⟩

theorem guards_append (a b : List Happening) : guards (a ++ b) = guards a ++ guards b :=
  List.filterMap_append

theorem IsActive.mem (hg : IsActive h g) : .began g ∈ h := by
  obtain ⟨a, b, rfl, -⟩ := hg
  simp

theorem IsActive.head?_guards (hg : IsActive h g) : (guards h).head? = some g := by
  obtain ⟨a, b, rfl, hnone, -⟩ := hg
  have ha : guards a = [] :=
    List.eq_nil_iff_forall_not_mem.2 fun g' hg' => hnone g' (mem_guards.1 hg')
  rw [guards_append, ha]
  rfl

theorem linesOf_eq_nil (h : .began g ∉ a) : linesOf g a = [] := by
  induction a with
  | nil => rfl
  | cons x a ih =>
    have hrest := ih fun hx => h (List.mem_cons_of_mem x hx)
    cases x with
    | logged l =>
      have hinactive : ¬ IsActive a g := fun hg => h (List.mem_cons_of_mem _ hg.mem)
      rw [linesOf, hrest, if_neg hinactive, List.append_nil]
    | _ => exact hrest

end History

end Bindery
