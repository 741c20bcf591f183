import Bindery.Proofs.Dump.Load
import Bindery.Proofs.Pipeline.Trace

/-!
# The invariant of runs

Whatever the dump and whatever the passes, every graph that a run comes by is well-formed, with the
units of the dump under their names. So the main unit stays the same, and what is pending waits
until it is attached.
-/

namespace Bindery

open Relation

namespace Graph

variable {g h : Graph} {u : DeclId} {file header : String}

/-- Units are found in the same way as long as they keep their names. -/
theorem Keeps.resolveUnit_eq (hk : g.Keeps h) (hg : g.WellFormed) (hh : h.WellFormed)
    (file : String) : (h.resolveUnit file).run = (g.resolveUnit file).run := by
  obtain ⟨r, hr, hok, herr⟩ := hg.resolveUnit_spec file
  obtain ⟨r', hr', hok', herr'⟩ := hh.resolveUnit_spec file
  rw [hr, hr']
  cases r with
  | ok u =>
    obtain ⟨hu, hn⟩ := hok u rfl
    cases r' with
    | ok v =>
      obtain ⟨hv, hvn⟩ := hok' v rfl
      rw [hk.units] at hv
      rw [hk.name?_unit hg hv] at hvn
      rw [hg.eq_of_name hv hu (hvn.trans hn.symm)]
    | error e =>
      exact absurd ((hk.name?_unit hg hu).trans hn) ((herr' e rfl).2 u (hk.units ▸ hu))
  | error e =>
    obtain ⟨rfl, hne⟩ := herr e rfl
    cases r' with
    | ok v =>
      obtain ⟨hv, hvn⟩ := hok' v rfl
      rw [hk.units] at hv
      exact absurd ((hk.name?_unit hg hv).symm.trans hvn) (hne v hv)
    | error e' => rw [(herr' e' rfl).1]

theorem Keeps.primary_eq (hk : g.Keeps h) (hg : g.WellFormed) (hh : h.WellFormed)
    (header : String) : (Scope.primary h header).run = (Scope.primary g header).run := by
  show (h.resolveUnit header).run.bind _ = (g.resolveUnit header).run.bind _
  rw [hk.resolveUnit_eq hg hh header]

theorem WellFormed.resolveUnit_ne_ambiguous (hg : g.WellFormed) (file d : String) (n : Nat) :
    (g.resolveUnit file).run ≠ some (.error (.ambiguous d n)) := by
  intro h
  obtain ⟨r, hr, -, herr⟩ := hg.resolveUnit_spec file
  obtain rfl := Option.some.inj (hr.symm.trans h)
  exact absurd (herr _ rfl).1 nofun

end Graph

namespace Pipeline

variable {g h : Graph} {origin text header : String} {p : Pipeline}

/-- What is reached is well-formed, and keeps what the dump says. -/
theorem Reaches.exists_ready (hr : p.Reaches header g h) (hg : g.IsLoaded) :
    h.WellFormed ∧ g.Keeps h ∧ ∃ ws, ws <:+ g.pending ∧ h.Awaits ws := by
  rcases hr with rfl | ⟨scope, hs, hr⟩
  · exact ⟨hg.toWellFormed, .refl h, h.pending, List.suffix_refl _, hg.awaits⟩
  · obtain ⟨r, hr', hok, -⟩ := hg.primary_spec header
    obtain rfl := Option.some.inj (hr'.symm.trans hs)
    obtain ⟨rest, hrest, hready, hkeeps⟩ := hr.exists_ready
      ⟨hg.toWellFormed, (hok scope rfl).1, (p.waiting_moves _).symm ▸ hg.awaits⟩
    refine ⟨hready.wellFormed, hkeeps, Move.waiting rest, ?_, hready.awaits⟩
    obtain ⟨front, hfront⟩ := hrest
    rw [← p.waiting_moves g.pending, ← hfront, Move.waiting_append]
    exact List.suffix_append _ _

theorem exists_transform (hg : g.IsLoaded) (p : Pipeline) (header : String) :
    ∃ r w, p.transform header { graph := g } = some (r, w) ∧ p.Reaches header g w.graph := by
  obtain ⟨r, w, hr, hok, herr⟩ := Step.runs_iff.1
    (p.runs_transform header (w := { graph := g }) hg.toWellFormed hg.awaits)
  refine ⟨r, w, hr, ?_⟩
  cases r with
  | ok n =>
    obtain ⟨-, scope, ns, hs, ht⟩ := hok n rfl
    have hend := ht.reaches (.here [] _)
    rw [List.append_nil] at hend
    exact Or.inr ⟨scope, hs, hend⟩
  | error e => exact herr e rfl

/-- Every run on the graph of an accepted dump comes to an end, and every graph that it comes by,
that of a failure included, is well-formed with the units of the dump. -/
theorem wellFormed_of_reaches (hload : Graph.ofText origin text = .ok g) (p : Pipeline)
    (header : String) :
    (∃ r w, p.transform header { graph := g } = some (r, w) ∧ p.Reaches header g w.graph) ∧
      ∀ h, p.Reaches header g h → h.WellFormed ∧ h.units = g.units ∧
        (∀ u ∈ h.units, h.name? u = g.name? u ∧ ∃ s, h.get? u = some s ∧ s.kind = .unit ∧
          s.parent = none ∧ s.isRemoved = false) ∧
        (∀ file d n, (h.resolveUnit file).run ≠ some (.error (.ambiguous d n))) ∧
        (Scope.primary h header).run = (Scope.primary g header).run ∧
        ∃ ws, ws <:+ g.pending ∧ h.Awaits ws := by
  have hg := Graph.isLoaded_ofText hload
  refine ⟨exists_transform hg p header, fun h hr => ?_⟩
  obtain ⟨hh, hk, hws⟩ := hr.exists_ready hg
  refine ⟨hh, hk.units, fun u hu => ⟨?_, hh.exists_unit hu⟩, hh.resolveUnit_ne_ambiguous,
    hk.primary_eq hg.toWellFormed hh header, hws⟩
  exact hk.name?_unit hg.toWellFormed (hk.units ▸ hu)

theorem wellFormed_of_reaches_standard :
    ∃ g, Graph.ofText "dump" "unit \"a\" \x7b namespace N \x7b fn f(); \x7d \x7d
      generated \"a\" \x7b fn g(); \x7d" = .ok g ∧ g.size = 4 ∧
      ∀ h, (standard .legacy).Reaches "a" g h → h.WellFormed ∧ h.units = g.units := by
  refine Graph.exists_ofText (P := fun g => g.size == 4) (by decide +kernel) fun g hg hsize => ?_
  refine ⟨of_decide_eq_true hsize, fun h hr => ?_⟩
  obtain ⟨h1, h2, -⟩ := (wellFormed_of_reaches hg (standard .legacy) "a").2 h hr
  exact ⟨h1, h2⟩

end Pipeline

end Bindery
