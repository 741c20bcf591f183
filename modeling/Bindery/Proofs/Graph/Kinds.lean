import Bindery.Proofs.Flags
import Bindery.Proofs.Graph.Rooted

/-!
# Kinds and places

`Graph.WellFormed`: a forest in which every declaration stands where its kind may stand. Units are
roots with different names, members stand in classes that have a body, and what was removed is a
namespace that is cut off.
-/

namespace Bindery

/-- The kinds of declarations right below which one of kind `k` may stand. -/
def Kind.parents : Kind → List Kind
  | .unit => []
  | .namespace | .record | .enumeration | .function | .alias => [.unit, .namespace]
  | .method | .property => [.record]
  | .item => [.enumeration]

namespace Graph

open Relation

variable {g h : Graph} {c i p r u v : DeclId} {s t : Slot} {f : Slot → Slot}

def name? (g : Graph) (i : DeclId) : Option String := (g.get? i).map fun s => s.name

structure WellFormed (g : Graph) : Prop extends g.IsForest where
  /-- Units are what stands in the list of units. -/
  mem_units : ∀ {i s}, g.get? i = some s → (i ∈ g.units ↔ s.kind = .unit)
  unit_lt : ∀ {u}, u ∈ g.units → u < g.size
  nodup_units : g.units.Nodup
  nodup_names : (g.units.map g.name?).Nodup
  kind_parent : ∀ {p c s t}, g.get? p = some s → g.get? c = some t → t.parent = some p →
    s.kind ∈ t.kind.parents ∧ (s.kind = .record → s.isComplete)
  removed : ∀ {i s}, g.get? i = some s → s.isRemoved →
    s.kind = .namespace ∧ s.parent = none ∧ s.children = []

namespace WellFormed

variable (hg : g.WellFormed)
include hg

theorem exists_unit (hu : u ∈ g.units) : ∃ s, g.get? u = some s ∧ s.kind = .unit ∧
    s.parent = none ∧ s.isRemoved = false := by
  obtain ⟨s, hs⟩ := exists_get?_of_lt (hg.unit_lt hu)
  have hk := (hg.mem_units hs).1 hu
  have hp : s.parent = none := by
    cases hp : s.parent with
    | none => rfl
    | some p =>
      obtain ⟨t, ht⟩ := exists_get?_of_lt (hg.parent_lt ⟨s, hs, hp⟩)
      have := (hg.kind_parent ht hs hp).1
      simp [hk, Kind.parents] at this
  refine ⟨s, hs, hk, hp, ?_⟩
  cases hr : s.isRemoved with
  | false => rfl
  | true =>
    have := (hg.removed hs hr).1
    rw [hk] at this
    exact absurd this nofun

theorem isRooted : g.IsRooted where
  toIsForest := hg.toIsForest
  parent_unit := by
    intro i s hs hk
    obtain ⟨t, ht, -, hp, -⟩ := hg.exists_unit ((hg.mem_units hs).2 hk)
    rw [Option.some.inj (hs.symm.trans ht)]
    exact hp
  kind_unit := by
    intro u hu
    obtain ⟨s, hs, hk, -⟩ := hg.exists_unit hu
    exact ⟨s, hs, hk⟩
  nodup_units := hg.nodup_units

/-- There is at most one unit above a declaration. -/
theorem unit_unique (hu : u ∈ g.units) (hv : v ∈ g.units) (hui : g.IsAbove u i)
    (hvi : g.IsAbove v i) : u = v := by
  obtain ⟨s, hs, hsk, -⟩ := hg.exists_unit hu
  obtain ⟨t, ht, htk, -⟩ := hg.exists_unit hv
  exact hg.isRooted.unit_unique hs hsk ht htk hui hvi

theorem eq_of_name (hu : u ∈ g.units) (hv : v ∈ g.units) (h : g.name? u = g.name? v) : u = v :=
  List.inj_on_of_nodup_map hg.nodup_names hu hv h

/-- The list of what is pending does not matter. -/
theorem withPending (ps : List Pending) : { g with pending := ps }.WellFormed :=
  ⟨⟨hg.id_eq, hg.mem_children, hg.nodup_children, hg.parent_lt, hg.acyclic⟩, hg.mem_units,
    hg.unit_lt, hg.nodup_units, hg.nodup_names, hg.kind_parent, hg.removed⟩

/-! ### Answers of the walks -/

theorem unitOf?_eq_some_iff (hi : i < g.size) :
    g.unitOf? i = some (some u) ↔ u ∈ g.units ∧ g.IsAbove u i := by
  obtain ⟨o, ho, hsome, hnone⟩ := hg.exists_unitOf? hi
  rw [ho, Option.some.injEq]
  constructor
  · intro h
    obtain ⟨ha, s, hs, hk⟩ := hsome u h
    exact ⟨(hg.mem_units hs).2 hk, ha⟩
  · rintro ⟨hu, ha⟩
    cases ho' : o with
    | none =>
      obtain ⟨s, hs, hk, -⟩ := hg.exists_unit hu
      exact absurd hk (hnone ho' u s ha hs)
    | some v =>
      obtain ⟨hv, s, hs, hk⟩ := hsome v ho'
      rw [hg.unit_unique hu ((hg.mem_units hs).2 hk) ha hv]

end WellFormed

end Graph

end Bindery
