import Bindery.Proofs.Pipeline.Trace

/-!
# Homes

`Graph.Homes g ws home`: `home` gives every declaration the file of the unit that it stands below or
waits for. A run never changes whose home is where, so what is below a unit stays below it.
-/

namespace Bindery

open Relation Move

namespace Graph

variable {g h : Graph} {i u v space target : DeclId} {s : Slot} {p : Pending} {ws : List Pending}
  {home : DeclId → String} {f : Slot → Slot}

structure Homes (g : Graph) (ws : List Pending) (home : DeclId → String) : Prop where
  parent : ∀ {p c}, g.IsParent p c → home c = home p
  unit : ∀ {u}, u ∈ g.units → g.name? u = some (home u)
  waiting : ∀ {p}, p ∈ ws → home p.decl = p.unit

namespace Homes

theorem of_isAbove (hh : g.Homes ws home) (ha : g.IsAbove u i) : home i = home u := by
  induction ha with
  | refl => rfl
  | tail _ hp ih => exact (hh.parent hp).trans ih

/-- A live declaration stands below the unit of its home. -/
theorem name?_of_live (hh : g.Homes ws home) (hu : u ∈ g.units) (ha : g.IsAbove u i) :
    g.name? u = some (home i) := by
  rw [hh.unit hu, hh.of_isAbove ha]

end Homes

/-- The declarations of two waiting entries of which one is above the other are the same. -/
theorem Awaits.eq_of_isAbove (h : g.Awaits ws) {p q : Pending} (hp : p ∈ ws) (hq : q ∈ ws)
    (hpi : g.IsAbove p.decl i) (hqi : g.IsAbove q.decl i) : p = q := by
  obtain ⟨s, hs, hsp, -⟩ := h.isRoot hp
  obtain ⟨t, ht, htp, -⟩ := h.isRoot hq
  refine List.inj_on_of_nodup_map h.nodup hp hq ?_
  rcases hpi.total hqi with ha | ha
  · exact ha.eq_of_parent_eq_none ht htp
  · exact (ha.eq_of_parent_eq_none hs hsp).symm

/-- Every declaration has a home. -/
theorem exists_homes (hg : g.WellFormed) (hw : g.Awaits ws) : ∃ home, g.Homes ws home := by
  have hex : ∀ i, ∃ f : String, (∀ u ∈ g.units, g.IsAbove u i → g.name? u = some f) ∧
      ∀ p ∈ ws, g.IsAbove p.decl i → f = p.unit := by
    intro i
    by_cases hl : g.IsLive i
    · obtain ⟨u, hu, ha⟩ := hl
      obtain ⟨s, hs, -⟩ := hg.exists_unit hu
      refine ⟨s.name, fun v hv hva => ?_, fun p hp hpa => ?_⟩
      · rw [hg.unit_unique hv hu hva ha, name?_of_get? hs]
      · exact absurd hpa (hw.not_isAbove_live hg hp ⟨u, hu, ha⟩)
    · by_cases hp : ∃ p ∈ ws, g.IsAbove p.decl i
      · obtain ⟨p, hp, ha⟩ := hp
        refine ⟨p.unit, fun u hu hua => absurd ⟨u, hu, hua⟩ hl, fun q hq hqa => ?_⟩
        rw [hw.eq_of_isAbove hp hq ha hqa]
      · exact ⟨"", fun u hu hua => absurd ⟨u, hu, hua⟩ hl, fun p hp' ha => absurd ⟨p, hp', ha⟩ hp⟩
  choose home hunit hwait using hex
  refine ⟨home, fun {p c} hpc => ?_, fun {u} hu => hunit u u hu .refl,
    fun {p} hp => hwait p.decl p hp .refl⟩
  obtain ⟨r, t, hr, ht, hn⟩ := hg.exists_root (hg.parent_lt hpc)
  rcases hw.rooted ht hn with hk | hrem | ⟨q, hq, rfl⟩
  · have hu := (hg.mem_units ht).2 hk
    have h1 := hunit p r hu hr
    have h2 := hunit c r hu (hr.tail hpc)
    exact Option.some.inj (h2.symm.trans h1)
  · -- what was removed has no children
    exfalso
    have hchild : ∀ c, ¬ g.IsParent r c := fun c hc => by
      have := (hg.mem_children ht c).2 hc
      rw [(hg.removed ht hrem).2.2] at this
      exact absurd this List.not_mem_nil
    rcases ReflTransGen.cases_head (hr.tail hpc) with rfl | ⟨c', hc', -⟩
    · exact not_isParent_of_parent_eq_none ht hn hpc
    · exact hchild c' hc'
  · rw [hwait p q hq hr, hwait c q hq (hr.tail hpc)]

end Graph

variable {scope : Scope} {m : Move} {ms rest : List Move} {g h : Graph} {n : Nat} {ns : List Nat}
  {home : DeclId → String}

open Bindery.Graph

/-- No move takes a declaration away from its home. -/
theorem Move.Changes.homes (hc : m.Changes scope g n h) (hg : Ready scope (m :: ms) g)
    (hh : g.Homes (waiting (m :: ms)) home) : h.Homes (waiting ms) home := by
  have hwf := hg.wellFormed
  have hkeeps := hc.keeps hwf
  have hunit : ∀ {u}, u ∈ h.units → h.name? u = some (home u) := by
    intro u hu
    rw [hkeeps.units] at hu
    rw [hkeeps.name?_unit hwf hu]
    exact hh.unit hu
  cases hc with
  | inPlace hm _ hp _ =>
    rw [waiting_cons_of_rewrite hm] at hh
    exact ⟨fun hpc => hh.parent ((isParent_mapSlots_of_keepsPlace hp).1 hpc), hunit, hh.waiting⟩
  | @hoisted r space s _ hs _ hp =>
    refine ⟨fun {p c} hpc => ?_, hunit, hh.waiting⟩
    obtain ⟨t, ht, htp⟩ := hpc
    obtain ⟨u, hu⟩ := exists_get?_of_hoisted ht
    obtain ⟨t', ht', -, hp'⟩ := hwf.get?_hoisted scope.unit hs hu
    obtain rfl := Option.some.inj (ht.symm.trans ht')
    rw [htp] at hp'
    split at hp'
    · exact absurd hp' nofun
    · split at hp'
      · next hus =>
        obtain rfl := Option.some.inj hp'
        rw [hh.parent ⟨u, hu, hus⟩, hh.parent ⟨s, hs, hp⟩]
      · exact hh.parent ⟨u, hu, hp'.symm⟩
  | cleared => exact ⟨hh.parent, hunit, hh.waiting⟩
  | @attached _ p target ht =>
    refine ⟨fun {q c} hqc => ?_, hunit, fun hq => hh.waiting (List.mem_cons_of_mem p hq)⟩
    rw [hwf.toIsForest.isParent_moved] at hqc
    split at hqc
    · next hc =>
      obtain ⟨-, rfl⟩ := hqc
      obtain rfl := List.mem_singleton.1 hc
      obtain ⟨u, hu, hn, ha, -⟩ := (ht q).2 rfl
      have h1 := hh.waiting (List.mem_cons_self (a := p) (l := waiting ms))
      have h2 := (hh.unit hu).symm.trans hn
      rw [h1, hh.of_isAbove ha, Option.some.inj h2]
    · exact hh.parent hqc

theorem Trace.homes (ht : Trace scope ms g ns h) (hg : Ready scope (ms ++ rest) g)
    (hh : g.Homes (waiting (ms ++ rest)) home) : h.Homes (waiting rest) home := by
  refine ht.induction (motive := fun ms g _ h => g.Homes (waiting (ms ++ rest)) home →
    h.Homes (waiting rest) home) (fun _ _ hh => hh) ?_ hg hh
  exact fun _ _ _ _ _ _ _ hg _ _ hc _ _ ih hh => ih (hc.homes hg hh)

end Bindery
