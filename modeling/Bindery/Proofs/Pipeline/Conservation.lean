import Bindery.Proofs.Command.Run
import Bindery.Proofs.Pipeline.Home
import Mathlib.Algebra.GroupWithZero.Nat

/-!
# What a run conserves

A successful run neither loses nor doubles a declaration. It cuts off the namespaces that it hoists,
one for each hoisting; everything else is live afterwards, says what it said before, and stands
below the unit that the dump names for it.
-/

namespace Bindery

open Relation Move Bindery.Graph

variable {scope : Scope} {m : Move} {ms ms' rest : List Move} {g h k : Graph} {n : Nat}
  {ns : List Nat} {i : DeclId} {s t : Slot}

/-! ### What was removed -/

def Graph.removedSlots (g : Graph) : Finset DeclId :=
  (Finset.range g.size).filter fun i => (g.get? i).any (·.isRemoved)

theorem Graph.mem_removedSlots : i ∈ g.removedSlots ↔ ∃ s, g.get? i = some s ∧ s.isRemoved :=
  mem_slotsWhere

/-- How many namespaces moves hoisted whose results were `ns`. -/
def Move.hoistings (ms : List Move) (ns : List Nat) : Nat := (List.zipWith hoists ms ns).sum

/-- A move removes just what it hoists. -/
theorem Move.Changes.card_removedSlots (hc : m.Changes scope g n h) (hg : g.WellFormed) :
    h.removedSlots.card = g.removedSlots.card + m.hoists n := by
  have hkeeps := hc.keeps hg
  cases hc with
  | inPlace _ hn _ hf =>
    rw [hn, Nat.add_zero]
    refine congrArg Finset.card (hkeeps.slotsWhere_eq fun i s t hs ht => ?_)
    obtain ⟨s', hs', rfl⟩ := get?_mapSlots_eq_some ht
    obtain rfl := Option.some.inj (hs.symm.trans hs')
    exact (hf i s hs).1.2.2.1
  | @hoisted r space s hr hs _ hp =>
    have hnot : s.isRemoved = false := by
      by_contra hrem
      rw [Bool.not_eq_false] at hrem
      exact absurd (hp.symm.trans (hg.removed hs hrem).2.1) (Option.some_ne_none _)
    rw [hoists, if_pos hr]
    refine hkeeps.card_slotsWhere (S := {space}) (fun i hi => ?_) fun i t t' ht ht' => ?_
    · rw [Finset.mem_singleton.1 hi]
      exact ⟨s, hs, hnot⟩
    · obtain ⟨u, hu, hd, -⟩ := hg.get?_hoisted scope.unit hs ht
      obtain rfl := Option.some.inj (ht'.symm.trans hu)
      rw [Finset.mem_singleton, hd]
      by_cases hi : i = space
      · rw [if_pos hi]
        exact iff_of_true (Flags.has_union_right _ _) (Or.inr hi)
      · rw [if_neg hi]
        exact (or_iff_left hi).symm
  | cleared => rfl
  | attached _ =>
    refine congrArg Finset.card (hkeeps.slotsWhere_eq fun i s t hs ht => ?_)
    obtain ⟨s', hs', rfl⟩ := get?_mapSlots_eq_some ht
    obtain rfl := Option.some.inj (hs.symm.trans hs')
    rfl

theorem Trace.card_removedSlots (ht : Trace scope ms g ns h) (hg : Ready scope (ms ++ rest) g) :
    h.removedSlots.card = g.removedSlots.card + hoistings ms ns := by
  refine ht.induction (motive := fun ms g ns h => h.removedSlots.card =
    g.removedSlots.card + hoistings ms ns) (fun _ _ => rfl) ?_ hg
  intro m ms g n k ns h hg _ _ hc _ _ ih
  rw [ih, hc.card_removedSlots hg.wellFormed, hoistings, hoistings, List.zipWith_cons_cons,
    List.sum_cons, Nat.add_assoc]

/-! ### What was moved -/

/-- Where a declaration stands after moves: where it stood, nowhere as it was removed, below the
main unit in place of a namespace that was removed, or where it was attached on the way. -/
def Trace.Placed (scope : Scope) (ms : List Move) (g h : Graph) (s t : Slot) : Prop :=
  t.parent = s.parent ∨ (t.isRemoved ∧ t.parent = none) ∨
    (∃ q u, s.parent = some q ∧ h.get? q = some u ∧ u.isRemoved ∧ t.parent = some scope.unit) ∨
    s.parent = none ∧ ∃ p ∈ waiting ms, p.decl = s.id ∧ ∃ done ns k target, done <+: ms ∧
      Trace scope done g ns k ∧ k.IsDestination p target ∧ t.parent = some target

namespace Trace

variable {u : Slot}

/-- A first move that leaves the parent alone leaves the rest to the moves after it. -/
theorem Placed.of_parent_eq (h' : Placed scope ms k h u t) (hm : Trace scope [m] g [n] k)
    (hid : u.id = s.id) (hp : u.parent = s.parent) : Placed scope (m :: ms) g h s t := by
  unfold Placed at *
  rw [hid, hp] at h'
  rcases h' with h' | h' | h' | ⟨hn, p, hw, hpi, done, ns, l, target, hdone, hl, h'⟩
  · exact Or.inl h'
  · exact Or.inr (Or.inl h')
  · exact Or.inr (Or.inr (Or.inl h'))
  · refine Or.inr (Or.inr (Or.inr ⟨hn, p, ?_, hpi, m :: done, n :: ns, l, target,
      (List.prefix_cons_inj m).2 hdone, hm.append hl, h'⟩))
    exact ((List.sublist_cons_self m ms).filterMap entry?).subset hw

/-- What stands below a declaration that is not removed later stays there, unless it is removed
itself. -/
theorem Placed.parent_or_removed {p : DeclId} {v : Slot} (h' : Placed scope ms k h u t)
    (hp : u.parent = some p) (hv : h.get? p = some v) (hstays : v.isRemoved = false) :
    t.parent = some p ∨ t.isRemoved ∧ t.parent = none := by
  rcases h' with h' | h' | ⟨q, x, hq, hx, hxr, -⟩ | ⟨hn, -⟩
  · exact Or.inl (h'.trans hp)
  · exact Or.inr h'
  · obtain rfl := Option.some.inj (hp.symm.trans hq)
    obtain rfl := Option.some.inj (hx.symm.trans hv)
    exact absurd (hxr.symm.trans hstays) (by decide)
  · exact absurd (hp.symm.trans hn) (Option.some_ne_none p)

section Step

/-! A first move from `g` to `k`, and the moves after it to `h`. -/

variable (hg : g.WellFormed) (hh : h.WellFormed) (hkeeps : k.Keeps h)
  (hs : g.get? i = some s) (hu : k.get? i = some u) (ht : h.get? i = some t)
  (h' : Placed scope ms k h u t)

include hh hkeeps in
/-- What is removed stays removed. -/
theorem exists_removed {j : DeclId} {v : Slot} (hv : k.get? j = some v) (hr : v.isRemoved) :
    ∃ w, h.get? j = some w ∧ w.isRemoved ∧ w.parent = none := by
  obtain ⟨w, hw, hvw⟩ := hkeeps.slot hv
  have hwr : w.isRemoved := hvw.flag hr
  exact ⟨w, hw, hwr, (hh.removed hw hwr).2.1⟩

include hg hh hkeeps hs hu h'

include ht in
/-- Hoisting changes the parents of the namespace and of what it held, and no others. -/
theorem placed_of_hoisted {space : DeclId} {v : Slot} (hk : k = g.hoisted space scope.unit)
    (hv : g.get? space = some v) (hunit : scope.unit ∈ h.units) :
    u.parent = s.parent ∨ Placed scope (m :: ms) g h s t := by
  subst hk
  obtain ⟨u', hu', hd, hup⟩ := hg.get?_hoisted scope.unit hv hs
  obtain rfl := Option.some.inj (hu.symm.trans hu')
  split at hup
  · next hi =>
    rw [if_pos hi] at hd
    obtain ⟨w, hw, hwr, hwn⟩ := exists_removed hh hkeeps hu (hd ▸ Flags.has_union_right _ _)
    obtain rfl := Option.some.inj (ht.symm.trans hw)
    exact Or.inr (Or.inr (Or.inl ⟨hwr, hwn⟩))
  · split at hup
    · next hsp =>
      obtain ⟨v', hv', hvd, -⟩ := hg.get?_hoisted scope.unit hv hv
      rw [if_pos rfl] at hvd
      obtain ⟨w, hw, hwr, -⟩ := exists_removed hh hkeeps hv' (hvd ▸ Flags.has_union_right _ _)
      -- the unit is never removed
      obtain ⟨y, hy, -, -, hyr⟩ := hh.exists_unit hunit
      rcases h'.parent_or_removed hup hy hyr with htp | htr
      · exact Or.inr (Or.inr (Or.inr (Or.inl ⟨space, w, hsp, hw, hwr, htp⟩)))
      · exact Or.inr (Or.inr (Or.inl htr))
    · exact Or.inl hup

/-- Attaching changes the parent of what is attached, and no other. -/
theorem placed_of_attached {p : Pending} {target : DeclId} {ps : List Pending}
    (hk : k = g.mapSlots (Slot.moved [p.decl] target)) (hawaits : g.Awaits (p :: ps))
    (hdest : g.IsDestination p target) :
    u.parent = s.parent ∨ Placed scope (.attach p :: ms) g h s t := by
  subst hk
  obtain ⟨v, hv, rfl⟩ := get?_mapSlots_eq_some hu
  obtain rfl := Option.some.inj (hs.symm.trans hv)
  by_cases hi : s.id ∈ [p.decl]
  · have hup : (s.moved [p.decl] target).parent = some target := if_pos hi
    have hsp : p.decl = s.id := (List.mem_singleton.1 hi).symm
    obtain ⟨x, hx, hn, -⟩ := hawaits.isRoot (List.mem_cons_self (a := p))
    rw [hsp, hg.id_eq hs, hs] at hx
    obtain rfl := Option.some.inj hx
    -- a destination is no namespace, so it is not removed
    obtain ⟨y, hy, hyk, -⟩ := hdest.exists_slot hg
    obtain ⟨z, hz, hyz⟩ := hkeeps.slot (get?_mapSlots_of_get? _ hy)
    have hzr : z.isRemoved = false := by
      by_contra hzr
      have hzk := (hh.removed hz (Bool.not_eq_false _ ▸ hzr)).1
      rw [hyz.kind, Slot.moved, hyk, Pending.goal] at hzk
      split at hzk <;> exact absurd hzk (by decide)
    rcases h'.parent_or_removed hup hz hzr with htp | htr
    · exact Or.inr (Or.inr (Or.inr (Or.inr ⟨hn, p, List.mem_cons_self, hsp,
        [], [], g, target, List.nil_prefix, .nil g, hdest, htp⟩)))
    · exact Or.inr (Or.inr (Or.inl htr))
  · exact Or.inl (if_neg hi)

end Step

theorem placed (ht : Trace scope ms g ns h) (hg : Ready scope (ms ++ rest) g) :
    ∀ i s t, g.get? i = some s → h.get? i = some t → Placed scope ms g h s t := by
  refine ht.induction (motive := fun ms g _ h => ∀ i s t, g.get? i = some s →
    h.get? i = some t → Placed scope ms g h s t) (fun g _ i s t hs ht => ?_) ?_ hg
  · exact Or.inl (congrArg Slot.parent (Option.some.inj (ht.symm.trans hs)))
  intro m ms g n k ns h hg hm _ hc hk htail ih i s t hs ht
  have hwf := hg.wellFormed
  have hh := (htail.ready hk).wellFormed
  have hkeeps := htail.keeps hk
  have hunits := ((hc.keeps hwf).trans hkeeps).units
  obtain ⟨u, hu, -⟩ := (hc.keeps hwf).slot hs
  have hut := ih i u t hu ht
  suffices hstep : u.parent = s.parent ∨ Placed scope (m :: ms) g h s t by
    have hid : u.id = s.id := (hk.wellFormed.id_eq hu).trans (hwf.id_eq hs).symm
    exact hstep.elim (hut.of_parent_eq hm hid) id
  cases hc with
  | inPlace _ _ hp _ =>
    obtain ⟨v, hv, rfl⟩ := get?_mapSlots_eq_some hu
    obtain rfl := Option.some.inj (hs.symm.trans hv)
    exact Or.inl (hp s).2.1
  | cleared => exact Or.inl (congrArg Slot.parent (Option.some.inj (hu.symm.trans hs)))
  | hoisted _ hv _ _ =>
    exact placed_of_hoisted hwf hh hkeeps hs hu ht hut rfl hv (hunits ▸ hg.unit_mem)
  | attached htarget =>
    exact placed_of_attached hwf hh hkeeps hs hu hut rfl hg.awaits ((htarget _).2 rfl)

end Trace

/-! ### Runs -/

/-- What moves conserve that leave nothing pending. -/
structure Graph.Conserves (scope : Scope) (ms : List Move) (g h : Graph) : Prop where
  size : h.size = g.size
  pending : h.pending = []
  listed : ∃ live, h.live? = some live ∧ ∀ i s, h.get? i = some s →
    if s.isRemoved then s.kind = .namespace ∧ i ∉ live.map Found.id
    else (live.map Found.id).count i = 1
  declaration : ∀ i s, g.get? i = some s → ∃ t, h.get? i = some t ∧ t.kind = s.kind ∧
    t.type = s.type ∧ t.parameters = s.parameters ∧ t.value = s.value ∧ t.flags.has s.flags ∧
    t.initialName.getD t.name = s.name
  place : ∀ i s t, g.get? i = some s → h.get? i = some t → Trace.Placed scope ms g h s t
  unitOf : ∀ i u t, g.unitOf? i = some (some u) → h.get? i = some t → t.isRemoved = false →
    h.unitOf? i = some (some u)
  unitOf_pending : ∀ p i t, p ∈ g.pending → g.IsAbove p.decl i → h.get? i = some t →
    t.isRemoved = false → ∃ u, h.unitOf? i = some (some u) ∧ h.name? u = some p.unit

theorem Trace.listed (hw : h.Awaits []) (hh : h.WellFormed) : ∃ live, h.live? = some live ∧
    ∀ i s, h.get? i = some s → if s.isRemoved then s.kind = .namespace ∧ i ∉ live.map Found.id
      else (live.map Found.id).count i = 1 := by
  refine ⟨_, hh.isRooted.live?_eq, fun i s hs => ?_⟩
  have hmem : i ∈ (h.units.flatMap h.below).map Found.id ↔ s.isRemoved = false := by
    have hlive : h.IsLive i ↔ s.isRemoved = false :=
      (hw.live_iff hh hs).trans (and_iff_left nofun)
    rw [← hlive, List.mem_map]
    constructor
    · rintro ⟨x, hx, rfl⟩
      exact (hh.isRooted.mem_live.1 hx).1
    · exact fun hl => ⟨⟨i, s⟩, hh.isRooted.mem_live.2 ⟨hl, hs⟩, rfl⟩
  cases hr : s.isRemoved with
  | true => exact ⟨(hh.removed hs hr).1, fun hm => absurd (hr.symm.trans (hmem.1 hm)) nofun⟩
  | false => exact List.count_eq_one_of_mem hh.isRooted.nodup_live (hmem.2 hr)

theorem Trace.conserves (ht : Trace scope ms g ns h) (hg : g.IsLoaded) (hr : Ready scope ms g)
    (hw : waiting ms = g.pending) (hclear : .clear ∈ ms) : g.Conserves scope ms h := by
  rw [← List.append_nil ms] at hr
  have hready := ht.ready hr
  have hh := hready.wellFormed
  have haw : h.Awaits [] := hready.awaits
  have hkeeps := ht.keeps hr
  obtain ⟨home, hhome⟩ := exists_homes hg.toWellFormed hg.awaits
  have hhome' : h.Homes [] home := ht.homes hr (by rwa [List.append_nil, hw])
  have hlive : ∀ {i t}, h.get? i = some t → t.isRemoved = false →
      ∃ u, h.unitOf? i = some (some u) ∧ h.name? u = some (home i) ∧ u ∈ h.units := by
    intro i t hi hrem
    obtain ⟨u, hu, ha⟩ := (haw.live_iff hh hi).2 ⟨hrem, nofun⟩
    exact ⟨u, (hh.unitOf?_eq_some_iff (lt_size_of_get? hi)).2 ⟨hu, ha⟩,
      hhome'.name?_of_live hu ha, hu⟩
  refine ⟨hkeeps.size, ?_, Trace.listed haw hh, ?_, ht.placed hr, ?_, ?_⟩
  · rw [ht.pending_eq hr, if_pos hclear]
  · intro i s hs
    obtain ⟨t, hi, hst⟩ := hkeeps.slot hs
    have hfirst : s.firstName = s.name := by
      rw [Declaration.firstName, (hg.fresh hs).initialName, Option.getD_none]
    exact ⟨t, hi, hst.kind, hst.type, hst.parameters, hst.value, hst.flags,
      hst.firstName.trans hfirst⟩
  · intro i u t hu hi hrem
    have hlt : i < g.size := hkeeps.size ▸ lt_size_of_get? hi
    obtain ⟨hug, hua⟩ := (hg.unitOf?_eq_some_iff hlt).1 hu
    obtain ⟨v, hv, hvn, hvh⟩ := hlive hi hrem
    have hun : h.name? u = some (home i) :=
      (hkeeps.name?_unit hg.toWellFormed hug).trans (hhome.name?_of_live hug hua)
    rw [hv, hh.eq_of_name hvh (hkeeps.units ▸ hug) (hvn.trans hun.symm)]
  · intro p i t hp hpi hi hrem
    obtain ⟨u, hu, hun, -⟩ := hlive hi hrem
    rw [hhome.of_isAbove hpi, hhome.waiting hp] at hun
    exact ⟨u, hu, hun⟩

namespace Pipeline

variable {p : Pipeline} {c : Config} {w w₁ w₂ : World} {run : PipelineRun}

theorem clear_mem_moves (p : Pipeline) (ps : List Pending) : Move.clear ∈ p.moves ps :=
  List.mem_append_right _ (List.mem_append_left _ List.mem_cons_self)

/-- A successful run conserves all declarations. What is removed at its end are namespaces, as many
as were hoisted. -/
theorem conserves_of_execute (hload : Command.loadDump c w = some (.ok g, w₁))
    (hrun : p.execute c w = some (.ok run, w₂)) :
    ∃ scope ns, (Scope.primary g c.primaryHeader).run = some (.ok scope) ∧
      Trace scope (p.moves g.pending) g ns run.graph ∧
      g.Conserves scope (p.moves g.pending) run.graph ∧
      run.graph.removedSlots.card = hoistings (p.moves g.pending) ns ∧
      run.report.synthesized = g.pending.length := by
  obtain ⟨g', v, scope, ns, hload', hg, hs, hready, ht, hn⟩ := exists_trace hrun
  obtain ⟨hg', -⟩ := Prod.mk.inj (Option.some.inj (hload.symm.trans hload'))
  obtain rfl := Except.ok.inj hg'
  refine ⟨scope, ns, hs, ht,
    ht.conserves hg hready (p.waiting_moves _) (p.clear_mem_moves _), ?_, hn⟩
  have hnone : g.removedSlots = ∅ := by
    refine Finset.eq_empty_of_forall_notMem fun i hi => ?_
    obtain ⟨s, hs, hr⟩ := mem_removedSlots.1 hi
    exact absurd (hr.symm.trans (hg.fresh hs).isRemoved) nofun
  rw [← List.append_nil (p.moves g.pending)] at hready
  rw [ht.card_removedSlots hready, hnone, Finset.card_empty, Nat.zero_add]

theorem conserves_of_execute_hoist :
    ∃ (p : Pipeline) (w w₁ w₂ : World) (g : Graph) (run : PipelineRun) (scope : Scope),
      Command.loadDump {} w = some (.ok g, w₁) ∧ g.size = 4 ∧ p.execute {} w = some (.ok run, w₂) ∧
      run.graph.removedSlots.card = 1 ∧ g.Conserves scope (p.moves g.pending) run.graph := by
  let p : Pipeline :=
    { variant := .legacy, passes :=
      [.table "hoist" .preprocess Tables.namespaceConsolidation, .trim] }
  let w : World := .ofFiles { nodes := [([.text "imgui.decls"], .file (.text
    "unit \"imgui.h\" \x7b namespace N \x7b fn f(); \x7d \x7d generated \"imgui.h\" \x7b fn g(); \x7d"))] }
  obtain ⟨g, w₁, hload, hsize⟩ := Command.exists_eq_ok
    (r := Command.loadDump {} w) (P := fun g => g.size = 4) (by decide +kernel)
  obtain ⟨run, w₂, hrun, hcard⟩ := Command.exists_eq_ok
    (r := p.execute {} w) (P := fun r => r.graph.removedSlots.card = 1) (by decide +kernel)
  obtain ⟨scope, -, -, -, h, -⟩ := conserves_of_execute hload hrun
  exact ⟨p, w, w₁, w₂, g, run, scope, hload, hsize, hrun, hcard, h⟩

end Pipeline

end Bindery
