import Bindery.Pipeline.Attach
import Bindery.Proofs.Graph.Waiting
import Bindery.Proofs.Pipeline.Rule

/-!
# What attaching does

`Graph.IsDestination g p target`: the pending declaration `p` goes below `target`. It is attached
just if there is one such target, below which it becomes the last child; otherwise
`Graph.Refuses g p e` says with which error it fails.
-/

namespace Bindery

open Step

namespace Graph

variable {g : Graph} {i t u target : DeclId} {p : Pending} {e : PipelineError} {ws : List Pending}

/-- The unit of the file, or a class of the owner's name that has a body and stands below it. -/
def IsDestination (g : Graph) (p : Pending) (target : DeclId) : Prop :=
  ∃ u ∈ g.units, g.name? u = some p.unit ∧ g.IsAbove u target ∧
    match p.owner with
    | none => target = u
    | some owner =>
      ∃ s, g.get? target = some s ∧ s.kind = .record ∧ s.name = owner ∧ s.isComplete

theorem IsDestination.exists_slot (hg : g.WellFormed) (h : g.IsDestination p target) :
    ∃ t, g.get? target = some t ∧ t.kind = p.goal ∧ (t.kind = .record → t.isComplete) := by
  obtain ⟨u, hu, -, -, h⟩ := h
  unfold Pending.goal
  cases ho : p.owner with
  | none =>
    rw [ho] at h
    subst h
    obtain ⟨t, ht, hk, -⟩ := hg.exists_unit hu
    exact ⟨t, ht, hk, fun h => absurd (hk.symm.trans h) (by decide)⟩
  | some owner =>
    rw [ho] at h
    obtain ⟨t, ht, hk, -, hc⟩ := h
    exact ⟨t, ht, hk, fun _ => hc⟩

theorem IsDestination.live (h : g.IsDestination p target) : g.IsLive target := by
  obtain ⟨u, hu, -, ha, -⟩ := h
  exact ⟨u, hu, ha⟩

/-- The entry has no place: none or several of the units have the name of its file, or none or
several of the classes below the unit are its owner. -/
inductive Refuses (g : Graph) (p : Pending) : PipelineError → Prop
  | noUnit (hnone : ∀ u ∈ g.units, g.name? u ≠ some p.unit) : Refuses g p (.missingUnit p.unit)
  | units {ids : List DeclId} (hids : ids.Nodup)
      (hmem : ∀ u, u ∈ ids ↔ u ∈ g.units ∧ g.name? u = some p.unit) (hlen : 1 < ids.length) :
      Refuses g p (.ambiguous ("translation unit '" ++ p.unit ++ "'") ids.length)
  | noOwner {owner : String} (ho : p.owner = some owner)
      (hunit : ∃ u ∈ g.units, g.name? u = some p.unit) (hnone : ∀ i, ¬ g.IsDestination p i) :
      Refuses g p (.noMatch ("class '" ++ owner ++ "' in '" ++ p.unit ++ "'"))
  | owners {owner : String} {ids : List DeclId} (ho : p.owner = some owner) (hids : ids.Nodup)
      (hmem : ∀ i, i ∈ ids ↔ g.IsDestination p i) (hlen : 1 < ids.length) :
      Refuses g p (.ambiguous ("class '" ++ owner ++ "' in '" ++ p.unit ++ "'") ids.length)

/-! ### Destinations -/

namespace WellFormed

variable (hg : g.WellFormed)
include hg

/-- The search for the place of a pending declaration: its unit is missing, or it is the place, or
the one class that is asked for is to be found below it. -/
theorem destination_cases (p : Pending) :
    (∀ u ∈ g.units, g.name? u ≠ some p.unit) ∧
        (g.destination p).run = some (.error (.missingUnit p.unit)) ∨
      (∃ u ∈ g.units, g.name? u = some p.unit) ∧ ∃ ids : List DeclId, ids.Nodup ∧
        (∀ i, i ∈ ids ↔ g.IsDestination p i) ∧
        match p.owner with
        | none => ∃ u, ids = [u] ∧ (g.destination p).run = some (.ok u)
        | some owner => (g.destination p).run =
            some (findSingle ids ("class '" ++ owner ++ "' in '" ++ p.unit ++ "'")) := by
  obtain ⟨r, hr, hok, herr⟩ := hg.resolveUnit_spec p.unit
  have hrun : (g.destination p).run = (g.resolveUnit p.unit).run.bind (ExceptT.bindCont _) := rfl
  rw [hr, Option.bind_some] at hrun
  cases r with
  | error e =>
    obtain ⟨rfl, hnone⟩ := herr e rfl
    exact .inl ⟨hnone, hrun⟩
  | ok u =>
    obtain ⟨hu, hn⟩ := hok u rfl
    have huniq : ∀ v ∈ g.units, g.name? v = some p.unit → v = u := fun v hv hvn =>
      hg.eq_of_name hv hu (hvn.trans hn.symm)
    refine .inr ⟨⟨u, hu, hn⟩, ?_⟩
    unfold IsDestination
    cases ho : p.owner with
    | none =>
      rw [ho] at hrun
      refine ⟨[u], List.nodup_singleton u, fun i => ?_, u, rfl, hrun⟩
      rw [List.mem_singleton]
      constructor
      · rintro rfl
        exact ⟨i, hu, hn, .refl, rfl⟩
      · rintro ⟨v, hv, hvn, -, rfl⟩
        exact huniq i hv hvn
    | some owner =>
      have hbelow : (liftM (g.descendants? u) : Lookup (List Found)) = pure (g.below u) := by
        rw [hg.descendants?_eq (hg.unit_lt hu)]
        rfl
      simp only [ho, ExceptT.bindCont, hbelow, pure_bind] at hrun
      refine ⟨_, (hg.nodup_below (hg.unit_lt hu)).sublist (List.filter_sublist.map _),
        fun i => ?_, hrun⟩
      simp only [List.mem_map, List.mem_filter, Bool.and_eq_true, beq_iff_eq]
      constructor
      · rintro ⟨x, ⟨hx, ⟨hk, hname⟩, hc⟩, rfl⟩
        obtain ⟨ha, hs⟩ := (hg.mem_below (hg.unit_lt hu)).1 hx
        exact ⟨u, hu, hn, ha, x.slot, hs, hk, hname, hc⟩
      · rintro ⟨v, hv, hvn, ha, s, hs, hk, hname, hc⟩
        obtain rfl := huniq v hv hvn
        exact ⟨⟨i, s⟩, ⟨(hg.mem_below (hg.unit_lt hu)).2 ⟨ha, hs⟩, ⟨hk, hname⟩, hc⟩, rfl⟩

/-- No file has several units. -/
theorem length_units_le {ids : List DeclId} {file : String} (hids : ids.Nodup)
    (hmem : ∀ u, u ∈ ids ↔ u ∈ g.units ∧ g.name? u = some file) : ids.length ≤ 1 := by
  rcases ids with _ | ⟨u, _ | ⟨v, ids⟩⟩
  · exact Nat.zero_le 1
  · exact Nat.le_refl 1
  · obtain ⟨hu, hun⟩ := (hmem u).1 List.mem_cons_self
    obtain ⟨hv, hvn⟩ := (hmem v).1 (List.mem_cons_of_mem u List.mem_cons_self)
    obtain rfl := hg.eq_of_name hu hv (hun.trans hvn.symm)
    exact absurd List.mem_cons_self (List.nodup_cons.1 hids).1

theorem destination_of_unique (ht : ∀ i, g.IsDestination p i ↔ i = t) :
    (g.destination p).run = some (.ok t) := by
  obtain ⟨u, hu, hn, -⟩ := (ht t).2 rfl
  rcases hg.destination_cases p with ⟨hnone, -⟩ | ⟨-, ids, hids, hmem, hrun⟩
  · exact absurd hn (hnone u hu)
  have hone : ids = [t] := List.perm_singleton.1
    ((List.perm_ext_iff_of_nodup hids (List.nodup_singleton t)).2 fun i => by
      rw [hmem, ht, List.mem_singleton])
  cases ho : p.owner with
  | none =>
    rw [ho] at hrun
    obtain ⟨u, rfl, hrun⟩ := hrun
    rw [hrun, (List.cons.inj hone).1]
  | some owner =>
    rw [ho] at hrun
    rw [hrun, findSingle_eq_ok.2 hone]

theorem destination_of_refuses (he : g.Refuses p e) :
    (g.destination p).run = some (.error e) := by
  rcases hg.destination_cases p with ⟨hnone, hrun⟩ | ⟨⟨u, hu, hn⟩, ids, hids, hmem, hrun⟩
  · cases he with
    | noUnit => exact hrun
    | units hids hmem hlen => exact absurd (hg.length_units_le hids hmem) (Nat.not_le.2 hlen)
    | noOwner _ hunit =>
      obtain ⟨u, hu, hn⟩ := hunit
      exact absurd hn (hnone u hu)
    | owners _ _ hmem hlen =>
      obtain ⟨i, hi⟩ := List.exists_mem_of_length_pos (Nat.zero_lt_of_lt hlen)
      obtain ⟨u, hu, hn, -⟩ := (hmem i).1 hi
      exact absurd hn (hnone u hu)
  · cases he with
    | noUnit hnone => exact absurd hn (hnone u hu)
    | units hids hmem hlen => exact absurd (hg.length_units_le hids hmem) (Nat.not_le.2 hlen)
    | noOwner ho _ hnone =>
      obtain rfl : ids = [] := List.eq_nil_iff_forall_not_mem.2 fun i hi => hnone i ((hmem i).1 hi)
      rw [ho] at hrun
      exact hrun
    | owners ho hids' hmem' hlen =>
      have hperm := (List.perm_ext_iff_of_nodup hids hids').2 fun i => by rw [hmem, hmem']
      rw [ho] at hrun
      rw [hrun, findSingle_of_one_lt (hperm.length_eq ▸ hlen), hperm.length_eq]

/-- An entry has one place or none. -/
theorem exists_destination_or_refuses (p : Pending) :
    (∃ t, ∀ i, g.IsDestination p i ↔ i = t) ∨ ∃ e, g.Refuses p e := by
  rcases hg.destination_cases p with ⟨hnone, -⟩ | ⟨hunit, ids, hids, hmem, hrun⟩
  · exact .inr ⟨_, .noUnit hnone⟩
  cases ho : p.owner with
  | none =>
    rw [ho] at hrun
    obtain ⟨u, rfl, -⟩ := hrun
    exact .inl ⟨u, fun i => by rw [← hmem, List.mem_singleton]⟩
  | some owner =>
    rcases ids with _ | ⟨t, _ | ⟨t', ids⟩⟩
    · exact .inr ⟨_, .noOwner ho hunit fun i hi => absurd ((hmem i).2 hi) List.not_mem_nil⟩
    · exact .inl ⟨t, fun i => by rw [← hmem, List.mem_singleton]⟩
    · exact .inr ⟨_, .owners ho hids hmem (by simp)⟩

/-- A pending declaration can be moved to its destination. -/
theorem attached (hw : g.Awaits (p :: ws)) (ht : g.IsDestination p target) :
    (g.mapSlots (Slot.moved [p.decl] target)).WellFormed := by
  obtain ⟨t, hts, hk, hc⟩ := ht.exists_slot hg
  have hmem : p ∈ p :: ws := List.mem_cons_self
  obtain ⟨s, hs, hn, hr, hgoal⟩ := hw.isRoot hmem
  have htr : t.isRemoved = false := by
    cases htr : t.isRemoved with
    | false => rfl
    | true =>
      have := (hg.removed hts htr).1
      rw [hk, Pending.goal] at this
      split at this <;> exact absurd this nofun
  refine hg.moved hts htr (List.nodup_singleton _) (fun i hi => ?_) fun i hi => ?_
  · obtain rfl := List.mem_singleton.1 hi
    exact ⟨s, hs, hr, hk ▸ hgoal, hc⟩
  · obtain rfl := List.mem_singleton.1 hi
    exact hw.not_isAbove_live hg hmem ht.live

end WellFormed

end Graph

namespace Attach

variable {w : Work} {t : DeclId} {p : Pending} {e : PipelineError} {ws : List Pending}

theorem runs_attachOne_of_unique (hg : w.graph.WellFormed) (hw : w.graph.Awaits (p :: ws))
    (ht : ∀ i, w.graph.IsDestination p i ↔ i = t) :
    Runs (attachOne p) w
      (fun _ w' => w' = { w with graph := w.graph.mapSlots (Slot.moved [p.decl] t) })
      fun _ _ => False := by
  refine runs_bind (Step.runs_look (f := fun g => g.destination p) (hg.destination_of_unique ht)
    (fun u hu => ?_) nofun)
  obtain rfl := Except.ok.inj hu
  obtain ⟨s, hs, -⟩ := hw.isRoot List.mem_cons_self
  exact runs_change (hg.reparent?_eq hs (hg.isRooted.live_lt ((ht t).2 rfl).live)) rfl

theorem runs_attachOne_of_refuses (hg : w.graph.WellFormed) (he : w.graph.Refuses p e) :
    Runs (attachOne p) w (fun _ _ => False) fun e' w' => e' = e ∧ w' = w :=
  runs_bind (Step.runs_look (f := fun g => g.destination p) (hg.destination_of_refuses he) nofun
    fun _ he => ⟨(Except.error.inj he).symm, rfl⟩)

/-- Attaching one declaration moves it to its destination, or fails and changes nothing. -/
theorem runs_attachOne (hg : w.graph.WellFormed) (hw : w.graph.Awaits (p :: ws)) :
    Runs (attachOne p) w
      (fun _ w' => ∃ target, (∀ i, w.graph.IsDestination p i ↔ i = target) ∧
        w'.graph = w.graph.mapSlots (Slot.moved [p.decl] target) ∧ w'.passes = w.passes)
      fun e w' => w.graph.Refuses p e ∧ w' = w := by
  rcases hg.exists_destination_or_refuses p with ⟨t, ht⟩ | ⟨e, he⟩
  · refine (runs_attachOne_of_unique hg hw ht).mono (fun _ w' h => ?_) nofun
    subst h
    exact ⟨t, ht, rfl, rfl⟩
  · refine (runs_attachOne_of_refuses hg he).mono nofun fun e' w' h => ?_
    exact ⟨h.1 ▸ he, h.2⟩

/-- Attaching all entries, without the messages. -/
theorem runs_run_of_forM {Q : Nat → Work → Prop} {E : PipelineError → Work → Prop}
    (h : Runs (w.graph.pending.forM attachOne) { w with graph := { w.graph with pending := [] } }
      (fun _ w' => ∀ log, Q w.graph.pending.length { w' with log := log }) E) : Runs run w Q E := by
  refine runs_bind (runs_graph (runs_bind (runs_setGraph (runs_bind ?_))))
  refine h.mono (fun _ w' hQ => runs_ite (fun _ => ?_) fun _ => ?_) fun _ _ he => he
  · exact runs_bind (runs_log fun log => runs_pure (hQ log))
  · exact runs_pure (hQ w'.log)

end Attach

end Bindery
