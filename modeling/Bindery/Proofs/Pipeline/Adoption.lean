import Bindery.Proofs.Dump.Contents
import Bindery.Proofs.Pipeline.Attachment

/-!
# Where attaching puts each entry

The place of an entry is sought in the graph that the entries before it have left. `Graph.Adopts`
goes through the entries so, and `Graph.adopted` is what becomes of the graph in the end: every
declaration keeps its children, and behind them it has those that were for it, in the order of the
entries.
-/

namespace Bindery

open Step Bindery.Graph

/-- The slot after each of the declarations became the last child of the target beside it. -/
def Slot.adopted (xs : List (Pending × DeclId)) (s : Slot) : Slot :=
  { s with
    parent := ((xs.find? (·.1.decl == s.id)).map Prod.snd).or s.parent
    children := s.children ++ (xs.filter (·.2 == s.id)).map (·.1.decl) }

@[simp] theorem Slot.adopted_nil (s : Slot) : s.adopted [] = s := by
  simp [adopted]

theorem Slot.adopted_moved {s : Slot} {p : Pending} {t : DeclId} {xs : List (Pending × DeclId)}
    (hs : p.decl ∉ s.children) (hxs : p.decl ∉ xs.map (·.1.decl)) :
    (s.moved [p.decl] t).adopted xs = s.adopted ((p, t) :: xs) := by
  have hfilter : s.children.filter (· ∉ [p.decl]) = s.children := by
    rw [List.filter_eq_self]
    intro c hc
    rw [decide_eq_true_eq, List.mem_singleton]
    rintro rfl
    exact hs hc
  have hparent : ((xs.find? (·.1.decl == s.id)).map Prod.snd).or
        (if s.id ∈ [p.decl] then some t else s.parent) =
      ((((p, t) :: xs).find? (·.1.decl == s.id)).map Prod.snd).or s.parent := by
    by_cases hid : p.decl = s.id
    · have hnone : xs.find? (·.1.decl == s.id) = none := by
        rw [List.find?_eq_none]
        intro x hx hxd
        exact hxs (List.mem_map.2 ⟨x, hx, (beq_iff_eq.1 hxd).trans hid.symm⟩)
      simp [hnone, hid]
    · simp [hid, Ne.symm hid]
  have hchildren : (s.children.filter (· ∉ [p.decl]) ++ if s.id = t then [p.decl] else []) ++
        (xs.filter (·.2 == s.id)).map (·.1.decl) =
      s.children ++ (((p, t) :: xs).filter (·.2 == s.id)).map (·.1.decl) := by
    rw [hfilter, List.append_assoc]
    by_cases ht : s.id = t
    · simp [ht]
    · simp [ht, Ne.symm ht]
  simp only [moved, adopted, hparent, hchildren]

namespace Graph

variable {g k : Graph} {t : DeclId} {p : Pending} {e : PipelineError} {ws : List Pending}
  {xs : List (Pending × DeclId)}

/-- The graph after each of the declarations became the last child of the target beside it. -/
def adopted (g : Graph) (xs : List (Pending × DeclId)) : Graph := g.mapSlots (Slot.adopted xs)

/-- Each of the entries goes below the target beside it, which is its only place in the graph that
the entries before it have left. -/
inductive Adopts : Graph → List (Pending × DeclId) → Graph → Prop
  | nil (g : Graph) : Adopts g [] g
  | cons {g h : Graph} {p : Pending} {t : DeclId} {xs : List (Pending × DeclId)}
      (ht : ∀ i, g.IsDestination p i ↔ i = t)
      (hxs : Adopts (g.mapSlots (Slot.moved [p.decl] t)) xs h) : Adopts g ((p, t) :: xs) h

/-- The declarations that wait are not below anything, so that nothing is lost where they leave. -/
theorem adopted_cons (hg : g.WellFormed) (haw : g.Awaits (p :: (xs.map Prod.fst ++ ws))) :
    (g.mapSlots (Slot.moved [p.decl] t)).adopted xs = g.adopted ((p, t) :: xs) := by
  rw [adopted, adopted, mapSlots_mapSlots]
  refine mapSlots_congr fun i s hs => Slot.adopted_moved (fun hc => ?_) ?_
  · obtain ⟨u, hu, hn, -⟩ := haw.isRoot List.mem_cons_self
    have hp := (isParent_iff_of_get? hu).1 ((hg.mem_children hs p.decl).1 hc)
    exact absurd (hn.symm.trans hp) nofun
  · have hnot := (List.nodup_cons.1 haw.nodup).1
    rw [List.map_append, List.map_map] at hnot
    exact fun hx => hnot (List.mem_append_left _ hx)

theorem Adopts.eq_adopted (hg : g.WellFormed) (haw : g.Awaits (xs.map Prod.fst ++ ws))
    (h : g.Adopts xs k) : k = g.adopted xs := by
  induction h with
  | nil g => exact (mapSlots_eq_self fun _ s _ => s.adopted_nil).symm
  | cons ht _ ih =>
    rw [ih (hg.attached haw ((ht _).2 rfl)) (haw.moved hg), adopted_cons hg haw]

/-- The entries have places up to the first one that has none. -/
theorem WellFormed.exists_adopts : ∀ (ps : List Pending) {g : Graph}, g.WellFormed → g.Awaits ps →
    ∃ xs k, g.Adopts xs k ∧ (xs.map Prod.fst = ps ∨
      ∃ p left e, ps = xs.map Prod.fst ++ p :: left ∧ k.Refuses p e)
  | [], g, _, _ => ⟨[], g, .nil g, .inl rfl⟩
  | p :: ps, g, hg, haw => by
    rcases hg.exists_destination_or_refuses p with ⟨t, ht⟩ | ⟨e, he⟩
    · obtain ⟨xs, k, hxs, h⟩ := exists_adopts ps (hg.attached haw ((ht t).2 rfl)) (haw.moved hg)
      refine ⟨(p, t) :: xs, k, .cons ht hxs, h.imp (congrArg (p :: ·)) ?_⟩
      rintro ⟨q, left, e, rfl, he⟩
      exact ⟨q, left, e, rfl, he⟩
    · exact ⟨[], g, .nil g, .inr ⟨p, ps, e, rfl, he⟩⟩

end Graph

namespace Attach

variable {w : Work} {k : Graph} {t : DeclId} {p : Pending} {e : PipelineError}
  {left : List Pending} {xs : List (Pending × DeclId)}

/-- The program goes through the entries as `Adopts` does. -/
theorem runs_forM_of_adopts (hxs : w.graph.Adopts xs k) (hg : w.graph.WellFormed)
    (haw : w.graph.Awaits (xs.map Prod.fst ++ left)) {Q : Unit → Work → Prop}
    {E : PipelineError → Work → Prop}
    (hQ : ∀ w', w'.graph = k → k.WellFormed → k.Awaits left → Runs (left.forM attachOne) w' Q E) :
    Runs ((xs.map Prod.fst ++ left).forM attachOne) w Q E := by
  generalize hg₀ : w.graph = g at hxs hg haw
  induction hxs generalizing w with
  | nil g => exact hQ w hg₀ hg haw
  | cons ht hxs ih =>
    subst hg₀
    refine runs_bind ((runs_attachOne_of_unique hg haw ht).mono (fun _ w' h => ?_) nofun)
    exact ih hQ (congrArg Work.graph h) (hg.attached haw ((ht _).2 rfl)) (haw.moved hg)

section

variable (hg : w.graph.WellFormed) (haw : w.graph.Awaits w.graph.pending)
  (hxs : Adopts { w.graph with pending := [] } xs k)
include hg haw hxs

theorem runs_run_of_adopts (hsplit : w.graph.pending = xs.map Prod.fst) :
    Runs run w (fun n w' => n = w.graph.pending.length ∧ w'.graph = k) fun _ _ => False := by
  have haw' : Awaits { w.graph with pending := [] } (xs.map Prod.fst ++ []) := by
    rw [List.append_nil, ← hsplit]
    exact haw.withPending []
  refine runs_run_of_forM ?_
  rw [hsplit, ← List.append_nil (xs.map Prod.fst)]
  exact runs_forM_of_adopts hxs (hg.withPending []) haw' fun w' hw' _ _ =>
    runs_pure fun _ => ⟨rfl, hw'⟩

theorem runs_run_of_refuses (hsplit : w.graph.pending = xs.map Prod.fst ++ p :: left)
    (he : k.Refuses p e) :
    Runs run w (fun _ _ => False) fun e' w' => e' = e ∧ w'.graph = k := by
  have haw' := haw.withPending []
  refine runs_run_of_forM ?_
  rw [hsplit] at haw' ⊢
  refine runs_forM_of_adopts hxs (hg.withPending []) haw' fun w' hw' hk _ => ?_
  subst hw'
  exact runs_bind ((runs_attachOne_of_refuses hk he).mono nofun fun _ _ h =>
    ⟨h.1, congrArg Work.graph h.2⟩)

theorem eq_error_of_refuses {r : Except PipelineError Nat} {w' : Work}
    (hrun : run w = some (r, w')) (hsplit : w.graph.pending = xs.map Prod.fst ++ p :: left)
    (he : k.Refuses p e) : r = .error e ∧ w'.graph = k := by
  obtain ⟨r', v, hrun', hok, herr⟩ := runs_iff.1 (runs_run_of_refuses hg haw hxs hsplit he)
  obtain ⟨rfl, rfl⟩ := Prod.mk.inj (Option.some.inj (hrun.symm.trans hrun'))
  cases r with
  | ok n => exact (hok n rfl).elim
  | error e' =>
    obtain ⟨rfl, hk⟩ := herr e' rfl
    exact ⟨rfl, hk⟩

end

/-- What waits after any passes is what the generated blocks said, in their order. Attaching has a
result and leaves nothing that waits. If it succeeds, every entry went to its only place in the
graph that the entries before it left, behind all children that were there, and nothing else
changed. It fails just if an entry has no place then, with the error of the first such entry. -/
theorem attaches_in_order {origin text : String} {g : Graph}
    (hload : Graph.ofText origin text = .ok g) (hpassed : Passed g w.graph) :
    w.graph.pending = g.pending ∧
    (∃ d, Dump.ofText text.toList = .ok d ∧
      g.Stores (d.flatMap Dump.Block.units) (d.flatMap Dump.Block.waiting)) ∧
    ∃ r w', run w = some (r, w') ∧ w'.graph.pending = [] ∧
      (∀ n, r = .ok n → n = w.graph.pending.length ∧
        ∃ xs, xs.map Prod.fst = w.graph.pending ∧
          Adopts { w.graph with pending := [] } xs w'.graph ∧
          w'.graph = { w.graph.adopted xs with pending := [] }) ∧
      ∀ e, r = .error e ↔ ∃ xs p left k, w.graph.pending = xs.map Prod.fst ++ p :: left ∧
        Adopts { w.graph with pending := [] } xs k ∧ k.Refuses p e := by
  have hloaded := Graph.isLoaded_ofText hload
  obtain ⟨hg, haw⟩ := hpassed.awaits hloaded.toWellFormed hloaded.awaits
  refine ⟨hpassed.pending_eq hloaded.toWellFormed hloaded.awaits, Graph.stores_ofText hload, ?_⟩
  have haw₀ := haw.withPending []
  obtain ⟨xs, k, hxs, hend⟩ := WellFormed.exists_adopts w.graph.pending (hg.withPending []) haw₀
  have hk : k = { w.graph.adopted xs with pending := [] } := by
    rcases hend with hdone | ⟨p, left, e, hsplit, -⟩
    · have haw' : Awaits { w.graph with pending := [] } (xs.map Prod.fst ++ []) := by
        rwa [hdone, List.append_nil]
      exact hxs.eq_adopted (hg.withPending []) haw'
    · exact hxs.eq_adopted (hg.withPending []) (hsplit ▸ haw₀)
  rcases hend with hdone | ⟨p, left, e, hsplit, he⟩
  · obtain ⟨r, w', hrun, hok, herr⟩ := runs_iff.1 (runs_run_of_adopts hg haw hxs hdone.symm)
    cases r with
    | error e => exact (herr e rfl).elim
    | ok n =>
      obtain ⟨rfl, rfl⟩ := hok n rfl
      refine ⟨_, w', hrun, hk ▸ rfl, fun n hn => ⟨(Except.ok.inj hn).symm, xs, hdone, hxs, hk⟩, ?_⟩
      refine fun e => ⟨nofun, ?_⟩
      rintro ⟨ys, p, left, k, hsplit, hys, he⟩
      exact (eq_error_of_refuses hg haw hys hrun hsplit he).1
  · obtain ⟨r, w', hrun, -⟩ := runs_iff.1 (runs_run_of_refuses hg haw hxs hsplit he)
    obtain ⟨rfl, rfl⟩ := eq_error_of_refuses hg haw hxs hrun hsplit he
    refine ⟨_, w', hrun, hk ▸ rfl, nofun, fun e' => ⟨fun he' => ?_, ?_⟩⟩
    · obtain rfl := Except.error.inj he'
      exact ⟨xs, p, left, _, hsplit, hxs, he⟩
    · rintro ⟨ys, q, left', k, hsplit', hys, he'⟩
      exact (eq_error_of_refuses hg haw hys hrun hsplit' he').1

/-- An extension goes to the one class of the name that is there at its turn, although another one
is attached behind it. -/
theorem attaches_in_order_between :
    ∃ g, Graph.ofText "dump" "unit \"a\" \x7b \x7d generated \"a\" \x7b class c \x7b \x7d
        extend c \x7b field f: int; \x7d class c \x7b \x7d \x7d" = .ok g ∧
      ∃ w xs, run { graph := g } = some (.ok 3, w) ∧
        xs.map Prod.fst = [⟨"a", none, 1⟩, ⟨"a", some "c", 2⟩, ⟨"a", none, 3⟩] ∧
        Adopts { g with pending := [] } xs w.graph ∧
        (w.graph.get? 0).map Slot.children = some [1, 3] ∧
        (w.graph.get? 1).map Slot.children = some [2] := by
  refine Graph.exists_ofText (P := fun g => decide
    (g.pending = [⟨"a", none, 1⟩, ⟨"a", some "c", 2⟩, ⟨"a", none, 3⟩] ∧
      (run { graph := g }).map (fun r => (r.1.toOption, (r.2.graph.get? 0).map Slot.children,
        (r.2.graph.get? 1).map Slot.children)) = some (some 3, some [1, 3], some [2])))
    (by decide +kernel) fun g hload h => ?_
  obtain ⟨-, -, r, w, hrun, -, hok, -⟩ := attaches_in_order (w := { graph := g }) hload .none
  obtain ⟨hpending, h⟩ := of_decide_eq_true h
  rw [hrun, Option.map_some, Option.some.injEq, Prod.mk.injEq, Prod.mk.injEq] at h
  obtain ⟨hr, hunit, hclass⟩ := h
  cases r with
  | error e => cases hr
  | ok n =>
    obtain rfl : n = 3 := Option.some.inj hr
    obtain ⟨-, xs, hxs, hadopts, -⟩ := hok 3 rfl
    exact ⟨w, xs, hrun, hxs.trans hpending, hadopts, hunit, hclass⟩

end Attach

end Bindery
