import Bindery.Proofs.Dump.Load
import Bindery.Proofs.Pipeline.Trace

/-!
# What attaching leaves

Attaching gives up the list of what is pending before it starts, and ends at the first entry without
a place. The entries before that one are attached then; that one and those after it are in no list
any more, and their declarations stand below nothing.
-/

namespace Bindery

open Step Relation Move Bindery.Graph

/-- `h` comes from `g` by passes, with any rules and for any units, whether they succeed or fail. -/
inductive Passed (g : Graph) : Graph → Prop
  | none : Passed g g
  | pass {w w' : Work} {r : Except PipelineError Nat} {scope : Scope} {p : Pass}
      (hw : Passed g w.graph) (hunit : scope.unit ∈ w.graph.units)
      (hrun : p.run scope w = some (r, w')) : Passed g w'.graph

namespace Graph

variable {g : Graph} {i target u x : DeclId} {p q : Pending} {ws : List Pending}

/-- The declaration of the entry stands below the unit that the entry names. -/
def IsAttached (g : Graph) (p : Pending) : Prop :=
  ∃ u ∈ g.units, g.name? u = some p.unit ∧ g.IsAbove u p.decl

/-- The declaration of the entry is there, but below nothing, and the entry is in no list. -/
def IsAdrift (g : Graph) (p : Pending) : Prop :=
  (∃ s, g.get? p.decl = some s ∧ s.parent = none ∧ s.isRemoved = false) ∧
    ¬ g.IsLive p.decl ∧ p ∉ g.pending

/-- A way down that does not lead by what is moved stays as it is. -/
theorem IsForest.isAbove_moved (hg : g.IsForest) (ha : g.IsAbove u i) (hx : ¬ g.IsAbove x i) :
    (g.mapSlots (Slot.moved [x] target)).IsAbove u i := by
  induction ha with
  | refl => exact .refl
  | tail _ hp ih =>
    refine (ih fun h => hx (h.tail hp)).tail (hg.isParent_moved.2 ?_)
    rw [if_neg]
    · exact hp
    · rw [List.mem_singleton]
      rintro rfl
      exact hx .refl

theorem WellFormed.isAttached_moved (hg : g.WellFormed) (haw : g.Awaits (p :: ws))
    (hq : g.IsAttached q) : (g.mapSlots (Slot.moved [p.decl] target)).IsAttached q := by
  obtain ⟨u, hu, hn, ha⟩ := hq
  refine ⟨u, hu, ?_, hg.isAbove_moved ha (haw.not_isAbove_live hg List.mem_cons_self ⟨u, hu, ha⟩)⟩
  rw [name?, get?_mapSlots, Option.map_map]
  exact hn

theorem WellFormed.isAttached_of_moved (hg : g.WellFormed) (haw : g.Awaits (p :: ws))
    (ht : g.IsDestination p target) :
    (g.mapSlots (Slot.moved [p.decl] target)).IsAttached p := by
  obtain ⟨u, hu, hn, ha, -⟩ := ht
  have hna := haw.not_isAbove_live hg List.mem_cons_self ⟨u, hu, ha⟩
  obtain ⟨s, hs, -⟩ := haw.isRoot List.mem_cons_self
  refine ⟨u, hu, ?_, (hg.isAbove_moved ha hna).tail (hg.isParent_moved.2 ?_)⟩
  · rw [name?, get?_mapSlots, Option.map_map]
    exact hn
  · rw [if_pos (List.mem_singleton_self _)]
    exact ⟨lt_size_of_get? hs, rfl⟩

theorem Awaits.isAdrift (haw : g.Awaits ws) (hg : g.WellFormed) (hpending : g.pending = [])
    (hp : p ∈ ws) : g.IsAdrift p := by
  obtain ⟨s, hs, hn, hr, -⟩ := haw.isRoot hp
  exact ⟨⟨s, hs, hn, hr⟩, haw.not_live hg hp, hpending ▸ List.not_mem_nil⟩

end Graph

/-! ### Passes leave alone what is pending -/

theorem Pass.entry?_of_mem_moves {p : Pass} {m : Move} (hm : m ∈ p.moves) :
    m ≠ .clear ∧ m.entry? = none := by
  cases p with
  | table name phase rules =>
    obtain ⟨r, -, rfl⟩ := List.mem_map.1 hm
    exact ⟨nofun, rfl⟩
  | trim =>
    obtain rfl := List.mem_singleton.1 hm
    exact ⟨nofun, rfl⟩

section

variable {g h : Graph} {w w' : Work} {scope : Scope} {p : Pass} {r : Except PipelineError Nat}

/-- A pass makes some first ones of its moves, all of them if it succeeds. -/
theorem Pass.exists_trace_of_run {rest : List Move} (hw : Ready scope (p.moves ++ rest) w.graph)
    (hrun : p.run scope w = some (r, w')) :
    ∃ front back ns, p.moves = front ++ back ∧ Trace scope front w.graph ns w'.graph := by
  obtain ⟨r', v, hv, hok, herr⟩ := runs_iff.1 (p.follows_run w rest hw)
  obtain ⟨rfl, rfl⟩ := Prod.mk.inj (Option.some.inj (hrun.symm.trans hv))
  cases r with
  | ok n =>
    obtain ⟨-, ⟨ns, ht⟩, -⟩ := hok n rfl
    exact ⟨p.moves, [], ns, (List.append_nil _).symm, ht⟩
  | error e => exact (herr e rfl).exists_trace hw

theorem Pass.awaits_of_run (hg : w.graph.WellFormed) (haw : w.graph.Awaits w.graph.pending)
    (hunit : scope.unit ∈ w.graph.units) (hrun : p.run scope w = some (r, w')) :
    w'.graph.WellFormed ∧ w'.graph.Awaits w'.graph.pending ∧
      w'.graph.pending = w.graph.pending := by
  have hwaiting : ∀ ms : List Move, (∀ m ∈ ms, m ∈ p.moves) →
      waiting (ms ++ w.graph.pending.map .attach) = w.graph.pending := by
    intro ms hms
    have hnone : waiting ms = [] :=
      List.filterMap_eq_nil_iff.2 fun m hm => (Pass.entry?_of_mem_moves (hms m hm)).2
    have hall : waiting (w.graph.pending.map .attach) = w.graph.pending := by
      rw [waiting, List.filterMap_map]
      exact List.filterMap_some
    rw [waiting_append, hnone, hall, List.nil_append]
  have hready : Ready scope (p.moves ++ w.graph.pending.map .attach) w.graph :=
    ⟨hg, hunit, (hwaiting p.moves fun _ hm => hm).symm ▸ haw⟩
  obtain ⟨front, back, ns, hsplit, ht⟩ := Pass.exists_trace_of_run hready hrun
  rw [hsplit, List.append_assoc] at hready
  have hback : ∀ m ∈ back, m ∈ p.moves := fun m hm => hsplit ▸ List.mem_append_right front hm
  have hclear : Move.clear ∉ front := fun hm =>
    (Pass.entry?_of_mem_moves (hsplit ▸ List.mem_append_left back hm)).1 rfl
  have hready' := ht.ready hready
  have hpending : w'.graph.pending = w.graph.pending := by
    rw [ht.pending_eq hready, if_neg hclear]
  refine ⟨hready'.wellFormed, ?_, hpending⟩
  rw [hpending, ← hwaiting back hback]
  exact hready'.awaits

theorem Passed.awaits (hp : Passed g h) (hg : g.WellFormed) (haw : g.Awaits g.pending) :
    h.WellFormed ∧ h.Awaits h.pending := by
  induction hp with
  | none => exact ⟨hg, haw⟩
  | pass _ hunit hrun ih =>
    obtain ⟨hg', haw', -⟩ := Pass.awaits_of_run ih.1 ih.2 hunit hrun
    exact ⟨hg', haw'⟩

theorem Passed.pending_eq (hp : Passed g h) (hg : g.WellFormed) (haw : g.Awaits g.pending) :
    h.pending = g.pending := by
  induction hp with
  | none => rfl
  | pass hp hunit hrun ih =>
    obtain ⟨hwf, hwaits⟩ := hp.awaits hg haw
    exact (Pass.awaits_of_run hwf hwaits hunit hrun).2.2.trans ih

end

namespace Attach

variable {w : Work} {p : Pending} {done left : List Pending}

/-- What holds while `done` is attached and `left` is still to come. -/
structure Midway (done left : List Pending) (w : Work) : Prop where
  wellFormed : w.graph.WellFormed
  awaits : w.graph.Awaits left
  pending : w.graph.pending = []
  attached : ∀ q ∈ done, w.graph.IsAttached q

theorem Midway.runs_attachOne (h : Midway done (p :: left) w) :
    Runs (attachOne p) w (fun _ w' => Midway (done ++ [p]) left w') fun e w' =>
      Midway done (p :: left) w' ∧ (w'.graph.destination p).run = some (.error e) := by
  have hg := h.wellFormed
  refine (Attach.runs_attachOne hg h.awaits).mono ?_ ?_
  · rintro - w' ⟨target, ht, hgraph, -⟩
    have hdest := (ht target).2 rfl
    refine ⟨hgraph ▸ hg.attached h.awaits hdest, hgraph ▸ h.awaits.moved hg, ?_, fun q hq => ?_⟩
    · rw [hgraph]
      exact h.pending
    · rw [hgraph]
      rcases List.mem_append.1 hq with hq | hq
      · exact hg.isAttached_moved h.awaits (h.attached q hq)
      · rw [List.mem_singleton.1 hq]
        exact hg.isAttached_of_moved h.awaits hdest
  · rintro e w' ⟨he, rfl⟩
    exact ⟨h, hg.destination_of_refuses he⟩

theorem runs_run_of_awaits (hg : w.graph.WellFormed) (haw : w.graph.Awaits w.graph.pending) :
    Runs run w
      (fun n w' => Midway w.graph.pending [] w' ∧ n = w.graph.pending.length)
      fun e w' => ∃ done p left, w.graph.pending = done ++ p :: left ∧
        Midway done (p :: left) w' ∧ (w'.graph.destination p).run = some (.error e) := by
  let I (done left : List Pending) (v : Work) : Prop :=
    done ++ left = w.graph.pending ∧ Midway done left v
  have hstart : I [] w.graph.pending { w with graph := { w.graph with pending := [] } } :=
    ⟨rfl, hg.withPending [], haw.withPending [], rfl, nofun⟩
  have hstep : ∀ done p left v, I done (p :: left) v → Runs (attachOne p) v
      (fun _ v' => I (done ++ [p]) left v') fun e v' =>
        ∃ done p left, w.graph.pending = done ++ p :: left ∧ Midway done (p :: left) v' ∧
          (v'.graph.destination p).run = some (.error e) := by
    rintro done p left v ⟨hsplit, hmid⟩
    exact hmid.runs_attachOne.mono (fun _ v' h => ⟨by simpa using hsplit, h⟩)
      fun e v' h => ⟨done, p, left, hsplit.symm, h⟩
  refine runs_run_of_forM ?_
  refine (runs_forM I hstep w.graph.pending [] _ hstart).mono (fun _ v h _ => ?_) fun _ _ he => he
  exact ⟨⟨h.2.1, h.2.2, h.2.3, h.2.4⟩, rfl⟩

/-- Attaching what is pending after any passes. If it succeeds, all of it is attached; if it fails,
what comes before the first entry without a place. Nothing is pending afterwards. -/
theorem attached_or_adrift {origin text : String} {g : Graph}
    (hload : Graph.ofText origin text = .ok g) (hpassed : Passed g w.graph) :
    ∃ r w', run w = some (r, w') ∧ w'.graph.pending = [] ∧
      ∃ done left, w.graph.pending = done ++ left ∧ (∀ p ∈ done, w'.graph.IsAttached p) ∧
        (∀ p ∈ left, w'.graph.IsAdrift p) ∧
        match r with
        | .ok n => left = [] ∧ n = w.graph.pending.length
        | .error e => ∃ p rest, left = p :: rest ∧
            (w'.graph.destination p).run = some (.error e) := by
  have hg := Graph.isLoaded_ofText hload
  obtain ⟨hwf, haw⟩ := hpassed.awaits hg.toWellFormed hg.awaits
  obtain ⟨r, w', hrun, hok, herr⟩ := runs_iff.1 (runs_run_of_awaits hwf haw)
  refine ⟨r, w', hrun, ?_⟩
  cases r with
  | ok n =>
    obtain ⟨h, hn⟩ := hok n rfl
    exact ⟨h.pending, w.graph.pending, [], (List.append_nil _).symm, h.attached, nofun, rfl, hn⟩
  | error e =>
    obtain ⟨done, p, left, hsplit, h, hdest⟩ := herr e rfl
    exact ⟨h.pending, done, p :: left, hsplit, h.attached,
      fun q hq => h.awaits.isAdrift h.wellFormed h.pending hq, p, left, rfl, hdest⟩

/-- Whether attaching fails behind the pass, with `p` and `q` pending before it and a place for `p`
after it. -/
def failsBehind (pass : Pass) (p q : Pending) (g : Graph) : Bool :=
  match pass.run ⟨0⟩ { graph := g } with
  | some (_, w) =>
    match run w with
    | some (.error _, w') => g.units == [0] && w.graph.pending == [p, q] &&
        (w'.graph.destination p).run.any Except.isOk
    | _ => false
  | none => false

theorem exists_of_failsBehind {g : Graph} {pass : Pass} {q : Pending}
    (h : failsBehind pass p q g) :
    ∃ w w' e, Passed g w.graph ∧ w.graph.pending = [p, q] ∧ run w = some (.error e, w') ∧
      (w'.graph.destination p).run.any Except.isOk := by
  unfold failsBehind at h
  split at h
  · next r w hpass =>
    split at h
    · next e w' hrun =>
      obtain ⟨⟨hunits, hpending⟩, hdest⟩ : (g.units = [0] ∧ w.graph.pending = [p, q]) ∧
          (w'.graph.destination p).run.any Except.isOk := by simpa using h
      have hunit : (⟨0⟩ : Scope).unit ∈ g.units := hunits ▸ List.mem_singleton_self 0
      exact ⟨w, w', e, .pass .none hunit hpass, hpending, hrun, hdest⟩
    · nomatch h
  · nomatch h

theorem attached_or_adrift_second :
    ∃ g, Graph.ofText "dump" "unit \"a\" \x7b \x7d generated \"a\" \x7b fn f(); \x7d
        generated \"b\" \x7b fn g(); \x7d" = .ok g ∧
      ∃ w w' e p q, Passed g w.graph ∧ w.graph.pending = [p, q] ∧
        run w = some (.error e, w') ∧ w'.graph.pending = [] ∧ w'.graph.IsAttached p ∧
        w'.graph.IsAdrift q := by
  refine Graph.exists_ofText (P := failsBehind .trim ⟨"a", none, 1⟩ ⟨"b", none, 2⟩)
    (by decide +kernel) fun g hload hfails => ?_
  obtain ⟨w, w', e, hpassed, hpending, hrun, hdest⟩ := exists_of_failsBehind hfails
  obtain ⟨r, w'', hrun', hnone, done, left, hsplit, hdone, hleft, h⟩ :=
    attached_or_adrift hload hpassed
  obtain ⟨rfl, rfl⟩ := Prod.mk.inj (Option.some.inj (hrun.symm.trans hrun'))
  obtain ⟨x, rest, rfl, herr⟩ := h
  rw [hpending] at hsplit
  cases done with
  | nil =>
    obtain ⟨rfl, -⟩ := List.cons.inj hsplit
    rw [herr] at hdest
    nomatch hdest
  | cons d done =>
    obtain ⟨rfl, hrest⟩ := List.cons.inj hsplit
    replace hrest : [⟨"b", none, 2⟩] = done ++ x :: rest := hrest
    rcases List.singleton_eq_append_iff.1 hrest with ⟨-, hx⟩ | ⟨-, hx⟩
    · obtain ⟨rfl, -⟩ := List.cons.inj hx
      exact ⟨w, w', e, _, _, hpassed, hpending, hrun, hnone, hdone _ List.mem_cons_self,
        hleft _ List.mem_cons_self⟩
    · nomatch hx

/-- A declaration for a unit that is not there is in no list after it was to be attached. -/
theorem adrift_without_unit :
    ∃ g, Graph.ofText "dump" "unit \"imgui.h\" \x7b \x7d\ngenerated \"other.h\" \x7b fn f(); \x7d"
        = .ok g ∧
      ∃ r w p, run { graph := g } = some (r, w) ∧ p ∈ g.pending ∧ ¬ w.graph.IsAttached p ∧
        p ∉ w.graph.pending := by
  refine Graph.exists_ofText (P := fun g => match run { graph := g } with
    | some (.error _, _) => true
    | _ => false) (by decide +kernel) fun g hload hfails => ?_
  have hg := Graph.isLoaded_ofText hload
  obtain ⟨r, w, hrun, -, herr⟩ :=
    runs_iff.1 (runs_run_of_awaits (w := { graph := g }) hg.toWellFormed hg.awaits)
  rw [hrun] at hfails
  cases r with
  | ok n => nomatch hfails
  | error e =>
    obtain ⟨done, p, left, hsplit, h, -⟩ := herr e rfl
    obtain ⟨-, hlive, hpending⟩ :=
      h.awaits.isAdrift h.wellFormed h.pending (List.mem_cons_self (a := p))
    replace hsplit : g.pending = done ++ p :: left := hsplit
    refine ⟨.error e, w, p, hrun, by simp [hsplit], ?_, hpending⟩
    rintro ⟨u, hu, -, ha⟩
    exact hlive ⟨u, hu, ha⟩

end Attach

end Bindery
