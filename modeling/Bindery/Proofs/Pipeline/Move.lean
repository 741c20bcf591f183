import Bindery.Pipeline.Basic
import Bindery.Proofs.Pipeline.Frame

/-!
# Moves

A run is a row of moves: the rules, the trimmings, giving up the list of what is pending, and one
attachment after the other. `Move.Does` says what a move does where it succeeds. `Move.Changes`
sorts that by what becomes of the forest, and every invariant of a run comes from these four cases.
-/

namespace Bindery

open Step Relation Bindery.Graph

inductive Move where
  | rule (r : Rule)
  | trim
  /-- Gives up the list of what is pending. -/
  | clear
  | attach (p : Pending)
  deriving DecidableEq

namespace Move

def run (scope : Scope) : Move → Step Nat
  | .rule r => r.apply scope
  | .trim => Trim.run
  | .clear => do
    Step.setGraph { ← Step.graph with pending := [] }
    return 0
  | .attach p => do
    Attach.attachOne p
    return 1

def entry? : Move → Option Pending
  | .attach p => some p
  | _ => none

/-- What moves are going to attach. -/
def waiting (ms : List Move) : List Pending := ms.filterMap entry?

/-- How many namespaces a move hoisted whose result was `n`. -/
def hoists (m : Move) (n : Nat) : Nat :=
  match m with
  | .rule r => if r.action = .hoist then n else 0
  | _ => 0

variable {scope : Scope} {m : Move} {ms : List Move} {g h : Graph} {n : Nat} {r : Rule}

/-- What the move does to a graph, and its result. -/
def Does (scope : Scope) (m : Move) (g : Graph) (n : Nat) (h : Graph) : Prop :=
  match m with
  | .rule r => ∃ ids : List DeclId, ids.Nodup ∧ (∀ i, i ∈ ids ↔ r.selector.Selects g scope i) ∧
      (r.selector.isUnique → ∃ i, ids = [i]) ∧
      (ids ≠ [] → r.action.appliesTo r.selector.kind) ∧
      h = r.action.applied scope.unit g ids ∧ n = r.action.changes g ids
  | .trim => g.ItemsRenamed h
  | .clear => h = { g with pending := [] }
  | .attach p => ∃ target, (∀ i, g.IsDestination p i ↔ i = target) ∧
      h = g.mapSlots (Slot.moved [p.decl] target)

/-- What becomes of the forest: declarations stay where they are, a namespace of the main unit is
hoisted, nothing is pending any more, or a declaration is attached. -/
inductive Changes (scope : Scope) (g : Graph) : Move → Nat → Graph → Prop
  | inPlace {m : Move} {n : Nat} {f : Slot → Slot} (hm : (∃ r, m = .rule r) ∨ m = .trim)
      (hn : m.hoists n = 0) (hp : Slot.KeepsPlace f)
      (hf : ∀ i s, g.get? i = some s → s.KeepsNature (f s) ∧ s.Keeps (f s)) :
      Changes scope g m n (g.mapSlots f)
  | hoisted {r : Rule} {space : DeclId} {s : Slot} (hr : r.action = .hoist)
      (hs : g.get? space = some s) (hk : s.kind = .namespace) (hp : s.parent = some scope.unit) :
      Changes scope g (.rule r) 1 (g.hoisted space scope.unit)
  | cleared {n : Nat} : Changes scope g .clear n { g with pending := [] }
  | attached {n : Nat} {p : Pending} {target : DeclId}
      (ht : ∀ i, g.IsDestination p i ↔ i = target) :
      Changes scope g (.attach p) n (g.mapSlots (Slot.moved [p.decl] target))

/-- A graph for which the moves `ms` are still to be made. -/
structure Ready (scope : Scope) (ms : List Move) (g : Graph) : Prop where
  wellFormed : g.WellFormed
  unit_mem : scope.unit ∈ g.units
  awaits : g.Awaits (waiting ms)

theorem waiting_append (ms ms' : List Move) : waiting (ms ++ ms') = waiting ms ++ waiting ms' :=
  List.filterMap_append

theorem waiting_cons_of_rewrite (hm : (∃ r, m = .rule r) ∨ m = .trim) (ms : List Move) :
    waiting (m :: ms) = waiting ms := by
  rcases hm with ⟨r, rfl⟩ | rfl <;> rfl

/-! ### Moves that succeed -/

/-- A rule that hoists finds one namespace of the main unit, unless it finds nothing. -/
theorem Does.hoist_cases (h' : (Move.rule r).Does scope g n h)
    (ha : r.action = .hoist) : h = g ∧ n = 0 ∨ ∃ space s, g.get? space = some s ∧
      s.kind = .namespace ∧ s.parent = some scope.unit ∧ h = g.hoisted space scope.unit ∧
      n = 1 := by
  obtain ⟨ids, -, hmem, huniq, happ, rfl, rfl⟩ := h'
  cases ids with
  | nil => exact Or.inl ⟨r.action.applied_nil _ _, rfl⟩
  | cons i ids =>
    have hns : r.selector.kind = .namespace :=
      Action.eq_of_requiredKind? (by rw [ha]; rfl) (happ nofun)
    obtain ⟨space, hspace⟩ := huniq (Selector.isUnique_of_kind hns)
    obtain ⟨rfl, rfl⟩ := List.cons_eq_cons.1 hspace
    have hsel := (hmem i).1 (List.mem_singleton_self i)
    have hpar := Selector.isParent_of_selects hns hsel
    obtain ⟨s, hs, hk, -⟩ := hsel
    have hp := (isParent_iff_of_get? hs).1 hpar
    have hn : r.action.changes g [i] = 1 := by
      simp [Action.changes, Action.alters, ha, hs]
    exact Or.inr ⟨i, s, hs, hk.trans hns, hp, by rw [ha]; rfl, hn⟩

theorem Does.changes (hg : g.WellFormed) (h' : m.Does scope g n h) : m.Changes scope g n h := by
  cases m with
  | trim =>
    obtain ⟨f, hf, rfl⟩ := h'
    refine .inPlace (Or.inr rfl) rfl (fun s => ?_) fun i s hs =>
      ⟨(hf s).keepsNature, .itemRenamed (hf s)⟩
    obtain ⟨h1, h2, h3, -⟩ := (hf s).place
    exact ⟨h1, h2, h3⟩
  | clear =>
    obtain rfl : h = { g with pending := [] } := h'
    exact .cleared
  | attach p =>
    obtain ⟨target, ht, rfl⟩ := h'
    exact .attached ht
  | rule r =>
    by_cases ha : r.action = .hoist
    · rcases h'.hoist_cases ha with ⟨rfl, rfl⟩ | ⟨space, s, hs, hk, hp, rfl, rfl⟩
      · have h0 : Changes scope h (.rule r) 0 (h.mapSlots fun s => s) :=
          .inPlace (Or.inl ⟨r, rfl⟩) (ite_self 0) (fun _ => ⟨rfl, rfl, rfl⟩)
            fun _ s _ => ⟨⟨rfl, rfl, rfl, fun _ => rfl⟩, .refl s⟩
        rwa [h.mapSlots_id] at h0
      · exact .hoisted ha hs hk hp
    · obtain ⟨ids, -, hmem, -, -, rfl, rfl⟩ := h'
      rw [Action.applied_of_ne_hoist ha]
      have hku : ∀ i s, g.get? i = some s → s.id ∈ ids → s.kind ≠ .unit := by
        intro i s hs hm
        obtain ⟨s', hs', hk, -⟩ := (hmem i).1 (hg.id_eq hs ▸ hm)
        obtain rfl := Option.some.inj (hs.symm.trans hs')
        rw [hk]
        exact r.selector.kind_ne_unit
      refine .inPlace (Or.inl ⟨r, rfl⟩) (if_neg ha) (r.action.keepsPlace_change ids)
        fun i s hs => ?_
      exact ⟨r.action.keepsNature_change (hku i s hs), .change r.action (hku i s hs)⟩

theorem Changes.keeps (hg : g.WellFormed) (h' : m.Changes scope g n h) : g.Keeps h := by
  cases h' with
  | inPlace _ _ _ hf => exact .mapSlots fun i s hs => (hf i s hs).2
  | hoisted _ hs _ _ => exact .hoisted hg hs
  | cleared => exact ⟨rfl, rfl, fun {_ s} hs => ⟨s, hs, .refl s⟩⟩
  | attached _ => exact .mapSlots fun _ s _ => .of_eq rfl

theorem Changes.pending_eq (h' : m.Changes scope g n h) :
    h.pending = if m = .clear then [] else g.pending := by
  cases h' with
  | inPlace hm _ _ _ => rcases hm with ⟨r, rfl⟩ | rfl <;> rfl
  | hoisted => rfl
  | cleared => rfl
  | attached => rfl

/-- What every move leaves is ready for the moves after it. -/
theorem Changes.ready (h' : m.Changes scope g n h) (hg : Ready scope (m :: ms) g) :
    Ready scope ms h := by
  obtain ⟨hwf, hu, haw⟩ := hg
  have hunits := (h'.keeps hwf).units
  refine ⟨?_, hunits ▸ hu, ?_⟩
  · cases h' with
    | inPlace _ _ hp hf => exact hwf.mapSlots_of_keepsPlace hp fun i s hs => (hf i s hs).1
    | hoisted _ hs hk _ => exact hwf.hoisted hs hk hu
    | cleared => exact hwf.withPending []
    | attached ht => exact hwf.attached haw ((ht _).2 rfl)
  · cases h' with
    | inPlace hm _ hp hf =>
      rw [waiting_cons_of_rewrite hm] at haw
      exact haw.mapSlots_of_keepsPlace hp fun i s hs => (hf i s hs).1
    | hoisted _ hs _ hp => exact haw.hoisted hwf hs (by rw [hp]; exact nofun)
    | cleared => exact haw.withPending []
    | attached _ => exact haw.moved hwf

/-! ### Moves that are made -/

/-- Every move comes to an end, and where it fails the graph is as it was. -/
theorem Ready.runs {w : Work} (hw : Ready scope (m :: ms) w.graph) :
    Runs (m.run scope) w
      (fun n w' => m.Does scope w.graph n w'.graph ∧ w'.passes = w.passes)
      fun _ w' => w'.graph = w.graph ∧ w'.passes = w.passes := by
  cases m with
  | rule r =>
    refine (r.runs_apply_of_mem_units hw.wellFormed.isRooted hw.unit_mem).mono
      (fun n w' h => ?_) fun _ _ he => he
    obtain ⟨ids, h1, h2, h3, h4, h5, h6, h7⟩ := h
    exact ⟨⟨ids, h1, h2, h3, h4, h5, h6⟩, h7⟩
  | trim => exact Trim.runs_run hw.wellFormed.isRooted
  | clear => exact runs_bind (runs_graph (runs_bind (runs_setGraph (runs_pure ⟨rfl, rfl⟩))))
  | attach p =>
    refine runs_bind ((Attach.runs_attachOne hw.wellFormed hw.awaits).mono (fun _ w' h => ?_)
      fun _ w' he => ⟨congrArg Work.graph he.2, congrArg Work.passes he.2⟩)
    obtain ⟨target, ht, hw', hpass⟩ := h
    exact runs_pure ⟨⟨target, ht, hw'⟩, hpass⟩

end Move

end Bindery
