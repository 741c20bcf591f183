import Bindery.Proofs.Dump.Blocks
import Bindery.Proofs.Dump.Load
import Mathlib.Algebra.GroupWithZero.Nat

/-!
# What the graph of a dump says

`declared?` is the tree of the declarations at and below a slot. In the graph of a dump the units
are the trees of the unit blocks and what waits are the trees of the generated blocks, in the order
of the dump, and there is nothing else.
-/

namespace Bindery

open Dump

namespace Dump

/-- The file of a unit block. -/
def Block.files : Block → List String
  | .unit file _ => [file]
  | .generated _ _ => []

/-- The tree of a unit block. -/
def Block.units : Block → List (Tree Declaration)
  | .unit file entries => [.node { kind := .unit, name := file } (Entry.trees entries)]
  | .generated _ _ => []

/-- The trees of a generated block, each with the file and the class to which it goes. -/
def Block.waiting : Block → List (String × Option String × Tree Declaration)
  | .unit _ _ => []
  | .generated file products => (products.flatMap Product.trees).map fun x => (file, x)

end Dump

namespace Graph

variable {g h : Graph} {i : DeclId} {s : Slot} {t : Tree Declaration}
  {us : List (Tree Declaration)} {ws : List (String × Option String × Tree Declaration)}

/-- The tree of the declarations at and below `i`. -/
def declared? (g : Graph) (i : DeclId) : Option (Tree Declaration) :=
  (g.subtree? i).map (Tree.map fun x => x.slot.toDeclaration)

/-- The answer of `declared?` where there is one. -/
def declaredAt (g : Graph) (i : DeclId) : Tree Declaration :=
  (g.treeAt i).map fun x => x.slot.toDeclaration

namespace IsForest

theorem declared?_eq (hg : g.IsForest) (hi : i < g.size) :
    g.declared? i = some (g.declaredAt i) := by
  rw [declared?, hg.subtree?_eq hi, Option.map_some, declaredAt]

theorem declaredAt_eq (hg : g.IsForest) (hs : g.get? i = some s) :
    g.declaredAt i = .node s.toDeclaration (s.children.map g.declaredAt) := by
  rw [declaredAt, hg.treeAt_eq hs, Tree.map, Tree.mapList_eq_map, List.map_map]
  rfl

/-- Slots that are added later do not matter. -/
theorem declaredAt_eq_of_get? (hg : g.IsForest) (hh : h.IsForest)
    (hext : ∀ {i s}, g.get? i = some s → h.get? i = some s) (hi : i < g.size) :
    h.declaredAt i = g.declaredAt i := by
  induction i using hg.induction_up with
  | step i ih =>
    obtain ⟨s, hs⟩ := exists_get?_of_lt hi
    rw [hh.declaredAt_eq (hext hs), hg.declaredAt_eq hs]
    refine congrArg _ (List.map_congr_left fun c hc => ?_)
    have hp : g.IsParent i c := (hg.mem_children hs c).1 hc
    exact ih c hp hp.lt_size

mutual

/-- The slots of a tree say what the tree says. -/
theorem declaredAt_slots (hh : h.IsForest) (parent : Option DeclId) (start : DeclId) :
    ∀ t : Tree Declaration, (∀ s ∈ t.slots parent start, h.get? s.id = some s) →
      h.declaredAt start = t
  | .node d ts, hs => by
    rw [hh.declaredAt_eq (hs _ List.mem_cons_self)]
    exact congrArg _ (map_declaredAt_rootIds hh start (start + 1) ts fun s hm =>
      hs s (List.mem_cons_of_mem _ hm))

theorem map_declaredAt_rootIds (hh : h.IsForest) (parent start : DeclId) :
    ∀ ts : List (Tree Declaration),
      (∀ s ∈ Tree.slotsList parent start ts, h.get? s.id = some s) →
        (Tree.rootIds start ts).map h.declaredAt = ts
  | [], _ => rfl
  | t :: ts, hs => by
    rw [Tree.rootIds, List.map_cons,
      declaredAt_slots hh (some parent) start t fun s hm => hs s (List.mem_append_left _ hm),
      map_declaredAt_rootIds hh parent (start + t.size) ts fun s hm =>
        hs s (List.mem_append_right _ hm)]

end

end IsForest

/-- The units are the trees `us`, what waits are the trees of `ws`, and there is nothing else. -/
structure Stores (g : Graph) (us : List (Tree Declaration))
    (ws : List (String × Option String × Tree Declaration)) : Prop where
  units : g.units.map g.declared? = us.map some
  pending : g.pending.map (fun p => (p.unit, p.owner, g.declared? p.decl)) =
    ws.map fun w => (w.1, w.2.1, some w.2.2)
  size : g.size = (us.map Tree.size).sum + (ws.map fun w => w.2.2.size).sum

namespace Stores

theorem empty : Stores {} [] [] := ⟨rfl, rfl, rfl⟩

theorem length_units (hs : g.Stores us ws) : g.units.length = us.length := by
  simpa using congrArg List.length hs.units

theorem length_pending (hs : g.Stores us ws) : g.pending.length = ws.length := by
  simpa using congrArg List.length hs.pending

/-- The units that a graph stores have the names of their trees. -/
theorem map_name? (hg : g.IsForest) (hs : g.Stores us ws) :
    g.units.map g.name? = us.map fun t => some t.label.name := by
  have hname : ∀ u, g.name? u = (g.declared? u).map fun t => t.label.name := by
    intro u
    cases hu : g.get? u with
    | none =>
      have hlt : ¬ u < g.size := by
        rw [← get?_eq_none_iff.trans not_lt.symm]
        exact hu
      simp [name?, hu, declared?, subtree?, treeWithin?, find?]
    | some s =>
      rw [name?_of_get? hu, hg.declared?_eq (lt_size_of_get? hu), hg.declaredAt_eq hu]
      rfl
  calc g.units.map g.name?
      = (g.units.map g.declared?).map (Option.map fun t => t.label.name) := by
        rw [List.map_map]
        exact List.map_congr_left fun u _ => hname u
    _ = us.map fun t => some t.label.name := by
        rw [hs.units, List.map_map]
        rfl

theorem hasUnit_iff (hg : g.WellFormed) (hs : g.Stores us ws) {file : String} :
    g.hasUnit file ↔ file ∈ us.map fun t => t.label.name := by
  have hmem : (some file ∈ g.units.map g.name?) ↔ file ∈ us.map fun t => t.label.name := by
    rw [hs.map_name? hg.toIsForest]
    simp
  rw [← hmem, hasUnit, List.any_eq_true, List.mem_map]
  refine exists_congr fun u => and_congr_right fun hu => ?_
  obtain ⟨s, hget⟩ := exists_get?_of_lt (hg.unit_lt hu)
  simp [name?, hget]

/-- What was planted says what its tree says, and what was there before goes on saying what it
said. -/
theorem declared?_plant (hg : g.IsForest) (hh : h.IsForest) (ht : t.IsSound)
    (hslots : h.slots = (g.plant t).slots) :
    h.declared? g.size = some t ∧ ∀ i < g.size, h.declared? i = g.declared? i := by
  have hget : ∀ i, h.get? i = (g.plant t).get? i := fun i => by rw [get?, hslots, get?]
  have hsize : h.size = g.size + t.size := by
    rw [← size_plant, Graph.size, hslots, Graph.size]
  have hpos : 0 < t.size := by
    cases t
    exact Nat.succ_pos _
  constructor
  · have hlt : g.size < h.size := by omega
    rw [hh.declared?_eq hlt,
      hh.declaredAt_slots none g.size t fun s hm => (hget _).trans (get?_plant_of_mem ht hm)]
  · intro i hi
    have hext : ∀ {i s}, g.get? i = some s → h.get? i = some s := fun hs =>
      (hget _).trans (get?_plant_of_get? hs t)
    have hlt : i < h.size := by omega
    rw [hh.declared?_eq hlt, hg.declared?_eq hi, hg.declaredAt_eq_of_get? hh hext hi]

theorem addUnitTree (hg : g.IsLoaded) (hs : g.Stores us ws) {file : String} (entries : List Entry)
    (hn : g.hasUnit file = false) : (g.addUnitTree file (Entry.trees entries)).Stores
      (us ++ (Block.unit file entries).units) ws := by
  have hh := (hg.addUnitTree entries hn).toIsForest
  have ht := Entry.isSound_unit file entries
  obtain ⟨hnew, hold⟩ := declared?_plant hg.toIsForest hh ht rfl
  refine ⟨?_, ?_, ?_⟩
  · show (g.units ++ [g.size]).map _ = _
    rw [List.map_append, List.map_append, ← hs.units]
    refine congrArg₂ _ (List.map_congr_left fun u hu => hold u (hg.unit_lt hu)) ?_
    exact congrArg (· :: []) hnew
  · rw [← hs.pending]
    refine List.map_congr_left fun p hp => ?_
    obtain ⟨s, hget, -⟩ := hg.awaits.isRoot hp
    rw [hold p.decl (lt_size_of_get? hget)]
  · have hsize := hs.size
    show (g.plant _).size = _
    rw [size_plant, hsize, List.map_append, List.sum_append]
    simp only [Block.units, List.map_cons, List.map_nil, List.sum_cons, List.sum_nil]
    omega

theorem addPendingTree (hg : g.IsLoaded) (hs : g.Stores us ws) {file : String}
    {x : Option String × Tree Declaration}
    (hx : IsProduct (if x.1.isSome then .record else .unit) x.2) :
    (g.addPendingTree file x).Stores us (ws ++ [(file, x)]) := by
  have hh : (g.addPendingTree file x).IsForest := (hg.addPendingTree hx).toIsForest
  obtain ⟨hnew, hold⟩ := declared?_plant hg.toIsForest hh hx.toIsSound rfl
  refine ⟨?_, ?_, ?_⟩
  · rw [← hs.units]
    exact List.map_congr_left fun u hu => hold u (hg.unit_lt hu)
  · show (g.pending ++ [_]).map _ = _
    rw [List.map_append, List.map_append, ← hs.pending]
    refine congrArg₂ _ (List.map_congr_left fun p hp => ?_) ?_
    · obtain ⟨s, hget, -⟩ := hg.awaits.isRoot hp
      rw [hold p.decl (lt_size_of_get? hget)]
    · simp only [List.map_cons, List.map_nil, hnew]
  · have hsize := hs.size
    show (g.plant _).size = _
    rw [size_plant, hsize, List.map_append, List.sum_append]
    simp only [List.map_cons, List.map_nil, List.sum_cons, List.sum_nil]
    omega

theorem foldl_addPendingTree {file : String} : ∀ (xs : List (Option String × Tree Declaration))
    {g : Graph} {ws : List (String × Option String × Tree Declaration)}, g.IsLoaded →
    g.Stores us ws → (∀ x ∈ xs, IsProduct (if x.1.isSome then .record else .unit) x.2) →
    (xs.foldl (Graph.addPendingTree · file) g).Stores us (ws ++ xs.map fun x => (file, x))
  | [], _, _, _, hs, _ => by simpa using hs
  | x :: xs, g, ws, hg, hs, hxs => by
    obtain ⟨hx, hxs⟩ := List.forall_mem_cons.1 hxs
    rw [List.map_cons, List.append_cons]
    exact foldl_addPendingTree xs (hg.addPendingTree hx) (hs.addPendingTree hg hx) hxs

theorem addGenerated (hg : g.IsLoaded) (hs : g.Stores us ws) (file : String)
    (products : List Product) :
    ((products.flatMap Product.trees).foldl (Graph.addPendingTree · file) g).Stores us
      (ws ++ (Block.generated file products).waiting) := by
  refine hs.foldl_addPendingTree _ hg fun x hx => ?_
  obtain ⟨p, -, hx⟩ := List.mem_flatMap.1 hx
  exact isProduct_of_mem p hx

theorem addBlock (hg : g.IsLoaded) (hs : g.Stores us ws) {b : Block} (hb : g.addBlock b = .ok h) :
    h.Stores (us ++ b.units) (ws ++ b.waiting) := by
  cases b with
  | unit file entries =>
    rw [Graph.addBlock] at hb
    split at hb
    · cases hb
    · next hn =>
      obtain rfl := Except.ok.inj hb
      rw [show (Block.unit file entries).waiting = [] from rfl, List.append_nil]
      exact hs.addUnitTree hg entries (by simpa using hn)
  | generated file products =>
    obtain rfl := Except.ok.inj hb
    rw [show (Block.generated file products).units = [] from rfl, List.append_nil]
    exact hs.addGenerated hg file products

end Stores

theorem stores_ofDump {d : Dump} (h : ofDump d = .ok g) :
    g.Stores (d.flatMap Block.units) (d.flatMap Block.waiting) := by
  refine (ofDump_induction (P := fun d g => g.IsLoaded ∧
    g.Stores (d.flatMap Block.units) (d.flatMap Block.waiting)) ⟨.empty, .empty⟩ ?_ h).2
  rintro d g b h ⟨hg, hs⟩ hb
  refine ⟨hg.addBlock hb, ?_⟩
  rw [List.flatMap_append, List.flatMap_append, List.flatMap_singleton, List.flatMap_singleton]
  exact hs.addBlock hg hb

/-- The graph of a text stores what is read from it, and nothing else. -/
theorem stores_ofText {origin text : String} (h : ofText origin text = .ok g) :
    ∃ d, Dump.ofText text.toList = .ok d ∧
      g.Stores (d.flatMap Block.units) (d.flatMap Block.waiting) := by
  unfold ofText at h
  split at h
  · next d hd => exact ⟨d, hd, stores_ofDump h⟩
  · exact absurd h nofun

end Graph

end Bindery
