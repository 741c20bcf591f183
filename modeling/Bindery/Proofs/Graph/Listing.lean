import Bindery.Proofs.Dump.Load
import Bindery.Proofs.Graph.Hoisting
import Bindery.Proofs.Graph.Outline
import Bindery.Proofs.Text.Lines

/-!
# What a listing says

The lines of a listing are those of the live declarations, in their order. The margin of a line says
how far below its unit the declaration is, and for it and for each ancestor whether it is the last
child of its parent; so that two graphs with the same listing have the same forest of lines.
-/

namespace Bindery.Graph

variable {g h : Graph} {c i p u : DeclId} {s t : Slot} {x : Found}

/-- Whether `x` is the last child of its parent. -/
def isLastChild (g : Graph) (x : Found) : Bool :=
  x.slot.parent.any fun p => (g.get? p).any fun s => s.children.getLast? == some x.id

/-- The margin of a declaration, from the declarations on the way up to its unit. -/
def marginOf (g : Graph) : List Found → Margin
  | x :: y :: ups => ⟨((y :: ups).dropLast.map g.isLastChild).reverse, some (g.isLastChild x)⟩
  | _ => .top

def marginAt (g : Graph) (i : DeclId) : Margin := (g.above? (some i)).elim .top g.marginOf

theorem stem_marginOf (g : Graph) (ups : List Found) :
    (g.marginOf ups).stem = (ups.dropLast.map g.isLastChild).reverse := by
  match ups with
  | [] => rfl
  | [x] => rfl
  | x :: y :: ups =>
    rw [marginOf, Margin.stem_mk, List.dropLast_cons_cons, List.map_cons, List.reverse_cons]

theorem marginOf_cons {ups : List Found} (hups : ups ≠ []) (x : Found) :
    g.marginOf (x :: ups) = ⟨(g.marginOf ups).stem, some (g.isLastChild x)⟩ := by
  obtain ⟨y, ups, rfl⟩ := List.exists_cons_of_ne_nil hups
  rw [stem_marginOf]
  rfl

theorem blocks_marginOf (g : Graph) (ups : List Found) :
    (g.marginOf ups).blocks = (ups.tail.dropLast.map g.isLastChild).reverse := by
  rcases ups with _ | ⟨x, _ | ⟨y, ups⟩⟩ <;> rfl

theorem depth_marginOf (g : Graph) (x : Found) (ups : List Found) :
    (g.marginOf (x :: ups)).depth = ups.length := by
  cases ups with
  | nil => rfl
  | cons y ups => simp [marginOf]

theorem branch_marginOf (g : Graph) (x : Found) (ups : List Found) :
    (g.marginOf (x :: ups)).branch = if ups = [] then none else some (g.isLastChild x) := by
  cases ups <;> rfl

/-! ### The way up -/

/-- The way up from a declaration begins with it. -/
theorem IsForest.exists_above?_cons (hg : g.IsForest) (hs : g.get? i = some s) :
    ∃ ups, g.above? (some i) = some (⟨i, s⟩ :: ups) := by
  obtain ⟨xs, hxs, -⟩ := hg.exists_above? (lt_size_of_get? hs)
  have hup := hg.above?_eq hs
  split at hup
  · exact ⟨[], hup⟩
  · rw [hxs] at hup
    obtain ⟨ups, -, rfl⟩ := Option.map_eq_some_iff.1 hup.symm
    exact ⟨ups, hxs⟩

/-- The way up from a declaration is the way up from its parent, one step longer. -/
theorem IsForest.above?_of_parent (hg : g.IsForest) (ht : g.get? c = some t)
    (hk : t.kind ≠ .unit) (hp : t.parent = some p) :
    ∃ ups, g.above? (some p) = some ups ∧ ups ≠ [] ∧ g.above? (some c) = some (⟨c, t⟩ :: ups) := by
  obtain ⟨s, hs⟩ := exists_get?_of_lt (hg.parent_lt ⟨t, ht, hp⟩)
  obtain ⟨ups, hups⟩ := hg.exists_above?_cons hs
  refine ⟨_, hups, List.cons_ne_nil _ _, ?_⟩
  rw [hg.above?_eq ht, if_neg hk, hp, hups, Option.map_some]

namespace IsRooted

variable (hg : g.IsRooted)
include hg

theorem kind_ne_unit (hp : g.IsParent p c) (ht : g.get? c = some t) : t.kind ≠ .unit := by
  intro hk
  rw [isParent_iff_of_get? ht, hg.parent_unit ht hk] at hp
  exact absurd hp nofun

theorem marginAt_unit (hu : u ∈ g.units) : g.marginAt u = .top := by
  obtain ⟨s, hs, hk⟩ := hg.kind_unit hu
  rw [marginAt, hg.above?_eq hs, if_pos hk]
  rfl

theorem marginAt_child (hp : g.IsParent p c) (ht : g.get? c = some t) :
    g.marginAt c = ⟨(g.marginAt p).stem, some (g.isLastChild ⟨c, t⟩)⟩ := by
  obtain ⟨ups, hups, hne, habove⟩ :=
    hg.above?_of_parent ht (hg.kind_ne_unit hp ht) ((isParent_iff_of_get? ht).1 hp)
  rw [marginAt, marginAt, hups, habove, Option.elim_some, Option.elim_some, marginOf_cons hne]

omit hg in
/-- Of the children from some one on, the first is the last child if there is no other. -/
theorem isLastChild_eq (hs : g.get? p = some s) (hnd : s.children.Nodup) {cs : List DeclId}
    (hsuffix : c :: cs <:+ s.children) (hp : t.parent = some p) :
    g.isLastChild ⟨c, t⟩ = cs.isEmpty := by
  obtain ⟨ds, hds⟩ := hsuffix
  rw [isLastChild, hp, Option.any_some, hs, Option.any_some, ← hds]
  rw [← hds] at hnd
  cases cs with
  | nil => simp
  | cons d cs =>
    have hc : c ∉ d :: cs := (List.nodup_cons.1 (List.nodup_append.1 hnd).2.1).1
    rw [List.getLast?_append, List.getLast?_cons_cons, List.isEmpty_cons, beq_eq_false_iff_ne]
    intro h
    rw [List.getLast?_eq_some_getLast (List.cons_ne_nil d cs), Option.some_or] at h
    have hlast : (d :: cs).getLast (List.cons_ne_nil d cs) = c := Option.some.inj h
    exact hc (hlast ▸ List.getLast_mem _)

/-- The branches below a declaration, each with the margin that its way up gives. -/
theorem childBranches_treeAt (hs : g.get? i = some s) :
    Tree.childBranches (g.marginAt i).stem (s.children.map g.treeAt) =
      (s.children.flatMap g.below).map fun x => (g.marginAt x.id, x) := by
  induction i using hg.induction_up generalizing s with
  | step i ih =>
    have hsuffix : ∀ cs, cs <:+ s.children →
        Tree.childBranches (g.marginAt i).stem (cs.map g.treeAt) =
          (cs.flatMap g.below).map fun x => (g.marginAt x.id, x) := by
      intro cs
      induction cs with
      | nil => exact fun _ => rfl
      | cons c cs ihcs =>
        intro hcs
        have hp : g.IsParent i c := (hg.mem_children hs c).1 (hcs.subset List.mem_cons_self)
        obtain ⟨t, ht⟩ := exists_get?_of_lt hp.lt_size
        have hmargin := hg.marginAt_child hp ht
        rw [isLastChild_eq hs (hg.nodup_children hs) hcs ((isParent_iff_of_get? ht).1 hp)]
          at hmargin
        have hchild := ih c hp ht
        rw [hmargin, Margin.stem_mk] at hchild
        rw [List.map_cons, Tree.childBranches, List.isEmpty_map, hg.treeAt_eq ht, Tree.branches,
          hchild, ihcs ((List.suffix_cons c cs).trans hcs), List.flatMap_cons, List.map_append,
          hg.below_eq ht, List.map_cons, hmargin]
    exact hsuffix _ (List.suffix_refl _)

/-- The outline of the units is that of the live declarations. -/
theorem flatMap_outline_units :
    (g.units.map g.treeAt).flatMap Tree.outline =
      (g.units.flatMap g.below).map fun x => (g.marginAt x.id, x) := by
  rw [List.flatMap_map, List.map_flatMap]
  refine List.flatMap_congr fun u hu => ?_
  obtain ⟨s, hs, -⟩ := hg.kind_unit hu
  have hchild := hg.childBranches_treeAt hs
  rw [hg.marginAt_unit hu, Margin.stem_top] at hchild
  rw [hg.treeAt_eq hs, Tree.outline, hchild, hg.below_eq hs, List.map_cons, hg.marginAt_unit hu]

/-- The way up from what is below a unit ends at the unit. -/
theorem exists_above?_of_isAbove (hu : u ∈ g.units) (ha : g.IsAbove u i) :
    ∃ ups, g.above? (some i) = some ups ∧ ups.getLast?.map Found.id = some u := by
  induction ha with
  | refl =>
    obtain ⟨s, hs, hk⟩ := hg.kind_unit hu
    exact ⟨[⟨_, s⟩], by rw [hg.above?_eq hs, if_pos hk], rfl⟩
  | tail _ hp ih =>
    obtain ⟨ups, hups, hlast⟩ := ih
    obtain ⟨t, ht⟩ := exists_get?_of_lt hp.lt_size
    obtain ⟨ups', hups', hne, habove⟩ :=
      hg.above?_of_parent ht (hg.kind_ne_unit hp ht) ((isParent_iff_of_get? ht).1 hp)
    obtain rfl := Option.some.inj (hups.symm.trans hups')
    refine ⟨_, habove, ?_⟩
    obtain ⟨y, ups, rfl⟩ := List.exists_cons_of_ne_nil hne
    rwa [List.getLast?_cons_cons]

end IsRooted

/-! ### Lines -/

/-- No line of the listing is broken by the text of its declaration. -/
def HasWholeLines (g : Graph) : Prop :=
  ∀ live, g.live? = some live → ∀ x ∈ live, '\n' ∉ x.slot.line.toList

/-- `l` is the line of `x`, and its margin says where `x` stands. -/
structure IsLineOf (g : Graph) (x : Found) (l : List Char) : Prop where
  text : (Margin.read l).2 = x.slot.line.toList
  whole : l = (Margin.read l).1.chars ++ x.slot.line.toList
  unit : (Margin.read l).1.branch = none ↔ x.id ∈ g.units
  branch : ∀ b, (Margin.read l).1.branch = some b → b = g.isLastChild x
  way : ∃ ups u, g.above? (some x.id) = some ups ∧ u ∈ g.units ∧
    ups.getLast?.map Found.id = some u ∧ (Margin.read l).1.depth + 1 = ups.length ∧
    (Margin.read l).1.blocks = (ups.tail.dropLast.map g.isLastChild).reverse

/-- The line of a declaration. -/
def lineAt (g : Graph) (x : Found) : List Char := (g.marginAt x.id).chars ++ x.slot.line.toList

theorem read_lineAt (g : Graph) (x : Found) :
    Margin.read (g.lineAt x) = (g.marginAt x.id, x.slot.line.toList) := by
  refine Margin.read_chars_append x.slot.read_line ?_
  rw [marginAt]
  rcases g.above? (some x.id) with _ | _ | ⟨y, _ | ⟨z, ups⟩⟩
  · exact fun _ => rfl
  · exact fun _ => rfl
  · exact fun _ => rfl
  · exact nofun

theorem IsRooted.isLineOf (hg : g.IsRooted) (hs : g.get? x.id = some x.slot) (hl : g.IsLive x.id) :
    g.IsLineOf x (g.lineAt x) := by
  obtain ⟨u, hu, ha⟩ := hl
  obtain ⟨ups, hups, hlast⟩ := hg.exists_above?_of_isAbove hu ha
  obtain ⟨ys, hys⟩ := hg.exists_above?_cons hs
  obtain rfl := Option.some.inj (hups.symm.trans hys)
  have hmargin : g.marginAt x.id = g.marginOf (x :: ys) := by
    rw [marginAt, hups, Option.elim_some]
  refine ⟨?_, ?_, ?_, ?_, _, u, hups, hu, hlast, ?_, ?_⟩ <;> rw [read_lineAt]
  · rfl
  · constructor
    · intro h
      rw [hmargin, branch_marginOf, ite_eq_left_iff] at h
      obtain rfl : ys = [] := by_contra fun hne => absurd (h hne) nofun
      exact Option.some.inj hlast ▸ hu
    · intro h
      rw [hg.marginAt_unit h]
      rfl
  · intro b hb
    rw [hmargin, branch_marginOf] at hb
    split at hb
    · cases hb
    · exact (Option.some.inj hb).symm
  · rw [hmargin, depth_marginOf, List.length_cons]
  · rw [hmargin, blocks_marginOf]

/-! ### The text -/

/-- The text of some trees is their lines, each with its end. -/
theorem toList_join_lines (ts : List (Tree Declaration)) :
    (String.join ((ts.flatMap Tree.lines).map (· ++ "\n"))).toList =
      ((ts.flatMap Tree.outline).map Tree.render).flatMap (· ++ ['\n']) := by
  have hlines : (ts.flatMap Tree.lines).map String.toList =
      (ts.flatMap Tree.outline).map Tree.render := by
    rw [List.map_flatMap, List.map_flatMap]
    exact List.flatMap_congr fun t _ => t.map_toList_lines
  rw [← hlines, String.toList_join, List.flatMap_map, List.flatMap_map]
  exact List.flatMap_congr fun l _ => String.toList_append

namespace IsRooted

variable (hg : g.IsRooted)
include hg

theorem declarationForest?_eq : g.declarationForest? =
    some (Tree.mapList (fun x => x.slot.toDeclaration) (g.units.map g.treeAt)) := by
  rw [declarationForest?, hg.forest?_eq, Option.map_some]

theorem exists_listing?_eq : ∃ text, g.listing? = some text ∧
    text.toList = ((g.units.flatMap g.below).map g.lineAt).flatMap (· ++ ['\n']) := by
  refine ⟨_, by rw [listing?, hg.declarationForest?_eq, Option.map_some], ?_⟩
  rw [toList_join_lines, Tree.flatMap_outline_mapList, hg.flatMap_outline_units, List.map_map,
    List.map_map]
  rfl

theorem exists_listing?_splitOn (hlines : g.HasWholeLines) :
    ∃ text, g.listing? = some text ∧
      text.toList.splitOn '\n' = (g.units.flatMap g.below).map g.lineAt ++ [[]] := by
  obtain ⟨text, htext, hchars⟩ := hg.exists_listing?_eq
  refine ⟨text, htext, ?_⟩
  rw [hchars]
  refine Text.splitOn_ended fun l hl => ?_
  obtain ⟨x, hx, rfl⟩ := List.mem_map.1 hl
  rw [lineAt, List.mem_append, not_or]
  exact ⟨Margin.newline_notMem_chars _, hlines _ hg.live?_eq x hx⟩

/-- The forest of the texts of all lines, from what the lines say. -/
theorem flatMap_outline_lines :
    (Tree.mapList Declaration.line
      (Tree.mapList (fun x => x.slot.toDeclaration) (g.units.map g.treeAt))).flatMap Tree.outline =
      (g.units.flatMap g.below).map fun x => (g.marginAt x.id, x.slot.line) := by
  rw [Tree.flatMap_outline_mapList, Tree.flatMap_outline_mapList, hg.flatMap_outline_units,
    List.map_map, List.map_map]
  rfl

end IsRooted

/-- A listing has a line for each live declaration, and its margins and texts determine the
forest. -/
theorem listing?_of_isRooted (hg : g.IsRooted) (hlines : g.HasWholeLines) :
    ∃ live text ls, g.live? = some live ∧ g.listing? = some text ∧
      text.toList.splitOn '\n' = ls ++ [[]] ∧ List.Forall₂ g.IsLineOf live ls ∧
      ∀ h : Graph, h.IsRooted → h.HasWholeLines → h.listing? = some text →
        ∃ ts us, g.declarationForest? = some ts ∧ h.declarationForest? = some us ∧
          Tree.mapList Declaration.line ts = Tree.mapList Declaration.line us := by
  obtain ⟨text, htext, hsplit⟩ := hg.exists_listing?_splitOn hlines
  refine ⟨_, text, _, hg.live?_eq, htext, hsplit, ?_, fun h hh hwhole hsame => ?_⟩
  · rw [List.forall₂_map_right_iff, List.forall₂_same]
    intro x hx
    obtain ⟨hl, hs⟩ := hg.mem_live.1 hx
    exact hg.isLineOf hs hl
  · obtain ⟨text', htext', hsplit'⟩ := hh.exists_listing?_splitOn hwhole
    obtain rfl := Option.some.inj (hsame.symm.trans htext')
    refine ⟨_, _, hg.declarationForest?_eq, hh.declarationForest?_eq, ?_⟩
    refine Tree.flatMap_outline_injective ?_
    rw [hg.flatMap_outline_lines, hh.flatMap_outline_lines]
    -- equal lines have equal margins and equal texts
    have hread := congrArg (List.map Margin.read)
      (List.append_cancel_right (hsplit.symm.trans hsplit'))
    rw [List.map_map, List.map_map] at hread
    refine List.map_injective_iff.2
      (Function.injective_id.prodMap fun _ _ => String.toList_injective) ?_
    rw [List.map_map, List.map_map]
    simpa [Function.comp_def, read_lineAt] using hread

/-- Two graphs with one listing; the second one has a function more, which waits. -/
theorem listing?_of_isRooted_waiting :
    ∃ g, Graph.ofText "dump" "unit \"a\" \x7b class C \x7b field x : int; \x7d fn f(); \x7d" =
        .ok g ∧ g.size = 4 ∧
      ∃ h, Graph.ofText "dump" "unit \"a\" \x7b class C \x7b field x : int; \x7d fn f(); \x7d
        generated \"a\" \x7b fn g(); \x7d" = .ok h ∧ h.size = 5 ∧
      ∃ live ls ts us, live.map Found.id = [0, 1, 2, 3] ∧ List.Forall₂ g.IsLineOf live ls ∧
        g.declarationForest? = some ts ∧ h.declarationForest? = some us ∧
        Tree.mapList Declaration.line ts = Tree.mapList Declaration.line us := by
  have hwhole : ∀ {k : Graph}, k.live?.all (fun live =>
      live.all fun x => !x.slot.line.toList.contains '\n') → k.HasWholeLines := by
    intro k hk live hlive x hx
    rw [hlive, Option.all_some, List.all_eq_true] at hk
    simpa using hk x hx
  refine Graph.exists_ofText (P := fun g => decide (g.size = 4 ∧
      g.listing? = some "unit a\n├── class C\n│   └── property x: int\n└── function f: void\n" ∧
      g.live?.map (List.map Found.id) = some [0, 1, 2, 3] ∧ g.live?.all fun live =>
        live.all fun x => !x.slot.line.toList.contains '\n'))
    (by decide +kernel) fun g hg hcomputed => ⟨?_, ?_⟩
  · exact (of_decide_eq_true hcomputed).1
  refine Graph.exists_ofText (P := fun h => decide (h.size = 5 ∧
      h.listing? = some "unit a\n├── class C\n│   └── property x: int\n└── function f: void\n" ∧
      h.live?.all fun live => live.all fun x => !x.slot.line.toList.contains '\n'))
    (by decide +kernel) fun h hh hcomputed' => ⟨?_, ?_⟩
  · exact (of_decide_eq_true hcomputed').1
  obtain ⟨-, htext, hids, hlines⟩ := of_decide_eq_true hcomputed
  obtain ⟨-, htext', hlines'⟩ := of_decide_eq_true hcomputed'
  obtain ⟨live, text, ls, hlive, hlisting, -, hall, hsame⟩ :=
    listing?_of_isRooted (isLoaded_ofText hg).toWellFormed.isRooted (hwhole hlines)
  obtain rfl := Option.some.inj (htext.symm.trans hlisting)
  obtain ⟨ts, us, hts, hus, hforest⟩ :=
    hsame h (isLoaded_ofText hh).toWellFormed.isRooted (hwhole hlines') htext'
  rw [hlive] at hids
  exact ⟨live, ls, ts, us, Option.some.inj hids, hall, hts, hus, hforest⟩

end Bindery.Graph
