import Bindery.Graph.Listing

/-!
# Outlines

The margin before a line of a listing: a block for every ancestor below the unit, then the branch to
the declaration. `Margin.read` takes a line apart again, and the lines of some trees are as many as
their nodes and determine the trees, because a node is below the last one before it that has a
smaller margin.
-/

namespace Bindery

/-- What stands before the text of a line. -/
structure Margin where
  /-- Whether each block is blank, from the unit on. -/
  blocks : List Bool
  /-- Whether the branch is the last one of its parent; a unit has no branch. -/
  branch : Option Bool

namespace Margin

/-- The margin of a unit. -/
def top : Margin := ⟨[], none⟩

/-- The blocks before the branches of the children. -/
def stem (m : Margin) : List Bool := m.blocks ++ m.branch.toList

/-- How far below its unit a declaration with the margin is. -/
def depth (m : Margin) : Nat :=
  match m.branch with
  | none => 0
  | some _ => m.blocks.length + 1

def chars (m : Margin) : List Char :=
  (m.blocks.flatMap fun b => (Tree.extension b).toList) ++
    m.branch.elim [] fun b => (Tree.connector b).toList

/-- The margin of a line and the text behind it. -/
def read : List Char → Margin × List Char
  | a :: b :: c :: d :: l =>
    if [a, b, c, d] = (Tree.extension true).toList then
      (⟨true :: (read l).1.blocks, (read l).1.branch⟩, (read l).2)
    else if [a, b, c, d] = (Tree.extension false).toList then
      (⟨false :: (read l).1.blocks, (read l).1.branch⟩, (read l).2)
    else if [a, b, c, d] = (Tree.connector true).toList then (⟨[], some true⟩, l)
    else if [a, b, c, d] = (Tree.connector false).toList then (⟨[], some false⟩, l)
    else (top, a :: b :: c :: d :: l)
  | l => (top, l)

variable {m : Margin} {b : Bool} {l : List Char}

@[simp] theorem stem_top : top.stem = [] := rfl

@[simp] theorem stem_mk (bs : List Bool) (b : Bool) : stem ⟨bs, some b⟩ = bs ++ [b] := rfl

@[simp] theorem depth_mk (bs : List Bool) (b : Bool) : depth ⟨bs, some b⟩ = bs.length + 1 := rfl

theorem chars_cons (b : Bool) (bs : List Bool) (o : Option Bool) :
    chars ⟨b :: bs, o⟩ = (Tree.extension b).toList ++ chars ⟨bs, o⟩ := by
  rw [chars, chars, List.flatMap_cons, List.append_assoc]

theorem newline_notMem_chars (m : Margin) : '\n' ∉ m.chars := by
  have hext : ∀ b, '\n' ∉ (Tree.extension b).toList := by decide
  have hconn : ∀ b, '\n' ∉ (Tree.connector b).toList := by decide
  obtain ⟨bs, o⟩ := m
  rw [chars, List.mem_append, List.mem_flatMap, not_or]
  refine ⟨fun ⟨b, _, hb⟩ => hext b hb, ?_⟩
  cases o with
  | none => exact List.not_mem_nil
  | some b => exact hconn b

/-! ### Reading lines -/

theorem read_extension (b : Bool) (l : List Char) :
    read ((Tree.extension b).toList ++ l) =
      (⟨b :: (read l).1.blocks, (read l).1.branch⟩, (read l).2) := by
  cases b <;> rfl

theorem read_connector (b : Bool) (l : List Char) :
    read ((Tree.connector b).toList ++ l) = (⟨[], some b⟩, l) := by
  cases b <;> rfl

/-- A text that does not begin like a margin has none. -/
theorem read_of_head (h : ∀ c ∈ l.head?, c ∉ [' ', '│', '└', '├']) : read l = (top, l) := by
  have hne : ∀ {c e : Char} {cs ds : List Char}, c ∉ [' ', '│', '└', '├'] →
      ds.head? = some e → e ∈ [' ', '│', '└', '├'] → c :: cs ≠ ds := by
    rintro c e cs ds hc hds he rfl
    exact hc (Option.some.inj hds ▸ he)
  unfold read
  split
  · next c _ _ _ _ =>
    have hc := h c rfl
    rw [if_neg (hne hc rfl (by decide)), if_neg (hne hc rfl (by decide)),
      if_neg (hne hc rfl (by decide)), if_neg (hne hc rfl (by decide))]
  · rfl

/-- What was put before a text can be read back. -/
theorem read_chars_append (h : read l = (top, l)) (hm : m.branch = none → m.blocks = []) :
    read (m.chars ++ l) = (m, l) := by
  obtain ⟨bs, o⟩ := m
  cases o with
  | none =>
    obtain rfl := hm rfl
    exact h
  | some b =>
    clear hm
    induction bs with
    | nil => exact read_connector b l
    | cons c bs ih => rw [chars_cons, List.append_assoc, read_extension, ih]

end Margin

/-- The line of a declaration begins with a letter. -/
theorem Declaration.read_line (d : Declaration) :
    Margin.read d.line.toList = (.top, d.line.toList) := by
  refine Margin.read_of_head fun c hc => ?_
  have hlabel : ∀ k : Kind, ∃ a cs, k.label.toList = a :: cs ∧ a ∉ [' ', '│', '└', '├'] := by
    intro k
    cases k <;> exact ⟨_, _, rfl, by decide⟩
  obtain ⟨a, cs, hk, ha⟩ := hlabel d.kind
  rw [Declaration.line] at hc
  simp only [String.toList_append, hk, List.cons_append, List.head?_cons, Option.mem_some_iff]
    at hc
  exact hc ▸ ha

namespace Tree

variable {α β : Type}

mutual

/-- The labels at and below a node, each with its margin. -/
def branches (stem : List Bool) (isLast : Bool) : Tree α → List (Margin × α)
  | .node a ts => (⟨stem, some isLast⟩, a) :: childBranches (stem ++ [isLast]) ts

def childBranches (stem : List Bool) : List (Tree α) → List (Margin × α)
  | [] => []
  | t :: ts => branches stem ts.isEmpty t ++ childBranches stem ts

end

/-- The labels of a tree, each with its margin. -/
def outline : Tree α → List (Margin × α)
  | .node a ts => (.top, a) :: childBranches [] ts

/-! ### Lines -/

/-- The line of a declaration behind its margin. -/
def render (e : Margin × Declaration) : List Char := e.1.chars ++ e.2.line.toList

mutual

theorem map_toList_branchLines (stem : List Bool) (s : String) (isLast : Bool)
    (hs : s.toList = stem.flatMap fun b => (extension b).toList) : ∀ t : Tree Declaration,
    (branchLines s isLast t).map String.toList = (branches stem isLast t).map render
  | .node d ts => by
    have hs' : (s ++ extension isLast).toList =
        (stem ++ [isLast]).flatMap fun b => (extension b).toList := by
      rw [String.toList_append, hs, List.flatMap_append, List.flatMap_singleton]
    rw [branchLines, branches, List.map_cons, List.map_cons,
      map_toList_childLines (stem ++ [isLast]) _ hs' ts]
    simp only [render, Margin.chars, Option.elim_some, String.toList_append, hs]

theorem map_toList_childLines (stem : List Bool) (s : String)
    (hs : s.toList = stem.flatMap fun b => (extension b).toList) : ∀ ts : List (Tree Declaration),
    (childLines s ts).map String.toList = (childBranches stem ts).map render
  | [] => rfl
  | t :: ts => by
    rw [childLines, childBranches, List.map_append, List.map_append,
      map_toList_branchLines stem s _ hs t, map_toList_childLines stem s hs ts]

end

theorem map_toList_lines (t : Tree Declaration) :
    t.lines.map String.toList = t.outline.map render := by
  cases t with
  | node d ts =>
    rw [lines, outline, List.map_cons, List.map_cons, map_toList_childLines [] "" rfl ts]
    rfl

mutual

theorem branches_map (f : α → β) (stem : List Bool) (isLast : Bool) : ∀ t : Tree α,
    branches stem isLast (t.map f) = (branches stem isLast t).map (Prod.map id f)
  | .node a ts => by
    rw [map, branches, branches, List.map_cons, childBranches_mapList f _ ts]
    rfl

theorem childBranches_mapList (f : α → β) (stem : List Bool) : ∀ ts : List (Tree α),
    childBranches stem (mapList f ts) = (childBranches stem ts).map (Prod.map id f)
  | [] => rfl
  | t :: ts => by
    have hempty : (mapList f ts).isEmpty = ts.isEmpty := by cases ts <;> rfl
    rw [mapList, childBranches, childBranches, List.map_append, hempty, branches_map f stem _ t,
      childBranches_mapList f stem ts]

end

theorem outline_map (f : α → β) (t : Tree α) :
    (t.map f).outline = t.outline.map (Prod.map id f) := by
  cases t with
  | node a ts =>
    rw [map, outline, outline, List.map_cons, childBranches_mapList]
    rfl

theorem flatMap_outline_mapList (f : α → β) (ts : List (Tree α)) :
    (mapList f ts).flatMap outline = (ts.flatMap outline).map (Prod.map id f) := by
  induction ts with
  | nil => rfl
  | cons t ts ih =>
    rw [mapList, List.flatMap_cons, List.flatMap_cons, List.map_append, outline_map, ih]

/-! ### From outlines to trees -/

theorem depth_head?_childBranches {stem : List Bool} {ts : List (Tree α)}
    {e : Margin × α} (he : e ∈ (childBranches stem ts).head?) : e.1.depth = stem.length + 1 := by
  cases ts with
  | nil => exact absurd he nofun
  | cons t ts =>
    cases t with
    | node a cs =>
      obtain rfl := Option.some.inj he
      rfl

/-- The branches below a node end before the first line that is not below it. -/
theorem childBranches_append_inj {stem : List Bool} {ts us : List (Tree α)}
    {r r' : List (Margin × α)} (hr : ∀ e ∈ r.head?, e.1.depth ≤ stem.length)
    (hr' : ∀ e ∈ r'.head?, e.1.depth ≤ stem.length)
    (h : childBranches stem ts ++ r = childBranches stem us ++ r') : ts = us ∧ r = r' := by
  match ts, us with
  | [], [] => exact ⟨rfl, h⟩
  | [], .node b ds :: us =>
    have hle := hr _ (by rw [show r = _ from h]; rfl)
    exact absurd hle (Nat.not_succ_le_self _)
  | .node a cs :: ts, [] =>
    have hle := hr' _ (by rw [show r' = _ from h.symm]; rfl)
    exact absurd hle (Nat.not_succ_le_self _)
  | .node a cs :: ts, .node b ds :: us =>
    simp only [childBranches, branches, List.cons_append, List.cons.injEq, Prod.mk.injEq,
      Margin.mk.injEq, Option.some.injEq, true_and, List.append_assoc] at h
    obtain ⟨⟨hlast, rfl⟩, h⟩ := h
    rw [hlast] at h
    have hrest : ∀ {vs : List (Tree α)} {q : List (Margin × α)},
        (∀ e ∈ q.head?, e.1.depth ≤ stem.length) →
        ∀ e ∈ (childBranches stem vs ++ q).head?, e.1.depth ≤ (stem ++ [us.isEmpty]).length := by
      intro vs q hq e he
      rw [List.head?_append, Option.mem_def, Option.or_eq_some_iff] at he
      rw [List.length_append, List.length_singleton]
      rcases he with he | ⟨-, he⟩
      · exact Nat.le_of_eq (depth_head?_childBranches he)
      · exact Nat.le_trans (hq e he) (Nat.le_succ _)
    obtain ⟨rfl, htail⟩ := childBranches_append_inj (hrest hr) (hrest hr') h
    obtain ⟨rfl, rfl⟩ := childBranches_append_inj hr hr' htail
    exact ⟨rfl, rfl⟩
termination_by sizeList ts
decreasing_by all_goals simp only [sizeList, size]; omega

/-- Trees are determined by their outlines. -/
theorem flatMap_outline_injective : ∀ {ts us : List (Tree α)},
    ts.flatMap outline = us.flatMap outline → ts = us
  | [], [], _ => rfl
  | [], .node _ _ :: _, h | .node _ _ :: _, [], h => nomatch h
  | .node a cs :: ts, .node b ds :: us, h => by
    simp only [List.flatMap_cons, outline, List.cons_append, List.cons.injEq, Prod.mk.injEq,
      true_and] at h
    obtain ⟨rfl, h⟩ := h
    have hrest : ∀ {vs : List (Tree α)}, ∀ e ∈ (vs.flatMap outline).head?,
        e.1.depth ≤ ([] : List Bool).length := by
      intro vs e he
      cases vs with
      | nil => exact absurd he nofun
      | cons v vs =>
        cases v
        obtain rfl := Option.some.inj he
        exact Nat.le_refl 0
    obtain ⟨rfl, htail⟩ := childBranches_append_inj hrest hrest h
    rw [flatMap_outline_injective htail]

end Tree

end Bindery
