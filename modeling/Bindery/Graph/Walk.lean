import Bindery.Graph.Basic
import Bindery.Tree

/-!
# Walks over a graph

`subtree?` is the tree of the declarations at and below a slot; `descendants?`, `live?` and the
listing of a graph read it. `above?` is the way up from a slot to its unit, on which the qualified
name and the unit of a declaration are found. Both are bounded by the number of slots, which no way
without a repetition exceeds.
-/

namespace Bindery

/-- A slot together with the number under which it was found. -/
structure Found where
  id : DeclId
  slot : Slot
  deriving Inhabited

namespace Graph

def find? (g : Graph) (id : DeclId) : Option Found := (g.get? id).map fun s => ⟨id, s⟩

/-- The tree at `id`, as far as it is less than `fuel` deep. -/
def treeWithin? (g : Graph) : Nat → DeclId → Option (Tree Found)
  | 0, _ => none
  | fuel + 1, id => do
    let x ← g.find? id
    return .node x (← x.slot.children.mapM (g.treeWithin? fuel))

def subtree? (g : Graph) (id : DeclId) : Option (Tree Found) := g.treeWithin? (g.size + 1) id

/-- The trees of the units. -/
def forest? (g : Graph) : Option (List (Tree Found)) := g.units.mapM g.subtree?

/-- What is at and below `id`, each declaration before those below it. -/
def descendants? (g : Graph) (id : DeclId) : Option (List Found) :=
  (g.subtree? id).map Tree.preorder

/-- What is at and below the units. -/
def live? (g : Graph) : Option (List Found) := g.forest?.map Tree.preorderList

/-- The live declarations that satisfy `p`. -/
def liveWhere? (g : Graph) (p : Slot → Bool) : Option (List DeclId) :=
  g.live?.map fun xs => (xs.filter fun x => p x.slot).map Found.id

def children? (g : Graph) (id : DeclId) : Option (List Found) := do
  (← g.get? id).children.mapM g.find?

/-- The children of `owner` that satisfy `p`, in their order. -/
def childrenWhere? (g : Graph) (owner : DeclId) (p : Slot → Bool) : Option (List DeclId) :=
  (g.children? owner).map fun xs => (xs.filter fun x => p x.slot).map Found.id

def liveOfKind? (g : Graph) (k : Kind) : Option (List DeclId) := g.liveWhere? (·.kind == k)

def membersOfKind? (g : Graph) (owner : DeclId) (k : Kind) : Option (List DeclId) :=
  g.childrenWhere? owner (·.kind == k)

/-- The slots from `id` up to the first unit, or to the first without a parent. -/
def aboveWithin? (g : Graph) : Nat → Option DeclId → Option (List Found)
  | _, none => some []
  | 0, some _ => none
  | fuel + 1, some id => do
    let x ← g.find? id
    if x.slot.kind = .unit then return [x]
    else return x :: (← g.aboveWithin? fuel x.slot.parent)

def above? (g : Graph) (id : Option DeclId) : Option (List Found) := g.aboveWithin? (g.size + 1) id

/-- The names from below the unit down to `id`, joined by double colons. -/
def qualifiedName? (g : Graph) (id : DeclId) : Option String := do
  let s ← g.get? id
  let above := (← g.above? s.parent).filter (·.slot.kind != .unit)
  return "::".intercalate ((above.map (·.slot.name)).reverse ++ [s.name])

/-- The unit at or above `id`, if there is one. -/
def unitOf? (g : Graph) (id : DeclId) : Option (Option DeclId) := do
  return ((← g.above? (some id)).find? (·.slot.kind == .unit)).map Found.id

end Graph

end Bindery
